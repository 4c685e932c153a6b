import Mathlib.Data.List.Basic
import Mathlib.Tactic

/-!
# Rectangles of cells

A rectangle has a corner, a width and a height, all of them integers; it covers
the cells from its corner up to, and without, its right and bottom edges.
Rectangles stacked in a column meet edge to edge.
-/
namespace Filly.Rectangles

@[ext] structure Rect where
  x : ℤ
  y : ℤ
  w : ℤ
  h : ℤ
  deriving DecidableEq, Repr

namespace Rect

/-- The cell `(px,py)` lies in the rectangle. -/
def Covers (r : Rect) (px py : ℤ) : Prop :=
  r.x ≤ px ∧ px < r.x+r.w ∧ r.y ≤ py ∧ py < r.y+r.h

/-- All four edges of `r` lie within those of `outer`. -/
def Inside (r outer : Rect) : Prop :=
  outer.x ≤ r.x ∧ r.x+r.w ≤ outer.x+outer.w ∧ outer.y ≤ r.y ∧ r.y+r.h ≤ outer.y+outer.h

instance (r outer : Rect) : Decidable (r.Inside outer) := by
  unfold Inside
  infer_instance

theorem Inside.trans {a b c : Rect} (hab : a.Inside b) (hbc : b.Inside c) : a.Inside c := by
  unfold Inside at *
  omega

/-- The rectangle moved by an offset. -/
def shift (r : Rect) (dx dy : ℤ) : Rect := ⟨dx+r.x,dy+r.y,r.w,r.h⟩

/-- Moved by the corner of a rectangle, `r` is inside it if it is inside its
size. -/
theorem shift_inside {r outer : Rect} :
    (r.shift outer.x outer.y).Inside outer ↔ r.Inside ⟨0,0,outer.w,outer.h⟩ := by
  simp only [Inside,shift]
  omega

/-- No cell is covered twice. -/
def Apart (a b : Rect) : Prop := ∀ px py, ¬(a.Covers px py ∧ b.Covers px py)

theorem Apart.symm {a b : Rect} (h : Apart a b) : Apart b a :=
  fun px py hboth => h px py ⟨hboth.2,hboth.1⟩

theorem apart_of_left {a b : Rect} (h : a.x+a.w ≤ b.x) : Apart a b := by
  intro px py
  unfold Covers
  omega

theorem apart_of_above {a b : Rect} (h : a.y+a.h ≤ b.y) : Apart a b := by
  intro px py
  unfold Covers
  omega

/-- The rows of the two rectangles are different ones. -/
def BandsApart (a b : Rect) : Prop :=
  ∀ py, ¬((a.y ≤ py ∧ py < a.y+a.h) ∧ (b.y ≤ py ∧ py < b.y+b.h))

end Rect

/-- Each rectangle starts where the one before ends; none ends above its start. -/
def Stacked : ℤ → List Rect → Prop
  | _, [] => True
  | top, r::rs => r.y = top ∧ 0 ≤ r.h ∧ Stacked (top+r.h) rs

theorem Stacked.top_le {top : ℤ} {rs : List Rect} (h : Stacked top rs) :
    ∀ r ∈ rs, top ≤ r.y := by
  induction rs generalizing top with
  | nil => simp
  | cons r rs ih =>
      obtain ⟨hy,hh,hrest⟩ := h
      intro s hs
      rcases List.mem_cons.mp hs with rfl | hs
      · exact hy.ge
      · have := ih hrest s hs
        omega

/-- Stacked rectangles occupy pairwise disjoint bands. -/
theorem Stacked.pairwise {top : ℤ} {rs : List Rect} (h : Stacked top rs) :
    rs.Pairwise Rect.BandsApart := by
  induction rs generalizing top with
  | nil => exact .nil
  | cons r rs ih =>
      obtain ⟨hy,hh,hrest⟩ := h
      refine .cons (fun s hs py => ?_) (ih hrest)
      have := hrest.top_le s hs
      omega

/-! ## Lines -/

/-- `b` stands in the line of `a` and to the right of it. -/
def SameLine (a b : Rect) : Prop := b.y = a.y ∧ a.x < b.x ∧ a.x+a.w ≤ b.x

/-- Every item follows the last one in its line or, where lines may be wrapped,
starts a line at the left edge that lies below everything placed so far. -/
def Lines (wrap : Bool) (left : ℤ) : List Rect → Rect → List Rect → Prop
  | _, _, [] => True
  | placed, last, r::rs =>
      (SameLine last r ∨ wrap = true ∧ r.x = left ∧ ∀ p ∈ placed, p.y+p.h ≤ r.y) ∧
        Lines wrap left (r::placed) r rs

/-- `p` is above the line of `last`, or in it and ends no further right. -/
def Before (p last : Rect) : Prop :=
  p.y+p.h ≤ last.y ∨ p.y = last.y ∧ p.x+p.w ≤ last.x+last.w

/-- Items set in lines are disjoint. -/
theorem Lines.pairwise {wrap : Bool} {left : ℤ} {placed rs : List Rect} {last : Rect}
    (h : Lines wrap left placed last rs) (hplaced : ∀ p ∈ placed, Before p last)
    (hw : ∀ r ∈ rs, 0 ≤ r.w) :
    rs.Pairwise Rect.Apart ∧ ∀ p ∈ placed, ∀ r ∈ rs, Rect.Apart p r := by
  induction rs generalizing placed last with
  | nil => simp
  | cons r rs ih =>
      obtain ⟨hr,hrest⟩ := h
      have hrw := hw r List.mem_cons_self
      have hbefore : ∀ p ∈ placed, (p.y+p.h ≤ r.y ∨ p.x+p.w ≤ r.x) ∧ Before p r := by
        intro p hp
        rcases hr with ⟨hy,-,hx⟩ | ⟨-,-,habove⟩
        · have := hplaced p hp
          unfold Before at *
          omega
        · exact ⟨.inl (habove p hp),.inl (habove p hp)⟩
      have hself : Before r r := .inr ⟨rfl,le_rfl⟩
      obtain ⟨hpw,hcross⟩ := ih hrest
        (List.forall_mem_cons.mpr ⟨hself,fun p hp => (hbefore p hp).2⟩)
        fun q hq => hw q (List.mem_cons_of_mem _ hq)
      refine ⟨.cons (hcross r List.mem_cons_self) hpw,fun p hp => ?_⟩
      refine List.forall_mem_cons.mpr ⟨?_,hcross p (List.mem_cons_of_mem _ hp)⟩
      rcases (hbefore p hp).1 with h | h
      · exact Rect.apart_of_above h
      · exact Rect.apart_of_left h

end Filly.Rectangles
