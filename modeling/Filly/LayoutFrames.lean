import Filly.LayoutCalls

/-!
# The frame of the positions

`hit_test` and the renderer add the position of a node to that of its parent.
`layout_node` clips a node against a frame whose corner is the sum of all
positions above it, so a node that clips lies in its parent if that corner is
zero. Elsewhere the corner is counted twice, and a node stays inside only if it
ends before the parent does anyway.
-/
namespace Filly.Layout
open Rectangles

/-! ## Adding up positions -/

/-- A node that is reached from the root through nodes with a property, and its
rectangle with all positions on the way added up. -/
inductive Drawn (through : RenderTree → Prop) (root : RenderTree) : RenderTree → Rect → Prop
  | root : through root → Drawn through root root (root.rect.shift 0 0)
  | child {p c : RenderTree} {r : Rect} : Drawn through root p r → c ∈ p.children → through c →
      Drawn through root c (c.rect.shift r.x r.y)

theorem hitChildren_subset (t : RenderTree) : hitChildren t.u ⊆ t.children := by
  obtain ⟨node,u⟩ := t
  cases u <;> simp [hitChildren,RenderTree.u,RenderTree.children,Content.children]

theorem hitLevels_drawn {root : RenderTree} {px py : ℤ} {n : ℕ} {t hit : RenderTree} {x y : ℤ}
    (ht : Drawn (fun _ => True) root t (t.rect.shift x y))
    (h : hitLevels px py n t x y = some hit) :
    ∃ r, Drawn (fun _ => True) root hit r ∧ r.Covers px py := by
  induction n generalizing t x y with
  | zero => simp [hitLevels] at h
  | succ n ih =>
      rw [hitLevels] at h
      split_ifs at h with hout
      have hcovers : (t.rect.shift x y).Covers px py := by
        unfold Rect.Covers
        omega
      split at h
      · rename_i found hfound
        obtain ⟨c,hc,hhit⟩ := List.exists_of_findSome?_eq_some hfound
        have hchild := hitChildren_subset t (List.mem_reverse.mp hc)
        obtain rfl : found = hit := by simpa using h
        exact ih (.child ht hchild trivial) hhit
      · obtain rfl : t = hit := by simpa using h
        exact ⟨_,ht,hcovers⟩

/-- The node that `hit_test` finds lies under the point, its position being the
sum of those on the way to it. -/
theorem hitTest_drawn {root hit : RenderTree} {px py : ℤ}
    (h : hitTest root px py 0 0 = some hit) :
    ∃ r, Drawn (fun _ => True) root hit r ∧ r.Covers px py :=
  hitLevels_drawn (.root trivial) h

/-! ## Nested rectangles -/

/-- The node clips. -/
def Clips (t : RenderTree) : Prop := t.node.overflow = .clip

/-- Every node that is reached through nodes that clip lies within the surface
and holds its children that clip. -/
def Nested (surface : Rect) (root : RenderTree) : Prop :=
  ∀ p r, Drawn Clips root p r → r.Inside surface ∧
    ∀ c ∈ p.children, Clips c → (c.rect.shift r.x r.y).Inside r

/-- The same for everything below a node, with the positions as they are stored. -/
def NestedBelow (t : RenderTree) : Prop :=
  ∀ p, Relation.ReflTransGen (fun a b => b ∈ a.children ∧ Clips b) t p →
    ∀ c ∈ p.children, Clips c → c.rect.Inside ⟨0,0,p.rect.w,p.rect.h⟩

theorem nestedBelow_iff (t : RenderTree) :
    NestedBelow t ↔ ∀ c ∈ t.children, Clips c →
      c.rect.Inside ⟨0,0,t.rect.w,t.rect.h⟩ ∧ NestedBelow c := by
  constructor
  · intro h c hc hclip
    exact ⟨h t .refl c hc hclip,fun p hp => h p (.head ⟨hc,hclip⟩ hp)⟩
  · intro h p hp
    rcases Relation.ReflTransGen.cases_head hp with rfl | ⟨d,⟨hd,hclip⟩,hdp⟩
    · exact fun c hc hclip => (h c hc hclip).1
    · exact (h d hd hclip).2 p hdp

theorem Drawn.size {through : RenderTree → Prop} {root p : RenderTree} {r : Rect}
    (h : Drawn through root p r) : r.w = p.rect.w ∧ r.h = p.rect.h := by
  cases h <;> exact ⟨rfl,rfl⟩

/-- Where the rectangles add up, children are inside if they are inside the size
of their parent. -/
theorem nested_iff (surface : Rect) (root : RenderTree) :
    Nested surface root ↔
      (Clips root → (root.rect.shift 0 0).Inside surface ∧ NestedBelow root) := by
  have hlocal : ∀ {p c : RenderTree} {r : Rect}, Drawn Clips root p r →
      ((c.rect.shift r.x r.y).Inside r ↔ c.rect.Inside ⟨0,0,p.rect.w,p.rect.h⟩) := by
    intro p c r hp
    rw [Rect.shift_inside,hp.size.1,hp.size.2]
  constructor
  · intro h hclip
    refine ⟨(h root _ (.root hclip)).1,fun p hp => ?_⟩
    have hdrawn : ∃ r, Drawn Clips root p r := by
      induction hp with
      | refl => exact ⟨_,.root hclip⟩
      | tail _ hstep ih =>
          obtain ⟨r,hr⟩ := ih
          exact ⟨_,.child hr hstep.1 hstep.2⟩
    obtain ⟨r,hr⟩ := hdrawn
    exact fun c hc hcc => (hlocal hr).mp ((h p r hr).2 c hc hcc)
  · intro h p r hp
    have hreach : Clips root ∧ r.Inside surface ∧
        Relation.ReflTransGen (fun a b => b ∈ a.children ∧ Clips b) root p := by
      induction hp with
      | root hroot => exact ⟨hroot,(h hroot).1,.refl⟩
      | child hdrawn hc hclip ih =>
          obtain ⟨hroot,hin,hreach⟩ := ih
          have hchild := (hlocal hdrawn).mpr ((h hroot).2 _ hreach _ hc hclip)
          exact ⟨hroot,hchild.trans hin,hreach.tail ⟨hc,hclip⟩⟩
    obtain ⟨hroot,hin,hreach⟩ := hreach
    exact ⟨hin,fun c hc hclip => (hlocal hp).mpr ((h hroot).2 p hreach c hc hclip)⟩

/-! ## What a call keeps inside -/

/-- A span of a frame that reaches from `off` to `off+len`: asked for at `start`
with the length `size` and clipped to the frame, it stays between zero and
`limit`. -/
def SpanFits (off len start size limit : ℤ) : Prop :=
  (0 ≤ start ∨ 0 ≤ off) ∧ (max start off+size ≤ limit ∨ off+len ≤ limit)

theorem spanFits_iff (off len start size limit : ℤ) :
    0 ≤ max start off ∧ max start off+min size (off+len-max start off) ≤ limit ↔
      SpanFits off len start size limit := by
  unfold SpanFits
  omega

/-- The node of a call that clips ends up within a parent of the given size: it
already is, if the frame turns the call away; otherwise the frame reaches no
further than the parent, or what the node asks for does not. -/
def FitsIn (isPixel : Bool) (w h : ℤ) (call : Call) : Prop :=
  if call.2.w ≤ 0 ∨ call.2.h ≤ 0 then call.1.rect.Inside ⟨0,0,w,h⟩
  else
    let asked := (wantedNode call.1.node call.2).rect
    SpanFits call.2.x call.2.w asked.x asked.w w ∧
      match contentHeight isPixel call.1.u call.2.y with
      | some v => (0 ≤ asked.y ∨ 0 ≤ call.2.y) ∧ max asked.y call.2.y+v ≤ h
      | none => SpanFits call.2.y call.2.h asked.y asked.h h

theorem fitsIn_iff {isPixel : Bool} {call : Call} (hclip : Clips call.1) (w h : ℤ) :
    (call.result isPixel).rect.Inside ⟨0,0,w,h⟩ ↔ FitsIn isPixel w h call := by
  obtain ⟨t,frame⟩ := call
  have hrec := (wantedNode_record t.node frame).overflow.trans hclip
  rw [Call.result,layoutNode_rect,settledRect,FitsIn]
  split_ifs with hpos
  · exact Iff.rfl
  · simp only [placeNode,clampOverflow_clip hrec,Rect.Inside,settledHeight,zero_add]
    rw [← and_assoc,spanFits_iff]
    refine and_congr_right fun _ => ?_
    cases contentHeight isPixel t.u frame.y with
    | none => exact spanFits_iff _ _ _ _ _
    | some v =>
        simp only [Option.getD_some]
        omega

/-- The calls for children that clip fit into the node, and the children without
a call are nested as they come. -/
def KeepsInside (isPixel : Bool) (call : Call) : Prop :=
  let own := settledRect isPixel call.1 call.2
  (∀ inner ∈ innerCalls isPixel call, Clips inner.1 → FitsIn isPixel own.w own.h inner) ∧
    ∀ c ∈ stillChildren isPixel call, Clips c → c.rect.Inside ⟨0,0,own.w,own.h⟩ ∧ NestedBelow c

/-- The calls for nodes that clip, along nodes that clip. -/
def ClipCalls (isPixel : Bool) : Call → Call → Prop :=
  Relation.ReflTransGen fun call inner => inner ∈ innerCalls isPixel call ∧ Clips inner.1

theorem clips_result {isPixel : Bool} {call : Call} :
    Clips (call.result isPixel) ↔ Clips call.1 := by
  rw [Clips,Call.result,(layoutNode_record isPixel call.1 call.2).overflow,Clips]

/-- One call: its result is nested if it keeps its children inside and their
results are nested. -/
theorem nestedBelow_result_step (isPixel : Bool) (call : Call) :
    NestedBelow (call.result isPixel) ↔ KeepsInside isPixel call ∧
      ∀ inner ∈ innerCalls isPixel call, Clips inner.1 → NestedBelow (inner.result isPixel) := by
  have hown : (call.result isPixel).rect = settledRect isPixel call.1 call.2 :=
    layoutNode_rect isPixel call.1 call.2
  rw [nestedBelow_iff]
  simp only [(result_children isPixel call).mem_iff]
  rw [List.forall_mem_append,List.forall_mem_map]
  simp only [clips_result,hown]
  constructor
  · rintro ⟨hinner,hstill⟩
    refine ⟨⟨fun inner hi hc => ?_,hstill⟩,fun inner hi hc => (hinner inner hi hc).2⟩
    exact (fitsIn_iff hc _ _).mp (hinner inner hi hc).1
  · rintro ⟨⟨hfits,hstill⟩,hnested⟩
    refine ⟨fun inner hi hc => ⟨?_,hnested inner hi hc⟩,hstill⟩
    exact (fitsIn_iff hc _ _).mpr (hfits inner hi hc)

/-- All calls: the result is nested if every call along nodes that clip keeps its
children inside. -/
theorem nestedBelow_result_iff (isPixel : Bool) (call : Call) :
    NestedBelow (call.result isPixel) ↔
      ∀ inner, ClipCalls isPixel call inner → KeepsInside isPixel inner := by
  -- Induction on the depth of the node, which falls with every call.
  induction hd : call.1.depth using Nat.strong_induction_on generalizing call with
  | _ d ih =>
      subst hd
      rw [nestedBelow_result_step]
      constructor
      · rintro ⟨hkeeps,hinner⟩ last hlast
        rcases Relation.ReflTransGen.cases_head hlast with rfl | ⟨inner,⟨hi,hc⟩,hrest⟩
        · exact hkeeps
        · exact (ih _ (innerCalls_depth hi) inner rfl).mp (hinner inner hi hc) last hrest
      · intro h
        refine ⟨h call .refl,fun inner hi hc => ?_⟩
        exact (ih _ (innerCalls_depth hi) inner rfl).mpr fun last hlast =>
          h last (.head ⟨hi,hc⟩ hlast)

/-- After `layout_tree` on a surface everything that clips is nested, in the
parents and in the surface, exactly when the root fits the surface and every call
along nodes that clip keeps its children inside. -/
theorem layoutTree_nested_iff (isPixel : Bool) (tree : RenderTree) {w h : ℤ} (hw : 0 < w)
    (hh : 0 < h) :
    Nested ⟨0,0,w,h⟩ (layoutTree tree w h isPixel) ↔
      (Clips tree → FitsIn isPixel w h (surfaceCall tree w h) ∧
        ∀ call, ClipCalls isPixel (surfaceCall tree w h) call → KeepsInside isPixel call) := by
  have hshift : ∀ r : Rect, r.shift 0 0 = r := fun r => by simp [Rect.shift]
  have hclips : Clips (surfaceCall tree w h).1 ↔ Clips tree := Iff.rfl
  rw [layoutTree_eq hw hh,nested_iff,clips_result,hclips,hshift]
  refine imp_congr_right fun hclip => ?_
  rw [fitsIn_iff hclip,nestedBelow_result_iff]

/-- A box in a container in a root, all of them clipping, with the container and
the box at the given places. -/
def boxAt (x y : ℤ) : RenderTree :=
  .mk { rect := ⟨0,0,10,5⟩, overflow := .clip } (.container
    [.mk { rect := ⟨x,0,5,5⟩, anchor := .absolute, overflow := .clip } (.container
      [.mk { rect := ⟨y,0,5,5⟩, anchor := .absolute, overflow := .clip } (.leaf .input)])])

theorem nested_boxAt_origin : Nested ⟨0,0,10,5⟩ (boxAt 0 0) := by
  rw [nested_iff]
  refine fun _ => ⟨by decide,(nestedBelow_iff _).mpr (List.forall_mem_singleton.mpr fun _ => ?_)⟩
  refine ⟨by decide,(nestedBelow_iff _).mpr (List.forall_mem_singleton.mpr fun _ => ?_)⟩
  exact ⟨by decide,(nestedBelow_iff _).mpr (List.forall_mem_nil _)⟩

/-- A container at the origin keeps the box, and so does every call. -/
theorem layoutTree_nested_boxAt :
    Nested ⟨0,0,10,5⟩ (layoutTree (boxAt 0 0) 10 5 false) ∧
      ∀ call, ClipCalls false (surfaceCall (boxAt 0 0) 10 5) call → KeepsInside false call := by
  have hout : layoutTree (boxAt 0 0) 10 5 false = boxAt 0 0 := by rfl
  have hnested : Nested ⟨0,0,10,5⟩ (layoutTree (boxAt 0 0) 10 5 false) := by
    rw [hout]
    exact nested_boxAt_origin
  exact ⟨hnested,((layoutTree_nested_iff false (boxAt 0 0) (by decide) (by decide)).mp hnested
    rfl).2⟩

/-- In a container that starts three cells to the right the box is moved by three
cells twice, past the end of the container. -/
theorem box_leaves_container :
    layoutTree (boxAt 3 0) 10 5 false = boxAt 3 3 ∧
      ¬Nested ⟨0,0,10,5⟩ (layoutTree (boxAt 3 0) 10 5 false) := by
  have hout : layoutTree (boxAt 3 0) 10 5 false = boxAt 3 3 := by rfl
  refine ⟨hout,fun h => ?_⟩
  rw [hout,nested_iff] at h
  obtain ⟨-,hroot⟩ := h rfl
  have hcontainer := ((nestedBelow_iff _).mp hroot _ (List.mem_singleton.mpr rfl) rfl).2
  have hbox := ((nestedBelow_iff _).mp hcontainer _ (List.mem_singleton.mpr rfl) rfl).1
  exact absurd hbox (by decide)

end Filly.Layout
