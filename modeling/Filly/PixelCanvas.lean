import Filly.Calendar
import Filly.ErrorTermWalk
import Filly.PixelClipping
import Filly.WhileLoops

/-!
# The canvas widget

`canvas_render` colors the pixels of a rectangle, or of a line between two points. The loop of
the line has no condition: it goes on until it stands on the second point. What overflows an
`int` has no outcome.
-/
namespace Filly.PixelCanvas
open Calendar ErrorTermWalk PixelClipping WhileLoops

/-- The array behind the pixels, by index. -/
abbrev Pixels := ℤ → UInt32

/-- `pixels[y*cw+x] = color` -/
def mark (cw : ℤ) (color : UInt32) (pixels : Pixels) (p : ℤ × ℤ) : Pixels :=
  Function.update pixels (p.2*cw+p.1) color

def OnCanvas (cw ch : ℤ) (p : ℤ × ℤ) : Prop := 0 ≤ p.1 ∧ p.1 < cw ∧ 0 ≤ p.2 ∧ p.2 < ch

instance (cw ch : ℤ) : DecidablePred (OnCanvas cw ch) := fun p =>
  inferInstanceAs (Decidable (0 ≤ p.1 ∧ p.1 < cw ∧ 0 ≤ p.2 ∧ p.2 < ch))

/-! ## The rectangle -/

structure RectCommand where
  x : ℤ
  y : ℤ
  w : ℤ
  h : ℤ
  color : UInt32

/-- One row of the loop. -/
def rectRow (cw : ℤ) (r : RectCommand) (pixels : Pixels) (row : ℤ) : Option Pixels := do
  let right ← checkedInt (r.x+r.w)
  some ((upTo r.x (min right cw)).foldl
    (fun pixels col => if 0 ≤ row ∧ 0 ≤ col then mark cw r.color pixels (col,row) else pixels)
    pixels)

def drawRect (cw ch : ℤ) (r : RectCommand) (pixels : Pixels) : Option Pixels :=
  if 0 < r.w ∧ 0 < r.h then do
    let bottom ← checkedInt (r.y+r.h)
    (upTo r.y (min bottom ch)).foldlM (rectRow cw r) pixels
  else some pixels

/-! ## The line -/

structure LineCommand where
  x₁ : ℤ
  y₁ : ℤ
  x₂ : ℤ
  y₂ : ℤ
  color : UInt32

/-- The variables that the loop does not change. -/
structure LineLoop where
  dx : ℤ
  dy : ℤ
  sx : ℤ
  sy : ℤ

/-- The variables that it changes. -/
structure LineState where
  x : ℤ
  y : ℤ
  err : ℤ
  pixels : Pixels

def lineStart (l : LineCommand) (pixels : Pixels) : Option (LineLoop × LineState) := do
  let w ← checkedInt (l.x₂-l.x₁)
  let dx ← checkedInt |w|
  let h ← checkedInt (l.y₂-l.y₁)
  let dy ← checkedInt |h|
  let err ← checkedInt (dx+-dy)
  some (⟨dx,-dy,if l.x₁ < l.x₂ then 1 else -1,if l.y₁ < l.y₂ then 1 else -1⟩,⟨l.x₁,l.y₁,err,pixels⟩)

/-- The two tests of a turn. -/
def lineStep (loop : LineLoop) (s : LineState) : Option LineState := do
  let e2 ← checkedInt (2*s.err)
  let s ← if loop.dy ≤ e2 then do
      let err ← checkedInt (s.err+loop.dy)
      let x ← checkedInt (s.x+loop.sx)
      some { s with err, x }
    else some s
  if e2 ≤ loop.dx then do
    let err ← checkedInt (s.err+loop.dx)
    let y ← checkedInt (s.y+loop.sy)
    some { s with err, y }
  else some s

def lineTurn (cw ch : ℤ) (l : LineCommand) (loop : LineLoop) (s : LineState) :
    Turn LineState (Option Pixels) :=
  let pixels := if OnCanvas cw ch (s.x,s.y) then mark cw l.color s.pixels (s.x,s.y) else s.pixels
  if s.x = l.x₂ ∧ s.y = l.y₂ then .returned (some pixels)
  else
    match lineStep loop { s with pixels } with
    | some s => .next s
    | none => .returned none

/-! ## What is colored -/

section
variable {cw : ℤ} {color : UInt32} {C : ℤ × ℤ → Prop} [DecidablePred C]

/-- The points under a condition are colored one after the other. -/
def paint (cw : ℤ) (color : UInt32) (C : ℤ × ℤ → Prop) [DecidablePred C] (points : List (ℤ × ℤ))
    (pixels : Pixels) : Pixels :=
  points.foldl (fun pixels p => if C p then mark cw color pixels p else pixels) pixels

/-- The colored pixels are those of the points. -/
structure Colored (cw : ℤ) (color : UInt32) (P : ℤ × ℤ → Prop) (pixels final : Pixels) : Prop where
  inside : ∀ p, P p → final (p.2*cw+p.1) = color
  outside : ∀ i, (∀ p, P p → i ≠ p.2*cw+p.1) → final i = pixels i

theorem paint_colored (points : List (ℤ × ℤ)) (pixels : Pixels) :
    Colored cw color (fun p => p ∈ points ∧ C p) pixels (paint cw color C points pixels) := by
  induction points generalizing pixels with
  | nil => exact ⟨fun p h => absurd h.1 List.not_mem_nil,fun _ _ => rfl⟩
  | cons p points ih =>
      have hrest := ih (if C p then mark cw color pixels p else pixels)
      constructor
      · rintro q ⟨hq,hC⟩
        by_cases hlater : ∃ r, (r ∈ points ∧ C r) ∧ q.2*cw+q.1 = r.2*cw+r.1
        · obtain ⟨r,hr,heq⟩ := hlater
          rw [heq]
          exact hrest.inside r hr
        · obtain rfl : q = p := (List.mem_cons.1 hq).resolve_right fun hmem =>
            hlater ⟨q,⟨hmem,hC⟩,rfl⟩
          refine (hrest.outside _ fun r hr heq => hlater ⟨r,hr,heq⟩).trans ?_
          rw [if_pos hC,mark,Function.update_self]
      · intro i hi
        refine (hrest.outside i fun r hr => hi r ⟨List.mem_cons_of_mem _ hr.1,hr.2⟩).trans ?_
        by_cases hC : C p
        · rw [if_pos hC,mark,Function.update_of_ne (hi p ⟨List.mem_cons_self,hC⟩)]
        · rw [if_neg hC]

theorem Colored.congr {P Q : ℤ × ℤ → Prop} {pixels final : Pixels} (hPQ : ∀ p, P p ↔ Q p)
    (h : Colored cw color P pixels final) : Colored cw color Q pixels final := by
  obtain rfl : P = Q := funext fun p => propext (hPQ p)
  exact h

end

/-! ## Rectangles -/

/-- The points of a rectangle, row after row. -/
def rectPoints (cw ch : ℤ) (r : RectCommand) : List (ℤ × ℤ) :=
  (upTo r.y (min (r.y+r.h) ch)).flatMap fun row =>
    (upTo r.x (min (r.x+r.w) cw)).map fun col => (col,row)

def Fits (r : RectCommand) : Prop :=
  (-2^31 ≤ r.x ∧ r.x+r.w < 2^31) ∧ -2^31 ≤ r.y ∧ r.y+r.h < 2^31

instance (r : RectCommand) : Decidable (Fits r) :=
  inferInstanceAs (Decidable ((_ ∧ _) ∧ _ ∧ _))

theorem rectRow_eq {cw : ℤ} {r : RectCommand} (hw : 0 < r.w) (h : Fits r) (pixels : Pixels)
    (row : ℤ) :
    rectRow cw r pixels row = some (paint cw r.color (fun p => 0 ≤ p.2 ∧ 0 ≤ p.1)
      ((upTo r.x (min (r.x+r.w) cw)).map fun col => (col,row)) pixels) := by
  have hright := h.1
  rw [rectRow,checkedInt_eq (by omega),paint,List.foldl_map]
  rfl

theorem rectRows_eq {cw : ℤ} {r : RectCommand} (hw : 0 < r.w) (h : Fits r) (rows : List ℤ)
    (pixels : Pixels) :
    rows.foldlM (rectRow cw r) pixels = some (paint cw r.color (fun p => 0 ≤ p.2 ∧ 0 ≤ p.1)
      (rows.flatMap fun row => (upTo r.x (min (r.x+r.w) cw)).map fun col => (col,row)) pixels) := by
  induction rows generalizing pixels with
  | nil => rfl
  | cons row rows ih =>
      rw [List.foldlM_cons,rectRow_eq hw h,Option.bind_eq_bind,Option.bind_some,ih,
        List.flatMap_cons]
      simp only [paint,List.foldl_append]

/-- The rectangle colors what it has in common with the canvas. -/
theorem drawRect_colored {cw ch : ℤ} {r : RectCommand} (hw : 0 < r.w) (hh : 0 < r.h) (h : Fits r)
    (pixels : Pixels) :
    ∃ final, drawRect cw ch r pixels = some final ∧
      Colored cw r.color (fun p => OnCanvas cw ch p ∧
        (r.x ≤ p.1 ∧ p.1 < r.x+r.w) ∧ r.y ≤ p.2 ∧ p.2 < r.y+r.h) pixels final := by
  have hbottom := h.2
  refine ⟨paint cw r.color (fun p => 0 ≤ p.2 ∧ 0 ≤ p.1) (rectPoints cw ch r) pixels,?_,?_⟩
  · rw [drawRect,if_pos ⟨hw,hh⟩,checkedInt_eq (by omega)]
    exact rectRows_eq hw h _ pixels
  · refine (paint_colored _ pixels).congr fun p => ?_
    simp only [rectPoints,List.mem_flatMap,List.mem_map,mem_upTo,OnCanvas]
    constructor
    · rintro ⟨⟨row,hrow,col,hcol,rfl⟩,hpos⟩
      dsimp only at hpos ⊢
      omega
    · rintro ⟨hcanvas,hx,hy⟩
      exact ⟨⟨p.2,by omega,p.1,by omega,rfl⟩,by omega⟩

/-! ## Lines -/

/-- How far the end points are apart in one direction. -/
def side (a b : ℤ) : ℕ := (b-a).natAbs

def sign (a b : ℤ) : ℤ := if a < b then 1 else -1

section
variable (cw ch : ℤ) (l : LineCommand) (pixels : Pixels)

/-- The point of the line after some turns. -/
def path (n : ℕ) : ℤ × ℤ :=
  let w := after (side l.x₁ l.x₂) (side l.y₁ l.y₂) n
  (l.x₁+sign l.x₁ l.x₂*w.i,l.y₁+sign l.y₁ l.y₂*w.j)

/-- The turns that a line goes on for. -/
def LineCommand.turns : ℕ := max (side l.x₁ l.x₂) (side l.y₁ l.y₂)

def LineCommand.loop : LineLoop :=
  ⟨side l.x₁ l.x₂,-side l.y₁ l.y₂,sign l.x₁ l.x₂,sign l.y₁ l.y₂⟩

/-- The points before some turn are colored. -/
def pixelsAt (n : ℕ) : Pixels :=
  paint cw l.color (OnCanvas cw ch) ((List.range n).map (path l)) pixels

def stateAt (n : ℕ) : LineState :=
  ⟨(path l n).1,(path l n).2,(after (side l.x₁ l.x₂) (side l.y₁ l.y₂) n).err,
    pixelsAt cw ch l pixels n⟩

/-- The coordinates of the end points are below 2^28. -/
def LineCommand.Small : Prop :=
  |l.x₁| < 2^28 ∧ |l.y₁| < 2^28 ∧ |l.x₂| < 2^28 ∧ |l.y₂| < 2^28

instance : Decidable l.Small := inferInstanceAs (Decidable (_ ∧ _ ∧ _ ∧ _))

end

section
variable {cw ch : ℤ} {l : LineCommand} {pixels : Pixels}

theorem pixelsAt_succ (n : ℕ) :
    pixelsAt cw ch l pixels (n+1) = if OnCanvas cw ch (path l n)
      then mark cw l.color (pixelsAt cw ch l pixels n) (path l n)
      else pixelsAt cw ch l pixels n := by
  rw [pixelsAt,List.range_succ,List.map_append,paint,List.foldl_append]
  rfl

theorem lineStart_eq (h : l.Small) : lineStart l pixels = some (l.loop,stateAt cw ch l pixels 0) := by
  obtain ⟨hx₁,hy₁,hx₂,hy₂⟩ := h
  rw [abs_lt] at hx₁ hy₁ hx₂ hy₂
  have hdx : |l.x₂-l.x₁| = side l.x₁ l.x₂ := Int.abs_eq_natAbs _
  have hdy : |l.y₂-l.y₁| = side l.y₁ l.y₂ := Int.abs_eq_natAbs _
  have hsx : side l.x₁ l.x₂ < 2^29 := by rw [side]; omega
  have hsy : side l.y₁ l.y₂ < 2^29 := by rw [side]; omega
  rw [lineStart,checkedInt_eq (by omega)]
  simp only [Option.bind_eq_bind,Option.bind_some]
  rw [hdx,checkedInt_eq (by omega),Option.bind_some,checkedInt_eq (by omega),Option.bind_some,
    hdy,checkedInt_eq (by omega),Option.bind_some,checkedInt_eq (by omega),Option.bind_some]
  simp [stateAt,path,pixelsAt,paint,after,start,LineCommand.loop,sign,sub_eq_add_neg]

theorem sign_between {a b : ℤ} {i : ℕ} (h : i ≤ side a b) :
    min a b ≤ a+sign a b*i ∧ a+sign a b*i ≤ max a b := by
  rw [side] at h
  rw [sign]
  split_ifs <;> omega

theorem path_bounded {n : ℕ} (hn : n ≤ l.turns) :
    (min l.x₁ l.x₂ ≤ (path l n).1 ∧ (path l n).1 ≤ max l.x₁ l.x₂) ∧
      min l.y₁ l.y₂ ≤ (path l n).2 ∧ (path l n).2 ≤ max l.y₁ l.y₂ :=
  ⟨sign_between (after_bounded hn).i_le,sign_between (after_bounded hn).j_le⟩

/-- The second point is met when the walk ends. -/
theorem path_eq_end_iff {n : ℕ} (hn : n ≤ l.turns) :
    (path l n).1 = l.x₂ ∧ (path l n).2 = l.y₂ ↔ n = l.turns := by
  have hside : ∀ {a b : ℤ} {i : ℕ}, i ≤ side a b → (a+sign a b*i = b ↔ i = side a b) := by
    intro a b i hi
    rw [side] at hi ⊢
    rw [sign]
    split_ifs <;> omega
  have h := after_bounded hn
  rw [LineCommand.turns,← h.ended_iff]
  exact and_congr (hside h.i_le) (hside h.j_le)

/-- The tests of a turn are those of a move. -/
theorem lineStep_eq (loop : LineLoop) {s : LineState} {D E : ℕ} (hdx : loop.dx = D)
    (hdy : loop.dy = -E) (hside : D < 2^29 ∧ E < 2^29)
    (herr : -3*(E:ℤ) ≤ 2*s.err ∧ 2*s.err ≤ 3*D)
    (hs : |s.x| < 2^28 ∧ |s.y| < 2^28) (hsign : |loop.sx| = 1 ∧ |loop.sy| = 1) (i j : ℕ) :
    lineStep loop s = some
      { x := if -E ≤ 2*s.err then s.x+loop.sx else s.x
        y := if 2*s.err ≤ D then s.y+loop.sy else s.y
        err := (move D E ⟨i,j,s.err⟩).err
        pixels := s.pixels } := by
  rw [abs_lt,abs_lt] at hs
  rw [abs_eq one_pos.le,abs_eq one_pos.le] at hsign
  have htwice : checkedInt (2*s.err) = some (2*s.err) := checkedInt_eq (by omega)
  simp only [lineStep,htwice,hdx,hdy,Option.bind_eq_bind,Option.bind_some,move]
  by_cases hx : -(E:ℤ) ≤ 2*s.err
  · rw [if_pos hx,checkedInt_eq (by omega),Option.bind_some,checkedInt_eq (by omega)]
    simp only [Option.bind_some,if_pos hx]
    by_cases hy : 2*s.err ≤ D
    · rw [if_pos hy,checkedInt_eq (by omega),Option.bind_some,checkedInt_eq (by omega)]
      simp only [Option.bind_some,if_pos hy]
    · simp only [if_neg hy,add_zero]
  · rw [if_neg hx]
    simp only [if_neg hx]
    by_cases hy : 2*s.err ≤ D
    · rw [if_pos hy,checkedInt_eq (by omega),Option.bind_some,checkedInt_eq (by omega)]
      simp only [Option.bind_some,if_pos hy,add_zero]
    · simp only [if_neg hy,add_zero]

theorem abs_sign (a b : ℤ) : |sign a b| = 1 := by
  rw [sign]
  split_ifs <;> rfl

theorem path_succ (n : ℕ) :
    path l (n+1) =
      (if -(side l.y₁ l.y₂:ℤ) ≤ 2*(after (side l.x₁ l.x₂) (side l.y₁ l.y₂) n).err
        then (path l n).1+sign l.x₁ l.x₂ else (path l n).1,
      if 2*(after (side l.x₁ l.x₂) (side l.y₁ l.y₂) n).err ≤ side l.x₁ l.x₂
        then (path l n).2+sign l.y₁ l.y₂ else (path l n).2) := by
  simp only [path,after_succ,move]
  refine Prod.ext ?_ ?_
  all_goals dsimp only
  all_goals split_ifs
  all_goals push_cast
  all_goals ring

/-- A turn before the last one. -/
theorem lineTurn_stateAt (h : l.Small) {n : ℕ} (hn : n < l.turns) :
    lineTurn cw ch l l.loop (stateAt cw ch l pixels n) = .next (stateAt cw ch l pixels (n+1)) := by
  have hbounded := after_bounded hn.le
  have hpath := path_bounded hn.le
  obtain ⟨hx₁,hy₁,hx₂,hy₂⟩ := h
  rw [abs_lt] at hx₁ hy₁ hx₂ hy₂
  have hside : side l.x₁ l.x₂ < 2^29 ∧ side l.y₁ l.y₂ < 2^29 := by
    rw [side,side]
    omega
  have hsmall : |(path l n).1| < 2^28 ∧ |(path l n).2| < 2^28 := by
    rw [abs_lt,abs_lt]
    omega
  have hend : ¬((stateAt cw ch l pixels n).x = l.x₂ ∧ (stateAt cw ch l pixels n).y = l.y₂) :=
    fun hends => hn.ne ((path_eq_end_iff hn.le).1 hends)
  have hstep := lineStep_eq l.loop
    (s := { stateAt cw ch l pixels n with pixels := pixelsAt cw ch l pixels (n+1) }) rfl rfl hside
    ⟨hbounded.err_ge,hbounded.err_le⟩ hsmall ⟨abs_sign _ _,abs_sign _ _⟩
    (after (side l.x₁ l.x₂) (side l.y₁ l.y₂) n).i (after (side l.x₁ l.x₂) (side l.y₁ l.y₂) n).j
  have hpixels : (if OnCanvas cw ch ((stateAt cw ch l pixels n).x,(stateAt cw ch l pixels n).y)
      then mark cw l.color (stateAt cw ch l pixels n).pixels
        ((stateAt cw ch l pixels n).x,(stateAt cw ch l pixels n).y)
      else (stateAt cw ch l pixels n).pixels) = pixelsAt cw ch l pixels (n+1) :=
    (pixelsAt_succ n).symm
  have hnext : stateAt cw ch l pixels (n+1) =
      ⟨(path l (n+1)).1,(path l (n+1)).2,(after (side l.x₁ l.x₂) (side l.y₁ l.y₂) (n+1)).err,
        pixelsAt cw ch l pixels (n+1)⟩ := rfl
  simp only [lineTurn,if_neg hend,hpixels,hstep]
  rw [hnext,path_succ,after_succ]
  rfl

theorem runFor_stateAt (h : l.Small) {n : ℕ} (hn : n ≤ l.turns) :
    runFor (lineTurn cw ch l l.loop) (stateAt cw ch l pixels 0) n =
      .next (stateAt cw ch l pixels n) := by
  induction n with
  | zero => rfl
  | succ n ih =>
      rw [runFor,ih (by omega)]
      exact lineTurn_stateAt h hn

/-- The turn that stands on the second point. -/
theorem runFor_returned (h : l.Small) :
    runFor (lineTurn cw ch l l.loop) (stateAt cw ch l pixels 0) (l.turns+1) =
      .returned (some (pixelsAt cw ch l pixels (l.turns+1))) := by
  have hend : (stateAt cw ch l pixels l.turns).x = l.x₂ ∧ (stateAt cw ch l pixels l.turns).y = l.y₂ :=
    (path_eq_end_iff le_rfl).2 rfl
  rw [runFor,runFor_stateAt h le_rfl,Turn.andThen,lineTurn,if_pos hend,pixelsAt_succ]
  rfl

theorem path_near (n : ℕ) :
    |(path l (n+1)).1-(path l n).1| ≤ 1 ∧ |(path l (n+1)).2-(path l n).2| ≤ 1 := by
  have hsign : ∀ a b, |sign a b| ≤ 1 := fun a b => (abs_sign a b).le
  rw [path_succ]
  dsimp only
  constructor
  all_goals split_ifs
  · rw [add_sub_cancel_left]
    exact hsign _ _
  · simp
  · rw [add_sub_cancel_left]
    exact hsign _ _
  · simp

end

/-! ## What the commands come to -/

/-- The loop visits the points one after the other, a pixel is colored when it is visited and lies
in the canvas, and the loop returns from the last point. -/
structure Draws (cw ch : ℤ) (l : LineCommand) (pixels final : Pixels) (points : ℕ → ℤ × ℤ) : Prop where
  visits : ∃ loop s, lineStart l pixels = some (loop,s) ∧
    (∀ n ≤ l.turns, ∃ t, runFor (lineTurn cw ch l loop) s n = .next t ∧ (t.x,t.y) = points n) ∧
      runFor (lineTurn cw ch l loop) s (l.turns+1) = .returned (some final)
  starts : points 0 = (l.x₁,l.y₁)
  ends : points l.turns = (l.x₂,l.y₂)
  near : ∀ n < l.turns, |(points (n+1)).1-(points n).1| ≤ 1 ∧ |(points (n+1)).2-(points n).2| ≤ 1
  between : ∀ n ≤ l.turns, (min l.x₁ l.x₂ ≤ (points n).1 ∧ (points n).1 ≤ max l.x₁ l.x₂) ∧
    min l.y₁ l.y₂ ≤ (points n).2 ∧ (points n).2 ≤ max l.y₁ l.y₂
  colored : Colored cw l.color (fun p => (∃ n ≤ l.turns, points n = p) ∧ OnCanvas cw ch p) pixels final

theorem line_draws (cw ch : ℤ) {l : LineCommand} (h : l.Small) (pixels : Pixels) :
    Draws cw ch l pixels (pixelsAt cw ch l pixels (l.turns+1)) (path l) where
  visits := ⟨l.loop,stateAt cw ch l pixels 0,lineStart_eq h,
    fun n hn => ⟨_,runFor_stateAt h hn,rfl⟩,runFor_returned h⟩
  starts := by simp [path,after,start]
  ends := Prod.ext_iff.2 ((path_eq_end_iff le_rfl).2 rfl)
  near n _ := path_near n
  between n hn := path_bounded hn
  colored := (paint_colored _ pixels).congr fun p => by
    simp only [List.mem_map,List.mem_range,Nat.lt_succ_iff]

end Filly.PixelCanvas
