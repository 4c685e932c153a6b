import Filly.Layout

/-!
# Flex layout

`layout_flex` sets its children one behind the other along the main axis. In a
row the cross position starts at the frame's left edge instead of its top, and
every wrapped line is put at the same distance from the top, given by the tallest
child so far: the second line is below the first, but a third one runs into the
second. Without wrapping the sizes that are set are not the ones that have been
counted, so fitting sizes may still run over.
-/
namespace Filly.Layout
open CJson Rectangles

/-- No limit of the child's style is set. -/
def Unlimited (c : RenderTree) : Prop :=
  c.node.resolvedStyle.minWidth ≤ 0 ∧ c.node.resolvedStyle.minHeight ≤ 0 ∧
    c.node.resolvedStyle.maxWidth ≤ 0 ∧ c.node.resolvedStyle.maxHeight ≤ 0

/-- The available extent. -/
def availOf (row : Bool) (frame : Rect) : ℤ := if row then frame.w else frame.h

/-- The fixed sizes and the gaps fit into the available extent. -/
def SizesFit (isPixel row : Bool) (cs : List RenderTree) (frame : Rect) : Prop :=
  fixedSize isPixel row cs+gapOf isPixel*((cs.length : ℤ)-1) ≤ availOf row frame

/-- The end of a child on the main axis. -/
def mainEnd (row : Bool) (r : Rect) : ℤ := if row then r.x+r.w else r.y+r.h

/-- What a flex layout should give: disjoint rectangles; in a row, lines from the
corner of the frame, each wrapped one below all before; without wrapping, no
overrun when the sizes fit. -/
structure FlexLaid (row wrap : Bool) (frame : Rect) (fit : Prop) (rects : List Rect) : Prop where
  disjoint : rects.Pairwise Rect.Apart
  lines : row = true → ∀ r rs, rects = r::rs →
    r.x = frame.x ∧ r.y = frame.y ∧ Lines wrap frame.x [r] r rs
  last : wrap = false → fit → ∀ r ∈ rects.getLast?,
    mainEnd row r ≤ (if row then frame.x else frame.y)+availOf row frame

/-- How many lines follow the one in which `used` cells are taken, when every
width that does not fit starts a new one. -/
def lineBreaks (maxW gap : ℤ) : ℤ → List ℤ → ℕ
  | _, [] => 0
  | used, w::ws =>
      if used+w > maxW ∧ used > 0 then lineBreaks maxW gap (w+gap) ws+1
      else lineBreaks maxW gap (used+w+gap) ws

/-- The size of the second pass on the main axis. -/
def FlexBox.mainSize (b : FlexBox) (c : RenderTree) : ℤ := if b.row then b.childW c else b.childH c

/-- A row starts at equal offsets; wrapped, it has two lines at most; and without
wrapping the sizes of the second pass fit when those of the first pass do. -/
structure FlexSound (b : FlexBox) (cs : List RenderTree) (fit : Prop) : Prop where
  corner : b.row = true → b.frame.x = b.frame.y
  breaks : b.row = true → b.wrap = true → lineBreaks b.frame.w b.gap 0 (cs.map b.childW) ≤ 1
  sizes : b.wrap = false → fit →
    (cs.map b.mainSize).sum+b.gap*((cs.length : ℤ)-1) ≤ availOf b.row b.frame

/-! ## The second pass -/

theorem gapOf_pos (isPixel : Bool) : 0 < gapOf isPixel := by
  cases isPixel <;> decide

theorem flexChildH_pos (isPixel : Bool) (c : RenderTree) : 0 < flexChildH isPixel c := by
  have hrow : 0 < rowHeight isPixel := by cases isPixel <;> decide
  unfold flexChildH
  dsimp only
  split_ifs <;> omega

theorem flexChildW_nonneg {grow share : ℤ} (h : 0 ≤ share) (c : RenderTree) :
    0 ≤ flexChildW grow share c := by
  unfold flexChildW
  dsimp only
  split_ifs <;> omega

/-- A box whose gap and child sizes are those of `layout_flex`. -/
structure FlexBox.Regular (b : FlexBox) : Prop where
  gap_pos : 0 < b.gap
  childW_nonneg : ∀ c, 0 ≤ b.childW c
  childH_pos : ∀ c, 0 < b.childH c

theorem flexBox_regular (isPixel : Bool) (direction wrap : Option Bytes) (cs : List RenderTree)
    {frame : Rect} (hw : 0 < frame.w) (hh : 0 < frame.h) :
    (flexBox isPixel direction wrap cs frame).Regular := by
  refine ⟨gapOf_pos isPixel,fun c => flexChildW_nonneg ?_ c,flexChildH_pos isPixel⟩
  refine Int.tdiv_nonneg ?_ (Int.natCast_nonneg _)
  split_ifs <;> omega

namespace FlexBox
variable {b : FlexBox} {cur : FlexCursor} {cs : List RenderTree}

/-- The rectangles of the second pass. -/
def rects (b : FlexBox) (cur : FlexCursor) (cs : List RenderTree) : List Rect :=
  (b.place cur cs).1.map RenderTree.rect

theorem rects_cons (b : FlexBox) (cur : FlexCursor) (c : RenderTree) (cs : List RenderTree) :
    b.rects cur (c::cs) =
      b.rectAt (b.turnLine cur (b.childW c)) (b.childW c) (b.childH c)::
        b.rects (b.advance (b.turnLine cur (b.childW c)) (b.childW c) (b.childH c)) cs := rfl

theorem turnLine_of_not (h : ¬(b.wrap = true ∧ b.row = true)) (cur : FlexCursor) (w : ℤ) :
    b.turnLine cur w = cur := by
  rw [turnLine,if_neg]
  rintro ⟨hwrap,hrow,-⟩
  exact h ⟨hwrap,hrow⟩

theorem rectAt_row (h : b.row = true) (cur : FlexCursor) (w v : ℤ) :
    b.rectAt cur w v = ⟨cur.linePos,cur.pos,w,v⟩ := by
  rw [rectAt,if_pos h]

/-- Along one line the last rectangle ends at the sum of all sizes and gaps. -/
theorem rects_last (h : ¬(b.wrap = true ∧ b.row = true)) (c : RenderTree)
    (cs : List RenderTree) (cur : FlexCursor) :
    ∀ r ∈ (b.rects cur (c::cs)).getLast?, mainEnd b.row r =
      cur.linePos+((c::cs).map b.mainSize).sum+b.gap*(((c::cs).length : ℤ)-1) := by
  have hend : ∀ (d : RenderTree) (cur : FlexCursor),
      mainEnd b.row (b.rectAt cur (b.childW d) (b.childH d)) = cur.linePos+b.mainSize d := by
    intro d cur
    unfold mainEnd rectAt mainSize
    split_ifs <;> rfl
  induction cs generalizing c cur with
  | nil =>
      intro r hr
      rw [rects_cons,turnLine_of_not h] at hr
      obtain rfl : b.rectAt cur (b.childW c) (b.childH c) = r := by simpa [rects,place] using hr
      simp [hend]
  | cons d cs ih =>
      intro r hr
      rw [rects_cons,turnLine_of_not h,rects_cons,List.getLast?_cons_cons,← rects_cons] at hr
      rw [ih d _ r hr]
      simp only [advance,mainSize,List.map_cons,List.sum_cons,List.length_cons]
      push_cast
      ring

/-! ## Columns -/

theorem rects_column (hb : b.Regular) (h : b.row = false) (cs : List RenderTree)
    (cur : FlexCursor) :
    (∀ r ∈ b.rects cur cs, cur.linePos ≤ r.y) ∧ (b.rects cur cs).Pairwise Rect.Apart := by
  induction cs generalizing cur with
  | nil => simp [rects,place]
  | cons c cs ih =>
      rw [rects_cons,turnLine_of_not (by simp [h])]
      have hnext : (b.advance cur (b.childW c) (b.childH c)).linePos =
          cur.linePos+b.childH c+b.gap := by simp [advance,h]
      have hrect : b.rectAt cur (b.childW c) (b.childH c) =
          ⟨b.frame.x,cur.linePos,b.frame.w,b.childH c⟩ := by simp [rectAt,h]
      obtain ⟨hle,hpw⟩ := ih (b.advance cur (b.childW c) (b.childH c))
      have hgap := hb.gap_pos
      have hpos := hb.childH_pos c
      rw [hnext] at hle
      constructor
      · refine List.forall_mem_cons.mpr ⟨by rw [hrect],fun r hr => ?_⟩
        have := hle r hr
        omega
      · refine .cons (fun r hr => Rect.apart_of_above ?_) hpw
        have := hle r hr
        rw [hrect]
        dsimp only
        omega

/-! ## Rows -/

/-- The cursor stands one gap behind `last`, in its line. -/
structure OnLine (b : FlexBox) (cur : FlexCursor) (last : Rect) : Prop where
  y : last.y = cur.pos
  ends : last.x+last.w+b.gap = cur.linePos
  left : b.frame.x ≤ last.x
  width : 0 ≤ last.w

theorem OnLine.sameLine (hb : b.Regular) {last : Rect} (h : b.OnLine cur last) (w v : ℤ) :
    SameLine last ⟨cur.linePos,cur.pos,w,v⟩ := by
  have := hb.gap_pos
  obtain ⟨hy,hends,hleft,hwidth⟩ := h
  refine ⟨hy.symm,?_,?_⟩ <;> dsimp only <;> omega

theorem onLine_advance (hrow : b.row = true) (hleft : b.frame.x ≤ cur.linePos) {w : ℤ}
    (hw : 0 ≤ w) (v : ℤ) : b.OnLine (b.advance cur w v) ⟨cur.linePos,cur.pos,w,v⟩ :=
  ⟨rfl,by simp [advance,hrow],hleft,hw⟩

theorem OnLine.linePos_gt (hb : b.Regular) {last : Rect} (h : b.OnLine cur last) :
    b.frame.x < cur.linePos := by
  have := hb.gap_pos
  obtain ⟨-,hends,hleft,hwidth⟩ := h
  omega

/-- The line is full for a child of this width. -/
def Full (b : FlexBox) (cur : FlexCursor) (w : ℤ) : Prop :=
  cur.linePos-b.frame.x+w > b.frame.w ∧ cur.linePos-b.frame.x > 0

theorem turnLine_full (hrow : b.row = true) (hwrap : b.wrap = true) {w : ℤ}
    (h : b.Full cur w) : b.turnLine cur w =
      { cur with pos := b.frame.y+cur.lineH+b.gap, linePos := b.frame.x } := by
  obtain ⟨hw,hu⟩ := h
  exact if_pos ⟨hwrap,hrow,by omega,by omega⟩

theorem turnLine_room {w : ℤ} (h : ¬b.Full cur w) : b.turnLine cur w = cur := by
  refine if_neg fun hturn => h ?_
  obtain ⟨-,-,hw,hu⟩ := hturn
  exact ⟨by omega,by omega⟩

theorem lineBreaks_full {w : ℤ} (h : b.Full cur w) (ws : List ℤ) :
    lineBreaks b.frame.w b.gap (cur.linePos-b.frame.x) (w::ws) =
      lineBreaks b.frame.w b.gap (w+b.gap) ws+1 := if_pos h

theorem lineBreaks_room (hrow : b.row = true) {w : ℤ} (h : ¬b.Full cur w) (v : ℤ) (ws : List ℤ) :
    lineBreaks b.frame.w b.gap (cur.linePos-b.frame.x) (w::ws) =
      lineBreaks b.frame.w b.gap ((b.advance cur w v).linePos-b.frame.x) ws := by
  have hused : (b.advance cur w v).linePos-b.frame.x = cur.linePos-b.frame.x+w+b.gap := by
    simp only [advance,hrow,if_true]
    ring
  rw [hused]
  exact if_neg h

/-- Without wrapping all children stand in one line. -/
theorem rects_oneLine (hb : b.Regular) (hrow : b.row = true) (hwrap : b.wrap = false)
    (wrap : Bool) (left : ℤ) (cs : List RenderTree) {placed : List Rect} {last : Rect}
    (hcur : b.OnLine cur last) : Lines wrap left placed last (b.rects cur cs) := by
  induction cs generalizing cur placed last with
  | nil => exact trivial
  | cons c cs ih =>
      rw [rects_cons,turnLine_of_not (by simp [hwrap]),rectAt_row hrow]
      exact ⟨.inl (hcur.sameLine hb _ _),
        ih (onLine_advance hrow (hcur.linePos_gt hb).le (hb.childW_nonneg c) _)⟩

theorem lineH_advance (cur : FlexCursor) (w v : ℤ) :
    (b.advance cur w v).lineH = max cur.lineH v := by
  simp only [advance]
  split <;> omega

/-- From the second line on: something placed ends below the place where the next
line would start, so there must be none. -/
theorem rects_secondLine (hb : b.Regular) (hrow : b.row = true) (hwrap : b.wrap = true)
    (cs : List RenderTree) {placed : List Rect} {last : Rect} (hcur : b.OnLine cur last)
    (hlow : b.frame.y+b.gap < cur.pos)
    (hdeep : ∃ p ∈ placed, b.frame.y+cur.lineH+b.gap < p.y+p.h) :
    Lines true b.frame.x placed last (b.rects cur cs) ↔
      lineBreaks b.frame.w b.gap (cur.linePos-b.frame.x) (cs.map b.childW) = 0 := by
  induction cs generalizing cur placed last with
  | nil => exact iff_of_true trivial rfl
  | cons c cs ih =>
      rw [rects_cons,List.map_cons]
      by_cases hfull : b.Full cur (b.childW c)
      · rw [lineBreaks_full hfull,turnLine_full hrow hwrap hfull,rectAt_row hrow]
        refine iff_of_false ?_ (Nat.succ_ne_zero _)
        rintro ⟨⟨-,hx,-⟩ | ⟨-,-,hbelow⟩,-⟩
        · exact absurd hcur.left (not_le.mpr hx)
        · obtain ⟨p,hp,hlt⟩ := hdeep
          exact absurd (hbelow p hp) (not_le.mpr hlt)
      · rw [lineBreaks_room hrow hfull (b.childH c),turnLine_room hfull,rectAt_row hrow]
        have hnext := onLine_advance hrow (hcur.linePos_gt hb).le (hb.childW_nonneg c) (b.childH c)
        rw [← ih hnext hlow]
        · exact and_iff_right (.inl (hcur.sameLine hb _ _))
        · rw [lineH_advance]
          obtain ⟨p,hp,hlt⟩ := hdeep
          rcases le_total (b.childH c) cur.lineH with hle | hle
          · exact ⟨p,List.mem_cons_of_mem _ hp,by rwa [max_eq_left hle]⟩
          · refine ⟨_,List.mem_cons_self,?_⟩
            rw [max_eq_right hle]
            dsimp only
            omega

/-- In the first line: the second one may be started, a third one not. -/
theorem rects_firstLine (hb : b.Regular) (hrow : b.row = true) (hwrap : b.wrap = true)
    (cs : List RenderTree) {placed : List Rect} {last : Rect} (hcur : b.OnLine cur last)
    (hpos : 0 < cur.lineH) (hline : ∀ p ∈ placed, p.y = b.frame.y ∧ p.h ≤ cur.lineH)
    (hy : cur.pos = b.frame.y) :
    Lines true b.frame.x placed last (b.rects cur cs) ↔
      lineBreaks b.frame.w b.gap (cur.linePos-b.frame.x) (cs.map b.childW) ≤ 1 := by
  induction cs generalizing cur placed last with
  | nil => exact iff_of_true trivial (Nat.zero_le 1)
  | cons c cs ih =>
      rw [rects_cons,List.map_cons]
      have hgap := hb.gap_pos
      have hc := hb.childH_pos c
      by_cases hfull : b.Full cur (b.childW c)
      · rw [lineBreaks_full hfull,turnLine_full hrow hwrap hfull,rectAt_row hrow]
        set turned : FlexCursor :=
          { cur with pos := b.frame.y+cur.lineH+b.gap, linePos := b.frame.x } with hturned
        let first : Rect := ⟨b.frame.x,b.frame.y+cur.lineH+b.gap,b.childW c,b.childH c⟩
        have hnext : b.OnLine (b.advance turned (b.childW c) (b.childH c)) first :=
          onLine_advance hrow le_rfl (hb.childW_nonneg c) (b.childH c)
        have hused : (b.advance turned (b.childW c) (b.childH c)).linePos-b.frame.x =
            b.childW c+b.gap := by
          simp only [advance,hrow,if_true,hturned]
          ring
        have hlow : b.frame.y+b.gap < turned.pos := by
          simp only [hturned]
          omega
        have hdeep : ∃ p ∈ first::placed,
            b.frame.y+(b.advance turned (b.childW c) (b.childH c)).lineH+b.gap < p.y+p.h := by
          refine ⟨first,List.mem_cons_self,?_⟩
          rw [lineH_advance]
          simp only [hturned,first]
          omega
        have hsecond := rects_secondLine hb hrow hwrap cs hnext hlow hdeep
        rw [hused] at hsecond
        rw [Nat.succ_le_succ_iff,Nat.le_zero,← hsecond]
        refine and_iff_right (Or.inr ⟨rfl,rfl,fun p hp => ?_⟩)
        have := hline p hp
        simp only [hturned]
        omega
      · rw [lineBreaks_room hrow hfull (b.childH c),turnLine_room hfull,rectAt_row hrow]
        have hnext := onLine_advance hrow (hcur.linePos_gt hb).le (hb.childW_nonneg c) (b.childH c)
        rw [← ih hnext]
        · exact and_iff_right (.inl (hcur.sameLine hb _ _))
        · rw [lineH_advance]
          omega
        · rw [lineH_advance]
          refine List.forall_mem_cons.mpr ⟨⟨hy,le_max_right _ _⟩,fun p hp => ?_⟩
          exact ⟨(hline p hp).1,(hline p hp).2.trans (le_max_left _ _)⟩
        · exact hy

theorem rects_width (hb : b.Regular) (hrow : b.row = true) (cs : List RenderTree)
    (cur : FlexCursor) : ∀ r ∈ b.rects cur cs, 0 ≤ r.w := by
  induction cs generalizing cur with
  | nil => simp [rects,place]
  | cons c cs ih =>
      rw [rects_cons,rectAt_row hrow]
      exact List.forall_mem_cons.mpr ⟨hb.childW_nonneg c,ih _⟩

/-! ## The whole pass -/

theorem rects_start (b : FlexBox) (c : RenderTree) (cs : List RenderTree) :
    b.rects b.start (c::cs) = b.rectAt b.start (b.childW c) (b.childH c)::
      b.rects (b.advance b.start (b.childW c) (b.childH c)) cs := by
  have hturn : b.turnLine b.start (b.childW c) = b.start := by
    refine if_neg ?_
    rintro ⟨-,hrow,-,hgt⟩
    simp [start,hrow] at hgt
  rw [rects_cons,hturn]

/-- Set from equal offsets, the children of a row stand in lines if there are at
most two. -/
theorem rects_lines_iff (hb : b.Regular) (hrow : b.row = true) (hcorner : b.frame.x = b.frame.y)
    (c : RenderTree) (cs : List RenderTree) :
    Lines b.wrap b.frame.x [b.rectAt b.start (b.childW c) (b.childH c)]
        (b.rectAt b.start (b.childW c) (b.childH c))
        (b.rects (b.advance b.start (b.childW c) (b.childH c)) cs) ↔
      (b.wrap = true → lineBreaks b.frame.w b.gap 0 ((c::cs).map b.childW) ≤ 1) := by
  have hstart : b.start = { pos := b.frame.x, linePos := b.frame.x } := by simp [start,hrow]
  have hcur : b.OnLine (b.advance b.start (b.childW c) (b.childH c))
      (b.rectAt b.start (b.childW c) (b.childH c)) := by
    rw [rectAt_row hrow]
    exact onLine_advance hrow (by rw [hstart]) (hb.childW_nonneg c) _
  cases hwrap : b.wrap with
  | false =>
      exact iff_of_true (rects_oneLine hb hrow hwrap false _ cs hcur) (by simp)
  | true =>
      have hc := hb.childH_pos c
      have hused : b.start.linePos-b.frame.x = 0 := by simp [hstart]
      have hroom : ¬b.Full b.start (b.childW c) := fun h => by
        have := h.2
        omega
      have hpos : 0 < (b.advance b.start (b.childW c) (b.childH c)).lineH := by
        rw [lineH_advance]
        omega
      have hline : ∀ p ∈ [b.rectAt b.start (b.childW c) (b.childH c)],
          p.y = b.frame.y ∧ p.h ≤ (b.advance b.start (b.childW c) (b.childH c)).lineH := by
        rw [lineH_advance,rectAt_row hrow]
        simp [hstart,hcorner]
      have hy : b.start.pos = b.frame.y := by simp [hstart,hcorner]
      rw [rects_firstLine hb hrow hwrap cs hcur hpos hline hy,List.map_cons,← hused,
        lineBreaks_room hrow hroom (b.childH c)]
      simp

theorem rects_laid_iff (hb : b.Regular) (c : RenderTree) (cs : List RenderTree) (fit : Prop) :
    FlexLaid b.row b.wrap b.frame fit (b.rects b.start (c::cs)) ↔ FlexSound b (c::cs) fit := by
  have hpos : b.start.linePos = if b.row then b.frame.x else b.frame.y := rfl
  obtain ⟨last,hlast⟩ : ∃ r, (b.rects b.start (c::cs)).getLast? = some r := by
    rw [rects_start]
    exact ⟨_,List.getLast?_eq_getLast_of_ne_nil (List.cons_ne_nil _ _)⟩
  have hends : b.wrap = false → mainEnd b.row last = b.start.linePos+
      (((c::cs).map b.mainSize).sum+b.gap*(((c::cs).length : ℤ)-1)) := by
    intro hwrap
    rw [rects_last (by simp [hwrap]) c cs b.start last hlast,add_assoc]
  have hcornerX : b.row = true → (b.rectAt b.start (b.childW c) (b.childH c)).x = b.frame.x ∧
      (b.rectAt b.start (b.childW c) (b.childH c)).y = b.frame.x := by
    intro hrow
    simp [rectAt_row hrow,start,hrow]
  constructor
  · rintro ⟨-,hlines,hfit⟩
    have hcorner : b.row = true → b.frame.x = b.frame.y := fun hrow => by
      have := (hlines hrow _ _ (rects_start b c cs)).2.1
      rwa [(hcornerX hrow).2] at this
    refine ⟨hcorner,fun hrow => ?_,fun hwrap hf => ?_⟩
    · exact (rects_lines_iff hb hrow (hcorner hrow) c cs).mp
        (hlines hrow _ _ (rects_start b c cs)).2.2
    · have := hfit hwrap hf last hlast
      rw [hends hwrap,hpos] at this
      omega
  · rintro ⟨hcorner,hbreaks,hsizes⟩
    have hlines : b.row = true → Lines b.wrap b.frame.x _ _ _ := fun hrow =>
      (rects_lines_iff hb hrow (hcorner hrow) c cs).mpr (hbreaks hrow)
    refine ⟨?_,fun hrow r rs hr => ?_,fun hwrap hf r hr => ?_⟩
    · cases hrow : b.row with
      | false => exact (rects_column hb hrow (c::cs) b.start).2
      | true =>
          rw [rects_start]
          obtain ⟨hpw,hcross⟩ := (hlines hrow).pairwise
            (by simp [Before]) (rects_width hb hrow cs _)
          exact .cons (hcross _ (List.mem_singleton.mpr rfl)) hpw
    · rw [rects_start] at hr
      obtain ⟨rfl,rfl⟩ := List.cons.inj hr
      exact ⟨(hcornerX hrow).1,(hcornerX hrow).2.trans (hcorner hrow),hlines hrow⟩
    · obtain rfl : last = r := by simpa [hlast] using hr
      rw [hends hwrap,hpos]
      have := hsizes hwrap hf
      omega

end FlexBox

theorem rect_limitChild {c : RenderTree} (h : Unlimited c) (r : Rect) :
    (limitChild (c.withRect r)).rect = r := by
  obtain ⟨h1,h2,h3,h4⟩ := h
  have hid : ∀ lo hi size : ℤ, lo ≤ 0 → hi ≤ 0 → withinLimits lo hi size = size := by
    intro lo hi size hlo hhi
    rw [withinLimits,if_neg (by omega),if_neg (by omega)]
  change ({ r with
    w := withinLimits c.node.resolvedStyle.minWidth c.node.resolvedStyle.maxWidth r.w
    h := withinLimits c.node.resolvedStyle.minHeight c.node.resolvedStyle.maxHeight r.h } : Rect) = r
  rw [hid _ _ _ h1 h3,hid _ _ _ h2 h4]

theorem place_limited (b : FlexBox) {cs : List RenderTree} (h : ∀ c ∈ cs, Unlimited c)
    (cur : FlexCursor) :
    ((b.place cur cs).1.map limitChild).map RenderTree.rect = b.rects cur cs := by
  induction cs generalizing cur with
  | nil => rfl
  | cons c cs ih =>
      simp only [FlexBox.place,List.map_cons,FlexBox.rects_cons]
      rw [ih fun d hd => h d (List.mem_cons_of_mem _ hd),
        rect_limitChild (h c List.mem_cons_self)]

/-- `layout_flex` sets unlimited children as it should exactly when there are
none or the conditions on offsets, lines and sizes are met. -/
theorem layoutFlex_laid_iff (isPixel : Bool) (node : Node) (direction wrap : Option Bytes)
    (cs : List RenderTree) (frame : Rect) (hw : 0 < frame.w) (hh : 0 < frame.h)
    (hcs : ∀ c ∈ cs, Unlimited c) :
    FlexLaid (isRow direction) (isWrap wrap) frame (SizesFit isPixel (isRow direction) cs frame)
        ((layoutFlex isPixel node direction wrap cs frame).children.map RenderTree.rect) ↔
      cs = [] ∨ FlexSound (flexBox isPixel direction wrap cs frame) cs
        (SizesFit isPixel (isRow direction) cs frame) := by
  cases cs with
  | nil =>
      refine iff_of_true ?_ (.inl rfl)
      constructor <;> simp [layoutFlex,RenderTree.children,RenderTree.u,Content.children]
  | cons c cs =>
      have hb := flexBox_regular isPixel direction wrap (c::cs) hw hh
      have hrects : (layoutFlex isPixel node direction wrap (c::cs) frame).children.map
          RenderTree.rect = (flexBox isPixel direction wrap (c::cs) frame).rects
            (flexBox isPixel direction wrap (c::cs) frame).start (c::cs) := by
        rw [layoutFlex,if_neg (List.cons_ne_nil c cs)]
        exact place_limited _ hcs _
      rw [hrects]
      refine Iff.trans (FlexBox.rects_laid_iff hb c cs _) ?_
      simp

/-- Children of three by one cells. -/
def threeWide (n : ℕ) : List RenderTree :=
  List.replicate n (.mk { rect := ⟨0,0,3,1⟩ } (.leaf .input))

/-- Four such children wrap into two lines of a frame that is ten cells wide. -/
theorem layoutFlex_laid_twoLines :
    FlexLaid true true ⟨0,0,10,5⟩ (SizesFit false true (threeWide 4) ⟨0,0,10,5⟩)
      ((layoutFlex false {} none (some (bytes "wrap")) (threeWide 4) ⟨0,0,10,5⟩).children.map
        RenderTree.rect) := by
  refine (layoutFlex_laid_iff false {} none (some (bytes "wrap")) (threeWide 4) ⟨0,0,10,5⟩
    (by decide) (by decide) ?_).mpr (.inr ⟨fun _ => rfl,fun _ _ => by decide +kernel,?_⟩)
  · unfold Unlimited
    decide +kernel
  · intro hwrap
    exact absurd hwrap (by decide +kernel)

/-- A row whose frame does not lie on the diagonal starts at the wrong height. -/
theorem row_starts_at_left_offset :
    (layoutFlex false {} none none (threeWide 1) ⟨0,2,10,5⟩).children.map RenderTree.rect =
        [⟨0,0,3,1⟩] ∧
      ¬FlexLaid true false ⟨0,2,10,5⟩ (SizesFit false true (threeWide 1) ⟨0,2,10,5⟩)
        ((layoutFlex false {} none none (threeWide 1) ⟨0,2,10,5⟩).children.map
          RenderTree.rect) := by
  have hrects : (layoutFlex false {} none none (threeWide 1) ⟨0,2,10,5⟩).children.map
      RenderTree.rect = [⟨0,0,3,1⟩] := by decide +kernel
  refine ⟨hrects,fun h => ?_⟩
  have hlines := h.lines rfl _ _ hrects
  exact absurd hlines.2.1 (by decide)

end Filly.Layout
