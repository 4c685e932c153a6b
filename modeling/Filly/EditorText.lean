import Filly.EditorFiles
import Filly.InputLine

/-!
# The text of an editor

An editor stands for one text with a cursor in it, whatever its lines and rows are. The
keys are described on that text: most add or remove one byte or move over one, the
vertical ones go to a row and column, and `^D` takes a line out. The editor in memory
keeps to this for the characters up to 127.
-/
namespace Filly.TextEditor
open CJson SessionLoop CBuffers Runs
open InputLine (Line)
open Keys hiding Event

/-! ## A text with a cursor -/

/-- The text of some lines, with the cursor at a column or at the end of a shorter line. -/
def place (lines : List Bytes) (row col : ℕ) : Line :=
  ⟨(lines.take row).flatMap (·++[10])++(lines.getD row []).take col,
    (lines.getD row []).drop col++(lines.drop (row+1)).flatMap (10::·)⟩

/-- The lines of a text. -/
def textLines (l : Line) : List Bytes := l.text.splitOn 10

/-- The number of the line with the cursor. -/
def textRow (l : Line) : ℕ := (l.before.splitOn 10).length-1

/-- The number of bytes before the cursor in its line. -/
def textCol (l : Line) : ℕ := ((l.before.splitOn 10).getLastD []).length

/-- The cursor goes to a row, at the same column as far as the row has it. -/
def toRow (row : ℕ) (l : Line) : Line := place (textLines l) row (textCol l)

/-- A line is taken out and the cursor put at the start of the next one. -/
def deleteLine (l : Line) : Line :=
  let lines := (textLines l).eraseIdx (textRow l)
  place lines (min (textRow l) (lines.length-1)) 0

/-- What a key does to a text; a page has that many rows. The only line is not deleted. -/
def textKey (page : ℤ) (code : KeyCode) (ch : UInt8) (l : Line) : Line :=
  let last := (textLines l).length-1
  match code with
  | .keyUp => toRow (textRow l-1) l
  | .keyDown => toRow (min (textRow l+1) last) l
  | .keyPageup => toRow (textRow l-page).toNat l
  | .keyPagedown => toRow (min (textRow l+page).toNat last) l
  | .keyHome => place (textLines l) (textRow l) 0
  | .keyEnd => place (textLines l) (textRow l) l.text.length
  | .keyEnter => l.edit .keyChar 10
  | .keyChar =>
      if ch = 4 then if 1 < (textLines l).length then deleteLine l else l
      else if ch = 9 ∨ 32 ≤ ch then l.edit .keyChar ch
      else l
  | .keyLeft | .keyRight | .keyBackspace | .keyDelete => l.edit code ch
  | _ => l

/-! ## Lines and their text -/

/-- The text around a cursor between two halves of a line. -/
def around (A : List Bytes) (p q : Bytes) (B : List Bytes) : Line :=
  ⟨A.flatMap (·++[10])++p,q++B.flatMap (10::·)⟩

theorem place_around (A : List Bytes) (p q : Bytes) (B : List Bytes) :
    place (A++(p++q)::B) A.length p.length = around A p q B := by
  simp [place,around,List.getD_eq_getElem?_getD]

theorem splitOn_above {A : List Bytes} (hA : ∀ t ∈ A, 10 ∉ t) (rest : Bytes) :
    (A.flatMap (·++[10])++rest).splitOn 10 = A++rest.splitOn 10 := by
  induction A with
  | nil => rfl
  | cons t A ih =>
      have ht := hA t List.mem_cons_self
      rw [List.flatMap_cons,List.append_assoc,List.append_assoc,List.singleton_append,
        List.splitOn_append_cons_self_of_not_mem ht,ih fun u hu => hA u (List.mem_cons_of_mem _ hu)]
      rfl

theorem splitOn_below {t : Bytes} (ht : 10 ∉ t) {B : List Bytes} (hB : ∀ t ∈ B, 10 ∉ t) :
    (t++B.flatMap (10::·)).splitOn 10 = t::B := by
  induction B generalizing t with
  | nil => rw [List.flatMap_nil,List.append_nil,List.splitOn_eq_singleton ht]
  | cons u B ih =>
      rw [List.flatMap_cons,List.cons_append,List.splitOn_append_cons_self_of_not_mem ht,
        ih (hB u List.mem_cons_self) fun v hv => hB v (List.mem_cons_of_mem _ hv)]

section Around

variable {A B : List Bytes} {p q : Bytes}

/-- No line has a line end in it. -/
structure Clean (A : List Bytes) (p q : Bytes) (B : List Bytes) : Prop where
  above : ∀ t ∈ A, 10 ∉ t
  front : 10 ∉ p
  back : 10 ∉ q
  below : ∀ t ∈ B, 10 ∉ t

theorem textLines_around (h : Clean A p q B) : textLines (around A p q B) = A++(p++q)::B := by
  have hline : 10 ∉ p++q := by
    rw [List.mem_append,not_or]
    exact ⟨h.front,h.back⟩
  have htext : (around A p q B).text = A.flatMap (·++[10])++((p++q)++B.flatMap (10::·)) := by
    simp [around,Line.text]
  rw [textLines,htext,splitOn_above h.above,splitOn_below hline h.below]

theorem textRow_around (h : Clean A p q B) : textRow (around A p q B) = A.length := by
  rw [textRow,around,splitOn_above h.above,List.splitOn_eq_singleton h.front]
  simp

theorem textCol_around (h : Clean A p q B) : textCol (around A p q B) = p.length := by
  rw [textCol,around,splitOn_above h.above,List.splitOn_eq_singleton h.front]
  simp

end Around

/-! ## The list of lines follows the text -/

variable {β : Type} {d : TextEditorData} {A B : List Bytes} {p q : Bytes}

/-- The cursor is between two halves of a line. -/
structure Cursor (d : TextEditorData) (A : List Bytes) (p q : Bytes) (B : List Bytes) : Prop where
  lines : d.lines = A++(p++q)::B
  row : d.row = A.length
  col : d.col = p.length
  clean : Clean A p q B

/-- The editor stands for the text. -/
structure Shows (d : TextEditorData) (l : Line) : Prop where
  text : l = place d.lines d.row d.col
  clean : ∀ t ∈ d.lines, 10 ∉ t

theorem Cursor.shows (h : Cursor d A p q B) : Shows d (around A p q B) := by
  refine ⟨by rw [h.lines,h.row,h.col,place_around],fun t ht => ?_⟩
  rw [h.lines,List.mem_append,List.mem_cons] at ht
  rcases ht with ht | rfl | ht
  · exact h.clean.above t ht
  · rw [List.mem_append,not_or]
    exact ⟨h.clean.front,h.clean.back⟩
  · exact h.clean.below t ht

theorem Shows.cursor {l : Line} (h : Shows d l) (hd : d.Within) :
    ∃ A p q B, Cursor d A p q B ∧ l = around A p q B := by
  obtain ⟨hrow,hcol⟩ := hd
  obtain ⟨A,B,hsplit,hA⟩ := exists_split hrow
  have hline : d.line = d.lines[d.row] := line_of_lines hsplit hA.symm
  rw [hline] at hcol
  generalize d.lines[d.row] = t at hsplit hcol
  have hclean := h.clean
  rw [hsplit] at hclean
  simp only [List.mem_append,List.mem_cons] at hclean
  have hcursor : Cursor d A (t.take d.col) (t.drop d.col) B := by
    refine ⟨by rw [List.take_append_drop,hsplit],hA.symm,(List.length_take_of_le hcol).symm,
      fun u hu => hclean u (Or.inl hu),fun hten => ?_,fun hten => ?_,
      fun u hu => hclean u (Or.inr (Or.inr hu))⟩
    · exact hclean t (Or.inr (Or.inl rfl)) (List.mem_of_mem_take hten)
    · exact hclean t (Or.inr (Or.inl rfl)) (List.mem_of_mem_drop hten)
  exact ⟨A,_,_,B,hcursor,h.text.trans hcursor.shows.text.symm⟩

theorem Shows.touch {l : Line} (h : Shows d l) : Shows d.touch l := ⟨h.text,h.clean⟩

theorem Cursor.touch (h : Cursor d A p q B) : Cursor d.touch A p q B :=
  ⟨h.lines,h.row,h.col,h.clean⟩

/-- A column behind the end of a line is at its end. -/
theorem place_min (lines : List Bytes) (row col : ℕ) :
    place lines row (min col (lines.getD row []).length) = place lines row col := by
  have htake : ∀ t : Bytes, t.take (min col t.length) = t.take col ∧
      t.drop (min col t.length) = t.drop col := by
    intro t
    rcases le_total col t.length with h | h
    · rw [min_eq_left h]
      exact ⟨rfl,rfl⟩
    · rw [min_eq_right h,List.take_length,List.drop_length,List.take_of_length_le h,
        List.drop_eq_nil_of_le h]
      exact ⟨rfl,rfl⟩
  obtain ⟨hfront,hback⟩ := htake (lines.getD row [])
  rw [place,place,hfront,hback]

/-- A clamped cursor is where it should go. -/
theorem shows_clamp {e : TextEditorData} (hclean : ∀ t ∈ e.lines, 10 ∉ t)
    (hrow : e.row < e.lines.length) :
    Shows (SessionLoop.teClampCursor e).touch (place e.lines e.row e.col) := by
  have hlines : e.lines ≠ [] := List.ne_nil_of_length_pos (by omega)
  have hmin : min e.row (e.lines.length-1) = e.row := min_eq_left (by omega)
  unfold SessionLoop.teClampCursor
  simp only [if_neg hlines,hmin]
  exact ⟨(place_min e.lines e.row e.col).symm,hclean⟩

/-! ## Each key -/

namespace Cursor

theorem textLines (h : Cursor d A p q B) : textLines (around A p q B) = d.lines := by
  rw [textLines_around h.clean,h.lines]

theorem textRow (h : Cursor d A p q B) : textRow (around A p q B) = d.row := by
  rw [textRow_around h.clean,h.row]

theorem textCol (h : Cursor d A p q B) : textCol (around A p q B) = d.col := by
  rw [textCol_around h.clean,h.col]

theorem row_lt (h : Cursor d A p q B) : d.row < d.lines.length := by
  rw [h.row,h.lines]
  simp

theorem line (h : Cursor d A p q B) : d.line = p++q := line_of_lines h.lines h.row

/-- The cursor goes to a row. -/
theorem toRow (h : Cursor d A p q B) {row : ℕ} (hrow : row < d.lines.length) :
    Shows (SessionLoop.teClampCursor { d with row := row }).touch
      (toRow row (around A p q B)) := by
  rw [TextEditor.toRow,h.textLines,h.textCol]
  exact shows_clamp (e := { d with row := row }) h.shows.clean hrow

/-- The cursor stays where it is put within the lines. -/
theorem clamp (h : Cursor d A p q B) :
    Shows (SessionLoop.teClampCursor d).touch (around A p q B) := by
  rw [h.shows.text]
  exact shows_clamp h.shows.clean h.row_lt

/-- The cursor is before the line end above it. -/
theorem above {t : Bytes} (h : Cursor d (A++[t]) [] q B) :
    Cursor { d with row := d.row-1, col := (d.lines.getD (d.row-1) []).length }
      A t [] (q::B) := by
  have hrow : d.row-1 = A.length := by
    rw [h.row]
    simp
  have ht : d.lines.getD A.length [] = t := by
    rw [h.lines]
    simp [List.getD_eq_getElem?_getD]
  refine ⟨?_,hrow,by rw [hrow,ht],fun u hu => h.clean.above u (List.mem_append_left _ hu),
    h.clean.above t (by simp),List.not_mem_nil,fun u hu => ?_⟩
  · dsimp only
    rw [h.lines]
    simp
  · rcases List.mem_cons.1 hu with rfl | hu
    · exact h.clean.back
    · exact h.clean.below u hu

theorem left (h : Cursor d A p q B) :
    Shows (SessionLoop.teClampCursor
      (if 0 < d.col then { d with col := d.col-1 }
       else if 0 < d.row then
        { d with row := d.row-1, col := (d.lines.getD (d.row-1) []).length }
       else d)).touch ((around A p q B).edit .keyLeft 0) := by
  rcases List.eq_nil_or_concat p with rfl | ⟨p,x,rfl⟩
  · rw [if_neg (by rw [h.col]; exact lt_irrefl _)]
    rcases List.eq_nil_or_concat A with rfl | ⟨A,t,rfl⟩
    · rw [if_neg (by rw [h.row]; exact lt_irrefl _)]
      exact h.clamp
    · rw [List.concat_eq_append] at h ⊢
      rw [if_pos (by rw [h.row]; simp)]
      have hline : (around (A++[t]) [] q B).edit .keyLeft 0 = around A t [] (q::B) := by
        simp [around,Line.edit]
      rw [hline]
      exact h.above.clamp
  · rw [List.concat_eq_append] at h ⊢
    have hcol : d.col-1 = p.length := by
      rw [h.col]
      simp
    have hline : (around A (p++[x]) q B).edit .keyLeft 0 = around A p (x::q) B := by
      simp [around,Line.edit]
    have hmoved : Cursor { d with col := d.col-1 } A p (x::q) B := by
      obtain ⟨habove,hfront,hback,hbelow⟩ := h.clean
      simp only [List.mem_append,List.mem_singleton,not_or] at hfront
      refine ⟨by simpa using h.lines,h.row,hcol,habove,hfront.1,?_,hbelow⟩
      rw [List.mem_cons,not_or]
      exact ⟨hfront.2,hback⟩
    rw [if_pos (by rw [h.col]; simp),hline]
    exact hmoved.clamp

theorem right (h : Cursor d A p q B) :
    Shows (SessionLoop.teClampCursor
      (if d.col < d.line.length then { d with col := d.col+1 }
       else if d.row+1 < d.lines.length then { d with row := d.row+1, col := 0 }
       else d)).touch ((around A p q B).edit .keyRight 0) := by
  obtain ⟨habove,hfront,hback,hbelow⟩ := h.clean
  have hline := h.line
  have hcol := h.col
  have hrow := h.row
  have hlines := h.lines
  cases q with
  | nil =>
      rw [if_neg (by rw [hcol,hline]; simp)]
      cases B with
      | nil =>
          rw [if_neg (by rw [hrow,hlines]; simp)]
          have hstay : (around A p [] []).edit .keyRight 0 = around A p [] [] := by
            simp [around,Line.edit]
          rw [hstay]
          exact h.clamp
      | cons u B =>
          rw [if_pos (by rw [hrow,hlines]; simp)]
          have hnext : (around A p [] (u::B)).edit .keyRight 0 = around (A++[p]) [] u B := by
            simp [around,Line.edit]
          have hmoved : Cursor { d with row := d.row+1, col := 0 } (A++[p]) [] u B := by
            refine ⟨by simpa using hlines,by simp [hrow],rfl,fun t ht => ?_,List.not_mem_nil,
              hbelow u List.mem_cons_self,fun t ht => hbelow t (List.mem_cons_of_mem _ ht)⟩
            rw [List.mem_append,List.mem_singleton] at ht
            exact ht.elim (habove t) fun ht => ht ▸ hfront
          rw [hnext]
          exact hmoved.clamp
  | cons x q =>
      rw [if_pos (by rw [hcol,hline]; simp)]
      have hnext : (around A p (x::q) B).edit .keyRight 0 = around A (p++[x]) q B := by
        simp [around,Line.edit]
      have hmoved : Cursor { d with col := d.col+1 } A (p++[x]) q B := by
        rw [List.mem_cons,not_or] at hback
        refine ⟨by simpa using hlines,hrow,by simp [hcol],habove,?_,hback.2,hbelow⟩
        rw [List.mem_append,List.mem_singleton,not_or]
        exact ⟨hfront,hback.1⟩
      rw [hnext]
      exact hmoved.clamp

theorem delete (h : Cursor d A p q B) :
    Shows (if d.col < d.line.length then d.setLine (d.line.eraseIdx d.col)
      else if d.row+1 < d.lines.length then d.joinNext else d)
      ((around A p q B).edit .keyDelete 0) := by
  obtain ⟨habove,hfront,hback,hbelow⟩ := h.clean
  have hline := h.line
  have hcol := h.col
  have hrow := h.row
  have hlines := h.lines
  cases q with
  | nil =>
      rw [if_neg (by rw [hcol,hline]; simp)]
      cases B with
      | nil =>
          rw [if_neg (by rw [hrow,hlines]; simp)]
          exact h.shows
      | cons u B =>
          rw [if_pos (by rw [hrow,hlines]; simp),
            joinNext_of_lines (hlines.trans (by rw [List.append_nil])) hrow]
          have hjoined : Cursor { d with lines := A++(p++u)::B } A p u B :=
            ⟨rfl,hrow,hcol,habove,hfront,hbelow u List.mem_cons_self,
              fun t ht => hbelow t (List.mem_cons_of_mem _ ht)⟩
          exact hjoined.shows
  | cons x q =>
      have herase : d.line.eraseIdx d.col = p++q := by
        rw [hline,hcol]
        simp [List.eraseIdx_append_of_length_le]
      rw [if_pos (by rw [hcol,hline]; simp),herase,setLine_of_lines hlines hrow]
      rw [List.mem_cons,not_or] at hback
      have hcut : Cursor { d with lines := A++(p++q)::B } A p q B :=
        ⟨rfl,hrow,hcol,habove,hfront,hback.2,hbelow⟩
      exact hcut.shows

theorem backspace (h : Cursor d A p q B) :
    Shows (if 0 < d.col then { d.setLine (d.line.eraseIdx (d.col-1)) with col := d.col-1 }
      else if 0 < d.row then
        ({ d with row := d.row-1, col := (d.lines.getD (d.row-1) []).length } :
          TextEditorData).joinNext
      else d) ((around A p q B).edit .keyBackspace 0) := by
  rcases List.eq_nil_or_concat p with rfl | ⟨p,x,rfl⟩
  · rw [if_neg (by rw [h.col]; exact lt_irrefl _)]
    rcases List.eq_nil_or_concat A with rfl | ⟨A,t,rfl⟩
    · rw [if_neg (by rw [h.row]; exact lt_irrefl _)]
      exact h.shows
    · rw [List.concat_eq_append] at h ⊢
      have habove := h.above
      have hlines := habove.lines
      rw [List.append_nil] at hlines
      have hjoined : Cursor { d with row := d.row-1, col := (d.lines.getD (d.row-1) []).length,
                                     lines := A++(t++q)::B } A t q B :=
        ⟨rfl,habove.row,habove.col,habove.clean.above,habove.clean.front,h.clean.back,
          h.clean.below⟩
      have hline : (around (A++[t]) [] q B).edit .keyBackspace 0 = around A t q B := by
        simp [around,Line.edit]
      rw [if_pos (by rw [h.row]; simp),joinNext_of_lines hlines habove.row,hline]
      exact hjoined.shows
  · rw [List.concat_eq_append] at h ⊢
    obtain ⟨habove,hfront,hback,hbelow⟩ := h.clean
    have hcol : d.col-1 = p.length := by
      rw [h.col]
      simp
    have herase : d.line.eraseIdx (d.col-1) = p++q := by
      rw [h.line,hcol]
      simp [List.eraseIdx_append_of_length_le]
    have hline : (around A (p++[x]) q B).edit .keyBackspace 0 = around A p q B := by
      simp [around,Line.edit]
    rw [List.mem_append,not_or] at hfront
    have hcut : Cursor { d with lines := A++(p++q)::B, col := d.col-1 } A p q B :=
      ⟨rfl,h.row,hcol,habove,hfront.1,hback,hbelow⟩
    rw [if_pos (by rw [h.col]; simp),herase,setLine_of_lines h.lines h.row,hline]
    exact hcut.shows

theorem enter (h : Cursor d A p q B) :
    Shows d.breakLine ((around A p q B).edit .keyChar 10) := by
  have hline : (around A p q B).edit .keyChar 10 = around (A++[p]) [] q B := by
    simp [around,Line.edit]
  have hbroken : Cursor { d with lines := A++p::q::B, row := A.length+1, col := 0 }
      (A++[p]) [] q B := by
    refine ⟨by simp,by simp,rfl,fun t ht => ?_,List.not_mem_nil,h.clean.back,h.clean.below⟩
    rw [List.mem_append,List.mem_singleton] at ht
    exact ht.elim (h.clean.above t) fun ht => ht ▸ h.clean.front
  rw [breakLine_of_lines h.lines h.row h.col,hline]
  exact hbroken.shows

theorem insert (h : Cursor d A p q B) {c : UInt8} (hc : c ≠ 10) :
    Shows { d.setLine (insertAt d.col c d.line) with col := d.col+1 }
      ((around A p q B).edit .keyChar c) := by
  have hinsert : insertAt d.col c d.line = p++c::q := by
    rw [h.line,h.col]
    simp [insertAt]
  have hline : (around A p q B).edit .keyChar c = around A (p++[c]) q B := by
    simp [around,Line.edit]
  have htyped : Cursor { d with lines := A++(p++c::q)::B, col := d.col+1 } A (p++[c]) q B := by
    refine ⟨by simp,h.row,by simp [h.col],h.clean.above,?_,h.clean.back,h.clean.below⟩
    rw [List.mem_append,List.mem_singleton,not_or]
    exact ⟨h.clean.front,hc.symm⟩
  rw [hinsert,setLine_of_lines h.lines h.row,hline]
  exact htyped.shows

theorem removeLine (h : Cursor d A p q B) :
    Shows d.removeLine (deleteLine (around A p q B)) := by
  have herase : d.lines.eraseIdx d.row = A++B := by
    rw [h.lines,h.row]
    simp [List.eraseIdx_append_of_length_le]
  have hlength : (A++B).length = d.lines.length-1 := by
    rw [h.lines]
    simp
  have hrow : (if (A++B).length ≤ A.length then (A++B).length-1 else A.length) =
      min A.length ((A++B).length-1) := by
    split_ifs
    all_goals omega
  rw [deleteLine,h.textLines,h.textRow,herase,removeLine_of_lines h.lines h.row,hrow,h.row]
  refine ⟨rfl,fun t ht => ?_⟩
  exact (List.mem_append.1 ht).elim (h.clean.above t) (h.clean.below t)

end Cursor

/-- No character above 127 comes in. -/
def Standard (code : KeyCode) (ch : UInt8) : Prop := code = .keyChar → ch < 128

instance decidableStandard (code : KeyCode) (ch : UInt8) : Decidable (Standard code ch) :=
  inferInstanceAs (Decidable (code = .keyChar → ch < 128))

/-- A byte up to 127 is taken as a character if it is a tab or no control character. -/
theorem taken_iff {ch : UInt8} (hch : ch < 128) : 32 ≤ ch.toInt8 ∨ ch = 9 ↔ ch = 9 ∨ 32 ≤ ch := by
  have hall : ∀ n < 128, (32 ≤ (UInt8.ofNat n).toInt8 ∨ UInt8.ofNat n = 9 ↔
      UInt8.ofNat n = 9 ∨ 32 ≤ UInt8.ofNat n) := by decide
  have h := hall ch.toNat hch
  rwa [UInt8.ofNat_toNat] at h

/-- Each key does to the lines what it does to the text. -/
theorem shows_key (sv : Services β) {code : KeyCode} {ch : UInt8} (hch : Standard code ch)
    (h : Cursor d A p q B) (hvisible : 0 ≤ d.visibleH) (b : β) :
    Shows (SessionLoop.textEditorHandleEvent sv code ch d b).2.1
      (textKey d.visibleH code ch (around A p q B)) := by
  have hrow := h.row_lt
  unfold SessionLoop.textEditorHandleEvent
  split
  · exact h.shows
  · rw [textKey,h.textRow]
    exact h.toRow (by omega)
  · simp only [textKey,h.textRow,h.textLines]
    split_ifs with hnext
    · rw [min_eq_left (by omega)]
      exact h.toRow hnext
    · rw [min_eq_right (by omega),show d.lines.length-1 = d.row by omega]
      exact h.toRow hrow
  · exact h.left
  · exact h.right
  · rw [textKey,h.textLines,h.textRow]
    exact ⟨rfl,h.shows.clean⟩
  · have hlong : d.line.length ≤ (around A p q B).text.length := by
      rw [h.line]
      simp [around,Line.text]
      omega
    rw [textKey,h.textLines,h.textRow,← place_min,← TextEditorData.line,min_eq_right hlong]
    exact ⟨rfl,h.shows.clean⟩
  · rw [textKey,h.textRow]
    exact h.toRow (by omega)
  · simp only [textKey,h.textRow,h.textLines]
    exact h.toRow (by omega)
  · have hdelete := h.delete
    split_ifs at hdelete ⊢
    · exact hdelete.touch
    · exact hdelete.touch
    · exact hdelete
  · exact h.enter.touch
  · have hback := h.backspace
    split_ifs at hback ⊢
    · exact hback.touch
    · exact hback.touch
    · exact hback.touch
  · have hchar : ch < 128 := hch rfl
    simp only [textKey,h.textLines]
    by_cases hsave : ch = 19
    · subst hsave
      exact h.shows.touch
    by_cases hdelete : ch = 4
    · simp only [if_neg hsave,if_pos hdelete]
      split_ifs
      · exact h.removeLine.touch
      · exact h.shows
    · simp only [if_neg hsave,if_neg hdelete,taken_iff hchar]
      split_ifs with htaken
      · refine (h.insert ?_).touch
        rintro rfl
        revert htaken
        decide
      · exact h.shows
  · unfold textKey
    split
    all_goals first | contradiction | exact h.shows

/-! ## Runs -/

@[simp] theorem teClampCursor_visibleH (d : TextEditorData) :
    (SessionLoop.teClampCursor d).visibleH = d.visibleH := by
  unfold SessionLoop.teClampCursor
  dsimp only
  split_ifs
  all_goals rfl

/-- Keys leave the height of the window. -/
theorem handleEvent_visibleH (sv : Services β) (code : KeyCode) (ch : UInt8) (d : TextEditorData)
    (b : β) : (SessionLoop.textEditorHandleEvent sv code ch d b).2.1.visibleH = d.visibleH := by
  unfold SessionLoop.textEditorHandleEvent
  split
  all_goals try split_ifs
  all_goals first | rfl | exact teClampCursor_visibleH _

/-- A key comes in, or the editor is drawn on a screen of that size. -/
inductive Act where
  | key (code : KeyCode) (ch : UInt8)
  | shown (w h : ℤ)
  deriving DecidableEq

/-- The editor after some actions, unless its memory was left, and its text. -/
structure Edited (β : Type) where
  editor : Option EditorBlock
  world : β
  line : Line
  page : ℤ

def start (filePath file content : Option Bytes) (b : β) : Edited β where
  editor := textEditorWidgetNew filePath file content
  world := b
  line := place (openedLines file content) 0 ((openedLines file content).headD []).length
  page := 20

def take (sv : Services β) (s : Edited β) : Act → Edited β
  | .key code ch =>
      let next := s.editor.bind fun d => textEditorHandleEvent sv code ch d s.world
      { editor := next.map fun x => x.2.1, world := (next.map fun x => x.2.2).getD s.world,
        line := textKey s.page code ch s.line, page := s.page }
  | .shown w h =>
      { s with editor := s.editor.bind fun d =>
                 textEditorRender sv { d with base := d.base.resize w h },
               page := max (sv.nineTenths h-4) 1 }

/-- The cursor is within the lines in memory. -/
def InBounds (s : Edited β) : Prop :=
  ∃ d, s.editor = some d ∧ 1 ≤ d.lineCount ∧ 0 ≤ d.row ∧ d.row < d.lineCount ∧
    ∃ block len, d.line d.row = some block ∧ strlen block 0 = some len ∧
      0 ≤ d.col ∧ d.col ≤ len

/-- The lines in memory are those of the text, and the cursor is at the same byte. -/
def Corresponds (s : Edited β) : Prop :=
  ∃ d lines, s.editor = some d ∧ d.lineCount = (lines.length:ℕ) ∧
    (∀ i : ℕ, (h : i < lines.length) →
      ((d.line i).bind fun block => textAt block 0) = some lines[i]) ∧
    s.line.text = [10].intercalate lines ∧
    (s.line.before.length:ℤ) = ((lines.take d.row.toNat).flatMap (·++[10])).length+d.col

def StandardAct : Act → Prop
  | .key code ch => Standard code ch
  | .shown _ _ => True

instance decidableStandardAct (act : Act) : Decidable (StandardAct act) := by
  cases act
  · exact decidableStandard _ _
  · exact isTrue trivial

/-- The memory holds an editor whose cursor is in place. -/
structure Kept (s : Edited β) (d : TextEditorData) : Prop where
  stored : ∃ b, s.editor = some b ∧ Stored b d
  within : d.Within
  flag : d.base.acceptsTextInput = true
  visible : 0 ≤ d.visibleH

/-- It stands for the text, too. -/
structure Reads (s : Edited β) (d : TextEditorData) : Prop extends Kept s d where
  shows : Shows d s.line
  page : d.visibleH = s.page

theorem Kept.inBounds {s : Edited β} (h : Kept s d) : InBounds s := by
  obtain ⟨b,hb,hstored⟩ := h.stored
  obtain ⟨hrow,hcol⟩ := h.within
  obtain ⟨block,hblock,hlen⟩ := Option.bind_eq_some_iff.1
    (hstored.strlen_getD hstored.row hrow)
  rw [← TextEditorData.line] at hlen
  have hcount := hstored.lineCount
  have hr := hstored.row
  have hc := hstored.col
  exact ⟨b,hb,by omega,by omega,by omega,block,_,hblock,hlen,by omega,by omega⟩

theorem text_around (A : List Bytes) (p q : Bytes) (B : List Bytes) :
    (around A p q B).text = [10].intercalate (A++(p++q)::B) := by
  have hbelow : ∀ (t : Bytes) (B : List Bytes), [10].intercalate (t::B) =
      t++B.flatMap (10::·) := by
    intro t B
    induction B generalizing t with
    | nil => simp [List.intercalate]
    | cons u B ih =>
        rw [List.intercalate_cons_of_ne_nil (List.cons_ne_nil u B),ih]
        simp
  have habove : ∀ A : List Bytes, [10].intercalate (A++(p++q)::B) =
      A.flatMap (·++[10])++[10].intercalate ((p++q)::B) := by
    intro A
    induction A with
    | nil => rfl
    | cons t A ih =>
        rw [List.cons_append,List.intercalate_cons_of_ne_nil (by simp),ih]
        simp
  rw [habove,hbelow]
  simp [around,Line.text]

theorem Reads.corresponds {s : Edited β} (h : Reads s d) : Corresponds s := by
  obtain ⟨b,hb,hstored⟩ := h.stored
  obtain ⟨A,p,q,B,hcursor,hline⟩ := h.shows.cursor h.within
  refine ⟨b,d.lines,hb,hstored.lineCount,fun i hi => ?_,?_,?_⟩
  · obtain ⟨slack,hslot⟩ := hstored.line hi
    rw [hslot]
    exact textAt_start (hstored.nonzero _ (List.getElem_mem hi)) _
  · rw [hline,text_around,hcursor.lines]
  · rw [hline,hstored.row,hstored.col,hcursor.lines,hcursor.row,hcursor.col]
    simp [around]

theorem kept_key (sv : Services β) {s : Edited β} (h : Kept s d) (code : KeyCode) (ch : UInt8) :
    Kept (take sv s (.key code ch))
      (SessionLoop.textEditorHandleEvent sv code ch d s.world).2.1 := by
  obtain ⟨b,hb,hstored⟩ := h.stored
  obtain ⟨b',hevent,hstored'⟩ := same_handleEvent sv code ch hstored h.within h.visible s.world
  have hvalid := @valid_textEditor Unit _ sv code ch s.world d
    ((valid_textEditor_iff d).2 ⟨h.within,h.flag⟩)
  rw [valid_textEditor_iff] at hvalid
  refine ⟨⟨b',?_,hstored'⟩,hvalid.1,hvalid.2,?_⟩
  · simp only [take,hb,Option.bind_some,hevent,Option.map_some]
  · rw [handleEvent_visibleH]
    exact h.visible

theorem kept_shown (sv : Services β) {s : Edited β} (h : Kept s d) (w height : ℤ) :
    Kept (take sv s (.shown w height))
      (SessionLoop.textEditorRender sv { d with base := d.base.resize w height }) := by
  obtain ⟨b,hb,hstored⟩ := h.stored
  have hresized : Stored { b with base := b.base.resize w height }
      { d with base := d.base.resize w height } :=
    { hstored with base := congrArg (WidgetBase.resize w height) hstored.base }
  obtain ⟨b',hrender,hstored'⟩ := stored_render sv hresized
    (List.ne_nil_of_length_pos (Nat.zero_lt_of_lt h.within.1))
  refine ⟨⟨b',?_,hstored'⟩,within_teClampCursor _,?_,?_⟩
  · simp only [take,hb,Option.bind_some,hrender]
  · rw [SessionLoop.textEditorRender,teClampCursor_base]
    exact h.flag
  · rw [SessionLoop.textEditorRender,teClampCursor_visibleH]
    exact le_trans zero_le_one (le_max_right _ _)

theorem reads_take (sv : Services β) {s : Edited β} (h : Reads s d) {act : Act}
    (hact : StandardAct act) : ∃ d', Reads (take sv s act) d' := by
  obtain ⟨A,p,q,B,hcursor,hline⟩ := h.shows.cursor h.within
  cases act with
  | key code ch =>
      refine ⟨_,kept_key sv h.toKept code ch,?_,?_⟩
      · have hkey := shows_key sv hact hcursor h.visible s.world
        rw [h.page,← hline] at hkey
        exact hkey
      · rw [handleEvent_visibleH]
        exact h.page
  | shown w height =>
      refine ⟨_,kept_shown sv h.toKept w height,?_,?_⟩
      · have hclamped : SessionLoop.textEditorRender sv { d with base := d.base.resize w height } =
            { d with base := d.base.resize w height, visibleH := max (sv.nineTenths height-4) 1,
                     scroll := (SessionLoop.textEditorRender sv
                       { d with base := d.base.resize w height }).scroll } :=
          teClampCursor_of_within h.within
        rw [hclamped]
        exact ⟨h.shows.text,h.shows.clean⟩
      · rw [SessionLoop.textEditorRender,teClampCursor_visibleH]
        rfl

/-! ## The lines at the start -/

theorem not_mem_splitOn (text : Bytes) : ∀ t ∈ text.splitOn 10, 10 ∉ t := by
  induction text with
  | nil => simp
  | cons c text ih =>
      rw [List.splitOn_cons_eq_if_modifyHead]
      split_ifs with hc
      · rw [List.forall_mem_cons]
        exact ⟨List.not_mem_nil,ih⟩
      · generalize text.splitOn 10 = lines at ih
        cases lines with
        | nil => exact ih
        | cons t lines =>
            rw [List.modifyHead_cons,List.forall_mem_cons]
            rw [List.forall_mem_cons] at ih
            refine ⟨?_,ih.2⟩
            rw [List.mem_cons,not_or]
            exact ⟨fun h => hc (by simp [h]),ih.1⟩

theorem clean_contentLines (content : Bytes) : ∀ t ∈ contentLines content, 10 ∉ t := by
  intro t ht
  unfold contentLines at ht
  dsimp only at ht
  split_ifs at ht
  · exact not_mem_splitOn content t ht
  · exact not_mem_splitOn content t (List.mem_of_mem_dropLast ht)

theorem clean_bufferLine (stream : Bytes) : 10 ∉ bufferLine (fgets stream).1 := by
  have hprefix : ∀ line : Bytes, 10 ∉ line → 10 ∉ bufferLine line := by
    intro line hline hten
    unfold bufferLine at hten
    dsimp only at hten
    split_ifs at hten
    · exact hline ((List.takeWhile_prefix _).mem (List.mem_of_mem_dropLast hten))
    · exact hline ((List.takeWhile_prefix _).mem hten)
  have hend : ∀ line : Bytes, 10 ∉ line → 10 ∉ bufferLine (line++[10]) := by
    intro line hline
    by_cases hnull : 0 ∈ line
    · obtain ⟨p,q,rfl,hp⟩ := List.eq_append_cons_of_mem hnull
      have hcut : bufferLine (p++0::q++[10]) = bufferLine p := by
        rw [bufferLine,bufferLine,List.append_assoc,List.cons_append,takeWhile_ne_append_cons hp,
          takeWhile_nul hp]
      rw [hcut]
      exact hprefix p fun h => hline (List.mem_append_left _ h)
    · have hnull' : 0 ∉ line++[10] := by simp [hnull]
      rw [bufferLine,takeWhile_nul hnull']
      simpa using hline
  unfold fgets
  dsimp only
  split_ifs with hten
  · exact hend _ fun h => by simpa using List.mem_takeWhile_imp h
  · exact hprefix _ hten

theorem clean_fileLines (file : Bytes) : ∀ t ∈ fileLines file, 10 ∉ t :=
  forall_fileLines clean_bufferLine file

theorem clean_openedLines (file content : Option Bytes) :
    ∀ t ∈ openedLines file content, 10 ∉ t :=
  forall_openedLines List.not_mem_nil (fun bytes _ => clean_fileLines bytes)
    fun text _ t ht => clean_contentLines text t (scannedLines_eq text ▸ ht)

theorem reads_start (filePath file : Option Bytes) {content : Option Bytes}
    (hcontent : ∀ text ∈ content, 0 ∉ text) (b : β) :
    Reads (start filePath file content b)
      (SessionLoop.textEditorWidgetNew filePath ((file.map fileLines).getD []) content) := by
  have hne := openedLines_ne_nil file content
  have hstored := stored_new filePath file hcontent
  rw [lines_new] at hstored ⊢
  refine ⟨⟨⟨_,rfl,hstored⟩,⟨List.length_pos_of_ne_nil hne,?_⟩,rfl,
    (by norm_num : (0:ℤ) ≤ 20)⟩,
    ⟨rfl,clean_openedLines file content⟩,rfl⟩
  cases hlines : openedLines file content with
  | nil => exact absurd hlines hne
  | cons t lines => exact le_rfl

theorem only_line {s : Edited β} (hs : s.editor = textEditorWidgetNew none none (some [97]))
    (h : Corresponds s) : s.line.text = [97] := by
  obtain ⟨d,lines,hd,hcount,hlines,htext,-⟩ := h
  obtain rfl : textEditorWidgetNew none none (some [97]) = d := Option.some.inj (hs ▸ hd)
  have hone : (textEditorWidgetNew none none (some [97])).lineCount = 1 := by decide
  obtain ⟨t,rfl⟩ : ∃ t, lines = [t] := List.length_eq_one_iff.1 (by omega)
  have ht : some t = some [97] := (hlines 0 (by simp)).symm.trans (by decide)
  rw [htext,Option.some.inj ht]
  rfl

end Filly.TextEditor
