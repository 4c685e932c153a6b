import Filly.CBuffers
import Filly.Hub

/-!
# The text editor in memory

`text_editor.c` has an array of pointers to its lines, each in an allocation of its own.
Lines are taken out of the array and put into it by moving the pointers behind them. The
model has the slots of the array with what they point to; slots behind the last line keep
whatever was left there. Whatever reads or writes outside an allocation has no outcome.

An editor in memory does what the editor of a session does with its list of lines.
-/
namespace Filly.TextEditor
open CJson SessionLoop CBuffers
open Keys hiding Event

structure EditorBlock where
  base : WidgetBase
  filePath : Option Bytes
  lines : List (Option Bytes)
  lineCount : ℤ
  row : ℤ
  col : ℤ
  scroll : ℤ
  visibleH : ℤ

namespace EditorBlock

/-- The allocation of a line. -/
def line (d : EditorBlock) (i : ℤ) : Option Bytes := do
  let slot ← readAt d.lines i 1
  slot.headD none

def setLine (i : ℤ) (block : Bytes) (d : EditorBlock) : Option EditorBlock := do
  return { d with lines := ← writeAt d.lines i [some block] }

def touch (d : EditorBlock) : EditorBlock := { d with base := d.base.touch }

/-- A line is freed and the pointers behind it are moved. -/
def removeLine (i : ℤ) (d : EditorBlock) : Option EditorBlock := do
  let lines ← writeAt d.lines i [none]
  let lines ← memcpy lines i lines (i+1) (d.lineCount-i-1)
  return { d with lines := lines, lineCount := d.lineCount-1 }

/-- The next line is put behind a line and removed. -/
def joinNext (i : ℤ) (d : EditorBlock) : Option EditorBlock := do
  let block ← d.line i
  let next ← d.line (i+1)
  let block ← strcat (realloc 0 block ((← strlen block 0)+(← strlen next 0)+1)) next
  let d ← d.setLine i block
  d.removeLine (i+1)

def deleteChar (d : EditorBlock) : Option EditorBlock := do
  let block ← d.line d.row
  let block ← memcpy block d.col block (d.col+1) (← strlen block d.col)
  d.setLine d.row block

/-- The first half of the line keeps its allocation. -/
def breakLine (d : EditorBlock) : Option EditorBlock := do
  let block ← d.line d.row
  let rest ← textAt block d.col
  let d ← d.setLine d.row (← writeAt block d.col [0])
  let d := { d with lineCount := d.lineCount+1 }
  let lines := realloc none d.lines d.lineCount
  let lines ← memcpy lines (d.row+2) lines (d.row+1) (d.lineCount-d.row-2)
  let lines ← writeAt lines (d.row+1) [some (rest++[0])]
  return { d with lines := lines, row := d.row+1, col := 0 }

def backspace (d : EditorBlock) : Option EditorBlock :=
  if 0 < d.col then do
    let block ← d.line d.row
    let block ← memcpy block (d.col-1) block d.col ((← strlen block d.col)+1)
    let d ← d.setLine d.row block
    return { d with col := d.col-1 }
  else if 0 < d.row then do
    let col ← strlen (← d.line (d.row-1)) 0
    let d ← d.joinNext (d.row-1)
    return { d with row := d.row-1, col := col }
  else some d

def insertChar (ch : UInt8) (d : EditorBlock) : Option EditorBlock := do
  let block ← d.line d.row
  let len ← strlen block 0
  let block := realloc 0 block (len+2)
  let block ← memcpy block (d.col+1) block d.col (len-d.col+1)
  let block ← writeAt block d.col [ch]
  let d ← d.setLine d.row block
  return { d with col := d.col+1 }

def deleteLine (d : EditorBlock) : Option EditorBlock := do
  let d ← d.removeLine d.row
  return { d with row := if d.lineCount ≤ d.row then d.lineCount-1 else d.row, col := 0 }

/-- All lines, each with its end. -/
def joined (d : EditorBlock) : Option Bytes :=
  (List.range d.lineCount.toNat).foldlM (fun full (i : ℕ) => do
    return full++(← textAt (← d.line i) 0)++[10]) []

end EditorBlock

def teClampCursor (d : EditorBlock) : Option EditorBlock := do
  let d := if d.lineCount = 0 then { d with lines := [some [0]], lineCount := 1 } else d
  let row := if d.lineCount ≤ d.row then d.lineCount-1 else d.row
  let row := if row < 0 then 0 else row
  let len ← strlen (← d.line row) 0
  let col := if len < d.col then len else d.col
  let col := if col < 0 then 0 else col
  let scroll := if row < d.scroll then row else d.scroll
  let scroll := if scroll+d.visibleH ≤ row then row-d.visibleH+1 else scroll
  return { d with row := row, col := col, scroll := if scroll < 0 then 0 else scroll }

variable {β : Type}

def teSave (sv : Services β) (d : EditorBlock) (b : β) : Option β :=
  match d.filePath with
  | none => some b
  | some path => d.joined.map fun text => sv.writeFile path text b

/-- The part of `text_editor_render` that changes the editor. -/
def textEditorRender (sv : Services β) (d : EditorBlock) : Option EditorBlock :=
  teClampCursor { d with visibleH := max (sv.nineTenths d.base.renderArea.h-4) 1 }

def textEditorHandleEvent (sv : Services β) (code : KeyCode) (ch : UInt8) (d : EditorBlock)
    (b : β) : Option (EventResult × EditorBlock × β) :=
  let handled (d : Option EditorBlock) := d.map fun d => (EventResult.handled,d.touch,b)
  match code with
  | .keyEsc => d.joined.map fun full => (answered (.string full),d,b)
  | .keyUp => handled (teClampCursor (if 0 < d.row then { d with row := d.row-1 } else d))
  | .keyDown =>
      handled (teClampCursor (if d.row+1 < d.lineCount then { d with row := d.row+1 } else d))
  | .keyLeft => handled do
      if 0 < d.col then teClampCursor { d with col := d.col-1 }
      else if 0 < d.row then
        teClampCursor { d with row := d.row-1, col := ← strlen (← d.line (d.row-1)) 0 }
      else teClampCursor d
  | .keyRight => handled do
      if d.col < (← strlen (← d.line d.row) 0) then teClampCursor { d with col := d.col+1 }
      else if d.row+1 < d.lineCount then teClampCursor { d with row := d.row+1, col := 0 }
      else teClampCursor d
  | .keyHome => handled (some { d with col := 0 })
  | .keyEnd => handled do return { d with col := ← strlen (← d.line d.row) 0 }
  | .keyPageup =>
      let row := d.row-d.visibleH
      handled (teClampCursor { d with row := if row < 0 then 0 else row })
  | .keyPagedown =>
      let row := d.row+d.visibleH
      handled (teClampCursor { d with row := if d.lineCount ≤ row then d.lineCount-1 else row })
  | .keyDelete => do
      if d.col < (← strlen (← d.line d.row) 0) then handled d.deleteChar
      else if d.row+1 < d.lineCount then handled (d.joinNext d.row)
      else some (.handled,d,b)
  | .keyEnter => handled d.breakLine
  | .keyBackspace => handled d.backspace
  | .keyChar =>
      if ch = 19 then (teSave sv d b).map fun b => (.handled,d.touch,b)
      else if ch = 4 then
        if 1 < d.lineCount then handled d.deleteLine else some (.handled,d,b)
      else if 32 ≤ ch.toInt8 ∨ ch = 9 then handled (d.insertChar ch)
      else some (.handled,d,b)
  | _ => some (.unhandled,d,b)

/-! ## What the memory holds -/

/-- Slots with the allocations of some lines, each with what is behind its end. -/
def slots (cells : List (Bytes × Bytes)) : List (Option Bytes) :=
  cells.map fun x => some (x.1++0::x.2)

/-- The memory of an editor with a list of lines. -/
structure Stored (b : EditorBlock) (d : TextEditorData) : Prop where
  base : b.base = d.base
  filePath : b.filePath = d.filePath
  lines : ∃ cells rest, b.lines = slots cells++rest ∧ cells.map Prod.fst = d.lines
  nonzero : ∀ line ∈ d.lines, 0 ∉ line
  lineCount : b.lineCount = d.lines.length
  row : b.row = d.row
  col : b.col = d.col
  scroll : b.scroll = d.scroll
  visibleH : b.visibleH = d.visibleH

/-! ## The operations in memory -/

namespace EditorBlock

variable {d : EditorBlock} {A M R : List (Option Bytes)} {i : ℤ}

theorem line_eq {block : Bytes} (h : d.lines = A++some block::R) (hi : i = A.length) :
    d.line i = some block := by
  have hread := readAt_append A [some block] R
  rw [List.append_assoc,List.singleton_append,← h] at hread
  rw [line,hi,show (1:ℤ) = ([some block] : List (Option Bytes)).length from rfl,hread]
  rfl

theorem writeAt_slot {slot : Option Bytes} (h : d.lines = A++slot::R) (hi : i = A.length)
    (new : Option Bytes) : writeAt d.lines i [new] = some (A++new::R) := by
  have hwrite := writeAt_append A R (b := [slot]) (m := [new]) rfl
  rw [List.append_assoc,List.singleton_append,← h,← hi] at hwrite
  rw [hwrite,List.append_assoc,List.singleton_append]

theorem setLine_eq {slot : Option Bytes} (h : d.lines = A++slot::R) (hi : i = A.length)
    (block : Bytes) : d.setLine i block = some { d with lines := A++some block::R } := by
  rw [setLine,writeAt_slot h hi]
  rfl

/-- The lines behind the removed one move up, and one slot more is left over. -/
theorem removeLine_eq {s : Option Bytes} (h : d.lines = A++s::(M++R)) (hi : i = A.length)
    (hcount : d.lineCount = A.length+1+M.length) :
    ∃ R', d.removeLine i = some { d with lines := A++M++R', lineCount := d.lineCount-1 } := by
  have hread : readAt (A++none::(M++R)) (i+1) (d.lineCount-i-1) = some M := by
    have hread := readAt_append (A++[none]) M R
    rw [show d.lineCount-i-1 = M.length by omega,
      show i+1 = (A++[(none : Option Bytes)]).length by rw [hi]; simp]
    rwa [List.append_assoc,List.append_assoc,List.singleton_append] at hread
  obtain ⟨last,R',hlast⟩ : ∃ gap R', none::(M++R) = gap++R' ∧ M.length = gap.length :=
    ⟨(none::M).take M.length,(none::M).drop M.length++R,by
      rw [← List.append_assoc,List.take_append_drop]; rfl,by simp⟩
  refine ⟨R',?_⟩
  rw [removeLine,writeAt_slot h hi]
  simp only [Option.bind_eq_bind,Option.bind_some,memcpy,hread]
  rw [hlast.1,hi,← List.append_assoc,writeAt_append A R' hlast.2]
  rfl

theorem joinNext_eq {t u s s' : Bytes} (ht : 0 ∉ t) (hu : 0 ∉ u)
    (h : d.lines = A++some (t++0::s)::some (u++0::s')::(M++R)) (hi : i = A.length)
    (hcount : d.lineCount = A.length+2+M.length) :
    ∃ slack R', d.joinNext i = some { d with lines := A++some (t++u++0::slack)::M++R',
                                             lineCount := d.lineCount-1 } := by
  have hcur : d.line i = some (t++0::s) := line_eq h hi
  have hnext : d.line (i+1) = some (u++0::s') := by
    refine line_eq (A := A++[some (t++0::s)]) (R := M++R) (by rw [h]; simp) ?_
    rw [hi]
    simp
  obtain ⟨c,hrealloc,hc⟩ := realloc_text 0 t s (show (t.length:ℤ)+1 ≤ t.length+u.length+1 by omega)
  obtain ⟨slack,hcat⟩ := strcat_eq ht hu s' (show u.length ≤ c.length by omega)
  have hset := setLine_eq h hi (t++u++0::slack)
  obtain ⟨R',hremove⟩ := removeLine_eq
    (d := { d with lines := A++some (t++u++0::slack)::some (u++0::s')::(M++R) })
    (A := A++[some (t++u++0::slack)]) (s := some (u++0::s')) (M := M) (R := R) (i := i+1)
    (by simp) (by rw [hi]; simp) (by rw [hcount]; simp; ring)
  refine ⟨slack,R',?_⟩
  simp only [joinNext,hcur,hnext,strlen_start ht,strlen_start hu,Option.bind_eq_bind,
    Option.bind_some,hrealloc,hcat,hset,hremove]
  simp

theorem deleteChar_eq {p q s : Bytes} {x : UInt8} (hq : 0 ∉ x::q)
    (h : d.lines = A++some (p++x::q++0::s)::R) (hrow : d.row = A.length)
    (hcol : d.col = p.length) :
    ∃ slack, d.deleteChar = some { d with lines := A++some (p++q++0::slack)::R } := by
  have hread : readAt (p++x::q++0::s) (d.col+1) ((x::q).length:ℕ) = some (q++[0]) := by
    have hread := readAt_append (p++[x]) (q++[0]) s
    rw [hcol]
    simpa using hread
  have hwrite : writeAt (p++x::q++0::s) d.col (q++[0]) = some (p++(q++[0])++0::s) := by
    rw [hcol,writeAt_append p _ (by simp)]
  have hlen : strlen (p++x::q++0::s) d.col = some (((x::q).length:ℕ):ℤ) := by
    rw [hcol,strlen_append p hq]
  refine ⟨0::s,?_⟩
  simp only [deleteChar,line_eq h hrow,hlen,memcpy,hread,hwrite,setLine_eq h hrow,
    Option.bind_eq_bind,Option.bind_some]
  simp

theorem backspace_char {p q s : Bytes} {x : UInt8} (hq : 0 ∉ q)
    (h : d.lines = A++some (p++x::q++0::s)::R) (hrow : d.row = A.length)
    (hcol : d.col = p.length+1) :
    ∃ slack, d.backspace = some { d with lines := A++some (p++q++0::slack)::R,
                                         col := p.length } := by
  have hread : readAt (p++x::q++0::s) d.col (q.length+1) = some (q++[0]) := by
    have hread := readAt_append (p++[x]) (q++[0]) s
    rw [hcol]
    simpa using hread
  have hpred : d.col-1 = p.length := by omega
  have hwrite : writeAt (p++x::q++0::s) p.length (q++[0]) = some (p++(q++[0])++0::s) :=
    writeAt_append p _ (by simp)
  have hlen : strlen (p++x::q++0::s) d.col = some (q.length:ℤ) := by
    have hlen := strlen_append (p++[x]) hq s
    rw [hcol]
    simpa using hlen
  refine ⟨0::s,?_⟩
  rw [backspace,if_pos (by omega)]
  simp only [line_eq h hrow,hlen,memcpy,hread,hpred,hwrite,setLine_eq h hrow,Option.bind_eq_bind,
    Option.bind_some]
  simp

theorem backspace_line {t u s s' : Bytes} (ht : 0 ∉ t) (hu : 0 ∉ u)
    (h : d.lines = A++some (t++0::s)::some (u++0::s')::(M++R)) (hrow : d.row = A.length+1)
    (hcol : d.col = 0) (hcount : d.lineCount = A.length+2+M.length) :
    ∃ slack R', d.backspace = some { d with lines := A++some (t++u++0::slack)::M++R',
                                            lineCount := d.lineCount-1, row := A.length,
                                            col := t.length } := by
  have hi : d.row-1 = A.length := by omega
  obtain ⟨slack,R',hjoin⟩ := joinNext_eq ht hu h hi hcount
  refine ⟨slack,R',?_⟩
  rw [backspace,if_neg (by omega),if_pos (by omega)]
  simp only [line_eq h hi,strlen_start ht,hjoin,Option.bind_eq_bind,Option.bind_some]
  rw [hi]
  rfl

theorem insertChar_eq {p q s : Bytes} (hp : 0 ∉ p) (hq : 0 ∉ q) (c : UInt8)
    (h : d.lines = A++some (p++q++0::s)::R) (hrow : d.row = A.length) (hcol : d.col = p.length) :
    ∃ slack, d.insertChar c = some { d with lines := A++some (p++c::q++0::slack)::R,
                                            col := p.length+1 } := by
  have hpq : 0 ∉ p++q := by simp [hp,hq]
  obtain ⟨rest,hrealloc,hrest⟩ := realloc_text 0 (p++q) s
    (show ((p++q).length:ℤ)+1 ≤ (p++q).length+2 by omega)
  obtain ⟨y,rfl⟩ : ∃ y, rest = [y] := List.length_eq_one_iff.1 (by omega)
  have hcount : ((p++q).length:ℤ)-d.col+1 = ((q++[0]).length:ℕ) := by
    rw [hcol]
    simp
  have hread : readAt (p++q++[0,y]) d.col ((q++[0]).length:ℕ) = some (q++[0]) := by
    have hread := readAt_append p (q++[0]) [y]
    rw [hcol]
    simpa using hread
  -- The byte at the cursor stays until the character is put over it.
  obtain ⟨x,hmoved⟩ : ∃ x, writeAt (p++q++[0,y]) (d.col+1) (q++[0]) = some (p++x::(q++[0])) := by
    obtain ⟨x,tail,hx⟩ : ∃ x tail, q++[0,y] = x::tail := by
      cases q with
      | nil => exact ⟨_,_,rfl⟩
      | cons x q => exact ⟨_,_,rfl⟩
    have hlength : tail.length = (q++[0]).length := by
      have hlength := congrArg List.length hx
      simp at hlength ⊢
      omega
    refine ⟨x,?_⟩
    have hwrite := writeAt_append (p++[x]) [] (b := tail) (m := q++[0]) hlength.symm
    rw [List.append_assoc p,hx,hcol]
    simpa using hwrite
  have hchar : writeAt (p++x::(q++[0])) d.col [c] = some (p++c::(q++[0])) := by
    have hwrite := writeAt_append p (q++[0]) (b := [x]) (m := [c]) rfl
    rw [hcol]
    simpa using hwrite
  refine ⟨[],?_⟩
  simp only [insertChar,line_eq h hrow,strlen_start hpq,hrealloc,memcpy,hcount,hread,hmoved,hchar,
    setLine_eq h hrow,Option.bind_eq_bind,Option.bind_some]
  rw [hcol]
  simp

/-- An array with one slot more than it has lines. -/
theorem realloc_slots (B R : List (Option Bytes)) {n : ℤ} (hn : n = B.length+1) :
    ∃ slot, realloc none (B++R) n = B++[slot] := by
  have hsize : n.toNat = B.length+1 := by omega
  rw [realloc,hsize,List.take_length_add_append,List.append_assoc]
  cases R with
  | nil => exact ⟨none,by simp⟩
  | cons slot R => exact ⟨slot,by simp⟩

/-- The lines move down by one slot. -/
theorem moveDown_eq (B M : List (Option Bytes)) (last : Option Bytes) :
    ∃ gap, memcpy (B++M++[last]) (B.length+1) (B++M++[last]) B.length M.length =
      some (B++gap::M) := by
  obtain ⟨gap,tail,hsplit⟩ : ∃ gap tail, M++[last] = gap::tail := by
    cases M with
    | nil => exact ⟨_,_,rfl⟩
    | cons slot M => exact ⟨_,_,rfl⟩
  have hlength : tail.length = M.length := by
    have hlength := congrArg List.length hsplit
    simpa using hlength.symm
  have hwrite := writeAt_append (B++[gap]) [] (b := tail) (m := M) hlength.symm
  refine ⟨gap,?_⟩
  rw [memcpy,readAt_append B M [last],Option.bind_some,List.append_assoc B,hsplit]
  simpa using hwrite

theorem breakLine_eq {p q s : Bytes} (hq : 0 ∉ q)
    (h : d.lines = A++some (p++q++0::s)::(M++R)) (hrow : d.row = A.length)
    (hcol : d.col = p.length) (hcount : d.lineCount = A.length+1+M.length) :
    ∃ slack, d.breakLine = some { d with lines := A++some (p++0::slack)::some (q++[0])::M,
                                         lineCount := d.lineCount+1, row := A.length+1,
                                         col := 0 } := by
  obtain ⟨x,slack,hx⟩ : ∃ x slack, q++0::s = x::slack := by
    cases q with
    | nil => exact ⟨_,_,rfl⟩
    | cons x q => exact ⟨_,_,rfl⟩
  have hcut : writeAt (p++q++0::s) d.col [0] = some (p++0::slack) := by
    have hwrite := writeAt_append p slack (b := [x]) (m := [0]) rfl
    rw [hcol,List.append_assoc p,hx]
    simpa using hwrite
  have hrest : textAt (p++q++0::s) d.col = some q := by rw [hcol,textAt_append p hq]
  have hgrown : (A++[some (p++0::slack)]++M).length+1 = d.lineCount+1 := by
    rw [hcount]
    simp
    ring
  obtain ⟨last,hrealloc⟩ := realloc_slots (A++[some (p++0::slack)]++M) R hgrown.symm
  obtain ⟨gap,hmoved⟩ := moveDown_eq (A++[some (p++0::slack)]) M last
  have hput : writeAt (A++[some (p++0::slack)]++gap::M) (d.row+1) [some (q++[0])] =
      some (A++[some (p++0::slack)]++some (q++[0])::M) := by
    have hwrite := writeAt_append (A++[some (p++0::slack)]) M (b := [gap])
      (m := [some (q++[0])]) rfl
    rw [hrow]
    simpa using hwrite
  have hfrom : d.row+1 = (A++[some (p++0::slack)]).length := by
    rw [hrow]
    simp
  have hto : d.row+2 = (A++[some (p++0::slack)]).length+1 := by omega
  have hnumber : d.lineCount+1-d.row-2 = M.length := by omega
  refine ⟨slack,?_⟩
  have hlines : A++some (p++0::slack)::(M++R) = A++[some (p++0::slack)]++M++R := by simp
  simp only [breakLine,line_eq h hrow,hrest,hcut,setLine_eq h hrow,Option.bind_eq_bind,
    Option.bind_some,hlines,hrealloc,hnumber,hto]
  rw [hfrom,hmoved]
  simp only [Option.bind_some]
  rw [← hfrom,hput,hrow]
  simp

theorem deleteLine_eq {slot : Option Bytes} (h : d.lines = A++slot::(M++R))
    (hrow : d.row = A.length) (hcount : d.lineCount = A.length+1+M.length) :
    ∃ R', d.deleteLine = some { d with lines := A++M++R', lineCount := d.lineCount-1, col := 0,
                                       row := if d.lineCount-1 ≤ d.row then d.lineCount-1-1
                                              else d.row } := by
  obtain ⟨R',hremove⟩ := removeLine_eq h hrow hcount
  exact ⟨R',by rw [deleteLine,hremove]; rfl⟩

end EditorBlock

/-! ## Both editors -/

variable {b : EditorBlock} {d : TextEditorData}

theorem exists_split {α : Type*} {l : List α} {i : ℕ} (hi : i < l.length) :
    ∃ A B, l = A++l[i]::B ∧ A.length = i :=
  ⟨l.take i,l.drop (i+1),by simp,by simp; omega⟩

theorem slots_append (A B : List (Bytes × Bytes)) : slots (A++B) = slots A++slots B :=
  List.map_append

theorem Stored.line (hb : Stored b d) {i : ℕ} (hi : i < d.lines.length) :
    ∃ slack, b.line i = some (d.lines[i]++0::slack) := by
  obtain ⟨cells,rest,hlines,hcells⟩ := hb.lines
  have hi' : i < cells.length := by rw [← List.length_map (f := Prod.fst),hcells]; exact hi
  have hcell : d.lines[i] = cells[i].1 := by simp [← hcells]
  obtain ⟨A,B,hsplit,hA⟩ := exists_split hi'
  refine ⟨cells[i].2,EditorBlock.line_eq (A := slots A) (R := slots B++rest) ?_ ?_⟩
  · rw [hlines,hcell]
    conv_lhs => rw [hsplit]
    rw [slots_append,List.append_assoc]
    rfl
  · rw [slots,List.length_map,hA]

theorem Stored.strlen_line (hb : Stored b d) {i : ℕ} (hi : i < d.lines.length) :
    ((b.line i).bind fun block => strlen block 0) = some (d.lines[i].length:ℤ) := by
  obtain ⟨slack,hline⟩ := hb.line hi
  rw [hline,Option.bind_some,strlen_start (hb.nonzero _ (List.getElem_mem hi))]

theorem Stored.joined (hb : Stored b d) : b.joined = some (d.lines.flatMap (·++[10])) := by
  have hfold : ∀ n ≤ d.lines.length, (List.range n).foldlM (fun full (i : ℕ) => do
      return full++(← textAt (← b.line i) 0)++[10]) [] =
        some ((d.lines.take n).flatMap (·++[10])) := by
    intro n hn
    induction n with
    | zero => rfl
    | succ n ih =>
        obtain ⟨slack,hline⟩ := hb.line hn
        have htext : textAt (d.lines[n]++0::slack) 0 = some d.lines[n] :=
          textAt_start (hb.nonzero _ (List.getElem_mem hn)) _
        have htake : (d.lines.take (n+1)).flatMap (·++[10]) =
            (d.lines.take n).flatMap (·++[10])++(d.lines[n]++[10]) := by
          rw [List.take_succ_eq_append_getElem hn,List.flatMap_append]
          simp
        rw [List.range_succ,List.foldlM_append,ih (by omega),htake]
        simp only [Option.bind_eq_bind,Option.bind_some,List.foldlM_cons,hline,htext]
        simp
  have hall := hfold d.lines.length le_rfl
  rw [List.take_length] at hall
  rw [EditorBlock.joined,hb.lineCount]
  exact hall

theorem Stored.touch (hb : Stored b d) : Stored b.touch d.touch :=
  { hb with base := congrArg WidgetBase.touch hb.base }

/-- The cursor and the window are numbers that both have. -/
theorem Stored.place (hb : Stored b d) (row col : ℕ) (scroll visibleH : ℤ) :
    Stored { b with row := row, col := col, scroll := scroll, visibleH := visibleH }
      { d with row := row, col := col, scroll := scroll, visibleH := visibleH } :=
  ⟨hb.base,hb.filePath,hb.lines,hb.nonzero,hb.lineCount,rfl,rfl,rfl,rfl⟩

/-- Both editors clamp to the same place. -/
theorem Stored.teClampCursor (hb : Stored b d) (hlines : d.lines ≠ []) :
    ∃ b', TextEditor.teClampCursor b = some b' ∧ Stored b' (SessionLoop.teClampCursor d) := by
  have hpos := List.length_pos_of_ne_nil hlines
  obtain ⟨m,hm⟩ : ∃ m, min d.row (d.lines.length-1) = m := ⟨_,rfl⟩
  have hmlt : m < d.lines.length := by omega
  have hcount := hb.lineCount
  have hrow := hb.row
  have hcol := hb.col
  have hrows : (if (if b.lineCount ≤ b.row then b.lineCount-1 else b.row) < 0 then 0
      else if b.lineCount ≤ b.row then b.lineCount-1 else b.row) = (m:ℤ) := by
    split_ifs
    all_goals omega
  obtain ⟨slack,hslot⟩ := hb.line hmlt
  have htext := hb.nonzero _ (List.getElem_mem hmlt)
  obtain ⟨c,hc⟩ : ∃ c, min d.col d.lines[m].length = c := ⟨_,rfl⟩
  have hcols : max (if (d.lines[m].length:ℤ) < b.col then (d.lines[m].length:ℤ) else b.col) 0 =
      (c:ℤ) := by
    split_ifs
    all_goals omega
  have hget : d.lines.getD m [] = d.lines[m] := by
    rw [List.getD_eq_getElem?_getD,List.getElem?_eq_getElem hmlt]
    rfl
  have hclamp : SessionLoop.teClampCursor d = { d with
      row := m, col := c,
      scroll := max (if (if (m:ℤ) < d.scroll then (m:ℤ) else d.scroll)+d.visibleH ≤ m
        then m-d.visibleH+1 else if (m:ℤ) < d.scroll then (m:ℤ) else d.scroll) 0 } := by
    unfold SessionLoop.teClampCursor
    simp only [if_neg hlines,hm,TextEditorData.line,hget,hc]
  have hmax : ∀ n : ℤ, (if n < 0 then 0 else n) = max n 0 := by
    intro n
    split_ifs
    all_goals omega
  rw [hclamp]
  refine ⟨_,?_,hb.place _ _ _ _⟩
  unfold TextEditor.teClampCursor
  rw [if_neg (by omega)]
  dsimp only
  rw [hrows,hslot]
  simp only [Option.bind_eq_bind,Option.bind_some,strlen_start htext,hmax,hcols,hb.scroll,
    hb.visibleH]
  rfl

/-! ## The operations on a list of lines -/

section Lines

variable {A B : List Bytes} {t : Bytes}

theorem insertIdx_append (A B : List Bytes) (t : Bytes) :
    (A++B).insertIdx A.length t = A++t::B := by
  induction A with
  | nil => simp
  | cons u A ih => simp [ih]

theorem line_of_lines (h : d.lines = A++t::B) (hrow : d.row = A.length) : d.line = t := by
  simp [TextEditorData.line,h,hrow]

theorem setLine_of_lines (h : d.lines = A++t::B) (hrow : d.row = A.length) (u : Bytes) :
    d.setLine u = { d with lines := A++u::B } := by
  simp [TextEditorData.setLine,h,hrow]

theorem joinNext_of_lines {u : Bytes} (h : d.lines = A++t::u::B) (hrow : d.row = A.length) :
    d.joinNext = { d with lines := A++(t++u)::B } := by
  have hnext : d.lines.getD (d.row+1) [] = u := by
    simp [h,hrow,List.getD_eq_getElem?_getD]
  rw [TextEditorData.joinNext,hnext,line_of_lines h hrow,h,hrow]
  simp [List.eraseIdx_append_of_length_le]

theorem breakLine_of_lines {p q : Bytes} (h : d.lines = A++(p++q)::B) (hrow : d.row = A.length)
    (hcol : d.col = p.length) :
    d.breakLine = { d with lines := A++p::q::B, row := A.length+1, col := 0 } := by
  have hinsert : (A++p::B).insertIdx (A.length+1) q = A++p::q::B := by
    have h := insertIdx_append (A++[p]) B q
    simpa using h
  rw [TextEditorData.breakLine,line_of_lines h hrow,h,hrow,hcol]
  simp [hinsert]

theorem removeLine_of_lines (h : d.lines = A++t::B) (hrow : d.row = A.length) :
    d.removeLine = { d with lines := A++B, col := 0,
                            row := if (A++B).length ≤ A.length then (A++B).length-1
                                   else A.length } := by
  have herase : d.lines.eraseIdx A.length = A++B := by
    simp [h,List.eraseIdx_append_of_length_le]
  simp only [TextEditorData.removeLine,hrow,herase]

end Lines

/-- The memory and the lines around the cursor. -/
theorem Stored.split (hb : Stored b d) (hd : d.Within) :
    ∃ A B : List (Bytes × Bytes), ∃ p q slack rest,
      b.lines = slots A++some (p++q++0::slack)::(slots B++rest) ∧
      d.lines = A.map Prod.fst++(p++q)::B.map Prod.fst ∧ d.row = A.length ∧ d.col = p.length ∧
      0 ∉ p ∧ 0 ∉ q := by
  obtain ⟨hrow,hcol⟩ := hd
  obtain ⟨cells,rest,hlines,hcells⟩ := hb.lines
  have hi : d.row < cells.length := by rw [← List.length_map (f := Prod.fst),hcells]; exact hrow
  obtain ⟨A,B,hsplit,hA⟩ := exists_split hi
  generalize cells[d.row] = cell at hsplit
  obtain ⟨t,slack⟩ := cell
  have hd' : d.lines = A.map Prod.fst++t::B.map Prod.fst := by
    rw [← hcells,hsplit]
    simp
  have hline : d.line = t := line_of_lines hd' (by rw [List.length_map,hA])
  rw [hline] at hcol
  have ht : 0 ∉ t := hb.nonzero t (by rw [hd']; simp)
  refine ⟨A,B,t.take d.col,t.drop d.col,slack,rest,?_,?_,hA.symm,?_,?_,?_⟩
  · rw [hlines,hsplit,slots_append,List.take_append_drop,List.append_assoc]
    rfl
  · rw [List.take_append_drop,hd']
  · rw [List.length_take_of_le hcol]
  · exact fun h => ht (List.mem_of_mem_take h)
  · exact fun h => ht (List.mem_of_mem_drop h)

/-- New lines, with memory for them. -/
theorem Stored.change (hb : Stored b d) {cells : List (Bytes × Bytes)}
    (hcells : ∀ x ∈ cells, 0 ∉ x.1) (rest : List (Option Bytes)) {n : ℤ}
    (hn : n = cells.length) (row col : ℕ) :
    Stored { b with lines := slots cells++rest, lineCount := n, row := row, col := col }
      { d with lines := cells.map Prod.fst, row := row, col := col } where
  base := hb.base
  filePath := hb.filePath
  lines := ⟨cells,rest,rfl,rfl⟩
  nonzero line hline := by
    obtain ⟨x,hx,rfl⟩ := List.mem_map.1 hline
    exact hcells x hx
  lineCount := by rw [hn,List.length_map]
  row := rfl
  col := rfl
  scroll := hb.scroll
  visibleH := hb.visibleH

@[simp] theorem length_slots (cells : List (Bytes × Bytes)) :
    (slots cells).length = cells.length := List.length_map ..

/-- Where the cursor is in both. -/
structure At (b : EditorBlock) (d : TextEditorData) (A B : List (Bytes × Bytes)) (p q slack : Bytes)
    (rest : List (Option Bytes)) : Prop where
  stored : Stored b d
  memory : b.lines = slots A++some (p++q++0::slack)::(slots B++rest)
  lines : d.lines = A.map Prod.fst++(p++q)::B.map Prod.fst
  row : d.row = A.length
  col : d.col = p.length
  front : 0 ∉ p
  back : 0 ∉ q
  above : ∀ x ∈ A, 0 ∉ x.1
  below : ∀ x ∈ B, 0 ∉ x.1

theorem Stored.at (hb : Stored b d) (hd : d.Within) :
    ∃ A B p q slack rest, At b d A B p q slack rest := by
  obtain ⟨A,B,p,q,slack,rest,hmemory,hlines,hrow,hcol,hp,hq⟩ := hb.split hd
  refine ⟨A,B,p,q,slack,rest,hb,hmemory,hlines,hrow,hcol,hp,hq,fun x hx => ?_,fun x hx => ?_⟩
  all_goals
    apply hb.nonzero
    rw [hlines]
    simp only [List.mem_append,List.mem_cons,List.mem_map]
  · exact Or.inl ⟨x,hx,rfl⟩
  · exact Or.inr (Or.inr ⟨x,hx,rfl⟩)

namespace At

variable {A B : List (Bytes × Bytes)} {p q slack : Bytes} {rest : List (Option Bytes)}

theorem blockRow (h : At b d A B p q slack rest) : b.row = (slots A).length := by
  rw [h.stored.row,h.row,length_slots]

theorem blockCol (h : At b d A B p q slack rest) : b.col = p.length := by rw [h.stored.col,h.col]

theorem lineRow (h : At b d A B p q slack rest) : d.row = (A.map Prod.fst).length := by
  rw [h.row,List.length_map]

theorem line (h : At b d A B p q slack rest) : d.line = p++q := line_of_lines h.lines h.lineRow

theorem blockCount (h : At b d A B p q slack rest) :
    b.lineCount = (slots A).length+1+(slots B).length := by
  rw [h.stored.lineCount,h.lines]
  simp
  ring

/-- The line with the cursor is another one. -/
theorem changeLine (h : At b d A B p q slack rest) {t s : Bytes} (ht : 0 ∉ t) (col : ℕ) :
    Stored { b with lines := slots A++some (t++0::s)::(slots B++rest), col := col }
      { d.setLine t with col := col } := by
  have hcells : ∀ x ∈ A++(t,s)::B, 0 ∉ x.1 := by
    intro x hx
    simp only [List.mem_append,List.mem_cons] at hx
    rcases hx with hx | rfl | hx
    · exact h.above x hx
    · exact ht
    · exact h.below x hx
  have hcount : b.lineCount = (A++(t,s)::B).length := by
    rw [h.blockCount]
    simp
    ring
  have hchange := h.stored.change hcells rest hcount d.row col
  rw [slots_append,List.append_assoc] at hchange
  rw [setLine_of_lines h.lines h.lineRow]
  rw [List.map_append] at hchange
  have hrow : (d.row:ℤ) = b.row := h.stored.row.symm
  rw [hrow] at hchange
  exact hchange

theorem deleteChar (h : At b d A B p q slack rest) (hq : q ≠ []) :
    ∃ b', b.deleteChar = some b' ∧ Stored b' (d.setLine (d.line.eraseIdx d.col)) := by
  obtain ⟨x,q,rfl⟩ := List.exists_cons_of_ne_nil hq
  obtain ⟨s,hdelete⟩ := EditorBlock.deleteChar_eq h.back h.memory h.blockRow h.blockCol
  refine ⟨_,hdelete,?_⟩
  have herase : d.line.eraseIdx d.col = p++q := by
    rw [h.line,h.col]
    simp [List.eraseIdx_append_of_length_le]
  have hnonzero : 0 ∉ p++q := by
    have hback := h.back
    simp only [List.mem_append,List.mem_cons,not_or] at hback ⊢
    exact ⟨h.front,hback.2⟩
  rw [herase]
  have hchange := h.changeLine (t := p++q) (s := s) hnonzero d.col
  rw [← h.stored.col] at hchange
  exact hchange

theorem insertChar (h : At b d A B p q slack rest) {c : UInt8} (hc : c ≠ 0) :
    ∃ b', b.insertChar c = some b' ∧
      Stored b' { d.setLine (insertAt d.col c d.line) with col := d.col+1 } := by
  obtain ⟨s,hinsert⟩ := EditorBlock.insertChar_eq h.front h.back c h.memory h.blockRow h.blockCol
  refine ⟨_,hinsert,?_⟩
  have hnew : insertAt d.col c d.line = p++c::q := by
    rw [h.line,h.col]
    simp [insertAt]
  have hnonzero : 0 ∉ p++c::q := by
    simp only [List.mem_append,List.mem_cons,not_or]
    exact ⟨h.front,hc.symm,h.back⟩
  have hchange := h.changeLine (t := p++c::q) (s := s) hnonzero (p.length+1)
  rw [hnew,h.col]
  push_cast at hchange
  exact hchange

theorem backspaceChar (h : At b d A B p q slack rest) (hpos : 0 < d.col) :
    ∃ b', b.backspace = some b' ∧
      Stored b' { d.setLine (d.line.eraseIdx (d.col-1)) with col := d.col-1 } := by
  rw [h.col] at hpos
  obtain ⟨p,x,rfl⟩ : ∃ p' x, p = p'++[x] :=
    ⟨p.dropLast,p.getLast (List.ne_nil_of_length_pos hpos),(List.dropLast_concat_getLast _).symm⟩
  have hmemory : b.lines = slots A++some (p++x::q++0::slack)::(slots B++rest) := by
    rw [h.memory]
    simp
  have hcol := h.blockCol
  rw [List.length_append] at hcol
  obtain ⟨s,hback⟩ := EditorBlock.backspace_char h.back hmemory h.blockRow hcol
  refine ⟨_,hback,?_⟩
  have hcol' : d.col-1 = p.length := by rw [h.col]; simp
  have herase : d.line.eraseIdx (d.col-1) = p++q := by
    rw [h.line,hcol']
    simp [List.eraseIdx_append_of_length_le]
  have hnonzero : 0 ∉ p++q := by
    have hfront := h.front
    simp only [List.mem_append,not_or] at hfront ⊢
    exact ⟨hfront.1,h.back⟩
  rw [herase,hcol']
  exact h.changeLine hnonzero p.length

theorem breakLine (h : At b d A B p q slack rest) :
    ∃ b', b.breakLine = some b' ∧ Stored b' d.breakLine := by
  obtain ⟨s,hbreak⟩ := EditorBlock.breakLine_eq h.back h.memory h.blockRow h.blockCol h.blockCount
  refine ⟨_,hbreak,?_⟩
  have hcells : ∀ x ∈ A++(p,s)::(q,[])::B, 0 ∉ x.1 := by
    intro x hx
    simp only [List.mem_append,List.mem_cons] at hx
    rcases hx with hx | rfl | rfl | hx
    · exact h.above x hx
    · exact h.front
    · exact h.back
    · exact h.below x hx
  have hcount : b.lineCount+1 = (A++(p,s)::(q,[])::B).length := by
    rw [h.blockCount]
    simp
    ring
  have hchange := h.stored.change hcells [] hcount (A.length+1) 0
  rw [slots_append,List.map_append] at hchange
  rw [breakLine_of_lines h.lines h.lineRow h.col,List.length_map,length_slots]
  simpa [slots] using hchange

/-- The line with the cursor is removed. -/
theorem deleteLine (h : At b d A B p q slack rest) (hmore : 1 < d.lines.length) :
    ∃ b', b.deleteLine = some b' ∧ Stored b' d.removeLine := by
  obtain ⟨rest',hdelete⟩ := EditorBlock.deleteLine_eq h.memory h.blockRow h.blockCount
  refine ⟨_,hdelete,?_⟩
  have hcells : ∀ x ∈ A++B, 0 ∉ x.1 := by
    intro x hx
    exact (List.mem_append.1 hx).elim (h.above x) (h.below x)
  have hcount : b.lineCount-1 = (A++B).length := by
    rw [h.blockCount]
    simp
    ring
  have hpos : 1 < A.length+1+B.length := by
    rw [h.lines] at hmore
    simp at hmore
    omega
  have hrow : (if b.lineCount-1 ≤ b.row then b.lineCount-1-1 else b.row) =
      ((if (A++B).length ≤ A.length then (A++B).length-1 else A.length : ℕ):ℤ) := by
    rw [hcount,h.blockRow,length_slots,List.length_append]
    split_ifs
    all_goals omega
  have hchange := h.stored.change hcells rest' hcount
    (if (A++B).length ≤ A.length then (A++B).length-1 else A.length) 0
  rw [← hrow,slots_append] at hchange
  rw [removeLine_of_lines h.lines h.lineRow]
  simpa using hchange

theorem joinNext (h : At b d A B p q slack rest) (hq : q = []) (hnext : B ≠ []) :
    ∃ b', b.joinNext b.row = some b' ∧ Stored b' d.joinNext := by
  obtain ⟨⟨u,s'⟩,B,rfl⟩ := List.exists_cons_of_ne_nil hnext
  subst hq
  have hu : 0 ∉ u := h.below (u,s') List.mem_cons_self
  have hmemory : b.lines = slots A++some (p++0::slack)::some (u++0::s')::(slots B++rest) := by
    rw [h.memory,List.append_nil]
    rfl
  have hcount := h.blockCount
  obtain ⟨s,rest',hjoin⟩ := EditorBlock.joinNext_eq h.front hu hmemory h.blockRow (by
    rw [hcount]
    simp
    ring)
  refine ⟨_,hjoin,?_⟩
  have hcells : ∀ x ∈ A++(p++u,s)::B, 0 ∉ x.1 := by
    intro x hx
    simp only [List.mem_append,List.mem_cons] at hx
    rcases hx with hx | rfl | hx
    · exact h.above x hx
    · simp only [List.mem_append,not_or]
      exact ⟨h.front,hu⟩
    · exact h.below x (List.mem_cons_of_mem _ hx)
  have hcount' : b.lineCount-1 = (A++(p++u,s)::B).length := by
    rw [hcount]
    simp
    ring
  have hlines : d.lines = A.map Prod.fst++p::u::B.map Prod.fst := by
    rw [h.lines,List.append_nil]
    rfl
  have hchange := h.stored.change hcells rest' hcount' d.row d.col
  rw [joinNext_of_lines hlines h.lineRow]
  rw [← h.stored.row,← h.stored.col] at hchange
  simpa [slots] using hchange

theorem backspaceLine (h : At b d A B p q slack rest) (hcol : d.col = 0) (hrow : 0 < d.row) :
    ∃ b', b.backspace = some b' ∧ Stored b'
      ({ d with row := d.row-1, col := (d.lines.getD (d.row-1) []).length } :
        TextEditorData).joinNext := by
  rw [h.row] at hrow
  obtain ⟨A,⟨t,s⟩,rfl⟩ : ∃ A' x, A = A'++[x] :=
    ⟨A.dropLast,A.getLast (List.ne_nil_of_length_pos hrow),(List.dropLast_concat_getLast _).symm⟩
  obtain rfl : p = [] := List.length_eq_zero_iff.1 (h.col.symm.trans hcol)
  have ht : 0 ∉ t := h.above (t,s) (by simp)
  have hmemory : b.lines = slots A++some (t++0::s)::some (q++0::slack)::(slots B++rest) := by
    rw [h.memory,slots_append]
    simp [slots]
  have hblockRow : b.row = (slots A).length+1 := by
    rw [h.blockRow]
    simp
  have hblockCount : b.lineCount = (slots A).length+2+(slots B).length := by
    rw [h.blockCount]
    simp
    ring
  have hblockCol : b.col = 0 := by rw [h.stored.col,hcol]; rfl
  obtain ⟨s',rest',hback⟩ := EditorBlock.backspace_line ht h.back hmemory hblockRow hblockCol
    hblockCount
  refine ⟨_,hback,?_⟩
  have hlines : d.lines = A.map Prod.fst++t::q::B.map Prod.fst := by
    rw [h.lines]
    simp
  have hprev : d.row-1 = (A.map Prod.fst).length := by
    rw [h.row]
    simp
  have hget : d.lines.getD (d.row-1) [] = t := by
    rw [hlines,hprev]
    simp [List.getD_eq_getElem?_getD]
  have hcells : ∀ x ∈ A++(t++q,s')::B, 0 ∉ x.1 := by
    intro x hx
    simp only [List.mem_append,List.mem_cons] at hx
    rcases hx with hx | rfl | hx
    · exact h.above x (List.mem_append_left _ hx)
    · simp only [List.mem_append,not_or]
      exact ⟨ht,h.back⟩
    · exact h.below x hx
  have hcount : b.lineCount-1 = (A++(t++q,s')::B).length := by
    rw [hblockCount]
    simp
    ring
  have hchange := h.stored.change hcells rest' hcount A.length t.length
  rw [joinNext_of_lines (d := { d with row := d.row-1, col := _ }) hlines hprev,hget,hprev]
  simpa [slots] using hchange

end At

/-! ## Each key -/

/-- What both editors do with an event comes to the same. -/
def Same (x : Option (EventResult × EditorBlock × β)) (y : EventResult × TextEditorData × β) :
    Prop :=
  ∃ b', x = some (y.1,b',y.2.2) ∧ Stored b' y.2.1

theorem same_of_some {x : Option EditorBlock} {d' : TextEditorData}
    (h : ∃ b', x = some b' ∧ Stored b' d') (c : β) :
    Same (x.map fun d => (EventResult.handled,d.touch,c)) (.handled,d'.touch,c) := by
  obtain ⟨b',rfl,hb'⟩ := h
  exact ⟨b'.touch,rfl,hb'.touch⟩

/-- Both editors clamp after a move. -/
theorem same_clamp {b' : EditorBlock} {d' : TextEditorData} (hb : Stored b' d')
    {lines : List Bytes} (hlines : lines ≠ []) (c : β) (h : d'.lines = lines := by rfl) :
    Same ((teClampCursor b').map fun d => (EventResult.handled,d.touch,c))
      (.handled,(SessionLoop.teClampCursor d').touch,c) :=
  same_of_some (hb.teClampCursor (h ▸ hlines)) c

theorem Stored.move (hb : Stored b d) {row col : ℤ} {row' col' : ℕ} (hrow : row = row')
    (hcol : col = col') :
    Stored { b with row := row, col := col } { d with row := row', col := col' } :=
  ⟨hb.base,hb.filePath,hb.lines,hb.nonzero,hb.lineCount,hrow,hcol,hb.scroll,hb.visibleH⟩

theorem Stored.strlen_getD (hb : Stored b d) {i : ℤ} {j : ℕ} (hi : i = j)
    (hj : j < d.lines.length) :
    ((b.line i).bind fun block => strlen block 0) = some ((d.lines.getD j []).length:ℤ) := by
  rw [hi,hb.strlen_line hj,List.getD_eq_getElem?_getD,List.getElem?_eq_getElem hj]
  rfl

/-- A byte that is taken for a character is not null. -/
theorem ne_zero_of_taken {ch : UInt8} (h : 32 ≤ ch.toInt8 ∨ ch = 9) : ch ≠ 0 := by
  rintro rfl
  revert h
  decide

theorem same_teSave (sv : Services β) (hb : Stored b d) (c : β) :
    teSave sv b c = some (SessionLoop.teSave sv d c) := by
  rw [teSave,SessionLoop.teSave,hb.filePath]
  cases d.filePath with
  | none => rfl
  | some path =>
      dsimp only
      rw [hb.joined]
      rfl

/-- Each key does in memory what it does to the list of lines. -/
theorem same_handleEvent (sv : Services β) (code : KeyCode) (ch : UInt8) (hb : Stored b d)
    (hd : d.Within) (hvisible : 0 ≤ d.visibleH) (c : β) :
    Same (textEditorHandleEvent sv code ch b c) (SessionLoop.textEditorHandleEvent sv code ch d c) := by
  have hlines : d.lines ≠ [] := List.ne_nil_of_length_pos (Nat.zero_lt_of_lt hd.1)
  have hrow := hb.row
  have hcol := hb.col
  have hcount := hb.lineCount
  have hlen : ((b.line b.row).bind fun block => strlen block 0) = some (d.line.length:ℤ) :=
    hb.strlen_getD hrow hd.1
  obtain ⟨A,B,p,q,slack,rest,hat⟩ := hb.at hd
  have hcolPos : 0 < b.col ↔ 0 < d.col := by omega
  have hrowPos : 0 < b.row ↔ 0 < d.row := by omega
  have hmore : b.row+1 < b.lineCount ↔ d.row+1 < d.lines.length := by omega
  have hinLine : b.col < (d.line.length:ℤ) ↔ d.col < d.line.length := by omega
  obtain ⟨block,hblock,hstrlen⟩ := Option.bind_eq_some_iff.1 hlen
  unfold textEditorHandleEvent
  split
  · exact ⟨b,by rw [hb.joined]; rfl,hb⟩
  · simp only [SessionLoop.textEditorHandleEvent]
    refine same_clamp ?_ hlines c
    split_ifs
    · exact hb.move (by omega) hcol
    · exact hb.move (show b.row = _ by omega) hcol
  · simp only [SessionLoop.textEditorHandleEvent,hmore]
    by_cases h : d.row+1 < d.lines.length
    · simp only [if_pos h]
      exact same_clamp (hb.move (by omega) hcol) hlines c
    · simp only [if_neg h]
      exact same_clamp hb hlines c
  · simp only [SessionLoop.textEditorHandleEvent,hcolPos,hrowPos]
    by_cases h : 0 < d.col
    · simp only [if_pos h]
      exact same_clamp (hb.move hrow (by omega)) hlines c
    · simp only [if_neg h]
      by_cases h : 0 < d.row
      · have hprev : b.row-1 = ((d.row-1 : ℕ):ℤ) := by omega
        obtain ⟨block,hblock,hstrlen⟩ := Option.bind_eq_some_iff.1
          (hb.strlen_getD hprev (by have := hd.1; omega))
        simp only [if_pos h,hblock,hstrlen,Option.bind_eq_bind,Option.bind_some]
        exact same_clamp (hb.move hprev rfl) hlines c
      · simp only [if_neg h]
        exact same_clamp hb hlines c
  · simp only [SessionLoop.textEditorHandleEvent,hblock,hstrlen,Option.bind_eq_bind,
      Option.bind_some,hinLine,hmore]
    by_cases h : d.col < d.line.length
    · simp only [if_pos h]
      exact same_clamp (hb.move hrow (by omega)) hlines c
    · simp only [if_neg h]
      by_cases h : d.row+1 < d.lines.length
      · simp only [if_pos h]
        exact same_clamp (hb.move (by omega) rfl) hlines c
      · simp only [if_neg h]
        exact same_clamp hb hlines c
  · exact same_of_some ⟨_,rfl,hb.move hrow rfl⟩ c
  · refine same_of_some ⟨{ b with col := (d.line.length:ℤ) },?_,hb.move hrow rfl⟩ c
    simp only [hblock,hstrlen,Option.bind_eq_bind,Option.bind_some]
    rfl
  · have hup : (if b.row-b.visibleH < 0 then 0 else b.row-b.visibleH) =
        (((d.row-d.visibleH).toNat : ℕ):ℤ) := by
      have hvisibleH := hb.visibleH
      split_ifs
      all_goals omega
    exact same_clamp (hb.move hup hcol) hlines c
  · have hdown : (if b.lineCount ≤ b.row+b.visibleH then b.lineCount-1 else b.row+b.visibleH) =
        ((min (d.row+d.visibleH).toNat (d.lines.length-1) : ℕ):ℤ) := by
      have hvisibleH := hb.visibleH
      have hpos := hd.1
      split_ifs
      all_goals omega
    exact same_clamp (hb.move hdown hcol) hlines c
  · simp only [SessionLoop.textEditorHandleEvent,hblock,hstrlen,Option.bind_eq_bind,
      Option.bind_some,hinLine,hmore]
    by_cases h : d.col < d.line.length
    · simp only [if_pos h]
      refine same_of_some (hat.deleteChar ?_) c
      rintro rfl
      rw [hat.line,hat.col] at h
      simp at h
    · simp only [if_neg h]
      by_cases hnext : d.row+1 < d.lines.length
      · simp only [if_pos hnext]
        refine same_of_some (hat.joinNext ?_ ?_) c
        · rw [hat.line,hat.col] at h
          simpa using h
        · rintro rfl
          rw [hat.lines,hat.row] at hnext
          simp at hnext
      · simp only [if_neg hnext]
        exact ⟨b,rfl,hb⟩
  · exact same_of_some hat.breakLine c
  · simp only [SessionLoop.textEditorHandleEvent]
    by_cases h : 0 < d.col
    · simp only [if_pos h]
      exact same_of_some (hat.backspaceChar h) c
    · simp only [if_neg h]
      by_cases h' : 0 < d.row
      · simp only [if_pos h']
        exact same_of_some (hat.backspaceLine (by omega) h') c
      · simp only [if_neg h']
        refine same_of_some ⟨b,?_,hb⟩ c
        rw [EditorBlock.backspace,if_neg (by omega),if_neg (by omega)]
  · simp only [SessionLoop.textEditorHandleEvent]
    by_cases hsave : ch = 19
    · simp only [if_pos hsave]
      exact ⟨b.touch,by rw [same_teSave sv hb]; rfl,hb.touch⟩
    · simp only [if_neg hsave]
      by_cases hdelete : ch = 4
      · simp only [if_pos hdelete]
        by_cases h : 1 < d.lines.length
        · simp only [if_pos h]
          rw [if_pos (by omega)]
          exact same_of_some (hat.deleteLine h) c
        · simp only [if_neg h]
          rw [if_neg (by omega)]
          exact ⟨b,rfl,hb⟩
      · simp only [if_neg hdelete]
        by_cases htaken : 32 ≤ ch.toInt8 ∨ ch = 9
        · simp only [if_pos htaken]
          exact same_of_some (hat.insertChar (ne_zero_of_taken htaken)) c
        · simp only [if_neg htaken]
          exact ⟨b,rfl,hb⟩
  · unfold SessionLoop.textEditorHandleEvent
    split
    all_goals first | contradiction | exact ⟨b,rfl,hb⟩

/-- Rendering does the same to both. -/
theorem stored_render (sv : Services β) (hb : Stored b d) (hlines : d.lines ≠ []) :
    ∃ b', textEditorRender sv b = some b' ∧ Stored b' (SessionLoop.textEditorRender sv d) := by
  have harea : sv.nineTenths b.base.renderArea.h = sv.nineTenths d.base.renderArea.h := by
    rw [hb.base]
  rw [textEditorRender,SessionLoop.textEditorRender,harea]
  exact Stored.teClampCursor ⟨hb.base,hb.filePath,hb.lines,hb.nonzero,hb.lineCount,hb.row,hb.col,
    hb.scroll,rfl⟩ hlines

end Filly.TextEditor
