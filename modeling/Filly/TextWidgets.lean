import Filly.SessionLoop

/-!
# Widgets that take text

The key events of the widgets with a text of their own, each under the name of its
source file. The texts that only a picture shows are left out. A `char` is signed,
so a byte above 127 is negative.

Regular expressions, scripts, files and floating point numbers are outside; what the
widgets ask of them is in `Services`.
-/
namespace Filly.SessionLoop
open CJson Keys Protocol Rectangles

structure WidgetBase where
  dirty : Bool := true
  acceptsTextInput : Bool := false
  renderArea : Rect := ⟨0,0,0,0⟩
  deriving DecidableEq, Repr

def WidgetBase.touch (base : WidgetBase) : WidgetBase := { base with dirty := true }

def WidgetBase.clear (base : WidgetBase) : WidgetBase := { base with dirty := false }

def WidgetBase.resize (w h : ℤ) (base : WidgetBase) : WidgetBase :=
  { base with renderArea := { base.renderArea with w := w, h := h } }

/-- What the widgets ask of the rest of the program. -/
structure Services (β : Type) where
  /-- The text matches the regular expression. -/
  regexec : Bytes → Bytes → Bool
  /-- `fil_eval` accepts the text, with the values of the store. -/
  filAccepts : Bytes → Bytes → β → Bool
  /-- The number of bytes that a size such as `1.5G` means. -/
  humanToBytes : Bytes → ℤ
  /-- `(int)(h * 0.9f)`. -/
  nineTenths : ℤ → ℤ
  writeFile : Bytes → Bytes → β → β

variable {β : Type}

def cancelled : EventResult := .response ⟨none,true,none⟩

def answered (result : Json) : EventResult := .response ⟨some result,false,none⟩

/-! ## Text with a cursor -/

/-- A character is put at a position. -/
def insertAt (i : ℕ) (c : UInt8) (text : Bytes) : Bytes := text.take i++c::text.drop i

/-- A character behind a text. A null character ends it where it ended before. -/
def appendChar (text : Bytes) (ch : UInt8) : Bytes := if ch = 0 then text else text++[ch]

theorem appendChar_of_ne {ch : UInt8} (h : ch ≠ 0) (text : Bytes) :
    appendChar text ch = text++[ch] := if_neg h

/-! ## `input.c` and `password.c` -/

structure InputData where
  base : WidgetBase
  text : Bytes
  cursor : ℕ
  validation : Option Bytes
  validationScript : Option Bytes

def inputWidgetNew (defaultText validation validationScript : Option Bytes) : InputData where
  base := { acceptsTextInput := true }
  text := defaultText.getD []
  cursor := (defaultText.getD []).length
  validation := validation
  validationScript := validationScript

def inputHandleEvent (sv : Services β) (code : KeyCode) (ch : UInt8) (d : InputData) (b : β) :
    EventResult × InputData :=
  match code with
  | .keyEsc => (cancelled,d)
  | .keyEnter =>
      if d.validation.any (fun re => !sv.regexec re d.text) then (.handled,d)
      else if d.validationScript.any (fun script => !sv.filAccepts script d.text b) then (.handled,d)
      else (answered (.string d.text),d)
  | .keyChar =>
      (.handled,{ d with text := insertAt d.cursor ch d.text, cursor := d.cursor+1,
                         base := d.base.touch })
  | .keyBackspace =>
      if 0 < d.cursor then
        (.handled,{ d with text := d.text.eraseIdx (d.cursor-1), cursor := d.cursor-1,
                           base := d.base.touch })
      else (.handled,d)
  | .keyDelete =>
      if d.cursor < d.text.length then
        (.handled,{ d with text := d.text.eraseIdx d.cursor, base := d.base.touch })
      else (.handled,d)
  | .keyLeft => (.handled,{ d with cursor := d.cursor-1 })
  | .keyRight =>
      (.handled,if d.cursor < d.text.length then { d with cursor := d.cursor+1 } else d)
  | .keyHome => (.handled,{ d with cursor := 0 })
  | .keyEnd => (.handled,{ d with cursor := d.text.length })
  | _ => (.unhandled,d)

structure PasswordData where
  base : WidgetBase
  text : Bytes

def passwordWidgetNew : PasswordData where
  base := { acceptsTextInput := true }
  text := []

def passwordHandleEvent (code : KeyCode) (ch : UInt8) (d : PasswordData) :
    EventResult × PasswordData :=
  match code with
  | .keyEsc => (cancelled,d)
  | .keyEnter => (answered (.string d.text),d)
  | .keyChar => (.handled,{ d with text := appendChar d.text ch, base := d.base.touch })
  | .keyBackspace =>
      if d.text ≠ [] then (.handled,{ d with text := d.text.dropLast, base := d.base.touch })
      else (.handled,d)
  | _ => (.unhandled,d)

/-! ## `filter.c` and `multiselect.c` -/

/-- The choices in which the query is found, by number. -/
def matching (choices : List Bytes) (query : Bytes) : List ℕ :=
  (List.range choices.length).filter fun i =>
    query = [] ∨ query.map Fil.toLower <:+: (choices.getD i []).map Fil.toLower

structure FilterData where
  base : WidgetBase
  choices : List Bytes
  query : Bytes
  selected : ℕ
  filtered : List ℕ

def filterWidgetNew (choices : List Bytes) : FilterData where
  base := { acceptsTextInput := true }
  choices := choices
  query := []
  selected := 0
  filtered := []

def filterUpdate (d : FilterData) : FilterData :=
  let filtered := matching d.choices d.query
  { d with filtered := filtered,
           selected := if filtered.length ≤ d.selected then filtered.length-1 else d.selected }

def filterHandleEvent (code : KeyCode) (ch : UInt8) (d : FilterData) : EventResult × FilterData :=
  match code with
  | .keyEsc => (cancelled,d)
  | .keyUp =>
      if 0 < d.selected then (.handled,{ d with selected := d.selected-1, base := d.base.touch })
      else (.handled,d)
  | .keyDown =>
      if d.selected+1 < d.filtered.length then
        (.handled,{ d with selected := d.selected+1, base := d.base.touch })
      else (.handled,d)
  | .keyEnter =>
      match d.filtered[d.selected]? with
      | some i => (answered (.string (d.choices.getD i [])),d)
      | none => (.handled,d)
  | .keyChar =>
      (.handled,{ d with query := appendChar d.query ch, selected := 0, base := d.base.touch })
  | .keyBackspace =>
      if d.query ≠ [] then
        (.handled,{ d with query := d.query.dropLast, selected := 0, base := d.base.touch })
      else (.handled,d)
  | _ => (.unhandled,d)

structure MultiselectData where
  base : WidgetBase
  choices : List Bytes
  query : Bytes
  cursor : ℕ
  minSel : ℤ
  maxSel : ℤ
  filtered : List ℕ
  selected : List Bool

def multiselectWidgetNew (choices : List Bytes) (minSel maxSel : ℤ) : MultiselectData where
  base := { acceptsTextInput := true }
  choices := choices
  query := []
  cursor := 0
  minSel := minSel
  maxSel := if 0 < maxSel then maxSel else choices.length
  filtered := []
  selected := List.replicate choices.length false

def msUpdate (d : MultiselectData) : MultiselectData :=
  let filtered := matching d.choices d.query
  { d with filtered := filtered,
           cursor := if filtered.length ≤ d.cursor then filtered.length-1 else d.cursor }

/-- The number of selected choices. -/
def MultiselectData.count (d : MultiselectData) : ℤ := d.selected.count true

/-- A space selects the choice at the cursor or takes it back, within the bounds. -/
def MultiselectData.toggle (d : MultiselectData) : MultiselectData :=
  match d.filtered[d.cursor]? with
  | none => d
  | some i =>
      let now := d.selected.getD i false
      let next := if now then !(d.minSel < d.count : Bool) else (d.count < d.maxSel : Bool)
      { d with selected := d.selected.set i next, base := d.base.touch }

def multiselectHandleEvent (code : KeyCode) (ch : UInt8) (d : MultiselectData) :
    EventResult × MultiselectData :=
  match code with
  | .keyEsc => (cancelled,d)
  | .keyUp =>
      if 0 < d.cursor then (.handled,{ d with cursor := d.cursor-1, base := d.base.touch })
      else (.handled,d)
  | .keyDown =>
      if d.cursor+1 < d.filtered.length then
        (.handled,{ d with cursor := d.cursor+1, base := d.base.touch })
      else (.handled,d)
  | .keyChar =>
      if ch = 32 then (.handled,d.toggle)
      else (.handled,{ d with query := appendChar d.query ch, cursor := 0, base := d.base.touch })
  | .keyBackspace =>
      if d.query ≠ [] then
        (.handled,{ d with query := d.query.dropLast, cursor := 0, base := d.base.touch })
      else (.handled,d)
  | .keyEnter =>
      if d.minSel ≤ d.count ∧ d.count ≤ d.maxSel then
        (answered (.array (((d.choices.zip d.selected).filter Prod.snd).map fun x => .string x.1)),d)
      else (.handled,d)
  | _ => (.unhandled,d)

/-! ## `form.c` -/

structure FormField where
  label : Bytes
  value : Bytes

structure FormData where
  base : WidgetBase
  fields : List FormField
  focused : ℕ

def formWidgetNew (fields : List FormField) : FormData where
  base := { acceptsTextInput := true }
  fields := fields
  focused := 0

/-- The focus moves to a field or, behind the last one, to the button. -/
def FormData.focus (d : FormData) (i : ℕ) : FormData :=
  { d with focused := i, base := { d.base.touch with acceptsTextInput := i < d.fields.length } }

/-- The text of the field that has the focus is changed. -/
def FormData.edit (d : FormData) (f : Bytes → Bytes) : FormData :=
  { d with fields := d.fields.modify d.focused fun x => { x with value := f x.value },
           base := d.base.touch }

def formHandleEvent (code : KeyCode) (ch : UInt8) (d : FormData) : EventResult × FormData :=
  match code with
  | .keyEsc => (cancelled,d)
  | .keyTab => (.handled,d.focus ((d.focused+1) % (d.fields.length+1)))
  | .keyBacktab => (.handled,d.focus (if 0 < d.focused then d.focused-1 else d.fields.length))
  | .keyEnter =>
      if d.focused = d.fields.length then
        (answered (.object (d.fields.map fun x => (x.label,.string x.value))),d)
      else (.handled,d)
  | .keyChar =>
      if d.focused < d.fields.length then (.handled,d.edit (appendChar · ch)) else (.handled,d)
  | .keyBackspace =>
      match d.fields[d.focused]? with
      | some x => if x.value ≠ [] then (.handled,d.edit List.dropLast) else (.handled,d)
      | none => (.handled,d)
  | _ => (.unhandled,d)

/-! ## `text_editor.c` -/

structure TextEditorData where
  base : WidgetBase
  filePath : Option Bytes
  lines : List Bytes
  row : ℕ
  col : ℕ
  scroll : ℤ
  visibleH : ℤ

namespace TextEditorData

/-- The line with the cursor. -/
def line (d : TextEditorData) : Bytes := d.lines.getD d.row []

def touch (d : TextEditorData) : TextEditorData := { d with base := d.base.touch }

def setLine (d : TextEditorData) (line : Bytes) : TextEditorData :=
  { d with lines := d.lines.set d.row line }

/-- The next line is joined to the one with the cursor. -/
def joinNext (d : TextEditorData) : TextEditorData :=
  { d with lines := (d.lines.set d.row (d.line++d.lines.getD (d.row+1) [])).eraseIdx (d.row+1) }

/-- The line is cut at the cursor, which goes to the start of the second half. -/
def breakLine (d : TextEditorData) : TextEditorData :=
  { d with lines := (d.lines.set d.row (d.line.take d.col)).insertIdx (d.row+1) (d.line.drop d.col),
           row := d.row+1, col := 0 }

def removeLine (d : TextEditorData) : TextEditorData :=
  let lines := d.lines.eraseIdx d.row
  { d with lines := lines, row := if lines.length ≤ d.row then lines.length-1 else d.row, col := 0 }

end TextEditorData

/-- The lines of a content. One that ends with a line end has no empty last line. -/
def contentLines (content : Bytes) : List Bytes :=
  let lines := content.splitOn 10
  if lines.length = 1 ∨ lines.getLastD [] ≠ [] then lines else lines.dropLast

def textEditorWidgetNew (filePath : Option Bytes) (fileLines : List Bytes)
    (content : Option Bytes) : TextEditorData :=
  let lines := if fileLines = [] then (content.map contentLines).getD [] else fileLines
  let lines := if lines = [] then [[]] else lines
  { base := { acceptsTextInput := true }, filePath := filePath, lines := lines,
    row := 0, col := (lines.headD []).length, scroll := 0, visibleH := 20 }

def teClampCursor (d : TextEditorData) : TextEditorData :=
  let d := if d.lines = [] then { d with lines := [[]] } else d
  let d := { d with row := min d.row (d.lines.length-1) }
  let d := { d with col := min d.col d.line.length }
  let row : ℤ := d.row
  let scroll := if row < d.scroll then row else d.scroll
  let scroll := if scroll+d.visibleH ≤ row then row-d.visibleH+1 else scroll
  { d with scroll := max scroll 0 }

/-- The part of `text_editor_render` that changes the editor. -/
def textEditorRender (sv : Services β) (d : TextEditorData) : TextEditorData :=
  teClampCursor { d with visibleH := max (sv.nineTenths d.base.renderArea.h-4) 1 }

def teSave (sv : Services β) (d : TextEditorData) (b : β) : β :=
  match d.filePath with
  | none => b
  | some path => sv.writeFile path (d.lines.flatMap (·++[10])) b

def textEditorHandleEvent (sv : Services β) (code : KeyCode) (ch : UInt8) (d : TextEditorData)
    (b : β) : EventResult × TextEditorData × β :=
  match code with
  | .keyEsc => (answered (.string (d.lines.flatMap (·++[10]))),d,b)
  | .keyUp => (.handled,(teClampCursor { d with row := d.row-1 }).touch,b)
  | .keyDown =>
      (.handled,(teClampCursor
        (if d.row+1 < d.lines.length then { d with row := d.row+1 } else d)).touch,b)
  | .keyLeft =>
      (.handled,(teClampCursor
        (if 0 < d.col then { d with col := d.col-1 }
         else if 0 < d.row then
          { d with row := d.row-1, col := (d.lines.getD (d.row-1) []).length }
         else d)).touch,b)
  | .keyRight =>
      (.handled,(teClampCursor
        (if d.col < d.line.length then { d with col := d.col+1 }
         else if d.row+1 < d.lines.length then { d with row := d.row+1, col := 0 }
         else d)).touch,b)
  | .keyHome => (.handled,({ d with col := 0 } : TextEditorData).touch,b)
  | .keyEnd => (.handled,({ d with col := d.line.length } : TextEditorData).touch,b)
  | .keyPageup => (.handled,(teClampCursor { d with row := (d.row-d.visibleH).toNat }).touch,b)
  | .keyPagedown =>
      (.handled,(teClampCursor
        { d with row := min (d.row+d.visibleH).toNat (d.lines.length-1) }).touch,b)
  | .keyDelete =>
      if d.col < d.line.length then (.handled,(d.setLine (d.line.eraseIdx d.col)).touch,b)
      else if d.row+1 < d.lines.length then (.handled,d.joinNext.touch,b)
      else (.handled,d,b)
  | .keyEnter => (.handled,d.breakLine.touch,b)
  | .keyBackspace =>
      if 0 < d.col then
        (.handled,({ d.setLine (d.line.eraseIdx (d.col-1)) with col := d.col-1 }).touch,b)
      else if 0 < d.row then
        (.handled,({ d with row := d.row-1, col := (d.lines.getD (d.row-1) []).length } :
          TextEditorData).joinNext.touch,b)
      else (.handled,d.touch,b)
  | .keyChar =>
      if ch = 19 then (.handled,d.touch,teSave sv d b)
      else if ch = 4 then
        if 1 < d.lines.length then (.handled,d.removeLine.touch,b) else (.handled,d,b)
      else if 32 ≤ ch.toInt8 ∨ ch = 9 then
        (.handled,({ d.setLine (insertAt d.col ch d.line) with col := d.col+1 }).touch,b)
      else (.handled,d,b)
  | _ => (.unhandled,d,b)

/-! ## `disk.c` -/

structure Partition where
  number : ℤ
  start : Bytes
  stop : Option Bytes
  size : Bytes
  ptype : Bytes

inductive DiskMode where
  | main | confirm | resizeInput | newPartition
  deriving DecidableEq, Repr

structure DiskData where
  base : WidgetBase
  partitions : List Partition
  /-- The starts of the free areas. -/
  freeSpace : List Bytes
  selected : ℕ
  readonly : Bool
  mode : DiskMode
  input : Option Bytes
  editingIdx : ℕ

def diskWidgetNew (partitions : List Partition) (freeSpace : List Bytes) (readonly : Bool) :
    DiskData where
  base := {}
  partitions := partitions
  freeSpace := freeSpace
  selected := 0
  readonly := readonly
  mode := .main
  input := none
  editingIdx := 0

def Partition.json (p : Partition) : Json :=
  .object ((bytes "number",Json.ofInt p.number)::(bytes "start",.string p.start)::
    (match p.stop with
      | some stop => [(bytes "end",.string stop)]
      | none => [])++
    [(bytes "size",.string p.size),(bytes "type",.string p.ptype)])

/-- The size that was entered is taken over. -/
def DiskData.commit (d : DiskData) (size : Bytes) : DiskData :=
  if d.mode = .newPartition then
    { d with partitions := d.partitions++[⟨d.partitions.length+1,d.freeSpace.getD d.editingIdx [],
                none,size,bytes "Linux filesystem"⟩],
             selected := d.partitions.length }
  else
    { d with partitions := d.partitions.modify d.editingIdx fun p => { p with size := size } }

/-- The entry of a size is over. -/
def DiskData.leave (d : DiskData) : DiskData :=
  { d with input := none, mode := .main, base := d.base.touch }

def DiskData.touch (d : DiskData) : DiskData := { d with base := d.base.touch }

/-- Keys while a size is entered. -/
def diskInput (sv : Services β) (code : KeyCode) (ch : UInt8) (d : DiskData) :
    EventResult × DiskData :=
  match code with
  | .keyEsc => (.handled,d.leave)
  | .keyEnter =>
      match d.input with
      | none => (.handled,d.leave)
      | some size =>
          if size ≠ [] ∧ 0 < sv.humanToBytes size then (.handled,(d.commit size).leave)
          else (.handled,d.leave)
  | .keyBackspace => (.handled,{ d with input := d.input.map List.dropLast, base := d.base.touch })
  | .keyChar =>
      (.handled,{ d with input := some (appendChar (d.input.getD []) ch), base := d.base.touch })
  | _ => (.unhandled,d)

/-- The letters of the main mode. -/
def diskCommand (ch : UInt8) (d : DiskData) : EventResult × DiskData :=
  if ch = 113 then (cancelled,d)
  else if ch = 110 then
    if d.partitions.length ≤ d.selected then
      (.handled,{ d with editingIdx := d.selected-d.partitions.length, input := some [],
                         mode := .newPartition, base := d.base.touch })
    else (.handled,d)
  else if ch = 100 then
    if d.selected < d.partitions.length then
      let partitions := d.partitions.eraseIdx d.selected
      (.handled,{ d with partitions := partitions, base := d.base.touch,
                         selected := if partitions.length ≤ d.selected then d.selected-1
                                     else d.selected })
    else (.handled,d)
  else if ch = 114 then
    if d.selected < d.partitions.length then
      (.handled,{ d with editingIdx := d.selected, input := some [], mode := .resizeInput,
                         base := d.base.touch })
    else (.handled,d)
  else if ch = 119 then (.handled,{ d with mode := .confirm, base := d.base.touch })
  else (.unhandled,d)

def diskHandleEvent (sv : Services β) (code : KeyCode) (ch : UInt8) (d : DiskData) :
    EventResult × DiskData :=
  match d.mode with
  | .confirm =>
      if code = .keyChar ∧ (ch = 121 ∨ ch = 89) then
        (answered (.array (d.partitions.map Partition.json)),d)
      else (.handled,{ d with mode := .main, base := d.base.touch })
  | .resizeInput | .newPartition => diskInput sv code ch d
  | .main =>
      match code with
      | .keyEsc => (cancelled,d)
      | .keyUp => (.handled,{ d with selected := d.selected-1, base := d.base.touch })
      | .keyDown =>
          (.handled,if d.selected+1 < d.partitions.length+d.freeSpace.length
            then { d with selected := d.selected+1, base := d.base.touch } else d.touch)
      | .keyChar => if d.readonly then (.unhandled,d) else diskCommand ch d
      | _ => (.unhandled,d)

end Filly.SessionLoop
