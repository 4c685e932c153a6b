import Filly.CJsonRoundTrip
import Filly.Requests
import Filly.SessionLoop
import Filly.UndoHistory

/-!
# The widget builder

The builder keeps items with a place, a size and JSON parameters, adds, drags and deletes
them, and edits their titles. Its answer lists them. Each edit leaves an action without
functions on an undo stack.

What only the picture needs is left out. What is computed in floating point is left open.
-/
namespace Filly.WidgetBuilder
open CJson Keys Protocol SessionLoop

/-- What the builder computes with its scale of 0.5. -/
structure ScaleArithmetic where
  /-- `(int)(v * scale)` -/
  scale : Int32 → Int32
  /-- `(int)(v / scale)` -/
  unscale : Int32 → Int32

structure BuilderItem (ω : Type) where
  widgetType : Bytes
  title : Bytes
  params : Json
  x : Int32
  y : Int32
  w : Int32
  h : Int32
  liveWidget : Option ω

inductive BuilderMode where
  | palette | canvas | properties | livePreview
  deriving DecidableEq, Repr

structure WidgetBuilderData (ω : Type) where
  items : List (BuilderItem ω)
  selectedItem : ℤ
  mode : BuilderMode
  paletteIdx : ℤ
  paletteTypes : List Bytes
  canvasOx : Int32
  canvasOy : Int32
  dragItem : ℤ
  dragStartX : Int32
  dragStartY : Int32
  dragOrigX : Int32
  dragOrigY : Int32
  dragging : Bool
  /-- `prop_edit_buf` up to `prop_edit_len`. -/
  propEdit : Bytes
  propEditing : Bool
  undo : Undo.World Unit

def builtinPalette : List Bytes :=
  ["menu","yesno","input","password","msg","filter","checklist","multiselect","toggle",
    "range_slider","calendar","form","progress","table","tree","gauge","separator","badge",
    "spinner","rich_text","tooltip","notification","context_menu","file_picker","text_editor",
    "summary","disk","color_picker","radio_group","tabs","split_panes","hub",
    "terminal_emulator"].map bytes

/-- `cJSON_AddStringToObject`: the member goes to the end. -/
def addStringToObject (object : Json) (name value : Bytes) : Json :=
  match object with
  | .object members => .object (members++[(name,.string value)])
  | j => j

section
variable {ω : Type} (create : WidgetRequest → Option ω) (sc : ScaleArithmetic)

/-- `create` is `widget_registry_create`. -/
def createLiveWidget (type title : Bytes) (params : Json) : Option ω :=
  let p := if (params.getObjectItem (bytes "title")).isSome then params
    else addStringToObject params (bytes "title") title
  let root : Json := .object [(bytes "widget",.string type),(bytes "params",p)]
  ((cJSONPrintUnformatted root).bind widgetRequestParse).bind create

def rebuildLiveWidget (item : BuilderItem ω) : BuilderItem ω :=
  { item with liveWidget := createLiveWidget create item.widgetType item.title item.params }

/-- The action has neither `undo` nor `redo`. -/
def builderPushUndo (d : WidgetBuilderData ω) (description : String) :
    Option (WidgetBuilderData ω) :=
  let w := Undo.alloc d.undo ⟨description,false,false,false,()⟩
  (Undo.undoStackPush w.2 w.1).map fun undo => { d with undo := undo }

def WidgetBuilderData.Valid (d : WidgetBuilderData ω) (i : ℤ) : Prop :=
  0 ≤ i ∧ i < d.items.length

instance (d : WidgetBuilderData ω) (i : ℤ) : Decidable (d.Valid i) :=
  inferInstanceAs (Decidable (_ ∧ _))

/-- An assignment through `d->items[i]`, undefined outside of the array. -/
def changeItem (d : WidgetBuilderData ω) (i : ℤ) (f : BuilderItem ω → BuilderItem ω) :
    Option (WidgetBuilderData ω) :=
  if d.Valid i then some { d with items := d.items.modify i.toNat f } else none

/-- `d->items[i]`, undefined outside of the array. -/
def readItem (d : WidgetBuilderData ω) (i : ℤ) : Option (BuilderItem ω) :=
  if 0 ≤ i then d.items[i.toNat]? else none

/-! ## The mouse -/

def hits (d : WidgetBuilderData ω) (mx my : Int32) (item : BuilderItem ω) : Bool :=
  let ix := sc.scale item.x+d.canvasOx
  let iy := sc.scale item.y+d.canvasOy
  ix ≤ mx ∧ mx < ix+sc.scale item.w ∧ iy ≤ my ∧ my < iy+sc.scale item.h

/-- The last item under the mouse and its index. -/
def hitItem (d : WidgetBuilderData ω) (mx my : Int32) : Option (BuilderItem ω × ℕ) :=
  d.items.zipIdx.reverse.find? fun entry => hits sc d mx my entry.1

def mouseDragStart (d : WidgetBuilderData ω) (mx my : Int32) :
    EventResult × WidgetBuilderData ω :=
  match hitItem sc d mx my with
  | none => (.unhandled,d)
  | some (item,i) =>
      (.handled,{ d with
        dragging := true
        dragItem := i
        dragStartX := mx
        dragStartY := my
        dragOrigX := item.x
        dragOrigY := item.y
        selectedItem := i })

def dragTo (d : WidgetBuilderData ω) (x y : Int32) (item : BuilderItem ω) : BuilderItem ω :=
  { item with
    x := d.dragOrigX+sc.unscale (x-d.dragStartX)
    y := d.dragOrigY+sc.unscale (y-d.dragStartY) }

def mouseDragMove (d : WidgetBuilderData ω) (x y : Int32) :
    Option (EventResult × WidgetBuilderData ω) := do
  let d ← if d.Valid d.dragItem then changeItem d d.dragItem (dragTo sc d x y) else some d
  some (.handled,d)

def mouseDragEnd (d : WidgetBuilderData ω) : Option (EventResult × WidgetBuilderData ω) := do
  let d ← builderPushUndo { d with dragging := false, dragItem := -1 } "move widget"
  some (.handled,d)

def mousePress (d : WidgetBuilderData ω) (mx my : Int32) : EventResult × WidgetBuilderData ω :=
  match hitItem sc d mx my with
  | none => (.unhandled,d)
  | some (_,i) => (.handled,{ d with selectedItem := i })

/-! ## The property editor -/

/-- The title is added behind the members that are there. -/
def confirmTitle (title : Bytes) (item : BuilderItem ω) : BuilderItem ω :=
  rebuildLiveWidget create
    { item with params := addStringToObject item.params (bytes "title") title }

/-- `char` is signed. -/
def editKey (d : WidgetBuilderData ω) (code : KeyCode) (ch : UInt8) :
    Option (EventResult × WidgetBuilderData ω) :=
  match code with
  | .keyEsc => some (.handled,{ d with propEditing := false })
  | .keyEnter => do
      let d ← if d.Valid d.selectedItem
        then changeItem d d.selectedItem (confirmTitle create d.propEdit) else some d
      some (.handled,{ d with propEditing := false })
  | .keyBackspace => some (.handled,{ d with propEdit := d.propEdit.dropLast })
  | .keyChar =>
      some (.handled,if d.propEdit.length < 254 ∧ 32 ≤ ch.toInt8
        then { d with propEdit := d.propEdit++[ch] } else d)
  | _ => some (.unhandled,d)

/-- `KEY_F4`: `strncpy` takes at most 255 bytes. -/
def beginEdit (d : WidgetBuilderData ω) : Option (EventResult × WidgetBuilderData ω) :=
  if d.Valid d.selectedItem then do
    let item ← readItem d d.selectedItem
    let title := (item.params.getObjectItem (bytes "title")).bind Json.valuestring
    some (.handled,{ d with
      propEditing := true
      propEdit := ((title.getD []).takeWhile (· ≠ 0)).take 255 })
  else some (.handled,d)

/-! ## Keys -/

/-- On the canvas an arrow moves the item, elsewhere it moves the selection. -/
def arrowKey (d : WidgetBuilderData ω) (dx dy : Int32) (select : ℤ) :
    Option (EventResult × WidgetBuilderData ω) := do
  let d ← if d.mode = .canvas ∧ 0 ≤ d.selectedItem
    then changeItem d d.selectedItem fun item => { item with x := item.x+dx, y := item.y+dy }
    else some { d with selectedItem := select }
  some (.handled,d)

def WidgetBuilderData.previous (d : WidgetBuilderData ω) : ℤ :=
  if 0 < d.selectedItem then d.selectedItem-1 else d.selectedItem

def WidgetBuilderData.next (d : WidgetBuilderData ω) : ℤ :=
  if d.selectedItem+1 < d.items.length then d.selectedItem+1 else d.selectedItem

/-- `d->palette_types[d->palette_idx]`, if the index is one. -/
def WidgetBuilderData.paletteType (d : WidgetBuilderData ω) : Option Bytes :=
  if 0 ≤ d.paletteIdx ∧ d.paletteIdx < d.paletteTypes.length
  then d.paletteTypes[d.paletteIdx.toNat]? else none

/-- The `count` is that of the items with the new one. -/
def newItem (type : Bytes) (count : ℕ) : BuilderItem ω :=
  let params : Json := .object [(bytes "title",.string type),(bytes "message",.string [])]
  { widgetType := type
    title := type
    params := params
    x := Int32.ofNat (10+count%5*60)
    y := Int32.ofNat (10+count/5*60)
    w := 200
    h := 120
    liveWidget := createLiveWidget create type type params }

def addItem (d : WidgetBuilderData ω) : Option (EventResult × WidgetBuilderData ω) :=
  match d.paletteType with
  | none => some (.handled,d)
  | some type => do
      let d ← builderPushUndo { d with
        items := d.items++[newItem create type (d.items.length+1)]
        selectedItem := d.items.length } "add widget"
      some (.handled,d)

def deleteItem (d : WidgetBuilderData ω) : Option (EventResult × WidgetBuilderData ω) :=
  if d.Valid d.selectedItem then do
    let items := d.items.eraseIdx d.selectedItem.toNat
    let d ← builderPushUndo { d with
      items := items
      selectedItem := if (items.length : ℤ) ≤ d.selectedItem then items.length-1
        else d.selectedItem } "delete widget"
    some (.handled,d)
  else some (.handled,d)

def itemTree (item : BuilderItem ω) : Json :=
  .object [(bytes "widget",.string item.widgetType),(bytes "params",item.params),
    (bytes "x",.ofInt item.x.toInt),(bytes "y",.ofInt item.y.toInt),
    (bytes "w",.ofInt item.w.toInt),(bytes "h",.ofInt item.h.toInt)]

def builderTree (items : List (BuilderItem ω)) : Json :=
  .object [(bytes "widgets",.array (items.map itemTree))]

/-- The result is the text of the tree as one string. -/
def save (d : WidgetBuilderData ω) : EventResult :=
  .response ⟨(cJSONPrintUnformatted (builderTree d.items)).map Json.string,false,none⟩

/-- `S` saves, Ctrl+Z undoes and Ctrl+Y redoes. The actions have no functions that could
change the items. -/
def charKey (d : WidgetBuilderData ω) (ch : UInt8) : Option (EventResult × WidgetBuilderData ω) :=
  if ch = 115 ∨ ch = 83 then some (save d,d)
  else if ch = 26 then (Undo.undoStackUndo d.undo).map fun r => (.handled,{ d with undo := r.2 })
  else if ch = 25 then (Undo.undoStackRedo d.undo).map fun r => (.handled,{ d with undo := r.2 })
  else some (.unhandled,d)

def pressKey (d : WidgetBuilderData ω) (code : KeyCode) (ch : UInt8) :
    Option (EventResult × WidgetBuilderData ω) :=
  match code with
  | .keyEsc => some (.response ⟨none,true,none⟩,d)
  | .keyF1 => some (.handled,{ d with mode := .palette })
  | .keyF2 => some (.handled,{ d with mode := .canvas })
  | .keyF3 => some (.handled,{ d with mode := .palette })
  | .keyF4 => beginEdit d
  | .keyF5 =>
      some (.handled,{ d with mode := if d.mode = .livePreview then .canvas else .livePreview })
  | .keyUp => arrowKey d 0 (-5) d.previous
  | .keyDown => arrowKey d 0 5 d.next
  | .keyLeft => arrowKey d (-5) 0 d.selectedItem
  | .keyRight => arrowKey d 5 0 d.selectedItem
  | .keyEnter => addItem create d
  | .keyDelete => deleteItem d
  | .keyChar => charKey d ch
  | _ => some (.unhandled,d)

/-- `builder_handle_event`; `none` where the source reads or writes outside of its arrays. -/
def handleEvent (d : WidgetBuilderData ω) (e : SessionLoop.Event) :
    Option (EventResult × WidgetBuilderData ω) :=
  if d.propEditing then
    match e with
    | .key code ch => editKey create d code ch
    | _ => some (.unhandled,d)
  else
    match e with
    | .mouseDragStart x y => some (mouseDragStart sc d (Int32.ofInt x) (Int32.ofInt y))
    | .mouseDragMove x y _ _ _ _ =>
        if d.dragging then mouseDragMove sc d (Int32.ofInt x) (Int32.ofInt y)
        else some (.unhandled,d)
    | .mouseDragEnd _ _ _ _ _ _ => if d.dragging then mouseDragEnd d else some (.unhandled,d)
    | .mouseButton x y _ state =>
        if state = .press then some (mousePress sc d (Int32.ofInt x) (Int32.ofInt y))
        else some (.unhandled,d)
    | .key code ch => pressKey create d code ch
    | _ => some (.unhandled,d)

end

def widgetBuilderNew (ω : Type) : WidgetBuilderData ω where
  items := []
  selectedItem := -1
  mode := .canvas
  paletteIdx := 0
  paletteTypes := builtinPalette
  canvasOx := 0
  canvasOy := 0
  dragItem := -1
  dragStartX := 0
  dragStartY := 0
  dragOrigX := 0
  dragOrigY := 0
  dragging := false
  propEdit := []
  propEditing := false
  undo := Undo.undoStackNew 200

/-! ## The undo stack of the builder -/

/-- No action of the stack can be called, and there is room for the next one. -/
structure Idle (w : Undo.World Unit) (U : List (ℕ × Undo.Action Unit)) : Prop where
  layout : Undo.Layout w U []
  depth : w.stack.depth ≤ w.stack.maxDepth
  full : w.stack.depth = w.stack.maxDepth → U ≠ []
  mute : ∀ x ∈ U, x.2.undo = false

theorem idle_new : Idle (Undo.undoStackNew 200) [] :=
  ⟨⟨trivial,List.nodup_nil,rfl,rfl,by simp⟩,by decide,by decide,by simp⟩

theorem Idle.push {w : Undo.World Unit} {U : List (ℕ × Undo.Action Unit)} (h : Idle w U)
    (description : String) : ∃ w' U',
      Undo.undoStackPush (Undo.alloc w ⟨description,false,false,false,()⟩).2
        (Undo.alloc w ⟨description,false,false,false,()⟩).1 = some w' ∧ Idle w' U' := by
  obtain ⟨w',hpush,hlayout,hdepth,hmax,-⟩ :=
    Undo.undoStackPush_layout h.layout (Or.inr rfl) h.depth h.full ⟨description,false,false,false,()⟩
  refine ⟨w',_,hpush,hlayout,?_,?_,?_⟩
  · rw [hdepth,hmax]
    exact min_le_right _ _
  · intro hfull
    rw [← List.length_pos_iff,List.length_drop,List.length_append,List.length_singleton]
    have hpos : w.stack.depth = w.stack.maxDepth → 0 < U.length := fun heq =>
      List.length_pos_iff.2 (h.full heq)
    have hle := h.depth
    split_ifs <;> omega
  · intro x hx
    rcases List.mem_append.1 (List.mem_of_mem_drop hx) with hx | hx
    · exact h.mute x hx
    · rw [List.mem_singleton.1 hx]

theorem Idle.undo {w : Undo.World Unit} {U : List (ℕ × Undo.Action Unit)} (h : Idle w U) :
    Undo.undoStackUndo w = some (false,w) := by
  rcases List.eq_nil_or_concat' U with rfl | ⟨V,⟨a,x⟩,rfl⟩
  · have hnone : w.stack.current = none := h.layout.current
    rw [Undo.undoStackUndo,hnone]
  · have hcurrent : w.stack.current = some a := by simpa using h.layout.current
    have hchain : LinkedChain.Chain w.mem none (V++[(a,x)]) none := by simpa using h.layout.chain
    have hmute : x.undo = false :=
      h.mute (a,x) (List.mem_append_right _ (List.mem_singleton_self _))
    rw [Undo.undoStackUndo,hcurrent]
    simp only [hchain.last_cell,Option.bind_eq_bind,Option.bind_some]
    rw [if_neg (by simp [hmute])]

theorem Idle.redo {w : Undo.World Unit} {U : List (ℕ × Undo.Action Unit)} (h : Idle w U) :
    Undo.undoStackRedo w = some (false,w) := by
  rw [Undo.undoStackRedo,h.layout.redoTarget]
  rfl

/-! ## What every event keeps -/

/-- A short text of characters that JSON has as they are. -/
structure Plain (s : Bytes) : Prop where
  clean : Clean s
  short : s.length ≤ 255

instance (s : Bytes) : Decidable (Plain s) :=
  decidable_of_iff (Clean s ∧ s.length ≤ 255) ⟨fun h => ⟨h.1,h.2⟩,fun h => ⟨h.1,h.2⟩⟩

theorem Plain.fits {s : Bytes} (h : Plain s) : Fits s := by
  have hcount := List.countP_le_length (l := s.takeWhile (· ≠ 0))
    (p := fun b => b = 34 || b = 92 || b < 32)
  have hlength := (List.takeWhile_prefix (l := s) (· ≠ 0)).length_le
  have hshort := h.short
  unfold Fits outputLength intMax
  dsimp only
  omega

def PlainMember (m : Bytes × Json) : Prop := Plain m.1 ∧ ∃ s, m.2 = .string s ∧ Plain s

variable {ω : Type}

/-- The first title of an item is its type. -/
structure Titled (item : BuilderItem ω) : Prop where
  type : Plain item.widgetType
  params : ∃ more, item.params = .object ((bytes "title",.string item.widgetType)::more) ∧
    ∀ m ∈ more, PlainMember m

structure Sound (d : WidgetBuilderData ω) : Prop where
  selected : -1 ≤ d.selectedItem ∧ d.selectedItem < d.items.length
  items : ∀ item ∈ d.items, Titled item
  palette : ∀ type ∈ d.paletteTypes, Plain type
  edit : Plain d.propEdit
  undo : ∃ U, Idle d.undo U

theorem plain_title : Plain (bytes "title") := by decide

theorem sound_new : Sound (widgetBuilderNew ω) := by
  have hselected : (-1 : ℤ) < (0 : ℕ) := by decide
  have hpalette : ∀ type ∈ builtinPalette, Plain type := by decide
  have hempty : Plain [] := by decide
  exact ⟨⟨le_refl _,hselected⟩,fun _ h => absurd h List.not_mem_nil,hpalette,hempty,[],idle_new⟩

variable {d : WidgetBuilderData ω} {create : WidgetRequest → Option ω} {sc : ScaleArithmetic}

theorem titled_newItem {type : Bytes} (h : Plain type) (count : ℕ) :
    Titled (newItem create type count) := by
  refine ⟨h,[(bytes "message",.string [])],rfl,?_⟩
  rw [List.forall_mem_singleton]
  exact ⟨by decide,[],rfl,by decide⟩

theorem titled_confirm {title : Bytes} (htitle : Plain title) {item : BuilderItem ω}
    (h : Titled item) : Titled (confirmTitle create title item) := by
  obtain ⟨more,hmore,hplain⟩ := h.params
  refine ⟨h.type,more++[(bytes "title",.string title)],?_,?_⟩
  · change addStringToObject item.params (bytes "title") title = _
    rw [hmore]
    rfl
  · rw [List.forall_mem_append,List.forall_mem_singleton]
    exact ⟨hplain,plain_title,title,rfl,htitle⟩

theorem forall_mem_modify {α : Type} {P : α → Prop} {f : α → α} (hf : ∀ a, P a → P (f a))
    {l : List α} (h : ∀ a ∈ l, P a) (n : ℕ) : ∀ a ∈ l.modify n f, P a := by
  induction l generalizing n with
  | nil => simp
  | cons a l ih =>
      rw [List.forall_mem_cons] at h
      cases n with
      | zero =>
          rw [List.modify_zero_cons,List.forall_mem_cons]
          exact ⟨hf a h.1,h.2⟩
      | succ n =>
          rw [List.modify_succ_cons,List.forall_mem_cons]
          exact ⟨h.1,ih h.2 n⟩

/-- The event is defined, and afterwards there are so many items. -/
def Leads (result : Option (EventResult × WidgetBuilderData ω)) (n : ℕ) : Prop :=
  ∃ r d', result = some (r,d') ∧ Sound d' ∧ d'.items.length = n

theorem Leads.of_same (h : Sound d) (r : EventResult) : Leads (some (r,d)) d.items.length :=
  ⟨r,d,rfl,h,rfl⟩

/-- A change of a valid item. -/
theorem changeItem_leads (h : Sound d) {i : ℤ} (hi : d.Valid i)
    {f : BuilderItem ω → BuilderItem ω} (hf : ∀ item, Titled item → Titled (f item)) :
    ∃ d', changeItem d i f = some d' ∧ Sound d' ∧ d'.items.length = d.items.length := by
  have hlength : (d.items.modify i.toNat f).length = d.items.length := List.length_modify ..
  refine ⟨_,if_pos hi,⟨?_,forall_mem_modify hf h.items _,h.palette,h.edit,h.undo⟩,hlength⟩
  have hselected := h.selected
  dsimp only
  omega

theorem titled_of_eq {item item' : BuilderItem ω} (h : Titled item)
    (htype : item'.widgetType = item.widgetType) (hparams : item'.params = item.params) :
    Titled item' := by
  refine ⟨?_,?_⟩
  · rw [htype]
    exact h.type
  · rw [htype,hparams]
    exact h.params

theorem pushUndo_leads (h : Sound d) (description : String) :
    ∃ d', builderPushUndo d description = some d' ∧ Sound d' ∧ d'.items = d.items := by
  obtain ⟨U,hidle⟩ := h.undo
  obtain ⟨w,U',hpush,hidle'⟩ := hidle.push description
  refine ⟨{ d with undo := w },?_,⟨h.selected,h.items,h.palette,h.edit,U',hidle'⟩,rfl⟩
  rw [builderPushUndo,hpush]
  rfl

theorem valid_of_hit {mx my : Int32} {item : BuilderItem ω} {i : ℕ}
    (h : hitItem sc d mx my = some (item,i)) : i < d.items.length := by
  have hmem := List.mem_of_find?_eq_some h
  rw [List.mem_reverse] at hmem
  exact (List.mem_zipIdx' hmem).1

/-! ## Each event -/

inductive Edit where
  | none
  | add (type : Bytes)
  | delete (index : ℕ)
  | confirm (index : ℕ) (title : Bytes)
  | move

/-- How many items there are after an edit. -/
def Edit.count (n : ℕ) : Edit → ℕ
  | .add _ => n+1
  | .delete _ => n-1
  | _ => n

def confirmEdit (d : WidgetBuilderData ω) (code : KeyCode) : Edit :=
  if code = .keyEnter ∧ d.Valid d.selectedItem
  then .confirm d.selectedItem.toNat d.propEdit else .none

def keyEdit (d : WidgetBuilderData ω) : KeyCode → Edit
  | .keyEnter => (d.paletteType.map Edit.add).getD .none
  | .keyDelete => if d.Valid d.selectedItem then .delete d.selectedItem.toNat else .none
  | _ => .none

/-- What an event does to the items, but for arrows and the moves of a drag. -/
def editOf (d : WidgetBuilderData ω) : SessionLoop.Event → Edit
  | .key code _ => if d.propEditing then confirmEdit d code else keyEdit d code
  | .mouseDragEnd _ _ _ _ _ _ => if ¬d.propEditing ∧ d.dragging then .move else .none
  | _ => .none

theorem mouseDragStart_leads (h : Sound d) (mx my : Int32) :
    Leads (some (mouseDragStart sc d mx my)) d.items.length := by
  unfold mouseDragStart
  cases hhit : hitItem sc d mx my with
  | none => exact .of_same h _
  | some entry =>
      have hi := valid_of_hit hhit
      refine ⟨_,_,rfl,⟨?_,h.items,h.palette,h.edit,h.undo⟩,rfl⟩
      dsimp only
      omega

theorem mousePress_leads (h : Sound d) (mx my : Int32) :
    Leads (some (mousePress sc d mx my)) d.items.length := by
  unfold mousePress
  cases hhit : hitItem sc d mx my with
  | none => exact .of_same h _
  | some entry =>
      have hi := valid_of_hit hhit
      refine ⟨_,_,rfl,⟨?_,h.items,h.palette,h.edit,h.undo⟩,rfl⟩
      dsimp only
      omega

theorem mouseDragMove_leads (h : Sound d) (x y : Int32) :
    Leads (mouseDragMove sc d x y) d.items.length := by
  unfold mouseDragMove
  split_ifs with hvalid
  · obtain ⟨d',hd',hsound,hlength⟩ := changeItem_leads h hvalid (f := dragTo sc d x y)
      fun item hitem => titled_of_eq hitem rfl rfl
    rw [hd']
    exact ⟨_,d',rfl,hsound,hlength⟩
  · exact .of_same h _

theorem mouseDragEnd_leads (h : Sound d) : Leads (mouseDragEnd d) d.items.length := by
  have hdropped : Sound { d with dragging := false, dragItem := -1 } :=
    ⟨h.selected,h.items,h.palette,h.edit,h.undo⟩
  obtain ⟨d',hd',hsound,hitems⟩ := pushUndo_leads hdropped "move widget"
  unfold mouseDragEnd
  rw [hd']
  exact ⟨_,d',rfl,hsound,congrArg List.length hitems⟩

/-- `char` is signed, so what is typed is ASCII. -/
theorem plain_concat {s : Bytes} {ch : UInt8} (h : Plain s) (hlength : s.length < 254)
    (hch : 32 ≤ ch.toInt8) : Plain (s++[ch]) := by
  have hall : ∀ n < 256, 32 ≤ (UInt8.ofNat n).toInt8 → cleanByte (UInt8.ofNat n) = true := by
    decide +kernel
  have hclean := hall ch.toNat ch.toNat_lt
  rw [UInt8.ofNat_toNat] at hclean
  refine ⟨?_,?_⟩
  · intro b hb
    rcases List.mem_append.1 hb with hb | hb
    · exact h.clean b hb
    · rw [List.mem_singleton.1 hb]
      exact hclean hch
  · rw [List.length_append,List.length_singleton]
    omega

theorem editKey_leads (h : Sound d) (code : KeyCode) (ch : UInt8) :
    Leads (editKey create d code ch) d.items.length := by
  have hedit {d' : WidgetBuilderData ω} (h' : Sound d') {s : Bytes} (hs : Plain s)
      (editing : Bool) : Sound { d' with propEdit := s, propEditing := editing } :=
    ⟨h'.selected,h'.items,h'.palette,hs,h'.undo⟩
  cases code
  case keyEsc => exact ⟨_,_,rfl,hedit h h.edit false,rfl⟩
  case keyEnter =>
    simp only [editKey]
    split_ifs with hvalid
    · obtain ⟨d',hd',hsound,hlength⟩ := changeItem_leads h hvalid
        (f := confirmTitle create d.propEdit) fun item hitem => titled_confirm h.edit hitem
      rw [hd']
      exact ⟨_,_,rfl,hedit hsound hsound.edit false,hlength⟩
    · exact ⟨_,_,rfl,hedit h h.edit false,rfl⟩
  case keyBackspace =>
    have hplain : Plain d.propEdit.dropLast :=
      ⟨fun b hb => h.edit.clean b (List.mem_of_mem_dropLast hb),
        (List.dropLast_sublist _).length_le.trans h.edit.short⟩
    exact ⟨_,_,rfl,hedit h hplain d.propEditing,rfl⟩
  case keyChar =>
    simp only [editKey]
    split_ifs with htyped
    · exact ⟨_,_,rfl,hedit h (plain_concat h.edit htyped.1 htyped.2) d.propEditing,rfl⟩
    · exact .of_same h _
  all_goals exact .of_same h _

theorem beginEdit_leads (h : Sound d) : Leads (beginEdit d) d.items.length := by
  unfold beginEdit
  split_ifs with hvalid
  · have hlt : d.selectedItem.toNat < d.items.length := by
      have hrange := hvalid
      unfold WidgetBuilderData.Valid at hrange
      omega
    have hread : readItem d d.selectedItem = some d.items[d.selectedItem.toNat] := by
      rw [readItem,if_pos hvalid.1,List.getElem?_eq_getElem hlt]
    obtain ⟨htype,more,hmore,-⟩ := h.items _ (List.getElem_mem hlt)
    have hplain (s : Bytes) (hs : Plain s) : Plain ((s.takeWhile (· ≠ 0)).take 255) := by
      have hinitial := (List.take_prefix 255 _).trans (List.takeWhile_prefix (l := s) (· ≠ 0))
      exact ⟨fun b hb => hs.clean b (hinitial.subset hb),List.length_take_le _ _⟩
    rw [hread]
    refine ⟨_,_,rfl,⟨h.selected,h.items,h.palette,hplain _ ?_,h.undo⟩,rfl⟩
    rw [hmore]
    exact htype
  · exact .of_same h _

theorem arrowKey_leads (h : Sound d) (dx dy : Int32) {select : ℤ}
    (hselect : -1 ≤ select ∧ select < d.items.length) :
    Leads (arrowKey d dx dy select) d.items.length := by
  unfold arrowKey
  split_ifs with hcanvas
  · obtain ⟨d',hd',hsound,hlength⟩ := changeItem_leads h ⟨hcanvas.2,h.selected.2⟩
      (f := fun item => { item with x := item.x+dx, y := item.y+dy })
      fun item hitem => titled_of_eq hitem rfl rfl
    rw [hd']
    exact ⟨_,d',rfl,hsound,hlength⟩
  · exact ⟨_,_,rfl,⟨hselect,h.items,h.palette,h.edit,h.undo⟩,rfl⟩

theorem previous_range (h : Sound d) : -1 ≤ d.previous ∧ d.previous < d.items.length := by
  have hselected := h.selected
  unfold WidgetBuilderData.previous
  split_ifs <;> omega

theorem next_range (h : Sound d) : -1 ≤ d.next ∧ d.next < d.items.length := by
  have hselected := h.selected
  unfold WidgetBuilderData.next
  split_ifs <;> omega

theorem addItem_leads (h : Sound d) :
    Leads (addItem create d) (((d.paletteType.map Edit.add).getD .none).count d.items.length) := by
  unfold addItem
  cases htype : d.paletteType with
  | none => exact .of_same h _
  | some type =>
      have hplain : Plain type := by
        unfold WidgetBuilderData.paletteType at htype
        split_ifs at htype
        exact h.palette type (List.mem_of_getElem? htype)
      have hadded : Sound { d with
          items := d.items++[newItem create type (d.items.length+1)]
          selectedItem := d.items.length } := by
        refine ⟨?_,?_,h.palette,h.edit,h.undo⟩
        · rw [List.length_append,List.length_singleton]
          dsimp only
          omega
        · rw [List.forall_mem_append,List.forall_mem_singleton]
          exact ⟨h.items,titled_newItem hplain _⟩
      obtain ⟨d',hd',hsound,hitems⟩ := pushUndo_leads hadded "add widget"
      dsimp only
      rw [hd']
      refine ⟨_,d',rfl,hsound,?_⟩
      rw [hitems,List.length_append]
      rfl

theorem deleteItem_leads (h : Sound d) : Leads (deleteItem d)
    ((if d.Valid d.selectedItem then Edit.delete d.selectedItem.toNat else .none).count
      d.items.length) := by
  unfold deleteItem
  split_ifs with hvalid
  · have hrange := hvalid
    unfold WidgetBuilderData.Valid at hrange
    have hlength : (d.items.eraseIdx d.selectedItem.toNat).length = d.items.length-1 :=
      List.length_eraseIdx_of_lt (by omega)
    have hdeleted : Sound { d with
        items := d.items.eraseIdx d.selectedItem.toNat
        selectedItem :=
          if ((d.items.eraseIdx d.selectedItem.toNat).length : ℤ) ≤ d.selectedItem
          then (d.items.eraseIdx d.selectedItem.toNat).length-1 else d.selectedItem } := by
      refine ⟨?_,?_,h.palette,h.edit,h.undo⟩
      · dsimp only
        split_ifs <;> omega
      · exact fun item hitem => h.items item (List.eraseIdx_subset hitem)
    obtain ⟨d',hd',hsound,hitems⟩ := pushUndo_leads hdeleted "delete widget"
    dsimp only
    rw [hd']
    refine ⟨_,d',rfl,hsound,?_⟩
    rw [hitems]
    exact hlength
  · exact .of_same h _

/-- Neither Ctrl+Z nor Ctrl+Y changes anything. -/
theorem charKey_eq (h : Sound d) (ch : UInt8) : charKey d ch =
    if ch = 115 ∨ ch = 83 then some (save d,d)
    else if ch = 26 ∨ ch = 25 then some (.handled,d) else some (.unhandled,d) := by
  obtain ⟨U,hidle⟩ := h.undo
  unfold charKey
  rw [hidle.undo,hidle.redo]
  split_ifs <;> simp_all

theorem charKey_leads (h : Sound d) (ch : UInt8) : Leads (charKey d ch) d.items.length := by
  rw [charKey_eq h]
  split_ifs <;> exact .of_same h _

theorem pressKey_leads (h : Sound d) (code : KeyCode) (ch : UInt8) :
    Leads (pressKey create d code ch) ((keyEdit d code).count d.items.length) := by
  have hmode (mode : BuilderMode) : Sound { d with mode := mode } :=
    ⟨h.selected,h.items,h.palette,h.edit,h.undo⟩
  cases code
  case keyF1 => exact ⟨_,_,rfl,hmode _,rfl⟩
  case keyF2 => exact ⟨_,_,rfl,hmode _,rfl⟩
  case keyF3 => exact ⟨_,_,rfl,hmode _,rfl⟩
  case keyF4 => exact beginEdit_leads h
  case keyF5 => exact ⟨_,_,rfl,hmode _,rfl⟩
  case keyUp => exact arrowKey_leads h _ _ (previous_range h)
  case keyDown => exact arrowKey_leads h _ _ (next_range h)
  case keyLeft => exact arrowKey_leads h _ _ h.selected
  case keyRight => exact arrowKey_leads h _ _ h.selected
  case keyEnter => exact addItem_leads h
  case keyDelete => exact deleteItem_leads h
  case keyChar => exact charKey_leads h ch
  all_goals exact .of_same h _

theorem count_confirmEdit (d : WidgetBuilderData ω) (code : KeyCode) (n : ℕ) :
    (confirmEdit d code).count n = n := by
  unfold confirmEdit
  split_ifs <;> rfl

/-- No event reads or writes outside of the arrays. -/
theorem handleEvent_leads (create : WidgetRequest → Option ω) (sc : ScaleArithmetic)
    (h : Sound d) (e : SessionLoop.Event) :
    Leads (handleEvent create sc d e) ((editOf d e).count d.items.length) := by
  unfold handleEvent
  by_cases hediting : d.propEditing
  · rw [if_pos hediting]
    cases e with
    | key code ch =>
        have hedit : editOf d (.key code ch) = confirmEdit d code := if_pos hediting
        rw [hedit,count_confirmEdit]
        exact editKey_leads h code ch
    | mouseDragEnd x y startX startY dx dy =>
        have hedit : editOf d (.mouseDragEnd x y startX startY dx dy) = .none :=
          if_neg fun hmove => hmove.1 hediting
        rw [hedit]
        exact .of_same h _
    | _ => exact .of_same h _
  · rw [if_neg hediting]
    cases e with
    | key code ch =>
        have hedit : editOf d (.key code ch) = keyEdit d code := if_neg hediting
        rw [hedit]
        exact pressKey_leads h code ch
    | mouseDragStart x y => exact mouseDragStart_leads h _ _
    | mouseDragMove x y startX startY dx dy =>
        dsimp only
        split_ifs
        · exact mouseDragMove_leads h _ _
        · exact .of_same h _
    | mouseDragEnd x y startX startY dx dy =>
        have hcount : (editOf d (.mouseDragEnd x y startX startY dx dy)).count d.items.length =
            d.items.length := by
          simp only [editOf]
          split_ifs <;> rfl
        rw [hcount]
        dsimp only
        split_ifs
        · exact mouseDragEnd_leads h
        · exact .of_same h _
    | mouseButton x y button state =>
        dsimp only
        split_ifs
        · exact mousePress_leads h _ _
        · exact .of_same h _
    | _ => exact .of_same h _

end Filly.WidgetBuilder
