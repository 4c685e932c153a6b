import Filly.Canvas
import Filly.ProjectFile
import Filly.SessionLoop
import Filly.Validator

/-!
# The builder

The builder has one project open, which the canvas, the connection graph and the property
editor change. A flag says that it is to be written before the builder is left. The
handlers set this flag themselves.

The files of an export and the picture are left out. Which widgets are registered, which
parameters they have and what is computed in floating point is left open.
-/
namespace Filly.Builder
open CJson Keys SessionLoop

/-! ## The property editor -/

structure PropertyEditor where
  editingItemId : Int32
  fieldBuf : Bytes
  activeField : ℤ
  editing : Bool
  /-- The keys of the fields. -/
  fields : List Bytes

def propEditorNew : PropertyEditor := ⟨-1,[],0,false,[]⟩

section
variable (widgetGetParams : Bytes → List Bytes)

def propEditorLoadFields (p : BuilderProject) (pe : PropertyEditor) : PropertyEditor :=
  { pe with
    fields :=
      if pe.editingItemId < 0 then []
      else
        match projectFindItem p pe.editingItemId with
        | none => []
        | some item => widgetGetParams item.widgetType }

def propEditorSetItem (p : BuilderProject) (pe : PropertyEditor) (itemId : Int32) :
    PropertyEditor :=
  propEditorLoadFields widgetGetParams p
    { pe with editingItemId := itemId, activeField := 0, editing := false, fieldBuf := [] }

end

/-- The member is taken out, and unless the text is empty put in anew at the end. A member
of an array has no name in print, and other values print no members. -/
def setParam (key text : Bytes) : Json → Json
  | .object ms =>
      .object (ms.eraseP (·.1 = key)++if text = [] then [] else [(key,.string text)])
  | .array items => .array (items++if text = [] then [] else [.string text])
  | j => j

/-- The key of the active field. -/
def PropertyEditor.activeKey (pe : PropertyEditor) : Option Bytes := readAt pe.fields pe.activeField

def propEditorUpdateParam (p : BuilderProject) (pe : PropertyEditor) : BuilderProject :=
  if pe.editingItemId < 0 then p
  else
    match pe.activeKey with
    | none => p
    | some key =>
        changeItem p pe.editingItemId fun item =>
          { item with params := item.params.map (setParam key pe.fieldBuf) }

/-- The text that an editor of the active field starts with. -/
def PropertyEditor.startText (pe : PropertyEditor) (p : BuilderProject) : Bytes :=
  let value := do
    let item ← projectFindItem p pe.editingItemId
    let key ← pe.activeKey
    let params ← item.params
    let value ← params.getObjectItem key
    value.valuestring
  ((value.getD []).takeWhile (· ≠ 0)).take 255

def PropertyEditor.cleared (pe : PropertyEditor) : PropertyEditor :=
  { pe with editing := false, fieldBuf := [] }

def PropertyEditor.fieldUp (pe : PropertyEditor) : PropertyEditor :=
  if 0 < pe.activeField then { pe with activeField := pe.activeField-1 } else pe

def PropertyEditor.fieldDown (pe : PropertyEditor) : PropertyEditor :=
  if pe.activeField < (pe.fields.length : ℤ)-1 then { pe with activeField := pe.activeField+1 }
  else pe

def propEditorKey (p : BuilderProject) (pe : PropertyEditor) (code : KeyCode) (ch : UInt8) :
    BuilderProject × PropertyEditor :=
  if pe.editingItemId < 0 then (p,pe)
  else if pe.editing then
    match code with
    | .keyEsc => (p,pe.cleared)
    | .keyEnter => (propEditorUpdateParam p pe,{ pe with editing := false })
    | .keyUp => (p,pe.fieldUp.cleared)
    | .keyDown => (p,pe.fieldDown.cleared)
    | .keyBackspace => (p,{ pe with fieldBuf := pe.fieldBuf.dropLast })
    | .keyChar =>
        if pe.fieldBuf.length < 254 ∧ 32 ≤ ch ∧ ch < 128 then
          (p,{ pe with fieldBuf := pe.fieldBuf++[ch] })
        else (p,pe)
    | _ => (p,pe)
  else
    match code with
    | .keyEnter => (p,{ pe with editing := true, fieldBuf := pe.startText p })
    | .keyUp => (p,pe.fieldUp)
    | .keyDown => (p,pe.fieldDown)
    | _ => (p,pe)

/-! ## The state -/

inductive BuilderMode where
  | edit
  | wire
  | preview
  | tuiPreview
  deriving DecidableEq

/-- Whether the project has been read from its file, or been written to it since. -/
inductive Origin where
  | unknown
  | loaded
  | saved
  deriving DecidableEq

/-- What is in the file of the project, and the project that was last saved or loaded, or
begun with. -/
structure SavedFile where
  content : Option Bytes
  origin : Origin
  kept : BuilderProject

/-- The project of the canvas and that of the graph are this one. -/
structure BuilderApp (F : Type) where
  project : BuilderProject
  canvas : Canvas F
  graph : ConnectionGraph
  propEditor : PropertyEditor
  mode : BuilderMode
  activePane : ℕ
  paletteIdx : ℤ
  paletteTypes : List Bytes
  projectDirty : Bool
  filePath : Option Bytes
  lastReport : List ValidationIssue
  showValidation : Bool
  validationScroll : ℤ
  keymapEditing : Bool
  disk : SavedFile

def widgetCategories : List (List Bytes) :=
  [["input","password","form","text_editor","file_picker"],
    ["menu","checklist","multiselect","filter","radio_group","calendar","color_picker",
      "range_slider"],
    ["msg","summary","notification","badge","tooltip","rich_text","spinner","separator","gauge"],
    ["toggle","checkbox","yesno","button"],
    ["tabs","split_panes","hub"],
    ["progress","disk","table","tree","context_menu","terminal_emulator","widget_builder",
      "macro_recorder"]].map (List.map bytes)

/-- What `register_builtin_widgets` registers. -/
def builtinWidgets : List Bytes :=
  ["menu","yesno","input","password","checklist","msg","filter","multiselect","file_picker",
    "text_editor","summary","progress","toggle","spinner","separator","disk","table","tree","gauge",
    "calendar","form","tabs","text","split_panes","context_menu","notification","radio_group",
    "range_slider","color_picker","badge","rich_text","tooltip","hub","terminal_emulator",
    "widget_builder","macro_recorder","image","canvas","markdown","plot","video"].map bytes

/-- The registered widgets, those of a category first. -/
def populatePalette (registered : List Bytes) : List Bytes :=
  widgetCategories.flatten.filter (· ∈ registered)++
    registered.filter (· ∉ widgetCategories.flatten)

section
variable {F : Type} (zm : ZoomArithmetic F)
variable (screen : Int32 → Int32)
variable (onCurve : ConnectionGraph → ConnectionEdge → Int32 → Int32 → Bool)
variable (regcomp : Bytes → Option (Bytes → Bool)) (widgetGetParams : Bytes → List Bytes)

/-- The canvas and the graph, with the project that is open. -/
def BuilderApp.openCanvas (app : BuilderApp F) : Canvas F :=
  { app.canvas with project := app.project }

def BuilderApp.openGraph (app : BuilderApp F) : ConnectionGraph :=
  { app.graph with project := app.project }

def BuilderApp.onCanvas (app : BuilderApp F) (f : Canvas F → Canvas F) : BuilderApp F :=
  { app with project := (f app.openCanvas).project, canvas := f app.openCanvas }

def BuilderApp.onGraph (app : BuilderApp F) (f : ConnectionGraph → Option ConnectionGraph) :
    Option (BuilderApp F) :=
  (f app.openGraph).map fun g => { app with project := g.project, graph := g }

def runValidation (app : BuilderApp F) : Option (BuilderApp F) :=
  match validatorCheckAll regcomp app.project with
  | .ok issues => some { app with lastReport := issues }
  | .undef | .spin => none

/-- `project_save`; the file is written. -/
def BuilderApp.written (app : BuilderApp F) : BuilderApp F :=
  { app with disk := ⟨some (projectSave app.project),.saved,app.project⟩ }

/-! ## Keys of a pane -/

def handlePaletteKey (app : BuilderApp F) (code : KeyCode) : Option (BuilderApp F) :=
  if code = .keyUp ∧ 0 < app.paletteIdx then some { app with paletteIdx := app.paletteIdx-1 }
  else if code = .keyDown ∧ app.paletteIdx < (app.paletteTypes.length : ℤ)-1 then
    some { app with paletteIdx := app.paletteIdx+1 }
  else if code = .keyEnter then do
    let widgetType ← readAt app.paletteTypes app.paletteIdx
    let added := app.onCanvas fun c => canvasAddWidget zm c widgetType (c.canvasW/2) (c.canvasH/2)
    let item ← added.project.items.getLast?
    some { added with project := projectAddNode added.project item.id, projectDirty := true }
  else some app

/-- The keys of the canvas that change the project. -/
def canvasEditKey : KeyCode → Option (Canvas F → Canvas F)
  | .keyUp => some fun c => canvasKeyMove c 0 (-1)
  | .keyDown => some fun c => canvasKeyMove c 0 1
  | .keyLeft => some fun c => canvasKeyMove c (-1) 0
  | .keyRight => some fun c => canvasKeyMove c 1 0
  | .keyDelete => some canvasDeleteSelected
  | _ => none

/-- The characters that change the view of the canvas. -/
def canvasViewKey (ch : UInt8) (c : Canvas F) : Canvas F :=
  if ch = 43 then if zm.belowMost c.zoom then canvasZoomIn zm c else c
  else if ch = 45 then if zm.aboveLeast c.zoom then canvasZoomOut zm c else c
  else if ch = 48 then canvasZoomToFit zm c
  else if ch = 103 then canvasToggleGrid c
  else if ch = 116 then canvasToggleTabOrder c
  else if ch = 97 then canvasSelectAll c
  else c

def handleCanvasKey (app : BuilderApp F) (code : KeyCode) (ch : UInt8) : BuilderApp F :=
  match canvasEditKey code with
  | some edit => { app.onCanvas edit with projectDirty := true }
  | none => if code = .keyChar then app.onCanvas (canvasViewKey zm ch) else app

def handlePropKey (app : BuilderApp F) (code : KeyCode) (ch : UInt8) : BuilderApp F :=
  let r := propEditorKey app.project app.propEditor code ch
  { app with project := r.1, propEditor := r.2, projectDirty := true }

def handleGraphKey (app : BuilderApp F) (code : KeyCode) (ch : UInt8) : Option (BuilderApp F) :=
  (app.onGraph fun g => graphKey g code ch).map fun app => { app with projectDirty := true }

/-! ## Keys of the builder -/

/-- The name under which a key is bound; other keys have none. -/
def keyName (code : KeyCode) (ch : UInt8) : Bytes :=
  match code with
  | .keyEnter => bytes "Enter"
  | .keyEsc => bytes "Escape"
  | .keyTab => bytes "Tab"
  | .keyUp => bytes "Up"
  | .keyDown => bytes "Down"
  | .keyLeft => bytes "Left"
  | .keyRight => bytes "Right"
  | .keyBackspace => bytes "Backspace"
  | .keyDelete => bytes "Delete"
  | .keyF1 => bytes "F1"
  | .keyF2 => bytes "F2"
  | .keyF3 => bytes "F3"
  | .keyF4 => bytes "F4"
  | .keyF5 => bytes "F5"
  | .keyF6 => bytes "F6"
  | .keyF7 => bytes "F7"
  | .keyF8 => bytes "F8"
  | .keyF9 => bytes "F9"
  | .keyF10 => bytes "F10"
  | .keyF11 => bytes "F11"
  | .keyF12 => bytes "F12"
  | .keyChar => if 0 < ch ∧ ch < 128 then [ch] else []
  | _ => []

/-- A key while the next one is to be bound. -/
def captureKey (app : BuilderApp F) (code : KeyCode) (ch : UInt8) : BuilderApp F :=
  let app := { app with keymapEditing := false }
  if code = .keyEsc ∨ keyName code ch = [] then app
  else
    { app with
      project := projectAddKeymap app.project .global (-1) (keyName code ch) (bytes "custom")
      projectDirty := true }

/-- The characters that the builder takes in every pane. -/
inductive Command where
  | save
  | exportPlugin
  | validate
  | keymap

def commandOf (ch : UInt8) : Option Command :=
  if ch = 115 ∨ ch = 83 then some .save
  else if ch = 101 ∨ ch = 69 then some .exportPlugin
  else if ch = 118 ∨ ch = 86 then some .validate
  else if ch = 107 ∨ ch = 75 then some .keymap
  else none

def BuilderApp.command (app : BuilderApp F) : Command → Option (BuilderApp F)
  | .save =>
      let app := { app with
        filePath := some (app.filePath.getD (bytes "untitled.filly-project")) }
      runValidation regcomp { app.written with projectDirty := false }
  | .exportPlugin => runValidation regcomp app
  | .validate =>
      (runValidation regcomp app).map fun app =>
        { app with showValidation := !app.showValidation, validationScroll := 0 }
  | .keymap => some { app with keymapEditing := true }

/-- The response when the builder is left. -/
def leaving : EventResult := .response ⟨none,true,none⟩

def handleEscape (app : BuilderApp F) : EventResult × BuilderApp F :=
  if app.mode = .wire ∧ 0 ≤ app.graph.wireStartNode then
    (.handled,{ app with graph := { app.graph with wireStartNode := -1, wireStartPort := -1 } })
  else if app.propEditor.editing then (.handled,{ app with propEditor := app.propEditor.cleared })
  else if app.showValidation then (.handled,{ app with showValidation := false })
  else if app.projectDirty then (leaving,app.written)
  else (leaving,app)

/-- The keys that the builder takes before its panes do. -/
def BuilderApp.modeKey (app : BuilderApp F) : KeyCode → Option (EventResult × BuilderApp F)
  | .keyF1 => some (.handled,{ app with mode := .edit, activePane := 1 })
  | .keyF2 =>
      (({ app with mode := .wire, activePane := 2 }).onGraph fun g => some (graphSyncNodes g)).map
        fun app => (.handled,app)
  | .keyF3 => some (.handled,{ app with mode := .preview })
  | .keyF4 => some (.handled,{ app with mode := .tuiPreview })
  | .keyEsc => some (handleEscape app)
  | .keyTab => some (.handled,{ app with activePane := (app.activePane+1) % 3 })
  | .keyUp =>
      if app.showValidation ∧ 0 < app.validationScroll then
        some (.handled,{ app with validationScroll := app.validationScroll-1 })
      else none
  | .keyDown =>
      if app.showValidation ∧ app.validationScroll < (app.lastReport.length : ℤ)-1 then
        some (.handled,{ app with validationScroll := app.validationScroll+1 })
      else none
  | _ => none

def BuilderApp.paneKey (app : BuilderApp F) (code : KeyCode) (ch : UInt8) :
    Option (BuilderApp F) :=
  if app.activePane = 0 then handlePaletteKey zm app code
  else if app.activePane = 1 then
    some (if app.mode = .edit then handleCanvasKey zm app code ch else app)
  else if app.mode = .wire then handleGraphKey app code ch
  else some (handlePropKey app code ch)

/-- A key that no one is waiting for to bind it. -/
def handleKey (app : BuilderApp F) (code : KeyCode) (ch : UInt8) :
    Option (EventResult × BuilderApp F) :=
  match if code = .keyChar then commandOf ch else none with
  | some command => (app.command regcomp command).map fun app => (.handled,app)
  | none =>
      match app.modeKey code with
      | some r => some r
      | none => (app.paneKey zm code ch).map fun app => (.unhandled,app)

/-! ## The mouse -/

inductive MouseEvent where
  | button
  | motion
  | dragMove
  | scroll
  deriving DecidableEq

/-- A press takes what is selected then into the property editor. -/
def pressCanvas (app : BuilderApp F) (x y button : Int32) : BuilderApp F :=
  let app := app.onCanvas fun c => (canvasMouseDown zm c x y button).2
  if 0 ≤ app.canvas.selectedItem then
    { app with
      propEditor :=
        propEditorSetItem widgetGetParams app.project app.propEditor app.canvas.selectedItem }
  else app

def BuilderApp.canvasMouse (app : BuilderApp F) (event : MouseEvent) (x y button : Int32)
    (state : MouseState) : EventResult × BuilderApp F :=
  if event = .button ∧ state = .press then (.handled,pressCanvas zm widgetGetParams app x y button)
  else if event = .motion ∨ event = .dragMove then
    (.handled,app.onCanvas fun c => (canvasMouseMove zm c x y (state = .press)).2)
  else if event = .button ∧ state = .release then
    (.handled,app.onCanvas fun c => (canvasMouseUp zm c).2)
  else if event = .scroll then
    (.handled,app.onCanvas fun c =>
      (canvasMouseScroll zm c x y (if state = .scrollUp then 1 else -1)).2)
  else (.unhandled,app)

def BuilderApp.graphMouse (app : BuilderApp F) (event : MouseEvent) (x y : Int32)
    (state : MouseState) : Option (EventResult × BuilderApp F) :=
  if event = .button ∧ state = .press then
    (app.onGraph fun g => (graphMouseDown screen onCurve g x y).map Prod.snd).map (.handled,·)
  else if event = .motion then
    (app.onGraph fun g => (graphMouseMove screen g x y).map Prod.snd).map (.handled,·)
  else if event = .button ∧ state = .release then
    (app.onGraph fun g => (graphMouseUp screen g x y).map Prod.snd).map (.handled,·)
  else some (.unhandled,app)

/-! ## Events -/

/-- Resizes and what else no branch of the handler looks at are `other`. -/
inductive AppEvent where
  | key (code : KeyCode) (ch : UInt8)
  | mouse (event : MouseEvent) (x y button : Int32) (state : MouseState)
  | other

/-- A handler that leaves an array, and a report that does not come to an end, have no
result. -/
def builderHandleEvent (app : BuilderApp F) : AppEvent → Option (EventResult × BuilderApp F)
  | .key code ch =>
      if app.keymapEditing then some (.handled,captureKey app code ch)
      else handleKey zm regcomp app code ch
  | .mouse event x y button state =>
      if app.keymapEditing then some (.unhandled,app)
      else if app.activePane = 1 ∧ app.mode = .edit then
        some (app.canvasMouse zm widgetGetParams event x y button state)
      else if app.activePane = 2 ∧ app.mode = .wire then
        app.graphMouse screen onCurve event x y state
      else some (.unhandled,app)
  | .other => some (.unhandled,app)

/-- What the picture changes: outside of the wires it shows the selected item in the
property editor. -/
def builderRender (app : BuilderApp F) : BuilderApp F :=
  if app.mode = .wire then app
  else
    { app with
      propEditor :=
        propEditorSetItem widgetGetParams app.project app.propEditor app.canvas.selectedItem }

/-! ## From the start to the end -/

/-- The project that the builder begins with. A file that makes the reader follow a null
pointer ends it. -/
def openProject (path content : Option Bytes) : Option (BuilderProject × SavedFile) :=
  let fresh := projectNew (some (bytes "untitled")) 800 600
  match path,content with
  | some _,some file =>
      match projectLoad file with
      | .ok p => some (p,⟨content,.loaded,p⟩)
      | .error .notParsed => some (fresh,⟨content,.unknown,fresh⟩)
      | .error .nullPointer => none
  | _,_ => some (fresh,⟨content,.unknown,fresh⟩)

/-- `main`, with the path given to `--project` and what is in the file. -/
def builderStart (registered : List Bytes) (path content : Option Bytes) :
    Option (BuilderApp F) := do
  let opened ← openProject path content
  runValidation regcomp {
    project := opened.1
    canvas := canvasNew zm opened.1 800 600
    graph := graphNew opened.1
    propEditor := propEditorNew
    mode := .edit
    activePane := 1
    paletteIdx := 0
    paletteTypes := populatePalette registered
    projectDirty := false
    filePath := path
    lastReport := []
    showValidation := false
    validationScroll := 0
    keymapEditing := false
    disk := opened.2 }

/-- The builder, and whether it has been left. -/
structure Sitting (F : Type) where
  app : BuilderApp F
  closed : Bool

inductive SittingEvent where
  | event (ev : AppEvent)
  | render

def sittingStart (registered : List Bytes) (path content : Option Bytes) : Option (Sitting F) :=
  (builderStart zm regcomp registered path content).map fun app => ⟨app,false⟩

/-- One event, or one picture. Nothing happens after the builder has been left. -/
def Sitting.next (s : Sitting F) (e : SittingEvent) : Option (Sitting F) :=
  if s.closed then some s
  else
    match e with
    | .render => some { s with app := builderRender widgetGetParams s.app }
    | .event ev =>
        (builderHandleEvent zm screen onCurve regcomp widgetGetParams s.app ev).map fun r =>
          ⟨r.2,r.1.isResponse⟩

def sittingStep (s : Option (Sitting F)) (e : SittingEvent) : Option (Sitting F) :=
  s.bind fun s => s.next zm screen onCurve regcomp widgetGetParams e

end

end Filly.Builder
