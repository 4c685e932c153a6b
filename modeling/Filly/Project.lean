import Filly.CJsonPrint
import Filly.KeyedList

/-!
# The builder's project

A project holds the widgets on the canvas, the connection graph between them,
keymaps and store variables. Its operations append to these lists, change the
first record with an id, or take one record out. Item ids come from a counter of
the project; a node is numbered by its place when it is added.

The path of the file and the undo stack are left out: neither is saved.
-/
namespace Filly.Builder
open CJson KeyedList

/-! ## Records -/

/-- Beside the names of the enumeration, a file may hold any other number. -/
inductive PortDataType where
  | trigger
  | string
  | bool
  | int
  | unnamed (code : { n : Int32 // n ∉ [0,1,2,3] })
  deriving DecidableEq

def PortDataType.code : PortDataType → Int32
  | .trigger => 0
  | .string => 1
  | .bool => 2
  | .int => 3
  | .unnamed c => c.1

def PortDataType.ofCode (n : Int32) : PortDataType :=
  if h : n ∈ [0,1,2,3] then
    if n = 0 then .trigger else if n = 1 then .string else if n = 2 then .bool else .int
  else .unnamed ⟨n,h⟩

inductive NodeType where
  | widget
  | store
  | filBlock
  | conditional
  | unnamed (code : { n : Int32 // n ∉ [0,1,2,3] })
  deriving DecidableEq

def NodeType.code : NodeType → Int32
  | .widget => 0
  | .store => 1
  | .filBlock => 2
  | .conditional => 3
  | .unnamed c => c.1

def NodeType.ofCode (n : Int32) : NodeType :=
  if h : n ∈ [0,1,2,3] then
    if n = 0 then .widget else if n = 1 then .store else if n = 2 then .filBlock else .conditional
  else .unnamed ⟨n,h⟩

inductive KeymapScope where
  | global
  | widget
  | unnamed (code : { n : Int32 // n ∉ [0,1] })
  deriving DecidableEq

def KeymapScope.code : KeymapScope → Int32
  | .global => 0
  | .widget => 1
  | .unnamed c => c.1

def KeymapScope.ofCode (n : Int32) : KeymapScope :=
  if h : n ∈ [0,1] then if n = 0 then .global else .widget else .unnamed ⟨n,h⟩

@[simp] theorem PortDataType.ofCode_code (t : PortDataType) : ofCode t.code = t := by
  cases t with
  | unnamed c => exact dif_neg c.2
  | _ => rfl

@[simp] theorem NodeType.ofCode_code (t : NodeType) : ofCode t.code = t := by
  cases t with
  | unnamed c => exact dif_neg c.2
  | _ => rfl

@[simp] theorem KeymapScope.ofCode_code (t : KeymapScope) : ofCode t.code = t := by
  cases t with
  | unnamed c => exact dif_neg c.2
  | _ => rfl

@[ext] structure PortDef where
  id : Int32
  name : Bytes
  type : PortDataType
  isOutput : Bool
  description : Option Bytes
  deriving DecidableEq

structure ConnectionEdge where
  fromNode : Int32
  fromPort : Int32
  toNode : Int32
  toPort : Int32
  condition : Option Bytes
  transform : Option Bytes
  deriving DecidableEq

@[ext] structure GraphNode where
  id : Int32
  type : NodeType
  label : Bytes
  widgetId : Int32
  storeKey : Option Bytes
  filScript : Option Bytes
  ports : List PortDef
  deriving DecidableEq

structure Rect where
  x : Int32
  y : Int32
  w : Int32
  h : Int32
  deriving DecidableEq

/-- The parameters are a tree of their own, or a null pointer. -/
structure CanvasItem where
  id : Int32
  widgetType : Bytes
  instanceName : Bytes
  rect : Rect
  params : Option Json
  parentId : Int32
  tabIndex : Int32
  locked : Bool
  visible : Bool

structure KeymapEntry where
  scope : KeymapScope
  widgetId : Int32
  key : Bytes
  action : Bytes
  deriving DecidableEq

structure StoreVar where
  key : Bytes
  initialValue : Bytes
  type : Bytes
  deriving DecidableEq

structure TuiConfig where
  showTuiOverlay : Bool
  minTerminalWidth : Int32
  minTerminalHeight : Int32
  fallbackFont : Option Bytes
  deriving DecidableEq

structure BuilderProject where
  projectName : Bytes
  items : List CanvasItem
  nextItemId : Int32
  rootWidth : Int32
  rootHeight : Int32
  nodes : List GraphNode
  edges : List ConnectionEdge
  keymaps : List KeymapEntry
  storeVars : List StoreVar
  tui : TuiConfig
  fillyVersion : Int32
  author : Option Bytes
  description : Option Bytes

/-! ## The ports of a widget -/

structure WidgetPortInfo where
  widgetType : Bytes
  outputs : List PortDef
  inputs : List PortDef

def output (id : Int32) (name : String) (type : PortDataType) (description : String) : PortDef :=
  ⟨id,bytes name,type,true,some (bytes description)⟩

def input (id : Int32) (name : String) (type : PortDataType) (description : String) : PortDef :=
  ⟨id,bytes name,type,false,some (bytes description)⟩

def portRegistry : List WidgetPortInfo :=
  [⟨bytes "input",
     [output 0 "on_submit" .trigger "Emitted when Enter is pressed",
      output 1 "on_change" .trigger "Emitted on each keystroke",
      output 2 "value" .string "Current text value",
      output 3 "animation_end" .trigger "Fires when an animation completes"],
     [input 0 "set_value" .string "Set the input text",
      input 1 "set_visible" .bool "Show or hide this widget",
      input 2 "play_animation" .string "Play a named animation"]⟩,
   ⟨bytes "password",
     [output 0 "on_submit" .trigger "Emitted when Enter is pressed",
      output 1 "value" .string "Current password value",
      output 2 "animation_end" .trigger "Fires when an animation completes"],
     [input 0 "set_visible" .bool "Show or hide this widget",
      input 1 "play_animation" .string "Play a named animation"]⟩,
   ⟨bytes "toggle",
     [output 0 "on_toggle" .trigger "Emitted when toggled",
      output 1 "value" .bool "Current on/off state",
      output 2 "animation_end" .trigger "Fires when an animation completes"],
     [input 0 "set_value" .bool "Set toggle state",
      input 1 "set_visible" .bool "Show or hide this widget",
      input 2 "play_animation" .string "Play a named animation"]⟩,
   ⟨bytes "checkbox",
     [output 0 "on_check" .trigger "Emitted when checked/unchecked",
      output 1 "checked" .bool "Current check state",
      output 2 "animation_end" .trigger "Fires when an animation completes"],
     [input 0 "set_checked" .bool "Set check state",
      input 1 "set_visible" .bool "Show or hide this widget",
      input 2 "play_animation" .string "Play a named animation"]⟩,
   ⟨bytes "menu",
     [output 0 "on_select" .trigger "Emitted on item selection",
      output 1 "value" .string "Label of selected item",
      output 2 "index" .int "Index of selected item",
      output 3 "animation_end" .trigger "Fires when an animation completes"],
     [input 0 "set_visible" .bool "Show or hide this widget",
      input 1 "play_animation" .string "Play a named animation"]⟩,
   ⟨bytes "checklist",
     [output 0 "on_change" .trigger "Emitted when selection changes",
      output 1 "selected" .string "Comma-separated selected items",
      output 2 "animation_end" .trigger "Fires when an animation completes"],
     [input 0 "set_visible" .bool "Show or hide this widget",
      input 1 "play_animation" .string "Play a named animation"]⟩,
   ⟨bytes "multiselect",
     [output 0 "on_change" .trigger "Emitted when selection changes",
      output 1 "selected" .string "Comma-separated selected items",
      output 2 "animation_end" .trigger "Fires when an animation completes"],
     [input 0 "set_visible" .bool "Show or hide this widget",
      input 1 "play_animation" .string "Play a named animation"]⟩,
   ⟨bytes "filter",
     [output 0 "on_select" .trigger "Emitted on item selection",
      output 1 "value" .string "Label of selected item",
      output 2 "animation_end" .trigger "Fires when an animation completes"],
     [input 0 "set_visible" .bool "Show or hide this widget",
      input 1 "play_animation" .string "Play a named animation"]⟩,
   ⟨bytes "radio_group",
     [output 0 "on_select" .trigger "Emitted on item selection",
      output 1 "value" .string "Label of selected item",
      output 2 "index" .int "Index of selected item",
      output 3 "animation_end" .trigger "Fires when an animation completes"],
     [input 0 "set_visible" .bool "Show or hide this widget",
      input 1 "play_animation" .string "Play a named animation"]⟩,
   ⟨bytes "calendar",
     [output 0 "on_select" .trigger "Emitted when a day is selected",
      output 1 "date" .string "Selected date as YYYY-MM-DD",
      output 2 "animation_end" .trigger "Fires when an animation completes"],
     [input 0 "set_visible" .bool "Show or hide this widget",
      input 1 "play_animation" .string "Play a named animation"]⟩,
   ⟨bytes "color_picker",
     [output 0 "on_select" .trigger "Emitted when a color is picked",
      output 1 "color" .string "Selected color as hex #RRGGBB",
      output 2 "animation_end" .trigger "Fires when an animation completes"],
     [input 0 "set_visible" .bool "Show or hide this widget",
      input 1 "play_animation" .string "Play a named animation"]⟩,
   ⟨bytes "range_slider",
     [output 0 "on_change" .trigger "Emitted when slider moves",
      output 1 "value" .int "Current slider value",
      output 2 "animation_end" .trigger "Fires when an animation completes"],
     [input 0 "set_value" .int "Set slider value",
      input 1 "set_visible" .bool "Show or hide this widget",
      input 2 "play_animation" .string "Play a named animation"]⟩,
   ⟨bytes "file_picker",
     [output 0 "on_select" .trigger "Emitted when a file is picked",
      output 1 "path" .string "Selected file path",
      output 2 "animation_end" .trigger "Fires when an animation completes"],
     [input 0 "set_visible" .bool "Show or hide this widget",
      input 1 "play_animation" .string "Play a named animation"]⟩,
   ⟨bytes "text_editor",
     [output 0 "on_save" .trigger "Emitted when Ctrl+S is pressed",
      output 1 "content" .string "Current text content",
      output 2 "animation_end" .trigger "Fires when an animation completes"],
     [input 0 "set_content" .string "Set the editor content",
      input 1 "set_visible" .bool "Show or hide this widget",
      input 2 "play_animation" .string "Play a named animation"]⟩,
   ⟨bytes "form",
     [output 0 "on_submit" .trigger "Emitted when form is submitted",
      output 1 "values" .string "JSON string of form values",
      output 2 "animation_end" .trigger "Fires when an animation completes"],
     [input 0 "set_visible" .bool "Show or hide this widget",
      input 1 "play_animation" .string "Play a named animation"]⟩,
   ⟨bytes "progress",
     [output 0 "on_complete" .trigger "Emitted when progress reaches 100%",
      output 1 "percent" .int "Current progress percentage",
      output 2 "animation_end" .trigger "Fires when an animation completes"],
     [input 0 "set_visible" .bool "Show or hide this widget",
      input 1 "play_animation" .string "Play a named animation"]⟩,
   ⟨bytes "tabs",
     [output 0 "on_tab_change" .trigger "Emitted when active tab changes",
      output 1 "active_tab" .int "Index of active tab",
      output 2 "animation_end" .trigger "Fires when an animation completes"],
     [input 0 "set_active_tab" .int "Switch to a tab by index",
      input 1 "set_visible" .bool "Show or hide this widget",
      input 2 "play_animation" .string "Play a named animation"]⟩,
   ⟨bytes "split_panes",
     [output 0 "on_resize" .trigger "Emitted when split position changes",
      output 1 "split_pos" .int "Current split position in pixels",
      output 2 "animation_end" .trigger "Fires when an animation completes"],
     [input 0 "set_visible" .bool "Show or hide this widget",
      input 1 "play_animation" .string "Play a named animation"]⟩,
   ⟨bytes "table",
     [output 0 "on_select" .trigger "Emitted when a cell is selected",
      output 1 "value" .string "Selected cell value",
      output 2 "row" .int "Selected row index",
      output 3 "col" .int "Selected column index",
      output 4 "animation_end" .trigger "Fires when an animation completes"],
     [input 0 "set_visible" .bool "Show or hide this widget",
      input 1 "play_animation" .string "Play a named animation"]⟩,
   ⟨bytes "tree",
     [output 0 "on_select" .trigger "Emitted when a node is selected",
      output 1 "path" .string "Selected node path",
      output 2 "animation_end" .trigger "Fires when an animation completes"],
     [input 0 "set_visible" .bool "Show or hide this widget",
      input 1 "play_animation" .string "Play a named animation"]⟩,
   ⟨bytes "gauge",
     [output 0 "percent" .int "Current gauge percentage",
      output 1 "animation_end" .trigger "Fires when an animation completes"],
     [input 0 "set_value" .int "Set gauge percentage",
      input 1 "set_visible" .bool "Show or hide this widget",
      input 2 "play_animation" .string "Play a named animation"]⟩,
   ⟨bytes "spinner",
     [output 0 "animation_end" .trigger "Fires when an animation completes"],
     [input 0 "set_visible" .bool "Show or hide this widget",
      input 1 "play_animation" .string "Play a named animation"]⟩,
   ⟨bytes "separator",
     [output 0 "animation_end" .trigger "Fires when an animation completes"],
     [input 0 "set_visible" .bool "Show or hide this widget",
      input 1 "play_animation" .string "Play a named animation"]⟩,
   ⟨bytes "badge",
     [output 0 "animation_end" .trigger "Fires when an animation completes"],
     [input 0 "set_text" .string "Set badge text",
      input 1 "set_visible" .bool "Show or hide this widget",
      input 2 "play_animation" .string "Play a named animation"]⟩,
   ⟨bytes "msg",
     [output 0 "animation_end" .trigger "Fires when an animation completes"],
     [input 0 "set_visible" .bool "Show or hide this widget",
      input 1 "play_animation" .string "Play a named animation"]⟩,
   ⟨bytes "summary",
     [output 0 "animation_end" .trigger "Fires when an animation completes"],
     [input 0 "set_visible" .bool "Show or hide this widget",
      input 1 "play_animation" .string "Play a named animation"]⟩,
   ⟨bytes "notification",
     [output 0 "on_dismiss" .trigger "Emitted when notification is dismissed",
      output 1 "animation_end" .trigger "Fires when an animation completes"],
     [input 0 "set_visible" .bool "Show or hide this widget",
      input 1 "play_animation" .string "Play a named animation"]⟩,
   ⟨bytes "tooltip",
     [output 0 "animation_end" .trigger "Fires when an animation completes"],
     [input 0 "set_text" .string "Set tooltip text",
      input 1 "set_visible" .bool "Show or hide this widget",
      input 2 "play_animation" .string "Play a named animation"]⟩,
   ⟨bytes "rich_text",
     [output 0 "animation_end" .trigger "Fires when an animation completes"],
     [input 0 "set_content" .string "Set the rich text content",
      input 1 "set_visible" .bool "Show or hide this widget",
      input 2 "play_animation" .string "Play a named animation"]⟩,
   ⟨bytes "context_menu",
     [output 0 "on_select" .trigger "Emitted when an item is selected",
      output 1 "value" .string "Label of selected item",
      output 2 "animation_end" .trigger "Fires when an animation completes"],
     [input 0 "set_visible" .bool "Show or hide this widget",
      input 1 "play_animation" .string "Play a named animation"]⟩,
   ⟨bytes "disk",
     [output 0 "on_change" .trigger "Emitted when partitions change",
      output 1 "partitions" .string "JSON string of partition data",
      output 2 "animation_end" .trigger "Fires when an animation completes"],
     [input 0 "set_visible" .bool "Show or hide this widget",
      input 1 "play_animation" .string "Play a named animation"]⟩,
   ⟨bytes "hub",
     [output 0 "on_navigate" .trigger "Emitted when section changes",
      output 1 "active_section" .string "Name of active section",
      output 2 "animation_end" .trigger "Fires when an animation completes"],
     [input 0 "set_visible" .bool "Show or hide this widget",
      input 1 "play_animation" .string "Play a named animation"]⟩,
   ⟨bytes "terminal_emulator",
     [output 0 "on_exit" .trigger "Emitted when the child process exits",
      output 1 "exit_code" .int "Exit code of the child process",
      output 2 "animation_end" .trigger "Fires when an animation completes"],
     [input 0 "set_visible" .bool "Show or hide this widget",
      input 1 "play_animation" .string "Play a named animation"]⟩,
   ⟨bytes "widget_builder",
     [output 0 "on_export" .trigger "Emitted when layout is exported",
      output 1 "layout_json" .string "JSON string of the composed layout",
      output 2 "animation_end" .trigger "Fires when an animation completes"],
     [input 0 "set_visible" .bool "Show or hide this widget",
      input 1 "play_animation" .string "Play a named animation"]⟩,
   ⟨bytes "macro_recorder",
     [output 0 "on_save" .trigger "Emitted when a recording is saved",
      output 1 "recording_path" .string "Path to the saved recording",
      output 2 "animation_end" .trigger "Fires when an animation completes"],
     [input 0 "set_visible" .bool "Show or hide this widget",
      input 1 "play_animation" .string "Play a named animation"]⟩,
   ⟨bytes "yesno",
     [output 0 "on_yes" .trigger "Emitted when Yes is selected",
      output 1 "on_no" .trigger "Emitted when No is selected",
      output 2 "choice" .bool "True if Yes was chosen",
      output 3 "animation_end" .trigger "Fires when an animation completes"],
     [input 0 "set_visible" .bool "Show or hide this widget",
      input 1 "play_animation" .string "Play a named animation"]⟩,
   ⟨bytes "button",
     [output 0 "on_click" .trigger "Emitted when the button is clicked/pressed",
      output 1 "animation_end" .trigger "Fires when an animation completes"],
     [input 0 "set_visible" .bool "Show or hide this widget",
      input 1 "play_animation" .string "Play a named animation"]⟩,
   ⟨bytes "list",
     [output 0 "on_select" .trigger "Emitted on item selection",
      output 1 "value" .string "Label of selected item",
      output 2 "index" .int "Index of selected item",
      output 3 "animation_end" .trigger "Fires when an animation completes"],
     [input 0 "set_visible" .bool "Show or hide this widget",
      input 1 "play_animation" .string "Play a named animation"]⟩]

def projectGetWidgetPorts (widgetType : Bytes) : List PortDef :=
  match lookup WidgetPortInfo.widgetType widgetType portRegistry with
  | some info =>
      info.outputs.map ({ · with isOutput := true })++info.inputs.map ({ · with isOutput := false })
  | none => [input 0 "set_visible" .bool "Show or hide this widget"]

/-! ## Operations -/

def projectNew (name : Option Bytes) (rootW rootH : Int32) : BuilderProject where
  projectName := name.getD (bytes "untitled")
  items := []
  nextItemId := 1
  rootWidth := if 0 < rootW then rootW else 800
  rootHeight := if 0 < rootH then rootH else 600
  nodes := []
  edges := []
  keymaps := []
  storeVars := []
  tui := ⟨false,80,24,none⟩
  fillyVersion := 1
  author := none
  description := none

/-- `snprintf` of `"%s_%d"` into 64 bytes. -/
def instanceNameOf (widgetType : Bytes) (id : Int32) : Bytes :=
  (widgetType++95::formatInt id.toInt).take 63

def projectAddItem (p : BuilderProject) (widgetType : Bytes) (x y w h : Int32) : BuilderProject :=
  { p with
    nextItemId := p.nextItemId+1
    items := p.items++[{
      id := p.nextItemId
      widgetType := widgetType
      instanceName := instanceNameOf widgetType p.nextItemId
      rect := ⟨x,y,w,h⟩
      params := some (.object [(bytes "title",.string widgetType)])
      parentId := -1
      tabIndex := 0
      locked := false
      visible := true }] }

def projectRemoveItem (p : BuilderProject) (itemId : Int32) : BuilderProject :=
  { p with items := p.items.eraseP (·.id = itemId) }

def projectFindItem (p : BuilderProject) (itemId : Int32) : Option CanvasItem :=
  lookup CanvasItem.id itemId p.items

/-- A change of the item that `project_find_item` finds. -/
def changeItem (p : BuilderProject) (itemId : Int32) (f : CanvasItem → CanvasItem) :
    BuilderProject :=
  { p with items := modify CanvasItem.id itemId f p.items }

def projectMoveItem (p : BuilderProject) (itemId x y : Int32) : BuilderProject :=
  changeItem p itemId fun item => { item with rect := { item.rect with x := x, y := y } }

def projectResizeItem (p : BuilderProject) (itemId w h : Int32) : BuilderProject :=
  changeItem p itemId fun item => { item with rect := { item.rect with w := w, h := h } }

def projectSetParent (p : BuilderProject) (itemId parentId : Int32) : BuilderProject :=
  changeItem p itemId fun item => { item with parentId := parentId }

/-- A copy of a null pointer is one. -/
def projectUpdateItemParams (p : BuilderProject) (itemId : Int32) (newParams : Option Json) :
    BuilderProject :=
  changeItem p itemId fun item => { item with params := newParams }

/-- `canvas_lock_item` and `canvas_unlock_item`. -/
def canvasLockItem (p : BuilderProject) (itemId : Int32) (locked : Bool) : BuilderProject :=
  changeItem p itemId fun item => { item with locked := locked }

def nextNodeId (p : BuilderProject) : Int32 := Int32.ofNat (p.nodes.length+1)

def projectAddNode (p : BuilderProject) (widgetId : Int32) : BuilderProject :=
  match projectFindItem p widgetId with
  | none => p
  | some item =>
      { p with nodes := p.nodes++[{
          id := nextNodeId p
          type := .widget
          label := item.instanceName
          widgetId := widgetId
          storeKey := none
          filScript := none
          ports := projectGetWidgetPorts item.widgetType }] }

def projectAddStoreVar (p : BuilderProject) (key : Bytes) (initial type : Option Bytes) :
    BuilderProject :=
  if p.storeVars.any (·.key = key) then p
  else { p with storeVars := p.storeVars++[⟨key,initial.getD [],type.getD (bytes "string")⟩] }

def storePorts : List PortDef :=
  [output 0 "value" .string "Current value",input 1 "set" .string "Set the value"]

/-- The label is cut to a buffer of 128 bytes; the widget id stays zero. -/
def projectAddStoreNode (p : BuilderProject) (key : Bytes) (initial type : Option Bytes) :
    BuilderProject :=
  projectAddStoreVar
    { p with nodes := p.nodes++[{
        id := nextNodeId p
        type := .store
        label := (bytes "store."++key).take 127
        widgetId := 0
        storeKey := some key
        filScript := none
        ports := storePorts }] } key initial type

def projectRemoveNode (p : BuilderProject) (nodeId : Int32) : BuilderProject :=
  { p with nodes := p.nodes.eraseP (·.id = nodeId) }

/-- The new port is numbered from one, behind those the node has. -/
def customPort (ports : List PortDef) (name : Bytes) (type : PortDataType) (isOutput : Bool) :
    PortDef :=
  ⟨Int32.ofNat (ports.length+1),name,type,isOutput,some (bytes "User-defined port")⟩

def graphAddCustomPort (p : BuilderProject) (nodeId : Int32) (name : Bytes) (type : PortDataType)
    (isOutput : Bool) : BuilderProject :=
  if nodeId < 0 then p
  else
    { p with
      nodes := modify GraphNode.id nodeId (fun n =>
        { n with ports := n.ports++[customPort n.ports name type isOutput] }) p.nodes }

def projectAddEdge (p : BuilderProject) (fromNode fromPort toNode toPort : Int32) :
    BuilderProject :=
  { p with edges := p.edges++[⟨fromNode,fromPort,toNode,toPort,none,none⟩] }

/-- An index outside the list changes nothing. -/
def removeAt {α : Type} (l : List α) (idx : Int32) : List α :=
  if idx < 0 then l else l.eraseIdx idx.toInt.toNat

def projectRemoveEdge (p : BuilderProject) (edgeIdx : Int32) : BuilderProject :=
  { p with edges := removeAt p.edges edgeIdx }

/-- The buffer `graph_key` fills: 254 characters that are no control characters. -/
def editBuf (typed : Bytes) : Option Bytes :=
  match (typed.filter fun b => 32 ≤ b && b < 128).take 254 with
  | [] => none
  | text => some text

/-- Enter in the first edit field of an edge. -/
def graphEditCondition (p : BuilderProject) (edgeIdx : ℕ) (typed : Bytes) : BuilderProject :=
  { p with edges := p.edges.modify edgeIdx fun e => { e with condition := editBuf typed } }

def graphEditTransform (p : BuilderProject) (edgeIdx : ℕ) (typed : Bytes) : BuilderProject :=
  { p with edges := p.edges.modify edgeIdx fun e => { e with transform := editBuf typed } }

def projectAddKeymap (p : BuilderProject) (scope : KeymapScope) (widgetId : Int32)
    (key action : Bytes) : BuilderProject :=
  { p with keymaps := p.keymaps++[⟨scope,widgetId,key,action⟩] }

def projectRemoveKeymap (p : BuilderProject) (idx : Int32) : BuilderProject :=
  { p with keymaps := removeAt p.keymaps idx }

/-- One call on a project. -/
inductive Op where
  | addItem (widgetType : Bytes) (x y w h : Int32)
  | removeItem (itemId : Int32)
  | moveItem (itemId x y : Int32)
  | resizeItem (itemId w h : Int32)
  | setParent (itemId parentId : Int32)
  | updateItemParams (itemId : Int32) (newParams : Option Json)
  | lockItem (itemId : Int32) (locked : Bool)
  | addNode (widgetId : Int32)
  | addStoreNode (key : Bytes) (initial type : Option Bytes)
  | removeNode (nodeId : Int32)
  | addCustomPort (nodeId : Int32) (name : Bytes) (type : PortDataType) (isOutput : Bool)
  | addEdge (fromNode fromPort toNode toPort : Int32)
  | removeEdge (edgeIdx : Int32)
  | editCondition (edgeIdx : ℕ) (typed : Bytes)
  | editTransform (edgeIdx : ℕ) (typed : Bytes)
  | addKeymap (scope : KeymapScope) (widgetId : Int32) (key action : Bytes)
  | removeKeymap (idx : Int32)
  | addStoreVar (key : Bytes) (initial type : Option Bytes)

def Op.apply (p : BuilderProject) : Op → BuilderProject
  | .addItem widgetType x y w h => projectAddItem p widgetType x y w h
  | .removeItem itemId => projectRemoveItem p itemId
  | .moveItem itemId x y => projectMoveItem p itemId x y
  | .resizeItem itemId w h => projectResizeItem p itemId w h
  | .setParent itemId parentId => projectSetParent p itemId parentId
  | .updateItemParams itemId newParams => projectUpdateItemParams p itemId newParams
  | .lockItem itemId locked => canvasLockItem p itemId locked
  | .addNode widgetId => projectAddNode p widgetId
  | .addStoreNode key initial type => projectAddStoreNode p key initial type
  | .removeNode nodeId => projectRemoveNode p nodeId
  | .addCustomPort nodeId name type isOutput => graphAddCustomPort p nodeId name type isOutput
  | .addEdge fromNode fromPort toNode toPort => projectAddEdge p fromNode fromPort toNode toPort
  | .removeEdge edgeIdx => projectRemoveEdge p edgeIdx
  | .editCondition edgeIdx typed => graphEditCondition p edgeIdx typed
  | .editTransform edgeIdx typed => graphEditTransform p edgeIdx typed
  | .addKeymap scope widgetId key action => projectAddKeymap p scope widgetId key action
  | .removeKeymap idx => projectRemoveKeymap p idx
  | .addStoreVar key initial type => projectAddStoreVar p key initial type

/-- The ids a call allocates. -/
def Op.allocates (p : BuilderProject) : Op → List Int32
  | .addItem .. => [p.nextItemId]
  | _ => []

end Filly.Builder
