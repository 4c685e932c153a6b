import Filly.CJsonRoundTrip
import Filly.Project

/-!
# The project file

`project_save` writes the project as one line of JSON and `project_load` reads
it member by member, with a default for some of the members. A member without a
default is read through the pointer that the lookup returns, so a file that
lacks it ends the program. The counter of item ids is not written: the load
takes it from the largest id it finds.
-/
namespace Filly.Builder
open CJson KeyedList

/-! ## Saving -/

def number (n : Int32) : Json := .ofInt n.toInt

/-- `if (text) cJSON_AddStringToObject(...)`. -/
def textMember (name : String) (text : Option Bytes) : List (Bytes × Json) :=
  text.toList.map fun s => (bytes name,.string s)

def rectTree (r : Rect) : Json :=
  .object [(bytes "x",number r.x),(bytes "y",number r.y),(bytes "w",number r.w),
    (bytes "h",number r.h)]

/-- The members before the parameters. -/
def identityMembers (item : CanvasItem) : List (Bytes × Json) :=
  [(bytes "id",number item.id),(bytes "type",.string item.widgetType),
    (bytes "name",.string item.instanceName),(bytes "rect",rectTree item.rect)]

def placementMembers (item : CanvasItem) : List (Bytes × Json) :=
  [(bytes "parent",number item.parentId),(bytes "tab_index",number item.tabIndex),
    (bytes "locked",.bool item.locked),(bytes "visible",.bool item.visible)]

def itemTree (item : CanvasItem) : Json :=
  .object (identityMembers item++
    (item.params.toList.map fun params => (bytes "params",params))++placementMembers item)

def portTree (port : PortDef) : Json :=
  .object ([(bytes "id",number port.id),(bytes "name",.string port.name),
      (bytes "type",number port.type.code),(bytes "out",.bool port.isOutput)]++
    textMember "desc" port.description)

def widgetMember (widgetId : Int32) : List (Bytes × Json) :=
  if 0 ≤ widgetId then [(bytes "widget_id",number widgetId)] else []

def nodeTree (n : GraphNode) : Json :=
  .object ([(bytes "id",number n.id),(bytes "type",number n.type.code),
      (bytes "label",.string n.label)]++widgetMember n.widgetId++
    textMember "store_key" n.storeKey++textMember "fil_script" n.filScript++
    [(bytes "ports",.array (n.ports.map portTree))])

def edgeTree (e : ConnectionEdge) : Json :=
  .object ([(bytes "from_node",number e.fromNode),(bytes "from_port",number e.fromPort),
      (bytes "to_node",number e.toNode),(bytes "to_port",number e.toPort)]++
    textMember "condition" e.condition++textMember "transform" e.transform)

def keymapTree (k : KeymapEntry) : Json :=
  .object [(bytes "scope",number k.scope.code),(bytes "widget_id",number k.widgetId),
    (bytes "key",.string k.key),(bytes "action",.string k.action)]

def storeVarTree (v : StoreVar) : Json :=
  .object [(bytes "key",.string v.key),(bytes "initial",.string v.initialValue),
    (bytes "type",.string v.type)]

def tuiTree (t : TuiConfig) : Json :=
  .object ([(bytes "show_tab_order",.bool t.showTuiOverlay),
      (bytes "min_term_w",number t.minTerminalWidth),
      (bytes "min_term_h",number t.minTerminalHeight)]++textMember "fallback_font" t.fallbackFont)

/-- The members before the items. -/
def headMembers (p : BuilderProject) : List (Bytes × Json) :=
  [(bytes "version",number 1),(bytes "filly_version",number p.fillyVersion),
    (bytes "name",.string p.projectName),(bytes "author",.string (p.author.getD [])),
    (bytes "description",.string (p.description.getD [])),
    (bytes "root",.object [(bytes "w",number p.rootWidth),(bytes "h",number p.rootHeight)])]

def graphMembers (p : BuilderProject) : List (Bytes × Json) :=
  [(bytes "nodes",.array (p.nodes.map nodeTree)),(bytes "edges",.array (p.edges.map edgeTree)),
    (bytes "keymaps",.array (p.keymaps.map keymapTree)),
    (bytes "store_vars",.array (p.storeVars.map storeVarTree)),(bytes "tui",tuiTree p.tui)]

def projectTree (p : BuilderProject) : Json :=
  .object (headMembers p++[(bytes "items",.array (p.items.map itemTree))]++graphMembers p)

/-- The content of the file; a failed print is written as `"%s"` writes a null
pointer. -/
def projectSave (p : BuilderProject) : Bytes :=
  (cJSONPrintUnformatted (projectTree p)).getD (bytes "(null)")++[10]

/-! ## Loading -/

/-- The text is no JSON, or a missing member is read through a null pointer. -/
inductive LoadFailure where
  | notParsed
  | nullPointer
  deriving DecidableEq

/-- `cJSON_GetObjectItem(o,name)->valueint`. -/
def valueintOf (o : Json) (name : String) : Except LoadFailure Int32 :=
  match o.getObjectItem (bytes name) with
  | none => .error .nullPointer
  | some v => .ok (Int32.ofInt v.valueint)

def valueintOr (o : Json) (name : String) (default : Int32) : Int32 :=
  match o.getObjectItem (bytes name) with
  | none => default
  | some v => Int32.ofInt v.valueint

/-- `strdup(v->valuestring)` of a member that has one. -/
def valuestringOf (o : Json) (name : String) : Option Bytes :=
  ((o.getObjectItem (bytes name)).bind Json.valuestring).map fun s => s.takeWhile (· ≠ 0)

def valuestringOr (o : Json) (name : String) (default : Bytes) : Bytes :=
  (valuestringOf o name).getD default

/-- The value of an array member; any other one leaves the list empty. -/
def arrayOf {α : Type} (o : Json) (name : String) (load : Json → Except LoadFailure α) :
    Except LoadFailure (List α) :=
  match o.getObjectItem (bytes name) with
  | some (.array vs) => vs.mapM load
  | _ => .ok []

def loadRect : Option Json → Except LoadFailure Rect
  | none => .ok ⟨0,0,0,0⟩
  | some r => do
      let x ← valueintOf r "x"
      let y ← valueintOf r "y"
      let w ← valueintOf r "w"
      let h ← valueintOf r "h"
      return ⟨x,y,w,h⟩

def loadItem (o : Json) : Except LoadFailure CanvasItem := do
  let id ← valueintOf o "id"
  let rect ← loadRect (o.getObjectItem (bytes "rect"))
  return {
    id := id
    widgetType := valuestringOr o "type" []
    instanceName := valuestringOr o "name" []
    rect := rect
    params := some ((o.getObjectItem (bytes "params")).getD (.object []))
    parentId := valueintOr o "parent" (-1)
    tabIndex := valueintOr o "tab_index" 0
    locked := valueintOr o "locked" 0 ≠ 0
    visible := valueintOr o "visible" 1 ≠ 0 }

/-- The description of a port is not read. -/
def loadPort (o : Json) : Except LoadFailure PortDef := do
  let id ← valueintOf o "id"
  let type ← valueintOf o "type"
  let out ← valueintOf o "out"
  return ⟨id,valuestringOr o "name" [],.ofCode type,out ≠ 0,none⟩

def loadNode (o : Json) : Except LoadFailure GraphNode := do
  let id ← valueintOf o "id"
  let type ← valueintOf o "type"
  let ports ← arrayOf o "ports" loadPort
  return {
    id := id
    type := .ofCode type
    label := valuestringOr o "label" []
    widgetId := valueintOr o "widget_id" (-1)
    storeKey := valuestringOf o "store_key"
    filScript := valuestringOf o "fil_script"
    ports := ports }

def loadEdge (o : Json) : Except LoadFailure ConnectionEdge := do
  let fromNode ← valueintOf o "from_node"
  let fromPort ← valueintOf o "from_port"
  let toNode ← valueintOf o "to_node"
  let toPort ← valueintOf o "to_port"
  return ⟨fromNode,fromPort,toNode,toPort,valuestringOf o "condition",valuestringOf o "transform"⟩

def loadKeymap (o : Json) : Except LoadFailure KeymapEntry := do
  let scope ← valueintOf o "scope"
  let widgetId ← valueintOf o "widget_id"
  return ⟨.ofCode scope,widgetId,valuestringOr o "key" [],valuestringOr o "action" []⟩

def loadStoreVar (o : Json) : Except LoadFailure StoreVar :=
  .ok ⟨valuestringOr o "key" [],valuestringOr o "initial" [],
    valuestringOr o "type" (bytes "string")⟩

def loadTui : Option Json → Except LoadFailure TuiConfig
  | none => .ok ⟨false,0,0,none⟩
  | some t => do
      let overlay ← valueintOf t "show_tab_order"
      let width ← valueintOf t "min_term_w"
      let height ← valueintOf t "min_term_h"
      return ⟨overlay ≠ 0,width,height,valuestringOf t "fallback_font"⟩

/-- The counter after the loop over the items, from zero. -/
def countedIds (items : List CanvasItem) : Int32 :=
  items.foldl (fun next item => if next ≤ item.id then item.id+1 else next) 0

def loadRoot (root : Json) : Except LoadFailure BuilderProject := do
  let items ← arrayOf root "items" loadItem
  let nodes ← arrayOf root "nodes" loadNode
  let edges ← arrayOf root "edges" loadEdge
  let keymaps ← arrayOf root "keymaps" loadKeymap
  let storeVars ← arrayOf root "store_vars" loadStoreVar
  let tui ← loadTui (root.getObjectItem (bytes "tui"))
  return {
    projectName := valuestringOr root "name" (bytes "untitled")
    items := items
    nextItemId := countedIds items
    rootWidth := ((root.getObjectItem (bytes "root")).map (valueintOr · "w" 800)).getD 0
    rootHeight := ((root.getObjectItem (bytes "root")).map (valueintOr · "h" 600)).getD 0
    nodes := nodes
    edges := edges
    keymaps := keymaps
    storeVars := storeVars
    tui := tui
    fillyVersion := valueintOr root "filly_version" 1
    author := valuestringOf root "author"
    description := valuestringOf root "description" }

def projectLoad (file : Bytes) : Except LoadFailure BuilderProject :=
  match cJSONParse (file.takeWhile (· ≠ 0)) with
  | none => .error .notParsed
  | some root => loadRoot root

/-! ## The texts of a project -/

section

variable (P : Bytes → Prop)

def PortDef.AllTexts (port : PortDef) : Prop := P port.name ∧ ∀ s ∈ port.description, P s

def CanvasItem.AllTexts (item : CanvasItem) : Prop :=
  P item.widgetType ∧ P item.instanceName ∧ ∀ j ∈ item.params, ∀ s ∈ j.strings, P s

def GraphNode.AllTexts (n : GraphNode) : Prop :=
  P n.label ∧ (∀ s ∈ n.storeKey, P s) ∧ (∀ s ∈ n.filScript, P s) ∧
    ∀ port ∈ n.ports, port.AllTexts P

def ConnectionEdge.AllTexts (e : ConnectionEdge) : Prop :=
  (∀ s ∈ e.condition, P s) ∧ ∀ s ∈ e.transform, P s

def KeymapEntry.AllTexts (k : KeymapEntry) : Prop := P k.key ∧ P k.action

def StoreVar.AllTexts (v : StoreVar) : Prop := P v.key ∧ P v.initialValue ∧ P v.type

/-- Every text of the project has the property. -/
structure BuilderProject.AllTexts (p : BuilderProject) : Prop where
  projectName : P p.projectName
  author : ∀ s ∈ p.author, P s
  description : ∀ s ∈ p.description, P s
  items : ∀ item ∈ p.items, item.AllTexts P
  nodes : ∀ n ∈ p.nodes, n.AllTexts P
  edges : ∀ e ∈ p.edges, e.AllTexts P
  keymaps : ∀ k ∈ p.keymaps, k.AllTexts P
  storeVars : ∀ v ∈ p.storeVars, v.AllTexts P
  fallbackFont : ∀ s ∈ p.tui.fallbackFont, P s

end

/-- An absent text is written as an empty one. -/
theorem getD_text_iff {P : Bytes → Prop} (hnil : P []) (text : Option Bytes) :
    P (text.getD []) ↔ ∀ s ∈ text, P s := by
  cases text <;> simp [hnil]

theorem clean_nil : Clean [] := List.forall_mem_nil _

/-! ## Loading what was saved -/

section

variable {o : Json} {name : String}

theorem ofInt_valueint_number (n : Int32) : Int32.ofInt (number n).valueint = n := by
  have h : (number n).valueint = n.toInt := valueint_intCast ⟨Int32.le_toInt n,Int32.toInt_lt n⟩
  rw [h,Int32.ofInt_toInt]

theorem valueintOf_number {n : Int32} (h : o.getObjectItem (bytes name) = some (number n)) :
    valueintOf o name = .ok n := by
  simp only [valueintOf,h,ofInt_valueint_number]

theorem valueintOr_number {n d : Int32} (h : o.getObjectItem (bytes name) = some (number n)) :
    valueintOr o name d = n := by
  simp only [valueintOr,h,ofInt_valueint_number]

theorem valueintOf_bool {b : Bool} (h : o.getObjectItem (bytes name) = some (.bool b)) :
    valueintOf o name = .ok (if b then 1 else 0) := by
  cases b <;> simp only [valueintOf,h] <;> rfl

theorem valueintOr_bool {b : Bool} {d : Int32}
    (h : o.getObjectItem (bytes name) = some (.bool b)) :
    valueintOr o name d = if b then 1 else 0 := by
  cases b <;> simp only [valueintOr,h] <;> rfl

theorem decide_flag (b : Bool) : decide ((if b then (1 : Int32) else 0) ≠ 0) = b := by
  cases b <;> rfl

theorem valuestringOf_string {s : Bytes} (h : o.getObjectItem (bytes name) = some (.string s))
    (hs : 0 ∉ s) : valuestringOf o name = some s := by
  rw [valuestringOf,h]
  exact congrArg some (takeWhile_nul hs)

theorem valuestringOr_string {s d : Bytes} (h : o.getObjectItem (bytes name) = some (.string s))
    (hs : 0 ∉ s) : valuestringOr o name d = s := by
  rw [valuestringOr,valuestringOf_string h hs,Option.getD_some]

theorem valuestringOf_text {text : Option Bytes}
    (h : o.getObjectItem (bytes name) = text.map .string) (hs : ∀ s ∈ text, 0 ∉ s) :
    valuestringOf o name = text := by
  cases text with
  | none => rw [valuestringOf,h]; rfl
  | some s => exact valuestringOf_string h (hs s rfl)

theorem mapM_map_ok {α : Type} {tree : α → Json} {load : Json → Except LoadFailure α} {f : α → α}
    {l : List α} (h : ∀ a ∈ l, load (tree a) = .ok (f a)) :
    (l.map tree).mapM load = .ok (l.map f) := by
  induction l with
  | nil => rfl
  | cons a l ih =>
      rw [List.forall_mem_cons] at h
      rw [List.map_cons,List.mapM_cons,h.1,ih h.2]
      rfl

theorem arrayOf_map {α : Type} {tree : α → Json} {load : Json → Except LoadFailure α} {f : α → α}
    {l : List α} (h : o.getObjectItem (bytes name) = some (.array (l.map tree)))
    (hl : ∀ a ∈ l, load (tree a) = .ok (f a)) : arrayOf o name load = .ok (l.map f) := by
  rw [arrayOf,h]
  exact mapM_map_ok hl

end

theorem loadRect_tree (r : Rect) : loadRect (some (rectTree r)) = .ok r := by
  rw [loadRect,valueintOf_number (n := r.x) rfl,valueintOf_number (n := r.y) rfl,
    valueintOf_number (n := r.w) rfl,valueintOf_number (n := r.h) rfl]
  rfl

/-- Absent parameters come back as an empty object. -/
def reopenedItem (item : CanvasItem) : CanvasItem :=
  { item with params := some (item.params.getD (.object [])) }

theorem loadItem_tree {item : CanvasItem} (h : item.AllTexts (0 ∉ ·)) :
    loadItem (itemTree item) = .ok (reopenedItem item) := by
  have hrect : (itemTree item).getObjectItem (bytes "rect") = some (rectTree item.rect) := rfl
  rw [loadItem,valueintOf_number (n := item.id) rfl,hrect,loadRect_tree,
    valuestringOr_string (s := item.widgetType) rfl h.1,
    valuestringOr_string (s := item.instanceName) rfl h.2.1]
  obtain ⟨id,widgetType,instanceName,rect,params,parentId,tabIndex,locked,visible⟩ := item
  cases params <;>
    rw [valueintOr_number (n := parentId) rfl,valueintOr_number (n := tabIndex) rfl,
      valueintOr_bool (b := locked) rfl,valueintOr_bool (b := visible) rfl,decide_flag,
      decide_flag] <;>
    rfl

def reopenedPort (port : PortDef) : PortDef := { port with description := none }

theorem loadPort_tree {port : PortDef} (h : port.AllTexts (0 ∉ ·)) :
    loadPort (portTree port) = .ok (reopenedPort port) := by
  rw [loadPort,valueintOf_number (n := port.id) rfl,valueintOf_number (n := port.type.code) rfl,
    valueintOf_bool (b := port.isOutput) rfl,valuestringOr_string (s := port.name) rfl h.1]
  simp only [bind,Except.bind,PortDataType.ofCode_code,decide_flag]
  rfl

/-- A negative widget id is not written and comes back as `-1`. -/
def reopenedNode (n : GraphNode) : GraphNode :=
  { n with
    widgetId := if 0 ≤ n.widgetId then n.widgetId else -1
    ports := n.ports.map reopenedPort }

theorem nodeTree_lookups (n : GraphNode) :
    (nodeTree n).getObjectItem (bytes "widget_id") =
        (if 0 ≤ n.widgetId then some (number n.widgetId) else none) ∧
      (nodeTree n).getObjectItem (bytes "store_key") = n.storeKey.map .string ∧
      (nodeTree n).getObjectItem (bytes "fil_script") = n.filScript.map .string ∧
      (nodeTree n).getObjectItem (bytes "ports") = some (.array (n.ports.map portTree)) := by
  obtain ⟨id,type,label,widgetId,storeKey,filScript,ports⟩ := n
  unfold nodeTree widgetMember
  dsimp only
  split_ifs <;> cases storeKey <;> cases filScript <;> exact ⟨rfl,rfl,rfl,rfl⟩

theorem loadNode_tree {n : GraphNode} (h : n.AllTexts (0 ∉ ·)) :
    loadNode (nodeTree n) = .ok (reopenedNode n) := by
  obtain ⟨hwidget,hkey,hscript,hports⟩ := nodeTree_lookups n
  have hw : valueintOr (nodeTree n) "widget_id" (-1) =
      if 0 ≤ n.widgetId then n.widgetId else -1 := by
    split_ifs at hwidget ⊢ with h0
    · exact valueintOr_number hwidget
    · rw [valueintOr,hwidget]
  rw [loadNode,valueintOf_number (n := n.id) rfl,valueintOf_number (n := n.type.code) rfl,
    arrayOf_map hports fun port hport => loadPort_tree (h.2.2.2 port hport),
    valuestringOr_string (s := n.label) rfl h.1,hw,valuestringOf_text hkey h.2.1,
    valuestringOf_text hscript h.2.2.1]
  simp only [bind,Except.bind,NodeType.ofCode_code]
  rfl

theorem loadEdge_tree {e : ConnectionEdge} (h : e.AllTexts (0 ∉ ·)) :
    loadEdge (edgeTree e) = .ok e := by
  have hlook : (edgeTree e).getObjectItem (bytes "condition") = e.condition.map .string ∧
      (edgeTree e).getObjectItem (bytes "transform") = e.transform.map .string := by
    obtain ⟨fromNode,fromPort,toNode,toPort,condition,transform⟩ := e
    cases condition <;> cases transform <;> exact ⟨rfl,rfl⟩
  rw [loadEdge,valueintOf_number (n := e.fromNode) rfl,valueintOf_number (n := e.fromPort) rfl,
    valueintOf_number (n := e.toNode) rfl,valueintOf_number (n := e.toPort) rfl,
    valuestringOf_text hlook.1 h.1,valuestringOf_text hlook.2 h.2]
  rfl

theorem loadKeymap_tree {k : KeymapEntry} (h : k.AllTexts (0 ∉ ·)) :
    loadKeymap (keymapTree k) = .ok k := by
  rw [loadKeymap,valueintOf_number (n := k.scope.code) rfl,valueintOf_number (n := k.widgetId) rfl,
    valuestringOr_string (s := k.key) rfl h.1,valuestringOr_string (s := k.action) rfl h.2]
  simp only [bind,Except.bind,KeymapScope.ofCode_code]
  rfl

theorem loadStoreVar_tree {v : StoreVar} (h : v.AllTexts (0 ∉ ·)) :
    loadStoreVar (storeVarTree v) = .ok v := by
  rw [loadStoreVar,valuestringOr_string (s := v.key) rfl h.1,
    valuestringOr_string (s := v.initialValue) rfl h.2.1,
    valuestringOr_string (s := v.type) rfl h.2.2]

theorem loadTui_tree {t : TuiConfig} (h : ∀ s ∈ t.fallbackFont, 0 ∉ s) :
    loadTui (some (tuiTree t)) = .ok t := by
  have hfont : (tuiTree t).getObjectItem (bytes "fallback_font") = t.fallbackFont.map .string := by
    obtain ⟨overlay,width,height,font⟩ := t
    cases font <;> rfl
  rw [loadTui,valueintOf_bool (b := t.showTuiOverlay) rfl,
    valueintOf_number (n := t.minTerminalWidth) rfl,
    valueintOf_number (n := t.minTerminalHeight) rfl,valuestringOf_text hfont h]
  simp only [bind,Except.bind,decide_flag]
  rfl

/-- What a saved project is loaded as. -/
def reopened (p : BuilderProject) : BuilderProject :=
  { p with
    items := p.items.map reopenedItem
    nextItemId := countedIds p.items
    nodes := p.nodes.map reopenedNode
    author := some (p.author.getD [])
    description := some (p.description.getD []) }

theorem countedIds_reopened (items : List CanvasItem) :
    countedIds (items.map reopenedItem) = countedIds items := by
  rw [countedIds,List.foldl_map]
  rfl

theorem loadRoot_tree {p : BuilderProject} (h : p.AllTexts (0 ∉ ·)) :
    loadRoot (projectTree p) = .ok (reopened p) := by
  have hroot : (projectTree p).getObjectItem (bytes "root") =
    some (.object [(bytes "w",number p.rootWidth),(bytes "h",number p.rootHeight)]) := rfl
  have htui : (projectTree p).getObjectItem (bytes "tui") = some (tuiTree p.tui) := rfl
  rw [loadRoot,arrayOf_map (l := p.items) rfl fun i hi => loadItem_tree (h.items i hi),
    arrayOf_map (l := p.nodes) rfl fun n hn => loadNode_tree (h.nodes n hn),
    arrayOf_map (l := p.edges) (f := id) rfl fun e he => loadEdge_tree (h.edges e he),
    arrayOf_map (l := p.keymaps) (f := id) rfl fun k hk => loadKeymap_tree (h.keymaps k hk),
    arrayOf_map (l := p.storeVars) (f := id) rfl fun v hv => loadStoreVar_tree (h.storeVars v hv),
    htui,loadTui_tree h.fallbackFont,valuestringOr_string (s := p.projectName) rfl h.projectName,
    valueintOr_number (n := p.fillyVersion) rfl,
    valuestringOf_string (s := p.author.getD []) rfl
      ((getD_text_iff List.not_mem_nil _).mpr h.author),
    valuestringOf_string (s := p.description.getD []) rfl
      ((getD_text_iff List.not_mem_nil _).mpr h.description),hroot]
  simp only [bind,Except.bind,Option.map_some,Option.getD_some,countedIds_reopened,List.map_id]
  rw [valueintOr_number (n := p.rootWidth) rfl,valueintOr_number (n := p.rootHeight) rfl]
  rfl

/-! ## The tree in the file -/

theorem readBack_number (d : ℕ) (n : Int32) : readBack d (number n) = some (number n) :=
  readBack_ofInt ⟨Int32.le_toInt n,Int32.toInt_lt n⟩ d

/-- A member that is read as it was written. -/
def Fixed (d : ℕ) (m : Bytes × Json) : Prop := Clean m.1 ∧ readBack d m.2 = some m.2

theorem fixed_number {name : Bytes} (h : Clean name) (d : ℕ) (n : Int32) :
    Fixed d (name,number n) := ⟨h,readBack_number d n⟩

theorem fixed_string {name s : Bytes} (h : Clean name) (hs : Clean s) (d : ℕ) :
    Fixed d (name,.string s) := ⟨h,readBack_string hs d⟩

theorem fixed_bool {name : Bytes} (h : Clean name) (d : ℕ) (b : Bool) :
    Fixed d (name,.bool b) := ⟨h,by rw [readBack]⟩

theorem fixed_textMember {name : String} {text : Option Bytes} (hn : Clean (bytes name))
    (h : ∀ s ∈ text, Clean s) (d : ℕ) : ∀ m ∈ textMember name text, Fixed d m := by
  intro m hm
  obtain ⟨s,hs,rfl⟩ := List.mem_map.mp hm
  exact fixed_string hn (h s (Option.mem_toList.mp hs)) d

theorem fixed_array {α : Type} {name : Bytes} {tree : α → Json} {l : List α} {d : ℕ}
    (h : Clean name) (hd : d < 1000) (hl : ∀ a ∈ l, readBack (d+1) (tree a) = some (tree a)) :
    Fixed d (name,.array (l.map tree)) :=
  ⟨h,readBack_array_fixed hd (by rwa [List.forall_mem_map])⟩

theorem readBack_rectTree (r : Rect) : readBack 3 (rectTree r) = some (rectTree r) := by
  apply readBack_object_fixed (by decide)
  simp only [List.forall_mem_cons]
  exact ⟨fixed_number (by decide) _ _,fixed_number (by decide) _ _,fixed_number (by decide) _ _,
    fixed_number (by decide) _ _,by simp⟩

theorem readBack_edgeTree {e : ConnectionEdge} (h : e.AllTexts Clean) :
    readBack 2 (edgeTree e) = some (edgeTree e) := by
  apply readBack_object_fixed (by decide)
  simp only [List.forall_mem_append,List.forall_mem_cons]
  exact ⟨⟨⟨fixed_number (by decide) _ _,fixed_number (by decide) _ _,fixed_number (by decide) _ _,
    fixed_number (by decide) _ _,by simp⟩,fixed_textMember (by decide) h.1 _⟩,
    fixed_textMember (by decide) h.2 _⟩

theorem readBack_portTree {port : PortDef} (h : port.AllTexts Clean) :
    readBack 4 (portTree port) = some (portTree port) := by
  apply readBack_object_fixed (by decide)
  simp only [List.forall_mem_append,List.forall_mem_cons]
  exact ⟨⟨fixed_number (by decide) _ _,fixed_string (by decide) h.1 _,
    fixed_number (by decide) _ _,fixed_bool (by decide) _ _,by simp⟩,
    fixed_textMember (by decide) h.2 _⟩

theorem readBack_nodeTree {n : GraphNode} (h : n.AllTexts Clean) :
    readBack 2 (nodeTree n) = some (nodeTree n) := by
  have hwidget : ∀ m ∈ widgetMember n.widgetId, Fixed 3 m := by
    unfold widgetMember
    split_ifs
    · exact List.forall_mem_singleton.mpr (fixed_number (by decide) _ _)
    · simp
  have hports : Fixed 3 (bytes "ports",.array (n.ports.map portTree)) :=
    fixed_array (by decide) (by decide) fun port hport => readBack_portTree (h.2.2.2 port hport)
  apply readBack_object_fixed (by decide)
  simp only [List.forall_mem_append,List.forall_mem_cons]
  exact ⟨⟨⟨⟨⟨fixed_number (by decide) _ _,fixed_number (by decide) _ _,
    fixed_string (by decide) h.1 _,by simp⟩,hwidget⟩,fixed_textMember (by decide) h.2.1 _⟩,
    fixed_textMember (by decide) h.2.2.1 _⟩,hports,by simp⟩

theorem readBack_keymapTree {k : KeymapEntry} (h : k.AllTexts Clean) :
    readBack 2 (keymapTree k) = some (keymapTree k) := by
  apply readBack_object_fixed (by decide)
  simp only [List.forall_mem_cons]
  exact ⟨fixed_number (by decide) _ _,fixed_number (by decide) _ _,
    fixed_string (by decide) h.1 _,fixed_string (by decide) h.2 _,by simp⟩

theorem readBack_storeVarTree {v : StoreVar} (h : v.AllTexts Clean) :
    readBack 2 (storeVarTree v) = some (storeVarTree v) := by
  apply readBack_object_fixed (by decide)
  simp only [List.forall_mem_cons]
  exact ⟨fixed_string (by decide) h.1 _,fixed_string (by decide) h.2.1 _,
    fixed_string (by decide) h.2.2 _,by simp⟩

theorem readBack_tuiTree {t : TuiConfig} (h : ∀ s ∈ t.fallbackFont, Clean s) :
    readBack 1 (tuiTree t) = some (tuiTree t) := by
  apply readBack_object_fixed (by decide)
  simp only [List.forall_mem_append,List.forall_mem_cons]
  exact ⟨⟨fixed_bool (by decide) _ _,fixed_number (by decide) _ _,
    fixed_number (by decide) _ _,by simp⟩,fixed_textMember (by decide) h _⟩

/-- The parameters are three levels deep in the file. -/
def rereadItem (item : CanvasItem) : Option CanvasItem :=
  match item.params with
  | none => some item
  | some params => (readBack 3 params).map fun w => { item with params := some w }

theorem readMembers_identity {item : CanvasItem} (h : item.AllTexts Clean) :
    readMembers 3 (identityMembers item) = some (identityMembers item) := by
  apply readMembers_fixed
  simp only [identityMembers,List.forall_mem_cons]
  exact ⟨fixed_number (by decide) _ _,fixed_string (by decide) h.1 _,
    fixed_string (by decide) h.2.1 _,⟨by decide,readBack_rectTree _⟩,by simp⟩

theorem readMembers_placement (item : CanvasItem) :
    readMembers 3 (placementMembers item) = some (placementMembers item) := by
  apply readMembers_fixed
  simp only [placementMembers,List.forall_mem_cons]
  exact ⟨fixed_number (by decide) _ _,fixed_number (by decide) _ _,fixed_bool (by decide) _ _,
    fixed_bool (by decide) _ _,by simp⟩

theorem readBack_itemTree {item : CanvasItem} (h : item.AllTexts Clean) :
    readBack 2 (itemTree item) = (rereadItem item).map itemTree := by
  rw [itemTree,readBack,if_neg (by decide),readMembers_append,readMembers_append,
    readMembers_identity h,readMembers_placement,rereadItem]
  obtain ⟨id,widgetType,instanceName,rect,params,parentId,tabIndex,locked,visible⟩ := item
  cases params with
  | none => rfl
  | some params =>
      have hname : readString (bytes "params") = some (bytes "params") :=
        readString_clean (by decide)
      simp only [Option.toList_some,List.map_cons,List.map_nil,readMembers,hname,Option.bind_some]
      cases readBack 3 params <;> rfl

theorem readItems_itemTrees {items : List CanvasItem} (h : ∀ item ∈ items, item.AllTexts Clean) :
    readItems 2 (items.map itemTree) = (items.mapM rereadItem).map (List.map itemTree) := by
  induction items with
  | nil => rfl
  | cons item items ih =>
      rw [List.forall_mem_cons] at h
      rw [List.map_cons,readItems,readBack_itemTree h.1,ih h.2,List.mapM_cons]
      cases rereadItem item <;> cases items.mapM rereadItem <;> rfl

theorem readMembers_head {p : BuilderProject} (h : p.AllTexts Clean) :
    readMembers 1 (headMembers p) = some (headMembers p) := by
  have hroot : ∀ m ∈ [(bytes "w",number p.rootWidth),(bytes "h",number p.rootHeight)],
      Fixed 2 m := by
    simp only [List.forall_mem_cons]
    exact ⟨fixed_number (by decide) _ _,fixed_number (by decide) _ _,by simp⟩
  apply readMembers_fixed
  simp only [headMembers,List.forall_mem_cons]
  exact ⟨fixed_number (by decide) _ _,fixed_number (by decide) _ _,
    fixed_string (by decide) h.projectName _,
    fixed_string (by decide) ((getD_text_iff clean_nil _).mpr h.author) _,
    fixed_string (by decide) ((getD_text_iff clean_nil _).mpr h.description) _,
    ⟨by decide,readBack_object_fixed (by decide) hroot⟩,by simp⟩

theorem readMembers_graph {p : BuilderProject} (h : p.AllTexts Clean) :
    readMembers 1 (graphMembers p) = some (graphMembers p) := by
  apply readMembers_fixed
  simp only [graphMembers,List.forall_mem_cons]
  exact ⟨fixed_array (by decide) (by decide) fun n hn => readBack_nodeTree (h.nodes n hn),
    fixed_array (by decide) (by decide) fun e he => readBack_edgeTree (h.edges e he),
    fixed_array (by decide) (by decide) fun k hk => readBack_keymapTree (h.keymaps k hk),
    fixed_array (by decide) (by decide) fun v hv => readBack_storeVarTree (h.storeVars v hv),
    ⟨by decide,readBack_tuiTree h.fallbackFont⟩,by simp⟩

/-- The file holds the project, up to what the reader makes of the parameters. -/
theorem readBack_projectTree {p : BuilderProject} (h : p.AllTexts Clean) :
    readBack 0 (projectTree p) =
      (p.items.mapM rereadItem).map fun items => projectTree { p with items := items } := by
  have hname : readString (bytes "items") = some (bytes "items") := readString_clean (by decide)
  rw [projectTree,readBack,if_neg (by decide),readMembers_append,readMembers_append,
    readMembers_head h,readMembers_graph h,readMembers,hname,Option.bind_some,readBack,
    if_neg (by decide),readItems_itemTrees h.items]
  cases p.items.mapM rereadItem <;> rfl

/-! ## The strings of the tree -/

/-- The names of all members of the file. -/
def memberNames : List Bytes :=
  [bytes "version",bytes "filly_version",bytes "name",bytes "author",bytes "description",
    bytes "root",bytes "w",bytes "h",bytes "items",bytes "id",bytes "type",bytes "rect",bytes "x",
    bytes "y",bytes "params",bytes "parent",bytes "tab_index",bytes "locked",bytes "visible",
    bytes "nodes",bytes "label",bytes "widget_id",bytes "store_key",bytes "fil_script",
    bytes "ports",bytes "out",bytes "desc",bytes "edges",bytes "from_node",bytes "from_port",
    bytes "to_node",bytes "to_port",bytes "condition",bytes "transform",bytes "keymaps",
    bytes "scope",bytes "key",bytes "action",bytes "store_vars",bytes "initial",bytes "tui",
    bytes "show_tab_order",bytes "min_term_w",bytes "min_term_h",bytes "fallback_font"]

section

variable {P : Bytes → Prop}

theorem strings_number (n : Int32) : (number n).strings = [] := rfl

theorem forall_strings_textMember {name : String} (hn : P (bytes name)) (text : Option Bytes) :
    (∀ m ∈ textMember name text, P m.1 ∧ ∀ s ∈ m.2.strings, P s) ↔ ∀ s ∈ text, P s := by
  cases text <;> simp [textMember,Json.strings,hn]

theorem forall_strings_array {α : Type} {tree : α → Json} {Q : α → Prop}
    (h : ∀ a, (∀ s ∈ (tree a).strings, P s) ↔ Q a) (l : List α) :
    (∀ s ∈ (Json.array (l.map tree)).strings, P s) ↔ ∀ a ∈ l, Q a := by
  rw [Json.strings,forall_mem_itemsStrings,List.forall_mem_map]
  simp only [h]

theorem forall_strings_string (t : Bytes) : (∀ s ∈ (Json.string t).strings, P s) ↔ P t := by
  simp [Json.strings]

variable (hP : ∀ k ∈ memberNames, P k)
include hP

theorem forall_strings_edgeTree (e : ConnectionEdge) :
    (∀ s ∈ (edgeTree e).strings, P s) ↔ e.AllTexts P := by
  simp only [memberNames,List.forall_mem_cons] at hP
  simp only [edgeTree,Json.strings,forall_mem_membersStrings,List.forall_mem_append,
    List.forall_mem_cons,strings_number,forall_strings_textMember,hP,ConnectionEdge.AllTexts]
  simp

theorem forall_strings_portTree (port : PortDef) :
    (∀ s ∈ (portTree port).strings, P s) ↔ port.AllTexts P := by
  simp only [memberNames,List.forall_mem_cons] at hP
  simp only [portTree,Json.strings,forall_mem_membersStrings,List.forall_mem_append,
    List.forall_mem_cons,strings_number,forall_strings_textMember,hP,PortDef.AllTexts]
  simp

theorem forall_strings_nodeTree (n : GraphNode) :
    (∀ s ∈ (nodeTree n).strings, P s) ↔ n.AllTexts P := by
  have hports := forall_strings_array (forall_strings_portTree hP) n.ports
  simp only [memberNames,List.forall_mem_cons] at hP
  have hwidget : ∀ m ∈ widgetMember n.widgetId, P m.1 ∧ ∀ s ∈ m.2.strings, P s := by
    unfold widgetMember
    split_ifs <;> simp [strings_number,hP]
  rw [nodeTree,Json.strings,forall_mem_membersStrings]
  simp only [List.forall_mem_append,List.forall_mem_cons,strings_number,forall_strings_textMember,
    forall_strings_string,hports,hP,iff_true_intro hwidget,GraphNode.AllTexts]
  simp [and_assoc]

theorem forall_strings_keymapTree (k : KeymapEntry) :
    (∀ s ∈ (keymapTree k).strings, P s) ↔ k.AllTexts P := by
  simp only [memberNames,List.forall_mem_cons] at hP
  simp only [keymapTree,Json.strings,forall_mem_membersStrings,List.forall_mem_cons,
    strings_number,hP,KeymapEntry.AllTexts]
  simp

theorem forall_strings_storeVarTree (v : StoreVar) :
    (∀ s ∈ (storeVarTree v).strings, P s) ↔ v.AllTexts P := by
  simp only [memberNames,List.forall_mem_cons] at hP
  simp only [storeVarTree,Json.strings,forall_mem_membersStrings,List.forall_mem_cons,
    hP,StoreVar.AllTexts]
  simp

theorem forall_strings_tuiTree (t : TuiConfig) :
    (∀ s ∈ (tuiTree t).strings, P s) ↔ ∀ s ∈ t.fallbackFont, P s := by
  simp only [memberNames,List.forall_mem_cons] at hP
  simp only [tuiTree,Json.strings,forall_mem_membersStrings,List.forall_mem_append,
    List.forall_mem_cons,strings_number,forall_strings_textMember,hP]
  simp

theorem forall_strings_itemTree (item : CanvasItem) :
    (∀ s ∈ (itemTree item).strings, P s) ↔ item.AllTexts P := by
  simp only [memberNames,List.forall_mem_cons] at hP
  rw [itemTree,Json.strings,forall_mem_membersStrings]
  simp only [identityMembers,placementMembers,rectTree,Json.strings,forall_mem_membersStrings,
    List.forall_mem_append,List.forall_mem_cons,strings_number,hP,CanvasItem.AllTexts]
  simp [hP,and_assoc]

/-- Every string in the file is a member name or a text of the project. -/
theorem forall_strings_projectTree (hnil : P []) (p : BuilderProject) :
    (∀ s ∈ (projectTree p).strings, P s) ↔ p.AllTexts P := by
  have hitems := forall_strings_array (forall_strings_itemTree hP) p.items
  have hnodes := forall_strings_array (forall_strings_nodeTree hP) p.nodes
  have hedges := forall_strings_array (forall_strings_edgeTree hP) p.edges
  have hkeymaps := forall_strings_array (forall_strings_keymapTree hP) p.keymaps
  have hvars := forall_strings_array (forall_strings_storeVarTree hP) p.storeVars
  have htui := forall_strings_tuiTree hP p.tui
  simp only [memberNames,List.forall_mem_cons] at hP
  rw [projectTree,Json.strings,forall_mem_membersStrings]
  simp only [headMembers,graphMembers,List.forall_mem_append,List.forall_mem_cons,strings_number,
    forall_strings_string,getD_text_iff hnil,hitems,hnodes,hedges,hkeymaps,hvars,htui,hP]
  have hroot : ∀ s ∈ (Json.object [(bytes "w",number p.rootWidth),
      (bytes "h",number p.rootHeight)]).strings, P s := by
    simp [Json.strings,membersStrings,strings_number,hP]
  simp only [iff_true_intro hroot,List.not_mem_nil,false_implies,implies_true,true_and,and_true]
  constructor
  · rintro ⟨⟨⟨hname,hauthor,hdescription⟩,hi⟩,hn,he,hk,hv,hfont⟩
    exact ⟨hname,hauthor,hdescription,hi,hn,he,hk,hv,hfont⟩
  · intro h
    exact ⟨⟨⟨h.projectName,h.author,h.description⟩,h.items⟩,h.nodes,h.edges,h.keymaps,h.storeVars,
      h.fallbackFont⟩

end

/-! ## Saving and loading -/

def printableChars (cs : List Char) : Bool := cs.all fun c => 32 ≤ c.toNat && c.toNat < 256

/-- A literal is checked by its characters. -/
theorem printable_ofList {cs : List Char} (h : printableChars cs = true) :
    Printable (bytes (String.ofList cs)) := by
  rw [bytes,String.toList_ofList,printable_iff]
  intro b hb
  obtain ⟨c,hc,rfl⟩ := List.mem_map.mp hb
  have := List.all_eq_true.mp h c hc
  simp only [Bool.and_eq_true,decide_eq_true_eq] at this
  rw [UInt8.le_iff_toNat_le,UInt8.toNat_ofNat_of_lt' this.2]
  exact this.1

theorem clean_of_printable {s : Bytes} (h : Printable s) : Clean s := by
  intro b hb
  simp [cleanByte,(printable_iff s).mp h b hb]

theorem fits_of_length {s : Bytes} (h : 2*s.length+3 ≤ intMax) : Fits s := by
  have hnul : (s.takeWhile (· ≠ 0)).length ≤ s.length := (List.takeWhile_sublist _).length_le
  have hcount := List.countP_le_length (p := fun b => b = 34 || b = 92 || b < 32)
    (l := s.takeWhile (· ≠ 0))
  simp only [Fits,outputLength]
  omega

theorem memberName_spec {cs : List Char} (h : printableChars cs = true) (hl : cs.length ≤ 100) :
    Clean (bytes (String.ofList cs)) ∧ Fits (bytes (String.ofList cs)) := by
  refine ⟨clean_of_printable (printable_ofList h),fits_of_length ?_⟩
  rw [bytes,String.toList_ofList,List.length_map,intMax]
  omega

theorem memberNames_spec : ∀ k ∈ memberNames, Clean k ∧ Fits k := by
  unfold memberNames
  repeat refine List.forall_mem_cons.mpr ⟨memberName_spec (by decide) (by decide),?_⟩
  exact List.forall_mem_nil _

/-- A project is printed when each of its texts fits the buffer. -/
theorem print_isSome_iff {p : BuilderProject} (hclean : p.AllTexts Clean) :
    (cJSONPrintUnformatted (projectTree p)).isSome ↔ p.AllTexts Fits := by
  have hfits := forall_strings_projectTree (fun k hk => (memberNames_spec k hk).2) (by decide) p
  have hstrings := (forall_strings_projectTree (fun k hk => (memberNames_spec k hk).1) clean_nil p).mpr hclean
  rw [← hfits]
  constructor
  · intro h
    obtain ⟨text,htext⟩ := Option.isSome_iff_exists.mp h
    obtain ⟨q,hq,-⟩ := Option.map_eq_some_iff.mp htext
    exact printValue_fits _ hq
  · intro h
    rw [cJSONPrintUnformatted_eq fun s hs => ⟨hstrings s hs,h s hs⟩]
    rfl

theorem mapM_eq_some_iff {α β : Type} {f : α → Option β} {l : List α} {m : List β} :
    l.mapM f = some m ↔ List.Forall₂ (fun a b => f a = some b) l m := by
  induction l generalizing m with
  | nil => simp [eq_comm]
  | cons a l ih =>
      rw [List.mapM_cons,List.forall₂_cons_left_iff]
      constructor
      · intro h
        obtain ⟨b,hb,h⟩ := Option.bind_eq_some_iff.mp h
        obtain ⟨bs,hbs,h⟩ := Option.bind_eq_some_iff.mp h
        cases h
        exact ⟨b,bs,hb,ih.mp hbs,rfl⟩
      · rintro ⟨b,bs,hb,hbs,rfl⟩
        rw [hb,ih.mpr hbs]
        rfl

theorem exists_mem_of_mapM {α β : Type} {f : α → Option β} {l : List α} {m : List β}
    (h : l.mapM f = some m) : ∀ b ∈ m, ∃ a ∈ l, f a = some b := by
  rw [mapM_eq_some_iff] at h
  induction h with
  | nil => simp
  | @cons a b l m hab _ ih =>
      rw [List.forall_mem_cons]
      refine ⟨⟨a,List.mem_cons_self,hab⟩,fun c hc => ?_⟩
      obtain ⟨d,hd,hdc⟩ := ih c hc
      exact ⟨d,List.mem_cons_of_mem a hd,hdc⟩

/-- Only the parameters change, and they keep their strings. -/
theorem rereadItem_texts {P : Bytes → Prop} {a b : CanvasItem} (h : rereadItem a = some b)
    (hclean : a.AllTexts Clean) (ha : a.AllTexts P) : b.AllTexts P := by
  obtain ⟨id,widgetType,instanceName,rect,params,parentId,tabIndex,locked,visible⟩ := a
  cases params with
  | none =>
      cases h
      exact ha
  | some params =>
      obtain ⟨w,hw,rfl⟩ := Option.map_eq_some_iff.mp h
      refine ⟨ha.1,ha.2.1,?_⟩
      rintro j ⟨⟩
      rw [readBack_strings params (hclean.2.2 params rfl) hw]
      exact ha.2.2 params rfl

theorem reread_texts {P : Bytes → Prop} {p : BuilderProject} {items : List CanvasItem}
    (h : p.items.mapM rereadItem = some items) (hclean : p.AllTexts Clean) (hp : p.AllTexts P) :
    { p with items := items }.AllTexts P := by
  have hitems : ∀ b ∈ items, b.AllTexts P := by
    intro b hb
    obtain ⟨a,ha,hab⟩ := exists_mem_of_mapM h b hb
    exact rereadItem_texts hab (hclean.items a ha) (hp.items a ha)
  exact { hp with items := hitems }

theorem projectLoad_text {p : BuilderProject} (h : p.AllTexts Clean) (hnul : p.AllTexts (0 ∉ ·)) :
    projectLoad ((projectTree p).text++[10]) =
      match p.items.mapM rereadItem with
      | none => .error .notParsed
      | some items => .ok (reopened { p with items := items }) := by
  have hfile : 0 ∉ (projectTree p).text++[10] := by
    rw [List.mem_append,not_or]
    exact ⟨(printable_text _).notMem (by decide),by decide⟩
  rw [projectLoad,takeWhile_nul hfile,cJSONParse_text _ (endsNumber_cons (by decide) [0]),
    readBack_projectTree h]
  cases hitems : p.items.mapM rereadItem with
  | none => rfl
  | some items => exact loadRoot_tree (reread_texts hitems h hnul)

/-- A saved project loads when it was printed whole and the reader takes its
parameters. -/
theorem projectLoad_save_iff {p q : BuilderProject} (h : p.AllTexts Clean)
    (hnul : p.AllTexts (0 ∉ ·)) :
    projectLoad (projectSave p) = .ok q ↔ p.AllTexts Fits ∧
      ∃ items, p.items.mapM rereadItem = some items ∧ reopened { p with items := items } = q := by
  by_cases hfits : p.AllTexts Fits
  · obtain ⟨text,hprint⟩ := Option.isSome_iff_exists.mp ((print_isSome_iff h).mpr hfits)
    rw [projectSave,hprint,cJSONPrintUnformatted_text hprint,Option.getD_some,
      projectLoad_text h hnul]
    cases p.items.mapM rereadItem with
    | none => simp
    | some items => simp [hfits]
  · have hnone : cJSONPrintUnformatted (projectTree p) = none := by
      rw [← Option.not_isSome_iff_eq_none,print_isSome_iff h]
      exact hfits
    have hnull : projectLoad (bytes "(null)"++[10]) = .error .notParsed := by rfl
    rw [projectSave,hnone,Option.getD_none,hnull]
    simp [hfits]

end Filly.Builder
