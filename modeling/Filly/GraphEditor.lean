import Filly.Project
import Filly.Runs
import Filly.TtyKeys

/-!
# The editor of the connection graph

The editor keeps the places of what is selected, dragged, wired and edited from
one event to the next. A handler that uses such a place outside of its array has
no result here.

Zoom and scroll never change. What is computed in floating point is left open:
the place of a coordinate on the screen, and whether a point is near the curve
of an edge. The cached places of the ports are read by the latter only.
-/
namespace Filly.Builder
open CJson Keys Runs

/-- The entry at an index that is -1 or a place. -/
def readAt {α : Type} (l : List α) (i : ℤ) : Option α := if i < 0 then none else l[i.toNat]?

def writeAt {α : Type} (l : List α) (i : ℤ) (a : α) : Option (List α) :=
  if 0 ≤ i ∧ i < l.length then some (l.set i.toNat a) else none

/-- What a search returns: the place found, or -1. -/
def index : Option ℕ → ℤ
  | none => -1
  | some i => i

structure ConnectionGraph where
  project : BuilderProject
  nodeX : List Int32
  nodeY : List Int32
  selectedNode : ℤ
  selectedEdge : ℤ
  hoveredPort : ℤ
  wireStartNode : ℤ
  wireStartPort : ℤ
  wireEndX : Int32
  wireEndY : Int32
  draggingNode : Bool
  dragNodeId : ℤ
  dragStartX : Int32
  dragStartY : Int32
  dragOrigX : Int32
  dragOrigY : Int32
  editingEdge : Bool
  editingEdgeIdx : ℤ
  editBuf : Bytes
  editField : ℤ

def ConnectionGraph.nodeCount (g : ConnectionGraph) : ℕ := g.nodeX.length

def graphSyncNodes (g : ConnectionGraph) : ConnectionGraph :=
  { g with
    nodeX := List.replicate g.project.nodes.length 0
    nodeY := List.replicate g.project.nodes.length 0 }

def graphLayout (g : ConnectionGraph) : ConnectionGraph :=
  if g.nodeCount = 0 then g
  else
    let cols := Nat.sqrt g.nodeCount+1
    { g with
      nodeX := (List.range g.nodeCount).map fun i => 20+Int32.ofNat (i % cols)*260
      nodeY := (List.range g.nodeCount).map fun i => 20+Int32.ofNat (i / cols)*120 }

def graphNew (p : BuilderProject) : ConnectionGraph :=
  graphLayout (graphSyncNodes {
    project := p
    nodeX := []
    nodeY := []
    selectedNode := -1
    selectedEdge := -1
    hoveredPort := -1
    wireStartNode := -1
    wireStartPort := -1
    wireEndX := 0
    wireEndY := 0
    draggingNode := false
    dragNodeId := 0
    dragStartX := 0
    dragStartY := 0
    dragOrigX := 0
    dragOrigY := 0
    editingEdge := false
    editingEdgeIdx := -1
    editBuf := []
    editField := 0 })

/-! ## What is under the mouse -/

section

variable (screen : Int32 → Int32)
variable (onCurve : ConnectionGraph → ConnectionEdge → Int32 → Int32 → Bool)

/-- The nodes with their places on the screen, as far as the arrays of both reach. -/
def placedNodes (g : ConnectionGraph) : List (GraphNode × Int32 × Int32) :=
  g.project.nodes.zip ((g.nodeX.map screen).zip (g.nodeY.map screen))

/-- The last node whose box holds the point. -/
def graphFindNodeAt (g : ConnectionGraph) (x y : Int32) : Option ℕ :=
  let boxes := placedNodes screen g
  (boxes.reverse.findIdx? fun b => b.2.1 ≤ x ∧ x < b.2.1+200 ∧ b.2.2 ≤ y ∧
    y < b.2.2+screen (22+Int32.ofNat b.1.ports.length*18)).map (boxes.length-1-·)

/-- Outputs stand on the right of a node and inputs on its left, counted apart. -/
def portSpots (nx ny : Int32) : Int32 → Int32 → List PortDef → List (Int32 × Int32)
  | _, _, [] => []
  | outIdx, inIdx, port::ports =>
      if port.isOutput then
        (nx+200+6,ny+22+10+outIdx*18)::portSpots nx ny (outIdx+1) inIdx ports
      else (nx-6,ny+22+10+inIdx*18)::portSpots nx ny outIdx (inIdx+1) ports

/-- The first port, counted over all nodes, within reach of the point. -/
def graphFindPortAt (g : ConnectionGraph) (x y : Int32) : Option ℕ :=
  ((placedNodes screen g).flatMap fun b => portSpots b.2.1 b.2.2 0 0 b.1.ports).findIdx? fun s =>
    (x-s.1)*(x-s.1)+(y-s.2)*(y-s.2) ≤ 72

def graphFindEdgeAt (g : ConnectionGraph) (x y : Int32) : Option ℕ :=
  g.project.edges.findIdx? fun e => onCurve g e x y

/-- The nodes a loop over the arrays of the editor visits. -/
def visitedNodes (g : ConnectionGraph) : List GraphNode := g.project.nodes.take g.nodeCount

/-- The ports of all nodes, each with the places of its node and its own. -/
def portPlaces (g : ConnectionGraph) : List (ℕ × ℕ × PortDef) :=
  (visitedNodes g).zipIdx.flatMap fun n => n.1.ports.zipIdx.map fun port => (n.2,port.2,port.1)

def graphPortsCompatible (src dst : PortDef) : Bool :=
  if ¬ src.isOutput then false
  else if dst.isOutput then false
  else if src.type = .trigger then true
  else if src.type = dst.type then true
  else (src.type = .bool ∨ src.type = .int) ∧ dst.type = .string

/-! ## Events -/

def graphMouseDown (g : ConnectionGraph) (x y : Int32) : Option (Bool × ConnectionGraph) :=
  if g.editingEdge then some (true,{ g with editingEdge := false, editingEdgeIdx := -1 })
  else
    match graphFindPortAt screen g x y with
    | some hovered =>
        match (portPlaces g)[hovered]? with
        | some (ni,pi,port) =>
            if port.isOutput then
              some (true,{ g with
                hoveredPort := hovered
                wireStartNode := ni
                wireStartPort := pi
                wireEndX := x
                wireEndY := y })
            else some (false,{ g with hoveredPort := -1 })
        | none => some (false,{ g with hoveredPort := -1 })
    | none =>
        match graphFindEdgeAt onCurve g x y with
        | some i =>
            some (true,{ g with
              hoveredPort := -1
              selectedEdge := i
              selectedNode := -1
              editingEdge := true
              editingEdgeIdx := i
              editBuf := []
              editField := 0 })
        | none =>
            match graphFindNodeAt screen g x y with
            | some i => do
                let origX ← readAt g.nodeX i
                let origY ← readAt g.nodeY i
                some (true,{ g with
                  hoveredPort := -1
                  selectedNode := i
                  draggingNode := true
                  dragNodeId := i
                  dragStartX := x
                  dragStartY := y
                  dragOrigX := origX
                  dragOrigY := origY
                  selectedEdge := -1 })
            | none =>
                some (false,{ g with hoveredPort := -1, selectedNode := -1, selectedEdge := -1 })

def graphMouseMove (g : ConnectionGraph) (x y : Int32) : Option (Bool × ConnectionGraph) :=
  if 0 ≤ g.wireStartNode then some (true,{ g with wireEndX := x, wireEndY := y })
  else if g.draggingNode ∧ 0 ≤ g.dragNodeId then do
    let nodeX ← writeAt g.nodeX g.dragNodeId (g.dragOrigX+(x-g.dragStartX))
    let nodeY ← writeAt g.nodeY g.dragNodeId (g.dragOrigY+(y-g.dragStartY))
    some (true,{ g with nodeX := nodeX, nodeY := nodeY })
  else
    let hovered := graphFindPortAt screen g x y
    some (hovered.isSome,{ g with hoveredPort := index hovered })

/-- The inner loop of a released wire: the input port with the number, if this node
has it, and the count of ports passed. -/
def scanPorts (target : ℕ) : ℕ → ℕ → List PortDef → Option (ℕ × PortDef) × ℕ
  | portIdx, _, [] => (none,portIdx)
  | portIdx, pi, port::ports =>
      if portIdx = target ∧ ¬ port.isOutput then (some (pi,port),portIdx)
      else scanPorts target (portIdx+1) (pi+1) ports

/-- The outer loop. The inner one leaves the count as it is when it breaks, so the
next node may match once more. -/
def dropWire (g : ConnectionGraph) (target : ℕ) :
    ℕ → ℕ → List GraphNode → BuilderProject → Option BuilderProject
  | _, _, [], p => some p
  | ni, portIdx, node::nodes, p =>
      match scanPorts target portIdx 0 node.ports with
      | (none,passed) => dropWire g target (ni+1) passed nodes p
      | (some (pi,dstPort),passed) => do
          let srcNode ← readAt g.project.nodes g.wireStartNode
          let srcPort ← readAt srcNode.ports g.wireStartPort
          dropWire g target (ni+1) passed nodes
            (if graphPortsCompatible srcPort dstPort then
              projectAddEdge p (Int32.ofInt g.wireStartNode) (Int32.ofInt g.wireStartPort)
                (Int32.ofNat ni) (Int32.ofNat pi)
            else p)

/-- The project with the edges a wire makes that is released at a point. -/
def releaseWire (g : ConnectionGraph) (x y : Int32) : Option BuilderProject :=
  match graphFindPortAt screen g x y with
  | some target => dropWire g target 0 0 (visitedNodes g) g.project
  | none => some g.project

def graphMouseUp (g : ConnectionGraph) (x y : Int32) : Option (Bool × ConnectionGraph) :=
  if 0 ≤ g.wireStartNode then do
    let project ← releaseWire screen g x y
    some (true,{ g with project := project, wireStartNode := -1, wireStartPort := -1 })
  else some (true,{ g with draggingNode := false })

def graphDeleteSelected (g : ConnectionGraph) : Option ConnectionGraph :=
  if 0 ≤ g.selectedEdge then
    some { g with
      project := projectRemoveEdge g.project (Int32.ofInt g.selectedEdge)
      selectedEdge := -1 }
  else if 0 ≤ g.selectedNode then do
    let node ← readAt g.project.nodes g.selectedNode
    some (graphLayout (graphSyncNodes
      { g with project := projectRemoveNode g.project node.id, selectedNode := -1 }))
  else some g

/-- What Enter stores in a field of the edge. -/
def ConnectionGraph.editText (g : ConnectionGraph) : Option Bytes :=
  if g.editBuf = [] then none else some g.editBuf

def ConnectionGraph.changeEdge (g : ConnectionGraph) (f : ConnectionEdge → ConnectionEdge) :
    BuilderProject :=
  { g.project with edges := g.project.edges.modify g.editingEdgeIdx.toNat f }

def graphKey (g : ConnectionGraph) (code : KeyCode) (ch : UInt8) : Option ConnectionGraph :=
  if g.editingEdge ∧ 0 ≤ g.editingEdgeIdx then
    if code = .keyEsc then some { g with editingEdge := false, editingEdgeIdx := -1 }
    else if code = .keyEnter then do
      let _ ← readAt g.project.edges g.editingEdgeIdx
      if g.editField = 0 then
        some { g with
          project := g.changeEdge fun e => { e with condition := g.editText }
          editBuf := []
          editField := 1 }
      else
        some { g with
          project := g.changeEdge fun e => { e with transform := g.editText }
          editingEdge := false
          editingEdgeIdx := -1 }
    else if code = .keyBackspace ∧ g.editBuf ≠ [] then
      some { g with editBuf := g.editBuf.dropLast }
    else if code = .keyChar ∧ g.editBuf.length < 254 ∧ 32 ≤ ch ∧ ch < 128 then
      some { g with editBuf := g.editBuf++[ch] }
    else some g
  else if code = .keyDelete then graphDeleteSelected g
  else some g

def graphAddStoreNode (g : ConnectionGraph) : Option Bytes → ConnectionGraph
  | none => g
  | some key =>
      graphLayout (graphSyncNodes
        { g with project := projectAddStoreNode g.project key (some []) (some (bytes "string")) })

/-- `graph_add_custom_port` with the arrays of the editor, which are all zero
afterwards: there is no layout here. -/
def graphAddPort (g : ConnectionGraph) (nodeId : Int32) (name : Option Bytes)
    (type : PortDataType) (isOutput : Bool) : ConnectionGraph :=
  match name with
  | none => g
  | some name =>
      if nodeId < 0 ∨ nodeId ∉ (visitedNodes g).map GraphNode.id then g
      else
        graphSyncNodes
          { g with project := graphAddCustomPort g.project nodeId name type isOutput }

inductive GraphEvent where
  | mouseDown (x y : Int32)
  | mouseMove (x y : Int32)
  | mouseUp (x y : Int32)
  | key (code : KeyCode) (ch : UInt8)
  | deleteSelected
  | addStoreNode (key : Option Bytes)
  | addCustomPort (nodeId : Int32) (name : Option Bytes) (type : PortDataType) (isOutput : Bool)

def ConnectionGraph.handle (g : ConnectionGraph) : GraphEvent → Option ConnectionGraph
  | .mouseDown x y => (graphMouseDown screen onCurve g x y).map Prod.snd
  | .mouseMove x y => (graphMouseMove screen g x y).map Prod.snd
  | .mouseUp x y => (graphMouseUp screen g x y).map Prod.snd
  | .key code ch => graphKey g code ch
  | .deleteSelected => graphDeleteSelected g
  | .addStoreNode key => some (graphAddStoreNode g key)
  | .addCustomPort nodeId name type isOutput => some (graphAddPort g nodeId name type isOutput)

/-- Events are taken as long as no index was used outside of its array. -/
def handleNext (g : Option ConnectionGraph) (e : GraphEvent) : Option ConnectionGraph :=
  g.bind fun g => g.handle screen onCurve e

end

/-! ## Indices that stay valid -/

/-- There is a node at the place, with a port at its place. -/
def HasPort (nodes : List GraphNode) (node port : ℤ) : Prop :=
  ∃ n, readAt nodes node = some n ∧ 0 ≤ port ∧ port < n.ports.length

instance (nodes : List GraphNode) (node port : ℤ) : Decidable (HasPort nodes node port) :=
  match hn : readAt nodes node with
  | none => isFalse fun ⟨_,h,_⟩ => by simp [hn] at h
  | some n => decidable_of_iff (0 ≤ port ∧ port < n.ports.length)
      ⟨fun h => ⟨n,hn,h⟩,fun ⟨m,h,hport⟩ => by
        rw [hn,Option.some.injEq] at h
        exact h ▸ hport⟩

/-- What is selected and what is in progress lies in the arrays. A selected node is
the one that is or was dragged, and a selected edge that is edited is the edited one. -/
structure InPlace (g : ConnectionGraph) : Prop where
  lengthX : g.nodeX.length = g.project.nodes.length
  lengthY : g.nodeY.length = g.project.nodes.length
  node : g.selectedNode < g.project.nodes.length
  edge : g.selectedEdge < g.project.edges.length
  drag : g.draggingNode → g.dragNodeId < g.project.nodes.length
  wire : 0 ≤ g.wireStartNode → HasPort g.project.nodes g.wireStartNode g.wireStartPort
  editing : g.editingEdge → g.editingEdgeIdx < g.project.edges.length
  dragged : 0 ≤ g.selectedNode → g.dragNodeId = g.selectedNode
  edited : 0 ≤ g.selectedEdge → g.editingEdge → g.editingEdgeIdx = g.selectedEdge

/-- The nodes that stay when the selected one is deleted. -/
def ConnectionGraph.nodesLeft (g : ConnectionGraph) : List GraphNode :=
  match readAt g.project.nodes g.selectedNode with
  | none => g.project.nodes
  | some node => (projectRemoveNode g.project node.id).nodes

/-- An edge that is being edited is not the last one; a node that is being dragged
is not the last one, and a wire being drawn starts at a port there is without the
deleted node. -/
def ConnectionGraph.Deletable (g : ConnectionGraph) : Prop :=
  (0 ≤ g.selectedEdge → g.editingEdge → g.selectedEdge+1 < g.project.edges.length) ∧
    (g.selectedEdge < 0 → 0 ≤ g.selectedNode →
      (g.draggingNode → g.selectedNode+1 < g.project.nodes.length) ∧
        (0 ≤ g.wireStartNode → HasPort g.nodesLeft g.wireStartNode g.wireStartPort))

/-- A deletion leaves what is in progress in the arrays. While an edge is edited the
delete key does nothing. -/
def GraphEvent.Careful (g : ConnectionGraph) : GraphEvent → Prop
  | .deleteSelected => g.Deletable
  | .key code _ =>
      code = .keyDelete → ¬ (g.editingEdge ∧ 0 ≤ g.editingEdgeIdx) → g.Deletable
  | _ => True

instance (g : ConnectionGraph) : Decidable g.Deletable :=
  inferInstanceAs (Decidable ((_ → _ → _) ∧ (_ → _ → (_ → _) ∧ (_ → _))))

instance GraphEvent.decidableCareful (g : ConnectionGraph) :
    (e : GraphEvent) → Decidable (e.Careful g)
  | .deleteSelected => inferInstanceAs (Decidable g.Deletable)
  | .key _ _ => inferInstanceAs (Decidable (_ → ¬ _ → g.Deletable))
  | .mouseDown _ _ | .mouseMove _ _ | .mouseUp _ _ | .addStoreNode _ | .addCustomPort _ _ _ _ =>
      isTrue trivial

theorem readAt_of_lt {α : Type} {l : List α} {i : ℤ} (h₀ : 0 ≤ i) (h : i < l.length) :
    ∃ a, readAt l i = some a := by
  have hlt : i.toNat < l.length := by omega
  exact ⟨l.get ⟨i.toNat,hlt⟩,by rw [readAt,if_neg (by omega),List.getElem?_eq_getElem hlt]; rfl⟩

theorem readAt_natCast {α : Type} (l : List α) (i : ℕ) : readAt l (i : ℤ) = l[i]? := by
  rw [readAt,if_neg (by omega),Int.toNat_natCast]

theorem HasPort.port {nodes : List GraphNode} {node port : ℤ} (h : HasPort nodes node port) :
    ∃ n p, readAt nodes node = some n ∧ readAt n.ports port = some p := by
  obtain ⟨n,hn,h₀,hlt⟩ := h
  obtain ⟨p,hp⟩ := readAt_of_lt h₀ hlt
  exact ⟨n,p,hn,hp⟩

theorem HasPort.append {nodes : List GraphNode} {node port : ℤ} (h : HasPort nodes node port)
    (ns : List GraphNode) : HasPort (nodes++ns) node port := by
  obtain ⟨n,hn,hport⟩ := h
  refine ⟨n,?_,hport⟩
  unfold readAt at hn ⊢
  split_ifs at hn ⊢
  have hlt := (List.getElem?_eq_some_iff.mp hn).1
  rw [List.getElem?_append_left hlt]
  exact hn

/-- Changing the first record with a key changes at most the record at a place. -/
theorem getElem?_modify_eq {α κ : Type} [DecidableEq κ] (key : α → κ) (k : κ) (f : α → α)
    (l : List α) (i : ℕ) : (KeyedList.modify key k f l)[i]? = l[i]? ∨
      (KeyedList.modify key k f l)[i]? = l[i]?.map f := by
  induction l generalizing i with
  | nil => exact Or.inl rfl
  | cons a l ih =>
      unfold KeyedList.modify
      split_ifs
      · cases i with
        | zero => exact Or.inr rfl
        | succ i => exact Or.inl rfl
      · cases i with
        | zero => exact Or.inl rfl
        | succ i => exact ih i

/-- A change that takes no ports away. -/
theorem HasPort.modify {nodes : List GraphNode} {node port : ℤ} (h : HasPort nodes node port)
    {f : GraphNode → GraphNode} (hf : ∀ n, n.ports.length ≤ (f n).ports.length) (nodeId : Int32) :
    HasPort (KeyedList.modify GraphNode.id nodeId f nodes) node port := by
  obtain ⟨n,hn,h₀,hlt⟩ := h
  unfold readAt at hn
  split_ifs at hn with hneg
  rcases getElem?_modify_eq GraphNode.id nodeId f nodes node.toNat with heq | heq
  · exact ⟨n,by rw [readAt,if_neg hneg,heq,hn],h₀,hlt⟩
  · refine ⟨f n,by rw [readAt,if_neg hneg,heq,hn,Option.map_some],h₀,lt_of_lt_of_le hlt ?_⟩
    exact_mod_cast hf n

/-! ## Searches -/

theorem graphFindNodeAt_lt {screen : Int32 → Int32} {g : ConnectionGraph} {x y : Int32} {i : ℕ}
    (h : graphFindNodeAt screen g x y = some i) : i < g.project.nodes.length := by
  obtain ⟨k,hk,rfl⟩ := Option.map_eq_some_iff.mp h
  have hlt := (List.findIdx?_eq_some_iff_getElem.mp hk).1
  have hlen : (placedNodes screen g).length ≤ g.project.nodes.length := by
    rw [placedNodes,List.length_zip]
    exact Nat.min_le_left _ _
  rw [List.length_reverse] at hlt
  omega

theorem graphFindEdgeAt_lt {onCurve : ConnectionGraph → ConnectionEdge → Int32 → Int32 → Bool}
    {g : ConnectionGraph} {x y : Int32} {i : ℕ} (h : graphFindEdgeAt onCurve g x y = some i) :
    i < g.project.edges.length :=
  (List.findIdx?_eq_some_iff_getElem.mp h).1

theorem portPlaces_hasPort {g : ConnectionGraph} {k ni pi : ℕ} {port : PortDef}
    (h : (portPlaces g)[k]? = some (ni,pi,port)) : HasPort g.project.nodes ni pi := by
  have hm := List.mem_of_getElem? h
  obtain ⟨⟨n,i⟩,hn,hp⟩ := List.mem_flatMap.mp hm
  obtain ⟨⟨q,j⟩,hq,heq⟩ := List.mem_map.mp hp
  obtain ⟨rfl,rfl,rfl⟩ : i = ni ∧ j = pi ∧ q = port := by simpa using heq
  have hni := List.mem_zipIdx_iff_getElem?.mp hn
  have hpi := List.mem_zipIdx_iff_getElem?.mp hq
  refine ⟨n,?_,by omega,?_⟩
  · rw [readAt_natCast]
    rw [visitedNodes,List.getElem?_take] at hni
    split_ifs at hni
    exact hni
  · exact_mod_cast (List.getElem?_eq_some_iff.mp hpi).1

/-! ## What the handlers keep -/

theorem not_found : ¬ (0 : ℤ) ≤ -1 := by decide

theorem neg_one_lt (n : ℕ) : (-1 : ℤ) < n := by omega

theorem graphLayout_graphSyncNodes (g : ConnectionGraph) : ∃ nodeX nodeY,
    graphLayout (graphSyncNodes g) = { g with nodeX := nodeX, nodeY := nodeY } ∧
      nodeX.length = g.project.nodes.length ∧ nodeY.length = g.project.nodes.length := by
  unfold graphLayout
  split_ifs with h
  · exact ⟨_,_,rfl,List.length_replicate,List.length_replicate⟩
  · refine ⟨_,_,rfl,?_,?_⟩
    · rw [List.length_map,List.length_range]
      exact List.length_replicate
    · rw [List.length_map,List.length_range]
      exact List.length_replicate

theorem inPlace_graphNew (p : BuilderProject) : InPlace (graphNew p) := by
  obtain ⟨nodeX,nodeY,hg,hx,hy⟩ := graphLayout_graphSyncNodes _
  rw [graphNew,hg]
  exact {
    lengthX := hx
    lengthY := hy
    node := neg_one_lt _
    edge := neg_one_lt _
    drag := fun h => nomatch h
    wire := fun h => absurd h not_found
    editing := fun h => nomatch h
    dragged := fun h => absurd h not_found
    edited := fun h => absurd h not_found }

/-- New arrays for the places of the nodes. -/
theorem InPlace.relayout {g : ConnectionGraph} {nodeX nodeY : List Int32} (h : InPlace g)
    (hx : nodeX.length = g.project.nodes.length) (hy : nodeY.length = g.project.nodes.length) :
    InPlace { g with nodeX := nodeX, nodeY := nodeY } :=
  { h with lengthX := hx, lengthY := hy }

section

variable {screen : Int32 → Int32}
variable {onCurve : ConnectionGraph → ConnectionEdge → Int32 → Int32 → Bool}
variable {g : ConnectionGraph}

theorem graphMouseDown_inPlace (h : InPlace g) (x y : Int32) :
    ∃ r, graphMouseDown screen onCurve g x y = some r ∧ InPlace r.2 := by
  unfold graphMouseDown
  split_ifs with hediting
  · exact ⟨_,rfl,{ h with
      editing := fun he => nomatch he
      edited := fun _ he => nomatch he }⟩
  · cases hport : graphFindPortAt screen g x y with
    | some hovered =>
        simp only
        cases hplace : (portPlaces g)[hovered]? with
        | none => exact ⟨_,rfl,{ h with }⟩
        | some place =>
            obtain ⟨ni,pi,port⟩ := place
            simp only
            split_ifs
            · exact ⟨_,rfl,{ h with wire := fun _ => portPlaces_hasPort hplace }⟩
            · exact ⟨_,rfl,{ h with }⟩
    | none =>
        simp only
        cases hedge : graphFindEdgeAt onCurve g x y with
        | some i =>
            have hlt : (i : ℤ) < g.project.edges.length := by
              exact_mod_cast graphFindEdgeAt_lt hedge
            exact ⟨_,rfl,{ h with
              node := neg_one_lt _
              edge := hlt
              editing := fun _ => hlt
              dragged := fun he => absurd he not_found
              edited := fun _ _ => rfl }⟩
        | none =>
            simp only
            cases hnode : graphFindNodeAt screen g x y with
            | some i =>
                have hlt : (i : ℤ) < g.project.nodes.length := by
                  exact_mod_cast graphFindNodeAt_lt hnode
                obtain ⟨origX,hx⟩ := readAt_of_lt (l := g.nodeX) (by omega) (h.lengthX ▸ hlt)
                obtain ⟨origY,hy⟩ := readAt_of_lt (l := g.nodeY) (by omega) (h.lengthY ▸ hlt)
                simp only [hx,hy]
                exact ⟨_,rfl,{ h with
                  node := hlt
                  edge := neg_one_lt _
                  drag := fun _ => hlt
                  dragged := fun _ => rfl
                  edited := fun he => absurd he not_found }⟩
            | none =>
                exact ⟨_,rfl,{ h with
                  node := neg_one_lt _
                  edge := neg_one_lt _
                  dragged := fun he => absurd he not_found
                  edited := fun he => absurd he not_found }⟩

theorem writeAt_of_lt {α : Type} {l : List α} {i : ℤ} (h₀ : 0 ≤ i) (h : i < l.length) (a : α) :
    writeAt l i a = some (l.set i.toNat a) := if_pos ⟨h₀,h⟩

theorem graphMouseMove_inPlace (h : InPlace g) (x y : Int32) :
    ∃ r, graphMouseMove screen g x y = some r ∧ InPlace r.2 := by
  unfold graphMouseMove
  split_ifs with hwire hdrag
  · exact ⟨_,rfl,{ h with }⟩
  · have hlt := h.drag hdrag.1
    rw [writeAt_of_lt hdrag.2 (by rw [h.lengthX]; exact hlt),
      writeAt_of_lt hdrag.2 (by rw [h.lengthY]; exact hlt)]
    exact ⟨_,rfl,h.relayout (by rw [List.length_set,h.lengthX]) (by rw [List.length_set,h.lengthY])⟩
  · exact ⟨_,rfl,{ h with }⟩

/-- Edges are only added while the wire is dropped. -/
theorem dropWire_some (h : HasPort g.project.nodes g.wireStartNode g.wireStartPort) (target : ℕ)
    (nodes : List GraphNode) (ni portIdx : ℕ) (p : BuilderProject) :
    ∃ p', dropWire g target ni portIdx nodes p = some p' ∧ p'.nodes = p.nodes ∧
      p.edges.length ≤ p'.edges.length := by
  obtain ⟨srcNode,srcPort,hnode,hport⟩ := h.port
  induction nodes generalizing ni portIdx p with
  | nil => exact ⟨p,rfl,rfl,le_rfl⟩
  | cons node nodes ih =>
      unfold dropWire
      cases hscan : scanPorts target portIdx 0 node.ports with
      | mk found passed =>
          cases found with
          | none => exact ih (ni+1) passed p
          | some found =>
              obtain ⟨pi,dstPort⟩ := found
              simp only [hnode,hport,Option.bind_eq_bind,Option.bind_some]
              split_ifs
              · obtain ⟨p',hp',hnodes,hle⟩ := ih (ni+1) passed
                  (projectAddEdge p (Int32.ofInt g.wireStartNode) (Int32.ofInt g.wireStartPort)
                    (Int32.ofNat ni) (Int32.ofNat pi))
                refine ⟨p',hp',hnodes,le_trans ?_ hle⟩
                simp [projectAddEdge]
              · exact ih (ni+1) passed p

/-- More edges between the same nodes. -/
theorem InPlace.addEdges (h : InPlace g) {p : BuilderProject} (hnodes : p.nodes = g.project.nodes)
    (hedges : g.project.edges.length ≤ p.edges.length) : InPlace { g with project := p } where
  lengthX := by rw [hnodes]; exact h.lengthX
  lengthY := by rw [hnodes]; exact h.lengthY
  node := by rw [hnodes]; exact h.node
  edge := lt_of_lt_of_le h.edge (by exact_mod_cast hedges)
  drag := by rw [hnodes]; exact h.drag
  wire := by rw [hnodes]; exact h.wire
  editing := fun he => lt_of_lt_of_le (h.editing he) (by exact_mod_cast hedges)
  dragged := h.dragged
  edited := h.edited

theorem releaseWire_some (h : HasPort g.project.nodes g.wireStartNode g.wireStartPort)
    (x y : Int32) : ∃ p', releaseWire screen g x y = some p' ∧ p'.nodes = g.project.nodes ∧
      g.project.edges.length ≤ p'.edges.length := by
  unfold releaseWire
  cases graphFindPortAt screen g x y with
  | some target => exact dropWire_some h target _ 0 0 g.project
  | none => exact ⟨_,rfl,rfl,le_rfl⟩

theorem graphMouseUp_inPlace (h : InPlace g) (x y : Int32) :
    ∃ r, graphMouseUp screen g x y = some r ∧ InPlace r.2 := by
  unfold graphMouseUp
  split_ifs with hwire
  · obtain ⟨p',hp',hnodes,hle⟩ := @releaseWire_some screen g (h.wire hwire) x y
    rw [hp']
    exact ⟨_,rfl,{ h.addEdges hnodes hle with wire := fun he => absurd he not_found }⟩
  · exact ⟨_,rfl,{ h with drag := fun he => nomatch he }⟩

theorem length_nodesLeft (h : InPlace g) (h₀ : 0 ≤ g.selectedNode) :
    g.nodesLeft.length+1 = g.project.nodes.length := by
  obtain ⟨node,hnode⟩ := readAt_of_lt h₀ h.node
  have hm : node ∈ g.project.nodes := by
    rw [readAt,if_neg (by omega)] at hnode
    exact List.mem_of_getElem? hnode
  have hpos := List.length_pos_of_mem hm
  rw [ConnectionGraph.nodesLeft,hnode]
  simp only [projectRemoveNode]
  rw [List.length_eraseP_of_mem hm (by simp)]
  omega

theorem length_removeAt {α : Type} (l : List α) (idx : Int32) :
    l.length ≤ (removeAt l idx).length+1 := by
  unfold removeAt
  split_ifs
  · omega
  · rw [List.length_eraseIdx]
    split_ifs <;> omega

/-- A careful deletion leaves the selection empty and the rest in place. -/
theorem graphDeleteSelected_inPlace (h : InPlace g) (hd : g.Deletable) :
    ∃ g', graphDeleteSelected g = some g' ∧ InPlace g' := by
  unfold graphDeleteSelected
  split_ifs with hedge hnode
  · have hlen := length_removeAt g.project.edges (Int32.ofInt g.selectedEdge)
    refine ⟨_,rfl,{ h with
      edge := neg_one_lt _
      editing := fun he => ?_
      edited := fun he => absurd he not_found }⟩
    have hlt := hd.1 hedge he
    simp only [projectRemoveEdge,h.edited hedge he]
    omega
  · obtain ⟨node,hread⟩ := readAt_of_lt hnode h.node
    obtain ⟨hdrag,hwire⟩ := hd.2 (by omega) hnode
    have hlen := length_nodesLeft h hnode
    have hleft : g.nodesLeft = (projectRemoveNode g.project node.id).nodes := by
      rw [ConnectionGraph.nodesLeft,hread]
    rw [hread]
    obtain ⟨nodeX,nodeY,hg,hx,hy⟩ := graphLayout_graphSyncNodes
      { g with project := projectRemoveNode g.project node.id, selectedNode := -1 }
    refine ⟨_,rfl,?_⟩
    rw [hg]
    rw [hleft] at hlen hwire
    refine { h with
      lengthX := hx
      lengthY := hy
      node := neg_one_lt _
      drag := fun he => ?_
      wire := hwire
      dragged := fun he => absurd he not_found }
    have hlt := hdrag he
    simp only [h.dragged hnode]
    omega
  · exact ⟨g,rfl,h⟩

theorem graphKey_inPlace (h : InPlace g) {code : KeyCode} {ch : UInt8}
    (hd : code = .keyDelete → ¬ (g.editingEdge ∧ 0 ≤ g.editingEdgeIdx) → g.Deletable) :
    ∃ g', graphKey g code ch = some g' ∧ InPlace g' := by
  have hchange : ∀ f, InPlace { g with project := g.changeEdge f } := fun f =>
    h.addEdges rfl (by rw [ConnectionGraph.changeEdge,List.length_modify])
  unfold graphKey
  by_cases hediting : g.editingEdge ∧ 0 ≤ g.editingEdgeIdx
  · obtain ⟨e,he⟩ := readAt_of_lt hediting.2 (h.editing hediting.1)
    rw [if_pos hediting,he]
    split_ifs
    · exact ⟨_,rfl,{ h with
        editing := fun he => nomatch he
        edited := fun _ he => nomatch he }⟩
    · exact ⟨_,rfl,{ hchange _ with }⟩
    · exact ⟨_,rfl,{ hchange _ with
        editing := fun he => nomatch he
        edited := fun _ he => nomatch he }⟩
    · exact ⟨_,rfl,{ h with }⟩
    · exact ⟨_,rfl,{ h with }⟩
    · exact ⟨_,rfl,h⟩
  · rw [if_neg hediting]
    split_ifs with hcode
    · exact graphDeleteSelected_inPlace h (hd hcode hediting)
    · exact ⟨_,rfl,h⟩

/-- A node more, behind the others. -/
theorem graphAddStoreNode_inPlace (h : InPlace g) (key : Option Bytes) :
    InPlace (graphAddStoreNode g key) := by
  cases key with
  | none => exact h
  | some key =>
      let p := projectAddStoreNode g.project key (some []) (some (bytes "string"))
      obtain ⟨n,hnodes,hedges⟩ : ∃ n, p.nodes = g.project.nodes++[n] ∧
          p.edges = g.project.edges := by
        simp only [p,projectAddStoreNode,projectAddStoreVar]
        split_ifs <;> exact ⟨_,rfl,rfl⟩
      have hlen : (g.project.nodes.length : ℤ) ≤ p.nodes.length := by
        rw [hnodes]
        simp
      obtain ⟨nodeX,nodeY,hg,hx,hy⟩ := graphLayout_graphSyncNodes { g with project := p }
      change InPlace (graphLayout (graphSyncNodes { g with project := p }))
      rw [hg]
      exact {
        lengthX := hx
        lengthY := hy
        node := lt_of_lt_of_le h.node hlen
        edge := by rw [hedges]; exact h.edge
        drag := fun he => lt_of_lt_of_le (h.drag he) hlen
        wire := fun he => by rw [hnodes]; exact (h.wire he).append [n]
        editing := by rw [hedges]; exact h.editing
        dragged := h.dragged
        edited := h.edited }

theorem graphAddPort_inPlace (h : InPlace g) (nodeId : Int32) (name : Option Bytes)
    (type : PortDataType) (isOutput : Bool) :
    InPlace (graphAddPort g nodeId name type isOutput) := by
  cases name with
  | none => exact h
  | some name =>
      simp only [graphAddPort]
      split_ifs with hid
      · exact h
      · rw [not_or] at hid
        have hlen : ∀ f, (KeyedList.modify GraphNode.id nodeId f g.project.nodes).length =
            g.project.nodes.length := fun f => KeyedList.length_modify _
        simp only [graphAddCustomPort,if_neg hid.1,graphSyncNodes]
        exact {
          lengthX := List.length_replicate
          lengthY := List.length_replicate
          node := by simp only [hlen]; exact h.node
          edge := h.edge
          drag := by simp only [hlen]; exact h.drag
          wire := fun he => (h.wire he).modify (fun n => by simp) nodeId
          editing := h.editing
          dragged := h.dragged
          edited := h.edited }

end

/-! ## Runs -/

section

variable (screen : Int32 → Int32)
variable (onCurve : ConnectionGraph → ConnectionEdge → Int32 → Int32 → Bool)

theorem handle_inPlace {g : ConnectionGraph} (h : InPlace g) {e : GraphEvent} (he : e.Careful g) :
    ∃ g', g.handle screen onCurve e = some g' ∧ InPlace g' := by
  cases e with
  | mouseDown x y =>
      obtain ⟨r,hr,hs⟩ := @graphMouseDown_inPlace screen onCurve g h x y
      exact ⟨r.2,by rw [ConnectionGraph.handle,hr,Option.map_some],hs⟩
  | mouseMove x y =>
      obtain ⟨r,hr,hs⟩ := @graphMouseMove_inPlace screen g h x y
      exact ⟨r.2,by rw [ConnectionGraph.handle,hr,Option.map_some],hs⟩
  | mouseUp x y =>
      obtain ⟨r,hr,hs⟩ := @graphMouseUp_inPlace screen g h x y
      exact ⟨r.2,by rw [ConnectionGraph.handle,hr,Option.map_some],hs⟩
  | key code ch => exact graphKey_inPlace h he
  | deleteSelected => exact graphDeleteSelected_inPlace h he
  | addStoreNode key => exact ⟨_,rfl,graphAddStoreNode_inPlace h key⟩
  | addCustomPort nodeId name type isOutput =>
      exact ⟨_,rfl,graphAddPort_inPlace h nodeId name type isOutput⟩

/-- Nothing was used outside of its array, and a selected edge, which is only passed
on as an index, is one of the edges. -/
def InBounds (s : Option ConnectionGraph) : Prop :=
  ∃ g, s = some g ∧ g.selectedEdge < g.project.edges.length

theorem InBounds.isSome {s : Option ConnectionGraph} (h : InBounds s) : s.isSome = true := by
  obtain ⟨g,rfl,-⟩ := h
  rfl

/-- As long as no deletion takes away what is dragged, wired or edited, no event uses
an index outside of its array. -/
theorem indices_stay_in_bounds (p : BuilderProject) (events : List GraphEvent)
    (h : Guarded (handleNext screen onCurve) (fun s e => ∀ g ∈ s, e.Careful g)
      (some (graphNew p)) events) :
    Always (handleNext screen onCurve) InBounds (some (graphNew p)) events := by
  have hplace : Always (handleNext screen onCurve) (fun s => ∃ g, s = some g ∧ InPlace g)
      (some (graphNew p)) events := by
    refine h.always ?_ ⟨_,rfl,inPlace_graphNew p⟩
    rintro s e ⟨g,rfl,hg⟩ he
    exact handle_inPlace screen onCurve hg (he g rfl)
  exact hplace.imp fun s ⟨g,hs,hg⟩ => ⟨g,hs,hg.edge⟩

end

def twoStores : BuilderProject :=
  projectAddStoreNode (projectAddStoreNode (projectNew none 80 24) [97] none none) [98] none none

/-- A node is dragged and deleted after the mouse is released, a store is added, and a
wire is drawn to it. -/
theorem released_node_is_deleted_safely :
    Always (handleNext id fun _ _ _ _ => true) InBounds (some (graphNew twoStores))
      [.mouseDown 300 30,.mouseMove 310 40,.mouseUp 310 40,.key .keyDelete 0,
       .addStoreNode (some [99]),.mouseDown 226 52,.mouseUp 274 52] :=
  indices_stay_in_bounds id _ twoStores _ (by decide +kernel)

/-- Deleting the last node while it is dragged or while a wire starts at it, and
deleting an edge while it is edited, leaves an index that the next event uses. -/
theorem deleted_in_progress :
    (∀ events ∈ [[GraphEvent.mouseDown 300 30,.key .keyDelete 0,.mouseMove 310 40],
        [.mouseDown 300 30,.mouseUp 300 30,.mouseDown 486 52,.key .keyDelete 0,.mouseUp 14 52]],
      ¬ Always (handleNext id fun _ _ _ _ => true) InBounds (some (graphNew twoStores)) events) ∧
      ¬ Always (handleNext id fun _ _ _ _ => true) InBounds
        (some (graphNew (projectAddEdge twoStores 0 0 1 1)))
        [.mouseDown 235 52,.deleteSelected,.key .keyEnter 0] := by
  simp only [List.forall_mem_cons]
  refine ⟨⟨fun h => ?_,fun h => ?_,fun _ hm => (List.not_mem_nil hm).elim⟩,fun h => ?_⟩
  · exact absurd h.finish.isSome (by decide +kernel)
  · exact absurd h.finish.isSome (by decide +kernel)
  · exact absurd h.finish.isSome (by decide +kernel)

end Filly.Builder
