import Filly.GraphEditor
import Filly.ProjectFile

/-!
# Files that are not to be trusted

A project file may be any text. The loader looks whether the text is JSON and whether an array
is one, and it has a default for each text. Of the numbers some twenty are read through the
pointer of the lookup, and the edges are taken as they are written.
-/
namespace Filly.Builder
open CJson

/-! ## What a loaded project must be -/

/-- What the loader goes through: any value but an array has no elements. -/
def elementsOf (o : Json) (name : String) : List Json :=
  match o.getObjectItem (bytes name) with
  | some (.array vs) => vs
  | _ => []

/-- The number as the loader reads it. -/
def intOf (o : Json) (name : String) : ℤ := (valueintOr o name 0).toInt

/-- Each array of the file has become one of the same length, the ports of each node too. -/
structure Counted (root : Json) (p : BuilderProject) : Prop where
  items : p.items.length = (elementsOf root "items").length
  nodes : p.nodes.map (·.ports.length) =
    (elementsOf root "nodes").map fun o => (elementsOf o "ports").length
  edges : p.edges.length = (elementsOf root "edges").length
  keymaps : p.keymaps.length = (elementsOf root "keymaps").length
  storeVars : p.storeVars.length = (elementsOf root "store_vars").length

/-- Both ends of the edge are ports of the project. -/
def EdgeInRange (p : BuilderProject) (e : ConnectionEdge) : Prop :=
  HasPort p.nodes e.fromNode.toInt e.fromPort.toInt ∧ HasPort p.nodes e.toNode.toInt e.toPort.toInt

/-- What the file is as JSON, up to its first null character. -/
def parsedFile (file : Bytes) : Option Json := cJSONParse (file.takeWhile (· ≠ 0))

/-- The loader refuses the file, or there is a project, with edges between its own ports. -/
def LoadsSafely (file : Bytes) : Prop :=
  projectLoad file = .error .notParsed ∨
    ∃ root p, parsedFile file = some root ∧ projectLoad file = .ok p ∧ Counted root p ∧
      ∀ e ∈ p.edges, EdgeInRange p e

/-! ## What a file must have -/

def HasMembers (o : Json) (names : List String) : Prop :=
  ∀ name ∈ names, (o.getObjectItem (bytes name)).isSome

def ItemComplete (o : Json) : Prop :=
  HasMembers o ["id"] ∧
    ∀ rect, o.getObjectItem (bytes "rect") = some rect → HasMembers rect ["x","y","w","h"]

def PortComplete (o : Json) : Prop := HasMembers o ["id","type","out"]

def NodeComplete (o : Json) : Prop :=
  HasMembers o ["id","type"] ∧ ∀ port ∈ elementsOf o "ports", PortComplete port

def EdgeComplete (o : Json) : Prop := HasMembers o ["from_node","from_port","to_node","to_port"]

def KeymapComplete (o : Json) : Prop := HasMembers o ["scope","widget_id"]

/-- The members without a default are there. -/
structure Complete (root : Json) : Prop where
  items : ∀ o ∈ elementsOf root "items", ItemComplete o
  nodes : ∀ o ∈ elementsOf root "nodes", NodeComplete o
  edges : ∀ o ∈ elementsOf root "edges", EdgeComplete o
  keymaps : ∀ o ∈ elementsOf root "keymaps", KeymapComplete o
  tui : ∀ t, root.getObjectItem (bytes "tui") = some t →
    HasMembers t ["show_tab_order","min_term_w","min_term_h"]

/-- The node at the place has a port at the other one. -/
def NamesPort (root : Json) (node port : ℤ) : Prop :=
  ∃ o, readAt (elementsOf root "nodes") node = some o ∧
    0 ≤ port ∧ port < (elementsOf o "ports").length

def EdgeFits (root o : Json) : Prop :=
  NamesPort root (intOf o "from_node") (intOf o "from_port") ∧
    NamesPort root (intOf o "to_node") (intOf o "to_port")

/-! ## Reading without a test -/

section
variable {α β : Type} {o : Json} {name : String}

theorem load_bind_iff {x : Except LoadFailure α} {f : α → Except LoadFailure β} {b : β} :
    (x >>= f) = .ok b ↔ ∃ a, x = .ok a ∧ f a = .ok b := by
  cases x with
  | error => exact iff_of_false (fun h => by cases h) fun ⟨_,h,_⟩ => by cases h
  | ok a => exact ⟨fun h => ⟨a,rfl,h⟩,fun ⟨_,ha,h⟩ => by cases ha; exact h⟩

theorem load_pure_iff {a b : α} : (pure a : Except LoadFailure α) = .ok b ↔ a = b :=
  ⟨fun h => by cases h; rfl,fun h => by rw [h]; rfl⟩

theorem mapM_eq_ok_iff {load : Json → Except LoadFailure α} {vs : List Json} {l : List α} :
    vs.mapM load = .ok l ↔ List.Forall₂ (fun v a => load v = .ok a) vs l := by
  induction vs generalizing l with
  | nil => rw [List.mapM_nil,load_pure_iff,List.forall₂_nil_left_iff,eq_comm]
  | cons v vs ih =>
      simp only [List.mapM_cons,List.forall₂_cons_left_iff,load_bind_iff,load_pure_iff,ih]
      constructor
      · rintro ⟨a,ha,l',hl',rfl⟩
        exact ⟨a,l',ha,hl',rfl⟩
      · rintro ⟨a,l',ha,hl',rfl⟩
        exact ⟨a,ha,l',hl',rfl⟩

theorem arrayOf_eq (load : Json → Except LoadFailure α) :
    arrayOf o name load = (elementsOf o name).mapM load := by
  unfold arrayOf elementsOf
  cases o.getObjectItem (bytes name) with
  | none => rfl
  | some v => cases v <;> rfl

theorem arrayOf_eq_ok_iff {load : Json → Except LoadFailure α} {l : List α} :
    arrayOf o name load = .ok l ↔
      List.Forall₂ (fun v a => load v = .ok a) (elementsOf o name) l := by
  rw [arrayOf_eq,mapM_eq_ok_iff]

/-- An array is loaded if each of its elements is. -/
theorem exists_forall₂_iff {R : α → β → Prop} {l : List α} :
    (∃ m, List.Forall₂ R l m) ↔ ∀ a ∈ l, ∃ b, R a b := by
  induction l with
  | nil => exact iff_of_true ⟨[],.nil⟩ (List.forall_mem_nil _)
  | cons a l ih =>
      rw [List.forall_mem_cons,← ih]
      constructor
      · rintro ⟨_,hall⟩
        obtain ⟨b,m,hb,hm,rfl⟩ := List.forall₂_cons_left_iff.1 hall
        exact ⟨⟨b,hb⟩,m,hm⟩
      · rintro ⟨⟨b,hb⟩,m,hm⟩
        exact ⟨b::m,.cons hb hm⟩

theorem arrayOf_loads_iff (load : Json → Except LoadFailure α) :
    (∃ l, arrayOf o name load = .ok l) ↔ ∀ v ∈ elementsOf o name, ∃ a, load v = .ok a := by
  simp only [arrayOf_eq_ok_iff]
  exact exists_forall₂_iff

/-- The member that is missing is the one that is used. -/
theorem valueintOf_loads_iff :
    (∃ n, valueintOf o name = .ok n) ↔ (o.getObjectItem (bytes name)).isSome := by
  unfold valueintOf
  cases o.getObjectItem (bytes name) with
  | none => exact iff_of_false (fun ⟨_,h⟩ => by cases h) Bool.false_ne_true
  | some v => exact iff_of_true ⟨_,rfl⟩ rfl

theorem intOf_of_valueintOf {n : Int32} (h : valueintOf o name = .ok n) : intOf o name = n.toInt := by
  unfold valueintOf at h
  unfold intOf valueintOr
  split at h
  · cases h
  · next v hv =>
    cases h
    rfl

end

/-! ## What is loaded -/

section
variable {o root : Json} {α β : Type}

theorem exists_load_bind_iff {x : Except LoadFailure α} {f : α → Except LoadFailure β} :
    (∃ b, (x >>= f) = .ok b) ↔ ∃ a, x = .ok a ∧ ∃ b, f a = .ok b := by
  simp only [load_bind_iff]
  exact ⟨fun ⟨b,a,ha,hb⟩ => ⟨a,ha,b,hb⟩,fun ⟨a,ha,b,hb⟩ => ⟨b,a,ha,hb⟩⟩

theorem exists_load_pure {a : α} : ∃ b, (pure a : Except LoadFailure α) = .ok b := ⟨a,rfl⟩

theorem loadRect_loads_iff {rect : Option Json} :
    (∃ r, loadRect rect = .ok r) ↔ ∀ r, rect = some r → HasMembers r ["x","y","w","h"] := by
  cases rect with
  | none => exact iff_of_true ⟨_,rfl⟩ fun _ h => by cases h
  | some r =>
      simp only [loadRect,exists_load_bind_iff,exists_load_pure,and_true,exists_and_right,
        valueintOf_loads_iff,Option.some_inj,forall_eq',HasMembers,List.forall_mem_cons]
      simp

theorem loadItem_loads_iff : (∃ item, loadItem o = .ok item) ↔ ItemComplete o := by
  simp only [loadItem,exists_load_bind_iff,exists_load_pure,and_true,exists_and_right,
    valueintOf_loads_iff,loadRect_loads_iff,ItemComplete,HasMembers,List.forall_mem_cons]
  simp

theorem loadPort_loads_iff : (∃ port, loadPort o = .ok port) ↔ PortComplete o := by
  simp only [loadPort,exists_load_bind_iff,exists_load_pure,and_true,exists_and_right,
    valueintOf_loads_iff,PortComplete,HasMembers,List.forall_mem_cons]
  simp

theorem loadNode_loads_iff : (∃ n, loadNode o = .ok n) ↔ NodeComplete o := by
  simp only [loadNode,exists_load_bind_iff,exists_load_pure,and_true,exists_and_right,
    valueintOf_loads_iff,arrayOf_loads_iff,loadPort_loads_iff,NodeComplete,HasMembers,
    List.forall_mem_cons]
  simp [and_assoc]

theorem loadEdge_loads_iff : (∃ e, loadEdge o = .ok e) ↔ EdgeComplete o := by
  simp only [loadEdge,exists_load_bind_iff,exists_load_pure,and_true,exists_and_right,
    valueintOf_loads_iff,EdgeComplete,HasMembers,List.forall_mem_cons]
  simp

theorem loadKeymap_loads_iff : (∃ k, loadKeymap o = .ok k) ↔ KeymapComplete o := by
  simp only [loadKeymap,exists_load_bind_iff,exists_load_pure,and_true,exists_and_right,
    valueintOf_loads_iff,KeymapComplete,HasMembers,List.forall_mem_cons]
  simp

theorem loadTui_loads_iff {tui : Option Json} :
    (∃ t, loadTui tui = .ok t) ↔
      ∀ t, tui = some t → HasMembers t ["show_tab_order","min_term_w","min_term_h"] := by
  cases tui with
  | none => exact iff_of_true ⟨_,rfl⟩ fun _ h => by cases h
  | some t =>
      simp only [loadTui,exists_load_bind_iff,exists_load_pure,and_true,exists_and_right,
        valueintOf_loads_iff,Option.some_inj,forall_eq',HasMembers,List.forall_mem_cons]
      simp

/-- The loader does not use a missing member exactly when they are all there. -/
theorem loadRoot_loads_iff : (∃ p, loadRoot root = .ok p) ↔ Complete root := by
  simp only [loadRoot,exists_load_bind_iff,exists_load_pure,and_true,exists_and_right,
    arrayOf_loads_iff,loadItem_loads_iff,loadNode_loads_iff,loadEdge_loads_iff,loadKeymap_loads_iff,
    loadTui_loads_iff]
  constructor
  · rintro ⟨hitems,hnodes,hedges,hkeymaps,-,htui⟩
    exact ⟨hitems,hnodes,hedges,hkeymaps,htui⟩
  · intro h
    exact ⟨h.items,h.nodes,h.edges,h.keymaps,fun _ _ => ⟨_,rfl⟩,h.tui⟩

theorem loadNode_ports {n : GraphNode} (h : loadNode o = .ok n) :
    n.ports.length = (elementsOf o "ports").length := by
  simp only [loadNode,load_bind_iff,load_pure_iff] at h
  obtain ⟨_,-,_,-,ports,hports,rfl⟩ := h
  exact (arrayOf_eq_ok_iff.1 hports).length_eq.symm

/-- The ends of an edge are the numbers in the file. -/
theorem loadEdge_ends {e : ConnectionEdge} (h : loadEdge o = .ok e) :
    e.fromNode.toInt = intOf o "from_node" ∧ e.fromPort.toInt = intOf o "from_port" ∧
      e.toNode.toInt = intOf o "to_node" ∧ e.toPort.toInt = intOf o "to_port" := by
  simp only [loadEdge,load_bind_iff,load_pure_iff] at h
  obtain ⟨_,hfromNode,_,hfromPort,_,htoNode,_,htoPort,rfl⟩ := h
  exact ⟨(intOf_of_valueintOf hfromNode).symm,(intOf_of_valueintOf hfromPort).symm,
    (intOf_of_valueintOf htoNode).symm,(intOf_of_valueintOf htoPort).symm⟩

/-- The nodes and edges of a project are those of its file one by one. -/
structure LoadedFrom (root : Json) (p : BuilderProject) : Prop where
  counted : Counted root p
  nodes : List.Forall₂ (fun o n => loadNode o = .ok n) (elementsOf root "nodes") p.nodes
  edges : List.Forall₂ (fun o e => loadEdge o = .ok e) (elementsOf root "edges") p.edges

theorem loadedFrom_loadRoot {p : BuilderProject} (h : loadRoot root = .ok p) :
    LoadedFrom root p := by
  simp only [loadRoot,load_bind_iff,load_pure_iff,arrayOf_eq_ok_iff] at h
  obtain ⟨items,hitems,nodes,hnodes,edges,hedges,keymaps,hkeymaps,vars,hvars,tui,-,rfl⟩ := h
  have hports : nodes.map (·.ports.length) =
      (elementsOf root "nodes").map fun o => (elementsOf o "ports").length := by
    rw [eq_comm,← List.forall₂_eq_eq_eq,List.forall₂_map_left_iff,List.forall₂_map_right_iff]
    exact hnodes.imp fun _ _ hn => (loadNode_ports hn).symm
  exact ⟨⟨hitems.length_eq.symm,hports,hedges.length_eq.symm,hkeymaps.length_eq.symm,
    hvars.length_eq.symm⟩,hnodes,hedges⟩

/-- What is at the same place of two lists that agree one by one. -/
theorem readAt_forall₂_iff {R : α → β → Prop} {P : α → Prop} {Q : β → Prop} {l : List α}
    {m : List β} (h : List.Forall₂ R l m) (hR : ∀ a b, R a b → (P a ↔ Q b)) (i : ℤ) :
    (∃ a, readAt l i = some a ∧ P a) ↔ ∃ b, readAt m i = some b ∧ Q b := by
  unfold readAt
  split_ifs
  · exact iff_of_false (fun ⟨_,hnone,_⟩ => by cases hnone) fun ⟨_,hnone,_⟩ => by cases hnone
  · generalize i.toNat = k
    induction h generalizing k with
    | nil => exact iff_of_false (fun ⟨_,hnone,_⟩ => by cases hnone) fun ⟨_,hnone,_⟩ => by cases hnone
    | @cons a b l m hab _ ih =>
        cases k with
        | zero => simpa using hR a b hab
        | succ k => exact ih k

theorem forall_mem_forall₂_iff {R : α → β → Prop} {P : α → Prop} {Q : β → Prop} {l : List α}
    {m : List β} (h : List.Forall₂ R l m) (hR : ∀ a b, R a b → (P a ↔ Q b)) :
    (∀ a ∈ l, P a) ↔ ∀ b ∈ m, Q b := by
  induction h with
  | nil => exact iff_of_true (List.forall_mem_nil _) (List.forall_mem_nil _)
  | cons hab _ ih => rw [List.forall_mem_cons,List.forall_mem_cons,hR _ _ hab,ih]

theorem LoadedFrom.namesPort_iff {p : BuilderProject} (h : LoadedFrom root p) (node port : ℤ) :
    NamesPort root node port ↔ HasPort p.nodes node port :=
  readAt_forall₂_iff h.nodes (fun o n hn => by rw [loadNode_ports hn]) node

theorem LoadedFrom.edges_iff {p : BuilderProject} (h : LoadedFrom root p) :
    (∀ o ∈ elementsOf root "edges", EdgeFits root o) ↔ ∀ e ∈ p.edges, EdgeInRange p e := by
  refine forall_mem_forall₂_iff h.edges fun o e he => ?_
  obtain ⟨hfromNode,hfromPort,htoNode,htoPort⟩ := loadEdge_ends he
  rw [EdgeFits,EdgeInRange,h.namesPort_iff,h.namesPort_iff,hfromNode,hfromPort,htoNode,htoPort]

end

/-! ## The only failure of the reader -/

section
variable {α β : Type} {o : Json}

/-- The text was JSON. -/
def Parsed (x : Except LoadFailure α) : Prop := x ≠ .error .notParsed

theorem Parsed.bind {x : Except LoadFailure α} {f : α → Except LoadFailure β} (hx : Parsed x)
    (hf : ∀ a, Parsed (f a)) : Parsed (x >>= f) := by
  cases x with
  | error e =>
      intro h
      cases h
      exact hx rfl
  | ok a => exact hf a

theorem parsed_ok (a : α) : Parsed (.ok a : Except LoadFailure α) := fun h => by cases h

theorem parsed_valueintOf (name : String) : Parsed (valueintOf o name) := by
  unfold valueintOf
  split
  · exact fun h => by cases h
  · exact parsed_ok _

theorem parsed_arrayOf {load : Json → Except LoadFailure α} (h : ∀ v, Parsed (load v))
    (name : String) : Parsed (arrayOf o name load) := by
  rw [arrayOf_eq]
  induction elementsOf o name with
  | nil => exact parsed_ok _
  | cons v vs ih =>
      rw [List.mapM_cons]
      exact (h v).bind fun _ => ih.bind fun _ => parsed_ok _

theorem parsed_loadRect (rect : Option Json) : Parsed (loadRect rect) := by
  cases rect with
  | none => exact parsed_ok _
  | some r =>
      exact (parsed_valueintOf _).bind fun _ => (parsed_valueintOf _).bind fun _ =>
        (parsed_valueintOf _).bind fun _ => (parsed_valueintOf _).bind fun _ => parsed_ok _

theorem parsed_loadNode (o : Json) : Parsed (loadNode o) := by
  have hport (v : Json) : Parsed (loadPort v) :=
    (parsed_valueintOf _).bind fun _ => (parsed_valueintOf _).bind fun _ =>
      (parsed_valueintOf _).bind fun _ => parsed_ok _
  exact (parsed_valueintOf _).bind fun _ => (parsed_valueintOf _).bind fun _ =>
    (parsed_arrayOf hport _).bind fun _ => parsed_ok _

theorem parsed_loadEdge (o : Json) : Parsed (loadEdge o) :=
  (parsed_valueintOf _).bind fun _ => (parsed_valueintOf _).bind fun _ =>
    (parsed_valueintOf _).bind fun _ => (parsed_valueintOf _).bind fun _ => parsed_ok _

theorem parsed_loadTui (tui : Option Json) : Parsed (loadTui tui) := by
  cases tui with
  | none => exact parsed_ok _
  | some t =>
      exact (parsed_valueintOf _).bind fun _ => (parsed_valueintOf _).bind fun _ =>
        (parsed_valueintOf _).bind fun _ => parsed_ok _

theorem parsed_loadRoot (root : Json) : Parsed (loadRoot root) := by
  have hitem (v : Json) : Parsed (loadItem v) :=
    (parsed_valueintOf _).bind fun _ => (parsed_loadRect _).bind fun _ => parsed_ok _
  have hkeymap (v : Json) : Parsed (loadKeymap v) :=
    (parsed_valueintOf _).bind fun _ => (parsed_valueintOf _).bind fun _ => parsed_ok _
  exact (parsed_arrayOf hitem _).bind fun _ => (parsed_arrayOf parsed_loadNode _).bind fun _ =>
    (parsed_arrayOf parsed_loadEdge _).bind fun _ => (parsed_arrayOf hkeymap _).bind fun _ =>
      (parsed_arrayOf (fun _ => parsed_ok _) _).bind fun _ =>
        (parsed_loadTui _).bind fun _ => parsed_ok _

end

/-! ## When loading is safe -/

/-- The file is no JSON, or no member is missing and no edge leads elsewhere. -/
def Trustworthy (file : Bytes) : Prop :=
  ∀ root, parsedFile file = some root →
    Complete root ∧ ∀ o ∈ elementsOf root "edges", EdgeFits root o

/-- Loading is safe exactly for files that can be trusted. -/
theorem loadsSafely_iff (file : Bytes) : LoadsSafely file ↔ Trustworthy file := by
  unfold LoadsSafely Trustworthy
  cases hparsed : parsedFile file with
  | none =>
      have hload : projectLoad file = .error .notParsed := by
        rw [parsedFile] at hparsed
        rw [projectLoad,hparsed]
      exact iff_of_true (.inl hload) fun _ h => by cases h
  | some root =>
      have hload : projectLoad file = loadRoot root := by
        rw [parsedFile] at hparsed
        rw [projectLoad,hparsed]
      rw [hload]
      simp only [Option.some_inj,forall_eq']
      constructor
      · rintro (hfail | ⟨root',p,rfl,hp,-,hedges⟩)
        · exact absurd hfail (parsed_loadRoot root)
        · exact ⟨loadRoot_loads_iff.1 ⟨p,hp⟩,(loadedFrom_loadRoot hp).edges_iff.2 hedges⟩
      · rintro ⟨hcomplete,hedges⟩
        obtain ⟨p,hp⟩ := loadRoot_loads_iff.2 hcomplete
        have hfrom := loadedFrom_loadRoot hp
        exact .inr ⟨root,p,rfl,hp,hfrom.counted,hfrom.edges_iff.1 hedges⟩

/-- An item without an id. -/
def namelessItem : Bytes := bytes "\x7b\"items\":[\x7b\x7d]\x7d"

/-- An edge in a project without nodes. -/
def looseEdge : Bytes :=
  bytes "\x7b\"edges\":[\x7b\"from_node\":9,\"from_port\":0,"++
    bytes "\"to_node\":9,\"to_port\":0\x7d]\x7d"

/-- The id is used although it is missing, and the edge is taken as it is. -/
theorem item_and_edge_are_trusted : ¬LoadsSafely namelessItem ∧ ¬LoadsSafely looseEdge := by
  constructor
  · have hload : (projectLoad namelessItem).map (fun _ => ()) = .error .nullPointer := by
      decide +kernel
    rintro (hfail | ⟨_,_,-,hok,-⟩)
    · rw [hfail] at hload
      cases hload
    · rw [hok] at hload
      cases hload
  · have hload : (projectLoad looseEdge).map (fun p => (p.nodes.length,p.edges.length)) =
        .ok (0,1) := by decide +kernel
    rintro (hfail | ⟨_,p,-,hok,-,hedges⟩)
    · rw [hfail] at hload
      cases hload
    · rw [hok] at hload
      simp only [Except.map,Except.ok.injEq,Prod.mk.injEq] at hload
      obtain ⟨hnodes,hedge⟩ := hload
      obtain ⟨e,he⟩ := List.length_eq_one_iff.1 hedge
      obtain ⟨⟨n,hn,-⟩,-⟩ := hedges e (he ▸ List.mem_cons_self)
      rw [List.length_eq_zero_iff.1 hnodes,readAt] at hn
      split_ifs at hn
      cases hn

end Filly.Builder
