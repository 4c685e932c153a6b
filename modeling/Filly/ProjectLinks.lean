import Filly.Project
import Filly.Runs

/-!
# References inside a project

An edge names its nodes by their places in the array, a node names its widget by
an item id and an item names its parent by an item id. The other data of a
project plays no role for these references, so the operations are first reduced
to the changes they make to them. A trace beside the project tells the nodes
apart: each gets a number at its birth, and an edge keeps the numbers of the two
nodes it was drawn between.
-/
namespace Filly.Builder
open CJson KeyedList Runs

/-! ## Changes of the references -/

structure ItemLink where
  id : Int32
  parentId : Int32
  deriving DecidableEq

structure NodeLink where
  id : Int32
  widgetId : Int32
  deriving DecidableEq

structure EdgeLink where
  fromNode : Int32
  toNode : Int32
  deriving DecidableEq

structure Links where
  items : List ItemLink
  nodes : List NodeLink
  edges : List EdgeLink
  nextItemId : Int32

def links (p : BuilderProject) : Links where
  items := p.items.map fun item => ⟨item.id,item.parentId⟩
  nodes := p.nodes.map fun n => ⟨n.id,n.widgetId⟩
  edges := p.edges.map fun e => ⟨e.fromNode,e.toNode⟩
  nextItemId := p.nextItemId

inductive Change where
  | nothing
  | addItem
  | removeItem (itemId : Int32)
  | setParent (itemId parentId : Int32)
  | addNode (widgetId : Int32)
  | removeNode (nodeId : Int32)
  | addEdge (fromNode toNode : Int32)
  | removeEdge (edgeIdx : Int32)

/-- The id of a node is the length of the array with it. -/
def Links.newNodeId (l : Links) : Int32 := Int32.ofNat (l.nodes.length+1)

def Links.apply (l : Links) : Change → Links
  | .nothing => l
  | .addItem =>
      { l with items := l.items++[⟨l.nextItemId,-1⟩], nextItemId := l.nextItemId+1 }
  | .removeItem itemId => { l with items := l.items.eraseP (·.id = itemId) }
  | .setParent itemId parentId =>
      { l with items := modify ItemLink.id itemId ({ · with parentId := parentId }) l.items }
  | .addNode widgetId => { l with nodes := l.nodes++[⟨l.newNodeId,widgetId⟩] }
  | .removeNode nodeId => { l with nodes := l.nodes.eraseP (·.id = nodeId) }
  | .addEdge fromNode toNode => { l with edges := l.edges++[⟨fromNode,toNode⟩] }
  | .removeEdge edgeIdx => { l with edges := removeAt l.edges edgeIdx }

/-- A store node has the widget id zero. -/
def Op.change (p : BuilderProject) : Op → Change
  | .addItem .. => .addItem
  | .removeItem itemId => .removeItem itemId
  | .setParent itemId parentId => .setParent itemId parentId
  | .addNode widgetId =>
      match projectFindItem p widgetId with
      | none => .nothing
      | some _ => .addNode widgetId
  | .addStoreNode .. => .addNode 0
  | .removeNode nodeId => .removeNode nodeId
  | .addEdge fromNode _ toNode _ => .addEdge fromNode toNode
  | .removeEdge edgeIdx => .removeEdge edgeIdx
  | _ => .nothing

theorem map_eraseP {α β : Type} {p : α → Bool} {q : β → Bool} {g : α → β}
    (h : ∀ a, q (g a) = p a) (l : List α) : (l.eraseP p).map g = (l.map g).eraseP q := by
  rw [List.eraseP_map]
  congr 2
  exact funext fun a => (h a).symm

theorem map_removeAt {α β : Type} (g : α → β) (l : List α) (idx : Int32) :
    (removeAt l idx).map g = removeAt (l.map g) idx := by
  unfold removeAt
  split_ifs
  · rfl
  · rw [List.eraseIdx_map]

theorem map_modifyAt_of_comp {α β : Type} {f : α → α} {g : α → β} (h : ∀ a, g (f a) = g a)
    (i : ℕ) (l : List α) : (l.modify i f).map g = l.map g := by
  apply List.ext_getElem
  · simp
  · intro n h₁ h₂
    rw [List.getElem_map,List.getElem_map,List.getElem_modify]
    split_ifs
    · exact h _
    · rfl

/-- An operation makes its change to the references and no other. -/
theorem links_apply (p : BuilderProject) (o : Op) :
    links (o.apply p) = (links p).apply (o.change p) := by
  have hchange : ∀ {f : CanvasItem → CanvasItem} (itemId : Int32),
      (∀ item, (f item).id = item.id ∧ (f item).parentId = item.parentId) →
        links (changeItem p itemId f) = links p := by
    intro f itemId hf
    have hitems : (KeyedList.modify CanvasItem.id itemId f p.items).map
        (fun item => ItemLink.mk item.id item.parentId) = (links p).items :=
      map_modify_of_comp (fun item => by rw [(hf item).1,(hf item).2]) p.items
    simp only [links,changeItem,hitems]
  cases o with
  | addItem widgetType x y w h =>
      simp [Op.apply,projectAddItem,links,Op.change,Links.apply]
  | removeItem itemId =>
      simp only [Op.apply,projectRemoveItem,links,Op.change,Links.apply]
      rw [map_eraseP (q := fun l : ItemLink => l.id = itemId) fun _ => rfl]
  | moveItem itemId x y => exact hchange itemId fun _ => ⟨rfl,rfl⟩
  | resizeItem itemId w h => exact hchange itemId fun _ => ⟨rfl,rfl⟩
  | setParent itemId parentId =>
      simp only [Op.apply,projectSetParent,changeItem,links,Op.change,Links.apply]
      rw [map_modify]
      · exact fun _ => rfl
      · exact fun _ => rfl
  | updateItemParams itemId newParams => exact hchange itemId fun _ => ⟨rfl,rfl⟩
  | lockItem itemId locked => exact hchange itemId fun _ => ⟨rfl,rfl⟩
  | addNode widgetId =>
      simp only [Op.apply,projectAddNode,Op.change]
      cases projectFindItem p widgetId with
      | none => rfl
      | some item => simp [links,Links.apply,Links.newNodeId,nextNodeId]
  | addStoreNode key initial type =>
      simp only [Op.apply,projectAddStoreNode,projectAddStoreVar,Op.change]
      split_ifs <;> simp [links,Links.apply,Links.newNodeId,nextNodeId]
  | removeNode nodeId =>
      simp only [Op.apply,projectRemoveNode,links,Op.change,Links.apply]
      rw [map_eraseP (q := fun l : NodeLink => l.id = nodeId) fun _ => rfl]
  | addCustomPort nodeId name type isOutput =>
      simp only [Op.apply,graphAddCustomPort,Op.change]
      split_ifs
      · rfl
      · simp only [links,Links.apply]
        rw [map_modify_of_comp]
        exact fun _ => rfl
  | addEdge fromNode fromPort toNode toPort =>
      simp [Op.apply,projectAddEdge,links,Op.change,Links.apply]
  | removeEdge edgeIdx =>
      simp only [Op.apply,projectRemoveEdge,links,Op.change,Links.apply,map_removeAt]
  | editCondition edgeIdx typed =>
      simp only [Op.apply,graphEditCondition,links,Op.change,Links.apply]
      rw [map_modifyAt_of_comp]
      exact fun _ => rfl
  | editTransform edgeIdx typed =>
      simp only [Op.apply,graphEditTransform,links,Op.change,Links.apply]
      rw [map_modifyAt_of_comp]
      exact fun _ => rfl
  | addKeymap scope widgetId key action => rfl
  | removeKeymap idx => rfl
  | addStoreVar key initial type =>
      simp only [Op.apply,projectAddStoreVar,Op.change]
      split_ifs <;> rfl

/-! ## The trace of a project -/

/-- Item ids ever allocated, the number of each node by its place, the number
for the next node, and for each edge the numbers of its nodes. -/
structure Trace where
  allocated : List Int32
  serials : List ℕ
  births : ℕ
  ends : List (ℕ × ℕ)

/-- The number of the node at a place. -/
def Trace.serialAt (t : Trace) (place : Int32) : Option ℕ := t.serials[place.toInt.toNat]?

def Trace.next (t : Trace) (l : Links) : Change → Trace
  | .addItem => { t with allocated := t.allocated++[l.nextItemId] }
  | .addNode _ => { t with serials := t.serials++[t.births], births := t.births+1 }
  | .removeNode nodeId =>
      { t with serials := t.serials.eraseIdx (l.nodes.findIdx (·.id = nodeId)) }
  | .addEdge fromNode toNode =>
      { t with ends := t.ends++[((t.serialAt fromNode).getD 0,(t.serialAt toNode).getD 0)] }
  | .removeEdge edgeIdx => { t with ends := removeAt t.ends edgeIdx }
  | _ => t

structure Traced where
  project : BuilderProject
  trace : Trace

def Traced.start (name : Option Bytes) (rootW rootH : Int32) : Traced :=
  ⟨projectNew name rootW rootH,⟨[],[],0,[]⟩⟩

def Traced.take (s : Traced) (o : Op) : Traced :=
  ⟨o.apply s.project,s.trace.next (links s.project) (o.change s.project)⟩

/-- An item of that id was on the canvas and is no longer. -/
def Gone (l : Links) (t : Trace) (i : Int32) : Prop :=
  i ∈ t.allocated ∧ i ∉ l.items.map ItemLink.id

/-- The edge connects the nodes of those numbers. -/
def Joins (t : Trace) (e : EdgeLink) (ends : ℕ × ℕ) : Prop :=
  t.serialAt e.fromNode = some ends.1 ∧ t.serialAt e.toNode = some ends.2

/-- Node ids are distinct, every edge connects the two nodes it was drawn
between, and no node and no item refers to an item that is gone. -/
structure Intact (l : Links) (t : Trace) : Prop where
  ids : (l.nodes.map NodeLink.id).Nodup
  edges : List.Forall₂ (Joins t) l.edges t.ends
  widgets : ∀ n ∈ l.nodes, ¬ Gone l t n.widgetId
  parents : ∀ item ∈ l.items, ¬ Gone l t item.parentId

/-- An edge is drawn between nodes that are there. -/
def Change.InRange (l : Links) : Change → Prop
  | .addEdge fromNode toNode => (0 ≤ fromNode.toInt ∧ fromNode.toInt < l.nodes.length) ∧
      0 ≤ toNode.toInt ∧ toNode.toInt < l.nodes.length
  | _ => True

/-- A node gets an id of its own; a node is removed when no edge ends at its
place or behind it; the last item of an id is removed when nothing refers to it;
and what is referred to is not gone already. A new item refers to the parent -1,
which is an id only after the counter went round. -/
def Change.Careful (l : Links) (t : Trace) : Change → Prop
  | .addItem => l.nextItemId ≠ -1 → ¬ Gone l t (-1)
  | .addNode widgetId => l.newNodeId ∉ l.nodes.map NodeLink.id ∧ ¬ Gone l t widgetId
  | .removeNode nodeId => nodeId ∈ l.nodes.map NodeLink.id → ∀ e ∈ l.edges,
      e.fromNode.toInt.toNat < l.nodes.findIdx (·.id = nodeId) ∧
        e.toNode.toInt.toNat < l.nodes.findIdx (·.id = nodeId)
  | .removeItem itemId => (l.items.map ItemLink.id).count itemId = 1 →
      (∀ n ∈ l.nodes, n.widgetId ≠ itemId) ∧
        ∀ item ∈ l.items, item.id ≠ itemId → item.parentId ≠ itemId
  | .setParent itemId parentId => itemId ∈ l.items.map ItemLink.id → ¬ Gone l t parentId
  | _ => True

instance (l : Links) (t : Trace) (i : Int32) : Decidable (Gone l t i) :=
  inferInstanceAs (Decidable (_ ∧ _))

instance Change.decidableInRange (l : Links) : (c : Change) → Decidable (c.InRange l)
  | .addEdge _ _ => inferInstanceAs (Decidable ((_ ∧ _) ∧ _ ∧ _))
  | .nothing | .addItem | .removeItem _ | .setParent _ _ | .addNode _ | .removeNode _
  | .removeEdge _ => isTrue trivial

instance Change.decidableCareful (l : Links) (t : Trace) : (c : Change) → Decidable (c.Careful l t)
  | .addItem => inferInstanceAs (Decidable (_ → ¬ _))
  | .addNode _ => inferInstanceAs (Decidable (_ ∧ ¬ _))
  | .removeNode nodeId => inferInstanceAs (Decidable (_ → ∀ e ∈ l.edges,
      e.fromNode.toInt.toNat < l.nodes.findIdx (·.id = nodeId) ∧
        e.toNode.toInt.toNat < l.nodes.findIdx (·.id = nodeId)))
  | .removeItem itemId => inferInstanceAs (Decidable (_ → (∀ n ∈ l.nodes, n.widgetId ≠ itemId) ∧
      ∀ item ∈ l.items, item.id ≠ itemId → item.parentId ≠ itemId))
  | .setParent _ _ => inferInstanceAs (Decidable (_ → ¬ _))
  | .nothing | .addEdge _ _ | .removeEdge _ => isTrue trivial

/-! ## What every trace keeps -/

/-- The items were allocated, and nodes have numbers of their own. -/
structure Tracked (l : Links) (t : Trace) : Prop where
  present : ∀ i ∈ l.items.map ItemLink.id, i ∈ t.allocated
  length : t.serials.length = l.nodes.length
  serials : t.serials.Nodup
  births : ∀ u ∈ t.serials, u < t.births

theorem eraseP_eq_eraseIdx_findIdx {α : Type} (p : α → Bool) (l : List α) :
    l.eraseP p = l.eraseIdx (l.findIdx p) := by
  induction l with
  | nil => rfl
  | cons a l ih =>
      rw [List.findIdx_cons]
      cases hp : p a with
      | true => rw [List.eraseP_cons_of_pos hp,cond_true,List.eraseIdx_cons_zero]
      | false =>
          rw [List.eraseP_cons_of_neg (by simp [hp]),cond_false,List.eraseIdx_cons_succ,ih]

section

variable {l : Links} {t : Trace}

theorem Tracked.step (h : Tracked l t) (c : Change) : Tracked (l.apply c) (t.next l c) := by
  cases c with
  | nothing => exact h
  | addItem =>
      refine ⟨?_,h.length,h.serials,h.births⟩
      simp only [Links.apply,List.map_append,List.map_cons,List.map_nil,List.forall_mem_append]
      exact ⟨fun i hi => List.mem_append_left _ (h.present i hi),
        List.forall_mem_singleton.mpr (List.mem_append_right _ (List.mem_singleton_self _))⟩
  | removeItem itemId =>
      have hsub := (List.eraseP_sublist (p := fun a : ItemLink => a.id = itemId)
        (l := l.items)).map ItemLink.id
      exact ⟨fun i hi => h.present i (hsub.subset hi),h.length,h.serials,h.births⟩
  | setParent itemId parentId =>
      refine ⟨?_,h.length,h.serials,h.births⟩
      simp only [Links.apply]
      rw [map_key_modify]
      · exact h.present
      · exact fun _ => rfl
  | addNode widgetId =>
      refine ⟨h.present,?_,?_,?_⟩
      · simp [Links.apply,Trace.next,h.length]
      · have hnew : t.births ∉ t.serials := fun hm => Nat.lt_irrefl _ (h.births _ hm)
        exact List.nodup_append_comm.mp (List.nodup_cons.mpr ⟨hnew,h.serials⟩)
      · simp only [Trace.next,List.forall_mem_append,List.forall_mem_singleton]
        exact ⟨fun u hu => Nat.lt_succ_of_lt (h.births u hu),Nat.lt_succ_self _⟩
  | removeNode nodeId =>
      refine ⟨h.present,?_,?_,?_⟩
      · simp only [Links.apply,Trace.next]
        rw [eraseP_eq_eraseIdx_findIdx,List.length_eraseIdx,List.length_eraseIdx,h.length]
      · exact h.serials.sublist (List.eraseIdx_sublist _ _)
      · exact fun u hu => h.births u (List.mem_of_mem_eraseIdx hu)
  | addEdge fromNode toNode => exact ⟨h.present,h.length,h.serials,h.births⟩
  | removeEdge edgeIdx => exact ⟨h.present,h.length,h.serials,h.births⟩

/-! ## What a change does to intact references -/

theorem gone_addItem (i : Int32) :
    Gone (l.apply .addItem) (t.next l .addItem) i ↔ Gone l t i ∧ i ≠ l.nextItemId := by
  simp only [Gone,Links.apply,Trace.next,List.map_append,List.map_cons,List.map_nil,
    List.mem_append,List.mem_singleton]
  tauto

theorem map_id_removeItem (itemId : Int32) :
    (l.apply (.removeItem itemId)).items.map ItemLink.id =
      (l.items.map ItemLink.id).erase itemId := by
  simp only [Links.apply]
  rw [map_eraseP (q := fun i : Int32 => i = itemId) fun _ => rfl,List.erase_eq_eraseP]
  congr 1
  funext i
  simp [beq_eq_decide,eq_comm]

/-- An id is gone with the last item of it. -/
theorem gone_removeItem (h : Tracked l t) (itemId i : Int32) :
    Gone (l.apply (.removeItem itemId)) (t.next l (.removeItem itemId)) i ↔
      Gone l t i ∨ i = itemId ∧ (l.items.map ItemLink.id).count itemId = 1 := by
  have hpresent := h.present i
  simp only [Gone,map_id_removeItem,Trace.next]
  by_cases hi : i = itemId
  · subst hi
    rw [← List.count_pos_iff] at hpresent
    rw [← List.count_eq_zero,← List.count_eq_zero,List.count_erase_self]
    constructor
    · rintro ⟨ha,hc⟩
      by_cases hz : (l.items.map ItemLink.id).count i = 0
      · exact Or.inl ⟨ha,hz⟩
      · exact Or.inr ⟨rfl,by omega⟩
    · rintro (⟨ha,hc⟩ | ⟨-,hc⟩)
      · exact ⟨ha,by omega⟩
      · exact ⟨hpresent (by omega),by omega⟩
  · rw [List.mem_erase_of_ne hi]
    simp [hi]

theorem gone_setParent (itemId parentId i : Int32) :
    Gone (l.apply (.setParent itemId parentId)) (t.next l (.setParent itemId parentId)) i ↔
      Gone l t i := by
  have hids : (l.apply (.setParent itemId parentId)).items.map ItemLink.id =
      l.items.map ItemLink.id := by
    apply map_key_modify
    exact fun _ => rfl
  simp only [Gone,hids,Trace.next]

theorem mem_eraseP_of_count {items : List ItemLink} {itemId : Int32}
    (h : (items.map ItemLink.id).count itemId = 1) (item : ItemLink) :
    item ∈ items.eraseP (·.id = itemId) ↔ item ∈ items ∧ item.id ≠ itemId := by
  constructor
  · intro hm
    refine ⟨List.mem_of_mem_eraseP hm,?_⟩
    rintro rfl
    have hid := List.mem_map_of_mem (f := ItemLink.id) hm
    rw [show (items.eraseP (·.id = item.id)).map ItemLink.id =
      (items.map ItemLink.id).erase item.id from map_id_removeItem (l := ⟨items,[],[],0⟩) item.id,
      ← List.count_pos_iff,List.count_erase_self,h] at hid
    omega
  · rintro ⟨hm,hne⟩
    exact (List.mem_eraseP_of_neg (by simpa using hne)).mpr hm

/-- With distinct numbers a place keeps its number exactly before the one taken out. -/
theorem getElem?_eraseIdx_iff {serials : List ℕ} (h : serials.Nodup) {k i u : ℕ}
    (hi : serials[i]? = some u) : (serials.eraseIdx k)[i]? = some u ↔ i < k := by
  rw [List.getElem?_eraseIdx]
  split_ifs with hk
  · exact iff_of_true hi hk
  · refine iff_of_false (fun hs => ?_) hk
    obtain ⟨hlt,hu⟩ := List.getElem?_eq_some_iff.mp hi
    obtain ⟨hlt',hu'⟩ := List.getElem?_eq_some_iff.mp hs
    have := h.getElem_inj_iff.mp (hu.trans hu'.symm)
    omega

theorem forall₂_iff_of_imp {α β : Type} {R S : α → β → Prop} {D : α → Prop} {as : List α}
    {bs : List β} (h : List.Forall₂ R as bs) (hS : ∀ a b, R a b → (S a b ↔ D a)) :
    List.Forall₂ S as bs ↔ ∀ a ∈ as, D a := by
  induction h with
  | nil => simp
  | cons hab _ ih => rw [List.forall₂_cons,List.forall_mem_cons,hS _ _ hab,ih]

theorem forall₂_removeAt {α β : Type} {R : α → β → Prop} {as : List α} {bs : List β}
    (h : List.Forall₂ R as bs) (idx : Int32) :
    List.Forall₂ R (removeAt as idx) (removeAt bs idx) := by
  unfold removeAt
  split_ifs
  · exact h
  · generalize idx.toInt.toNat = k
    induction h generalizing k with
    | nil => exact .nil
    | cons hab hl ih =>
        cases k with
        | zero => exact hl
        | succ k => exact .cons hab (ih k)

/-- The ends of an edge are places of the array. -/
theorem Intact.place_lt (h : Tracked l t) (hp : Intact l t) : ∀ e ∈ l.edges,
    e.fromNode.toInt.toNat < l.nodes.length ∧ e.toNode.toInt.toNat < l.nodes.length := by
  rw [← h.length]
  refine (forall₂_iff_of_imp hp.edges fun e ends hj => iff_of_true hj ?_).mp hp.edges
  exact ⟨(List.getElem?_eq_some_iff.mp hj.1).1,(List.getElem?_eq_some_iff.mp hj.2).1⟩

theorem Intact.edges_removeNode (h : Tracked l t) (hp : Intact l t) (nodeId : Int32) :
    List.Forall₂ (Joins (t.next l (.removeNode nodeId))) l.edges t.ends ↔
      (nodeId ∈ l.nodes.map NodeLink.id → ∀ e ∈ l.edges,
        e.fromNode.toInt.toNat < l.nodes.findIdx (·.id = nodeId) ∧
          e.toNode.toInt.toNat < l.nodes.findIdx (·.id = nodeId)) := by
  have hiff := forall₂_iff_of_imp hp.edges (S := Joins (t.next l (.removeNode nodeId)))
    fun e ends hj => and_congr (getElem?_eraseIdx_iff h.serials hj.1)
      (getElem?_eraseIdx_iff h.serials hj.2)
  rw [hiff]
  constructor
  · exact fun he _ => he
  · intro he e hm
    by_cases hid : nodeId ∈ l.nodes.map NodeLink.id
    · exact he hid e hm
    -- without such a node the search ends behind the last place
    · have hlen : l.nodes.findIdx (·.id = nodeId) = l.nodes.length := by
        rw [List.findIdx_eq_length]
        exact fun n hn => decide_eq_false fun heq => hid (heq ▸ List.mem_map_of_mem hn)
      rw [hlen]
      exact hp.place_lt h e hm

/-- A change keeps intact references intact exactly when it is a careful one. -/
theorem intact_step (h : Tracked l t) (hp : Intact l t) {c : Change} (hc : c.InRange l) :
    Intact (l.apply c) (t.next l c) ↔ c.Careful l t := by
  cases c with
  | nothing => exact iff_of_true hp trivial
  | addItem =>
      constructor
      · intro hq hne hgone
        exact hq.parents ⟨l.nextItemId,-1⟩ (List.mem_append_right _ (List.mem_singleton_self _))
          ((gone_addItem _).mpr ⟨hgone,hne.symm⟩)
      · intro hcare
        refine ⟨hp.ids,hp.edges,fun n hn hg => hp.widgets n hn ((gone_addItem _).mp hg).1,?_⟩
        intro item hm hg
        obtain ⟨hgone,hne⟩ := (gone_addItem _).mp hg
        rcases List.mem_append.mp hm with hm | hm
        · exact hp.parents item hm hgone
        · rw [List.mem_singleton.mp hm] at hgone hne
          exact hcare hne.symm hgone
  | removeItem itemId =>
      constructor
      · intro hq hcount
        have hgone := (gone_removeItem h itemId itemId).mpr (Or.inr ⟨rfl,hcount⟩)
        constructor
        · intro n hn hw
          exact hq.widgets n hn (hw ▸ hgone)
        · intro item hm hne hpar
          exact hq.parents item ((mem_eraseP_of_count hcount item).mpr ⟨hm,hne⟩) (hpar ▸ hgone)
      · intro hcare
        refine ⟨hp.ids,hp.edges,?_,?_⟩
        · intro n hn hg
          rcases (gone_removeItem h itemId n.widgetId).mp hg with hg | ⟨hw,hcount⟩
          · exact hp.widgets n hn hg
          · exact (hcare hcount).1 n hn hw
        · intro item hm hg
          rcases (gone_removeItem h itemId item.parentId).mp hg with hg | ⟨hpar,hcount⟩
          · exact hp.parents item (List.mem_of_mem_eraseP hm) hg
          · obtain ⟨hm,hne⟩ := (mem_eraseP_of_count hcount item).mp hm
            exact (hcare hcount).2 item hm hne hpar
  | setParent itemId parentId =>
      constructor
      · intro hq hid hgone
        obtain ⟨item,-,-,hm⟩ := exists_mem_modify (f := fun a : ItemLink =>
          { a with parentId := parentId }) hid
        exact hq.parents _ hm ((gone_setParent itemId parentId parentId).mpr hgone)
      · intro hcare
        refine ⟨hp.ids,hp.edges,fun n hn hg => hp.widgets n hn ((gone_setParent _ _ _).mp hg),?_⟩
        simp only [gone_setParent]
        by_cases hid : itemId ∈ l.items.map ItemLink.id
        · exact forall_mem_modify (Q := fun item : ItemLink => ¬ Gone l t item.parentId)
            (fun _ _ => hcare hid) hp.parents
        · simp only [Links.apply,modify_of_notMem hid]
          exact hp.parents
  | addNode widgetId =>
      have hids : ((l.apply (.addNode widgetId)).nodes.map NodeLink.id).Nodup ↔
          l.newNodeId ∉ l.nodes.map NodeLink.id := by
        simp only [Links.apply,List.map_append,List.map_cons,List.map_nil]
        rw [List.nodup_append_comm,List.singleton_append,List.nodup_cons,and_iff_left hp.ids]
      have hedges : List.Forall₂ (Joins (t.next l (.addNode widgetId))) l.edges t.ends := by
        have hlast : ∀ {i u : ℕ}, t.serials[i]? = some u → (t.serials++[t.births])[i]? = some u :=
          fun hi => (List.getElem?_append_left (List.getElem?_eq_some_iff.mp hi).1).trans hi
        exact hp.edges.imp fun e ends hj => ⟨hlast hj.1,hlast hj.2⟩
      constructor
      · intro hq
        exact ⟨hids.mp hq.ids,hq.widgets ⟨l.newNodeId,widgetId⟩
          (List.mem_append_right _ (List.mem_singleton_self _))⟩
      · intro hcare
        refine ⟨hids.mpr hcare.1,hedges,?_,hp.parents⟩
        exact List.forall_mem_append.mpr ⟨hp.widgets,List.forall_mem_singleton.mpr hcare.2⟩
  | removeNode nodeId =>
      have hsub := List.eraseP_sublist (p := fun a : NodeLink => a.id = nodeId) (l := l.nodes)
      constructor
      · intro hq
        exact (hp.edges_removeNode h nodeId).mp hq.edges
      · intro hcare
        exact ⟨hp.ids.sublist (hsub.map NodeLink.id),(hp.edges_removeNode h nodeId).mpr hcare,
          fun n hn => hp.widgets n (hsub.subset hn),hp.parents⟩
  | addEdge fromNode toNode =>
      have hat : ∀ place : Int32, 0 ≤ place.toInt ∧ place.toInt < l.nodes.length →
          t.serialAt place = some ((t.serialAt place).getD 0) := by
        intro place hplace
        have hlt : place.toInt.toNat < t.serials.length := by
          rw [h.length]
          omega
        rw [Trace.serialAt,List.getElem?_eq_getElem hlt,Option.getD_some]
      refine iff_of_true ⟨hp.ids,?_,hp.widgets,hp.parents⟩ trivial
      refine List.rel_append hp.edges ?_
      exact .cons ⟨hat fromNode hc.1,hat toNode hc.2⟩ .nil
  | removeEdge edgeIdx =>
      exact iff_of_true ⟨hp.ids,forall₂_removeAt hp.edges edgeIdx,hp.widgets,hp.parents⟩ trivial

end

/-! ## Runs -/

/-- On a new project, in a run whose edges are drawn between nodes that are there,
the references stay intact exactly as long as each operation is a careful one. -/
theorem references_stay_intact_iff (name : Option Bytes) (rootW rootH : Int32) (ops : List Op)
    (h : Guarded Traced.take (fun s o => (o.change s.project).InRange (links s.project))
      (.start name rootW rootH) ops) :
    Always Traced.take (fun s => Intact (links s.project) s.trace) (.start name rootW rootH) ops ↔
      Guarded Traced.take
        (fun s o => (o.change s.project).Careful (links s.project) s.trace)
        (.start name rootW rootH) ops := by
  refine h.always_iff (I := fun s => Tracked (links s.project) s.trace) ?_ ?_ ?_ ?_
  · intro s o hs _
    simp only [Traced.take,links_apply]
    exact hs.step _
  · intro s o hs hr hp
    simp only [Traced.take,links_apply]
    exact intact_step hs hp hr
  · exact ⟨fun i hi => (List.not_mem_nil hi).elim,rfl,List.nodup_nil,
      fun u hu => (List.not_mem_nil hu).elim⟩
  · exact ⟨List.nodup_nil,.nil,fun n hn => (List.not_mem_nil hn).elim,
      fun item hm => (List.not_mem_nil hm).elim⟩

/-- An edge between the first two of three nodes, the third of which is removed
again, and an item without references that is removed. -/
def carefulOps : List Op :=
  [.addItem [97] 0 0 1 1,.addNode 1,.addStoreNode [98] none none,.addStoreNode [99] none none,
   .addEdge 0 0 1 0,.removeNode 3,.addItem [97] 0 0 1 1,.removeItem 2,.removeEdge 0]

theorem carefulOps_keep_references : Always Traced.take
    (fun s => Intact (links s.project) s.trace) (.start none 80 24) carefulOps := by
  refine (references_stay_intact_iff none 80 24 carefulOps ?_).mpr ?_
  · decide +kernel
  · decide +kernel

/-- Of two nodes the first is removed, and the next one gets the id of the second. -/
def repeatedId : List Op :=
  [.addStoreNode [97] none none,.addStoreNode [98] none none,.removeNode 1,
   .addStoreNode [99] none none]

/-- With the first node removed, the edge between the other two starts at the third
and ends behind the array. -/
def shiftedEdge : List Op :=
  [.addStoreNode [97] none none,.addStoreNode [98] none none,.addStoreNode [99] none none,
   .addEdge 1 0 2 0,.removeNode 1]

def danglingWidget : List Op := [.addItem [97] 0 0 1 1,.addNode 1,.removeItem 1]

def danglingParent : List Op :=
  [.addItem [97] 0 0 1 1,.addItem [97] 0 0 1 1,.setParent 2 1,.removeItem 1]

/-- The calls are within bounds and lose a reference. -/
def Loses (ops : List Op) : Prop :=
  Guarded Traced.take (fun s o => (o.change s.project).InRange (links s.project))
    (.start none 80 24) ops ∧
  ¬ Always Traced.take (fun s => Intact (links s.project) s.trace) (.start none 80 24) ops

/-- Each part of the references is lost in some run of a few calls. -/
theorem references_are_lost :
    Loses repeatedId ∧ Loses shiftedEdge ∧ Loses danglingWidget ∧ Loses danglingParent := by
  refine ⟨⟨by decide +kernel,fun h => ?_⟩,⟨by decide +kernel,fun h => ?_⟩,
    ⟨by decide +kernel,fun h => ?_⟩,⟨by decide +kernel,fun h => ?_⟩⟩
  · exact absurd h.finish.ids (by decide +kernel)
  · have hjoin := h.finish.edges
    have hedges : (links (run Traced.take (.start none 80 24) shiftedEdge).project).edges =
        [⟨1,2⟩] := by decide +kernel
    have hends : (run Traced.take (.start none 80 24) shiftedEdge).trace.ends = [(1,2)] := by
      decide +kernel
    rw [hedges,hends,List.forall₂_cons] at hjoin
    exact absurd hjoin.1.2 (by decide +kernel)
  · exact h.finish.widgets ⟨1,1⟩ (by decide +kernel) (by decide +kernel)
  · exact h.finish.parents ⟨2,1⟩ (by decide +kernel) (by decide +kernel)

end Filly.Builder
