import Filly.ProjectFile
import Filly.Runs

/-!
# Saving and reopening along a history

A history of a project starts with `project_new` and goes on with calls on it
and with saving and reopening; beside the project it keeps every item id that
was ever allocated. The file is faithful when the project comes back as it was
and no id allocated afterwards was allocated before. The descriptions of ports
are written and never read, and the counter of ids restarts behind the largest
id that is still on the canvas.
-/
namespace Filly.Builder
open CJson KeyedList Runs

/-! ## Histories -/

structure History where
  project : BuilderProject
  allocated : List Int32

def History.start (name : Option Bytes) (rootW rootH : Int32) : History :=
  ⟨projectNew name rootW rootH,[]⟩

def History.take (s : History) (o : Op) : History :=
  ⟨o.apply s.project,s.allocated++o.allocates s.project⟩

inductive Event where
  | op (o : Op)
  | reopen

/-- A file that does not load leaves the project open. -/
def History.step (s : History) : Event → History
  | .op o => s.take o
  | .reopen =>
      match projectLoad (projectSave s.project) with
      | .ok q => { s with project := q }
      | .error _ => s

/-- The texts that a call brings in. -/
def Op.texts : Op → List Bytes
  | .addItem widgetType _ _ _ _ => [widgetType]
  | .updateItemParams _ (some newParams) => newParams.strings
  | .addStoreNode key initial type => key::(initial.toList++type.toList)
  | .addCustomPort _ name _ _ => [name]
  | .editCondition _ typed => [typed]
  | .editTransform _ typed => [typed]
  | .addKeymap _ _ key action => [key,action]
  | .addStoreVar key initial type => key::(initial.toList++type.toList)
  | _ => []

/-- The texts are printable, and the counter does not overflow: signed overflow
has no meaning in C. -/
def Op.Allowed (s : History) (o : Op) : Prop :=
  (∀ t ∈ o.texts, Printable t) ∧ ∀ i ∈ o.allocates s.project, i.toInt < 2^31-1

instance (s : History) (o : Op) : Decidable (o.Allowed s) :=
  @instDecidableAnd _ _ (List.decidableBAll (fun t : Bytes => t.all (32 ≤ ·) = true) o.texts)
    (List.decidableBAll (fun i : Int32 => i.toInt < 2^31-1) (o.allocates s.project))

def Event.Allowed (s : History) : Event → Prop
  | .op o => o.Allowed s
  | .reopen => True

instance (s : History) : (e : Event) → Decidable (e.Allowed s)
  | .op o => inferInstanceAs (Decidable (o.Allowed s))
  | .reopen => isTrue trivial

/-! ## Faithful files -/

/-- Equal items; the parameters are compared as trees. -/
def SameItem (a b : CanvasItem) : Prop :=
  { a with params := none } = { b with params := none } ∧ Option.Rel Json.Same a.params b.params

/-- Equal in everything the file holds. An absent author or description is
written as an empty text. -/
structure SameProject (q p : BuilderProject) : Prop where
  projectName : q.projectName = p.projectName
  author : q.author.getD [] = p.author.getD []
  description : q.description.getD [] = p.description.getD []
  fillyVersion : q.fillyVersion = p.fillyVersion
  rootWidth : q.rootWidth = p.rootWidth
  rootHeight : q.rootHeight = p.rootHeight
  items : List.Forall₂ SameItem q.items p.items
  nodes : q.nodes = p.nodes
  edges : q.edges = p.edges
  keymaps : q.keymaps = p.keymaps
  storeVars : q.storeVars = p.storeVars
  tui : q.tui = p.tui

/-- No calls on the project, however many, allocate one of the ids. -/
def AllocatesFresh (q : BuilderProject) (ids : List Int32) : Prop :=
  ∀ ops : List Op, Guarded History.take Op.Allowed ⟨q,[]⟩ ops →
    ∀ i ∈ (run History.take ⟨q,[]⟩ ops).allocated, i ∉ ids

def RoundTrips (s : History) : Prop :=
  ∃ q, projectLoad (projectSave s.project) = .ok q ∧ SameProject q s.project ∧
    AllocatesFresh q s.allocated

/-- No port has a description; every item has parameters whose numbers keep
their value in print and that are nested at most 997 deep; the largest id ever
allocated is still on the canvas; and every text fits the print buffer. -/
structure Keeps (s : History) : Prop where
  ports : ∀ n ∈ s.project.nodes, ∀ port ∈ n.ports, port.description = none
  params : ∀ item ∈ s.project.items, ∃ j, item.params = some j ∧
    (∀ d ∈ j.numbers, Survives d) ∧ 3+j.nesting ≤ 1000
  ids : ∀ i ∈ s.allocated, ∃ item ∈ s.project.items, i.toInt ≤ item.id.toInt
  fits : s.project.AllTexts Fits

/-! ## The counter of ids -/

theorem toInt_succ {n : Int32} (h : n.toInt < 2^31-1) : (n+1).toInt = n.toInt+1 := by
  have h₁ := Int32.le_toInt n
  have hone : (1 : Int32).toInt = 1 := rfl
  rw [Int32.toInt_add,hone,Int.bmod_eq_of_le] <;> omega

theorem counted_iff {items : List CanvasItem} (h : ∀ item ∈ items, item.id.toInt < 2^31-1)
    (n i : Int32) :
    i.toInt < (items.foldl (fun next item => if next ≤ item.id then item.id+1 else next) n).toInt ↔
      i.toInt < n.toInt ∨ ∃ item ∈ items, i.toInt ≤ item.id.toInt := by
  induction items generalizing n with
  | nil => simp
  | cons item items ih =>
      rw [List.forall_mem_cons] at h
      rw [List.foldl_cons,ih h.2]
      have hstep : i.toInt < (if n ≤ item.id then item.id+1 else n).toInt ↔
          i.toInt < n.toInt ∨ i.toInt ≤ item.id.toInt := by
        split_ifs with hle
        · rw [Int32.le_iff_toInt_le] at hle
          rw [toInt_succ h.1]
          omega
        · rw [Int32.le_iff_toInt_le] at hle
          omega
      rw [hstep,List.exists_mem_cons_iff,or_assoc]

/-- The loaded counter is behind an id exactly when an item reaches it. -/
theorem lt_countedIds_iff {items : List CanvasItem}
    (h : ∀ item ∈ items, item.id.toInt < 2^31-1) {i : Int32} (hi : 0 ≤ i.toInt) :
    i.toInt < (countedIds items).toInt ↔ ∃ item ∈ items, i.toInt ≤ item.id.toInt := by
  rw [countedIds,counted_iff h,Int32.toInt_zero]
  constructor
  · rintro (hneg | h)
    · omega
    · exact h
  · exact Or.inr

theorem countedIds_nonneg {items : List CanvasItem}
    (h : ∀ item ∈ items, item.id.toInt < 2^31-1) : 0 ≤ (countedIds items).toInt := by
  have hm : (-1 : Int32).toInt = -1 := rfl
  have := (counted_iff h 0 (-1)).mpr (Or.inl (by decide))
  rw [hm] at this
  exact this

theorem Op.allocates_cases (p : BuilderProject) (o : Op) :
    (o.allocates p = [] ∧ (o.apply p).nextItemId = p.nextItemId) ∨
      (o.allocates p = [p.nextItemId] ∧ (o.apply p).nextItemId = p.nextItemId+1) := by
  cases o with
  | addItem widgetType x y w h => exact Or.inr ⟨rfl,rfl⟩
  | addNode widgetId =>
      refine Or.inl ⟨rfl,?_⟩
      rw [apply,projectAddNode]
      split <;> rfl
  | addStoreNode key initial type =>
      refine Or.inl ⟨rfl,?_⟩
      rw [apply,projectAddStoreNode,projectAddStoreVar]
      split_ifs <;> rfl
  | addStoreVar key initial type =>
      refine Or.inl ⟨rfl,?_⟩
      rw [apply,projectAddStoreVar]
      split_ifs <;> rfl
  | addCustomPort nodeId name type isOutput =>
      refine Or.inl ⟨rfl,?_⟩
      rw [apply,graphAddCustomPort]
      split_ifs <;> rfl
  | _ => exact Or.inl ⟨rfl,rfl⟩

/-- Ids of later calls are not below the counter. -/
theorem le_allocated {n : ℤ} {s : History} {ops : List Op}
    (h : Guarded History.take Op.Allowed s ops) (hnext : n ≤ s.project.nextItemId.toInt) (hs : ∀ i ∈ s.allocated, n ≤ i.toInt) :
    ∀ i ∈ (run History.take s ops).allocated, n ≤ i.toInt := by
  have hstep : ∀ s o, (n ≤ s.project.nextItemId.toInt ∧ ∀ i ∈ s.allocated, n ≤ i.toInt) →
      Op.Allowed s o → n ≤ (s.take o).project.nextItemId.toInt ∧
        ∀ i ∈ (s.take o).allocated, n ≤ i.toInt := by
    intro s o hs ho
    obtain ⟨ha,hn⟩ | ⟨ha,hn⟩ := Op.allocates_cases s.project o
    · simpa [History.take,ha,hn] using hs
    · have hlt := ho.2 s.project.nextItemId (by rw [ha]; exact List.mem_singleton_self _)
      have hsucc := toInt_succ hlt
      simp only [History.take,ha,hn,List.forall_mem_append,List.forall_mem_singleton]
      exact ⟨by omega,hs.2,hs.1⟩
  exact (Guarded.always hstep h ⟨hnext,hs⟩).finish.2

theorem addItem_allowed {s : History} (h : s.project.nextItemId.toInt < 2^31-1) :
    (Op.addItem [] 0 0 0 0).Allowed s :=
  ⟨List.forall_mem_singleton.mpr rfl,List.forall_mem_singleton.mpr h⟩

/-- Adding items one after another reaches every id from the counter on. -/
theorem reaches_id {i : Int32} (hi : i.toInt < 2^31-1) (k : ℕ) (s : History)
    (hk : s.project.nextItemId.toInt+k = i.toInt) :
    ∃ ops, Guarded History.take Op.Allowed s ops ∧ i ∈ (run History.take s ops).allocated := by
  have hadd := addItem_allowed (s := s) (by omega)
  induction k generalizing s with
  | zero =>
      have he : s.project.nextItemId = i := Int32.toInt.inj (by omega)
      refine ⟨[.addItem [] 0 0 0 0],⟨hadd,trivial⟩,?_⟩
      rw [← he]
      exact List.mem_append_right _ (List.mem_singleton_self _)
  | succ k ih =>
      have hnext : (s.take (.addItem [] 0 0 0 0)).project.nextItemId.toInt =
          s.project.nextItemId.toInt+1 := toInt_succ (by omega)
      obtain ⟨ops,hops,hmem⟩ := ih (s.take (.addItem [] 0 0 0 0)) (by omega)
        (addItem_allowed (by omega))
      exact ⟨.addItem [] 0 0 0 0::ops,⟨hadd,hops⟩,hmem⟩

theorem allocatesFresh_iff {q : BuilderProject} {ids : List Int32}
    (hids : ∀ i ∈ ids, i.toInt < 2^31-1) :
    AllocatesFresh q ids ↔ ∀ i ∈ ids, i.toInt < q.nextItemId.toInt := by
  constructor
  · intro h i hi
    by_contra hlt
    obtain ⟨ops,hops,hmem⟩ := reaches_id (hids i hi) (i.toInt-q.nextItemId.toInt).toNat ⟨q,[]⟩
      (by change q.nextItemId.toInt+_ = _; omega)
    exact h ops hops i hmem hi
  · intro h ops hops i hmem hi
    have hle : q.nextItemId.toInt ≤ i.toInt :=
      le_allocated hops (Int.le_refl _) (List.forall_mem_nil _) i hmem
    have hlt := h i hi
    omega

/-! ## What a call keeps -/

theorem printable_take {s : Bytes} (h : Printable s) (n : ℕ) : Printable (s.take n) := by
  rw [printable_iff] at *
  exact fun b hb => h b (List.mem_of_mem_take hb)

theorem printable_formatInt (n : ℤ) : Printable (formatInt n) :=
  printable_numberChars ((numberChars_sign _).append (allDigits_numeral _).numberChars)

theorem printable_instanceNameOf {widgetType : Bytes} (h : Printable widgetType) (id : Int32) :
    Printable (instanceNameOf widgetType id) := by
  have hname : Printable (95::formatInt id.toInt) :=
    Printable.append (s := [95]) rfl (printable_formatInt id.toInt)
  exact printable_take (h.append hname) 63

theorem printable_editBuf (typed : Bytes) : ∀ s ∈ editBuf typed, Printable s := by
  intro s hs
  unfold editBuf at hs
  split at hs
  · cases hs
  · cases hs
    rw [printable_iff]
    intro b hb
    have := (List.mem_filter.mp (List.mem_of_mem_take hb)).2
    simp only [Bool.and_eq_true,decide_eq_true_eq] at this
    exact this.1

/-- The texts of a port that is written out. -/
theorem printable_port {cs ds : List Char} (hc : printableChars cs = true)
    (hd : printableChars ds = true) (i : Int32) (t : PortDataType) (isOutput : Bool) :
    PortDef.AllTexts Printable
      ⟨i,bytes (String.ofList cs),t,isOutput,some (bytes (String.ofList ds))⟩ :=
  ⟨printable_ofList hc,by rintro s ⟨⟩; exact printable_ofList hd⟩

theorem portRegistry_texts : ∀ info ∈ portRegistry,
    (∀ port ∈ info.outputs, port.AllTexts Printable) ∧
      ∀ port ∈ info.inputs, port.AllTexts Printable := by
  simp only [portRegistry,output,input,List.forall_mem_cons]
  repeat' with_reducible apply And.intro
  all_goals first
    | exact printable_port (by decide) (by decide) _ _ _
    | exact List.forall_mem_nil _

theorem projectGetWidgetPorts_texts (widgetType : Bytes) :
    ∀ port ∈ projectGetWidgetPorts widgetType, port.AllTexts Printable := by
  unfold projectGetWidgetPorts
  split
  · rename_i info hinfo
    have hports := portRegistry_texts info (List.mem_of_find?_eq_some hinfo)
    rw [List.forall_mem_append]
    exact ⟨List.forall_mem_map.mpr hports.1,List.forall_mem_map.mpr hports.2⟩
  · exact List.forall_mem_singleton.mpr
      (printable_port rfl rfl _ _ _)

theorem forall_mem_removeAt {α : Type} {Q : α → Prop} {l : List α} (h : ∀ a ∈ l, Q a)
    (idx : Int32) : ∀ a ∈ removeAt l idx, Q a := by
  unfold removeAt
  split_ifs
  · exact h
  · exact fun a ha => h a (List.mem_of_mem_eraseIdx ha)

theorem forall_mem_modifyAt {α : Type} {Q : α → Prop} {f : α → α} (hf : ∀ a, Q a → Q (f a))
    {l : List α} (h : ∀ a ∈ l, Q a) (i : ℕ) : ∀ a ∈ l.modify i f, Q a := by
  intro a ha
  obtain ⟨n,hn,rfl⟩ := List.mem_iff_getElem.mp ha
  rw [List.getElem_modify]
  have hl := h _ (List.getElem_mem (by rwa [List.length_modify] at hn))
  split_ifs
  · exact hf _ hl
  · exact hl

theorem changeItem_texts {P : Bytes → Prop} {p : BuilderProject} (hp : p.AllTexts P)
    {f : CanvasItem → CanvasItem} (hf : ∀ item, item.AllTexts P → (f item).AllTexts P)
    (itemId : Int32) : (changeItem p itemId f).AllTexts P :=
  { hp with items := forall_mem_modify hf hp.items }

theorem projectAddStoreVar_texts {p : BuilderProject} (hp : p.AllTexts Printable) {key : Bytes}
    {initial type : Option Bytes} (h : ∀ t ∈ key::(initial.toList++type.toList), Printable t) :
    (projectAddStoreVar p key initial type).AllTexts Printable := by
  simp only [List.forall_mem_cons,List.forall_mem_append,Option.mem_toList] at h
  unfold projectAddStoreVar
  split_ifs
  · exact hp
  · have htype : Printable (type.getD (bytes "string")) := by
      cases type with
      | none => exact printable_ofList rfl
      | some t => exact h.2.2 t rfl
    have hvar : StoreVar.AllTexts Printable ⟨key,initial.getD [],type.getD (bytes "string")⟩ :=
      ⟨h.1,(getD_text_iff (P := Printable) rfl initial).mpr h.2.1,htype⟩
    exact { hp with
      storeVars := List.forall_mem_append.mpr ⟨hp.storeVars,List.forall_mem_singleton.mpr hvar⟩ }

theorem projectAddItem_texts {p : BuilderProject} (hp : p.AllTexts Printable) {widgetType : Bytes}
    (h : Printable widgetType) (x y w h' : Int32) :
    (projectAddItem p widgetType x y w h').AllTexts Printable := by
  have hparams : ∀ s ∈ (Json.object [(bytes "title",.string widgetType)]).strings, Printable s := by
    simp only [Json.strings,membersStrings,List.forall_mem_cons,List.cons_append,List.nil_append]
    exact ⟨printable_ofList rfl,h,List.forall_mem_nil _⟩
  refine { hp with items := List.forall_mem_append.mpr ⟨hp.items,List.forall_mem_singleton.mpr ?_⟩ }
  exact ⟨h,printable_instanceNameOf h _,by rintro j ⟨⟩; exact hparams⟩

theorem addNode_texts {P : Bytes → Prop} {p : BuilderProject} (hp : p.AllTexts P) {n : GraphNode}
    (hn : n.AllTexts P) : { p with nodes := p.nodes++[n] }.AllTexts P :=
  { hp with nodes := List.forall_mem_append.mpr ⟨hp.nodes,List.forall_mem_singleton.mpr hn⟩ }

theorem storePorts_texts : ∀ port ∈ storePorts, port.AllTexts Printable := by
  simp only [storePorts,List.forall_mem_cons]
  exact ⟨printable_port rfl rfl _ _ _,
    printable_port rfl rfl _ _ _,List.forall_mem_nil _⟩

/-- A call with printable texts leaves printable texts. -/
theorem Op.apply_texts {p : BuilderProject} (hp : p.AllTexts Printable) {o : Op}
    (ho : ∀ t ∈ o.texts, Printable t) : (o.apply p).AllTexts Printable := by
  cases o with
  | addItem widgetType x y w h =>
      exact projectAddItem_texts hp (ho widgetType (List.mem_singleton_self _)) x y w h
  | removeItem itemId =>
      exact { hp with items := fun item hi => hp.items item (List.mem_of_mem_eraseP hi) }
  | moveItem itemId x y =>
      rw [apply,projectMoveItem]
      apply changeItem_texts hp
      exact fun _ h => h
  | resizeItem itemId w h =>
      rw [apply,projectResizeItem]
      apply changeItem_texts hp
      exact fun _ h => h
  | setParent itemId parentId =>
      rw [apply,projectSetParent]
      apply changeItem_texts hp
      exact fun _ h => h
  | lockItem itemId locked =>
      rw [apply,canvasLockItem]
      apply changeItem_texts hp
      exact fun _ h => h
  | updateItemParams itemId newParams =>
      rw [apply,projectUpdateItemParams]
      apply changeItem_texts hp
      refine fun item h => ⟨h.1,h.2.1,?_⟩
      rintro j rfl
      exact ho
  | addNode widgetId =>
      rw [apply,projectAddNode]
      split
      · exact hp
      · rename_i item hitem
        have hi := hp.items item (List.mem_of_find?_eq_some hitem)
        exact addNode_texts hp ⟨hi.2.1,by simp,by simp,projectGetWidgetPorts_texts _⟩
  | addStoreNode key initial type =>
      have hkey : Printable key := ho key List.mem_cons_self
      have hlabel : Printable ((bytes "store."++key).take 127) :=
        printable_take ((printable_ofList rfl).append hkey) 127
      exact projectAddStoreVar_texts (addNode_texts hp
        ⟨hlabel,by rintro s ⟨⟩; exact hkey,by simp,storePorts_texts⟩) ho
  | removeNode nodeId =>
      exact { hp with nodes := fun n hn => hp.nodes n (List.mem_of_mem_eraseP hn) }
  | addCustomPort nodeId name type isOutput =>
      rw [apply,graphAddCustomPort]
      split_ifs
      · exact hp
      · refine { hp with nodes := forall_mem_modify (fun n hn => ?_) hp.nodes }
        refine ⟨hn.1,hn.2.1,hn.2.2.1,List.forall_mem_append.mpr ⟨hn.2.2.2,?_⟩⟩
        refine List.forall_mem_singleton.mpr ⟨ho name (List.mem_singleton_self _),?_⟩
        rintro s ⟨⟩
        exact printable_ofList rfl
  | addEdge fromNode fromPort toNode toPort =>
      refine { hp with edges := List.forall_mem_append.mpr ⟨hp.edges,?_⟩ }
      exact List.forall_mem_singleton.mpr ⟨by simp,by simp⟩
  | removeEdge edgeIdx => exact { hp with edges := forall_mem_removeAt hp.edges edgeIdx }
  | editCondition edgeIdx typed =>
      refine { hp with edges := forall_mem_modifyAt (fun e he => ?_) hp.edges edgeIdx }
      exact ⟨printable_editBuf typed,he.2⟩
  | editTransform edgeIdx typed =>
      refine { hp with edges := forall_mem_modifyAt (fun e he => ?_) hp.edges edgeIdx }
      exact ⟨he.1,printable_editBuf typed⟩
  | addKeymap scope widgetId key action =>
      simp only [texts,List.forall_mem_cons] at ho
      refine { hp with keymaps := List.forall_mem_append.mpr ⟨hp.keymaps,?_⟩ }
      exact List.forall_mem_singleton.mpr ⟨ho.1,ho.2.1⟩
  | removeKeymap idx => exact { hp with keymaps := forall_mem_removeAt hp.keymaps idx }
  | addStoreVar key initial type => exact projectAddStoreVar_texts hp ho

/-- The ids on the canvas are those from before and what the call allocates. -/
theorem Op.mem_ids_apply {p : BuilderProject} {o : Op} {i : Int32}
    (h : i ∈ (o.apply p).items.map CanvasItem.id) :
    i ∈ p.items.map CanvasItem.id ∨ i ∈ o.allocates p := by
  have hchange : ∀ {f : CanvasItem → CanvasItem} {itemId : Int32}, (∀ item, (f item).id = item.id) →
      (changeItem p itemId f).items.map CanvasItem.id = p.items.map CanvasItem.id :=
    fun hf => map_key_modify hf p.items
  cases o with
  | addItem widgetType x y w h' =>
      rw [apply,projectAddItem,List.map_append] at h
      exact List.mem_append.mp h
  | removeItem itemId =>
      obtain ⟨item,hi,rfl⟩ := List.mem_map.mp h
      exact Or.inl (List.mem_map_of_mem (List.mem_of_mem_eraseP hi))
  | moveItem itemId x y =>
      rw [apply,projectMoveItem,hchange] at h
      · exact Or.inl h
      · exact fun _ => rfl
  | resizeItem itemId w h' =>
      rw [apply,projectResizeItem,hchange] at h
      · exact Or.inl h
      · exact fun _ => rfl
  | setParent itemId parentId =>
      rw [apply,projectSetParent,hchange] at h
      · exact Or.inl h
      · exact fun _ => rfl
  | lockItem itemId locked =>
      rw [apply,canvasLockItem,hchange] at h
      · exact Or.inl h
      · exact fun _ => rfl
  | updateItemParams itemId newParams =>
      rw [apply,projectUpdateItemParams,hchange] at h
      · exact Or.inl h
      · exact fun _ => rfl
  | addNode widgetId =>
      rw [apply,projectAddNode] at h
      split at h <;> exact Or.inl h
  | addStoreNode key initial type =>
      rw [apply,projectAddStoreNode,projectAddStoreVar] at h
      split_ifs at h <;> exact Or.inl h
  | addStoreVar key initial type =>
      rw [apply,projectAddStoreVar] at h
      split_ifs at h <;> exact Or.inl h
  | addCustomPort nodeId name type isOutput =>
      rw [apply,graphAddCustomPort] at h
      split_ifs at h <;> exact Or.inl h
  | _ => exact Or.inl h

/-- A node is bound to a widget of the canvas, or to none. -/
theorem Op.widgets_apply {p : BuilderProject} {o : Op}
    (hi : ∀ i ∈ p.items.map CanvasItem.id, 0 ≤ i.toInt) (hn : ∀ n ∈ p.nodes, 0 ≤ n.widgetId.toInt) :
    ∀ n ∈ (o.apply p).nodes, 0 ≤ n.widgetId.toInt := by
  cases o with
  | addNode widgetId =>
      rw [apply,projectAddNode]
      split
      · exact hn
      · rename_i item hitem
        have hid := hi item.id (List.mem_map_of_mem (List.mem_of_find?_eq_some hitem))
        rw [key_of_lookup hitem] at hid
        exact List.forall_mem_append.mpr ⟨hn,List.forall_mem_singleton.mpr hid⟩
  | addStoreNode key initial type =>
      have hadd : ∀ n : GraphNode, n.widgetId = 0 →
          ∀ m ∈ p.nodes++[n], 0 ≤ m.widgetId.toInt := by
        intro n h0
        refine List.forall_mem_append.mpr ⟨hn,List.forall_mem_singleton.mpr ?_⟩
        rw [h0]
        decide
      rw [apply,projectAddStoreNode,projectAddStoreVar]
      split_ifs <;> exact hadd _ rfl
  | removeNode nodeId => exact fun n h => hn n (List.mem_of_mem_eraseP h)
  | addStoreVar key initial type =>
      rw [apply,projectAddStoreVar]
      split_ifs <;> exact hn
  | addCustomPort nodeId name type isOutput =>
      rw [apply,graphAddCustomPort]
      split_ifs
      · exact hn
      · apply forall_mem_modify _ hn
        exact fun _ h => h
  | _ => exact hn

/-! ## What holds along a history -/

/-- Texts are printable, the items have ids from the history, and ids are not
negative and below the largest `int`. -/
structure Sound (s : History) : Prop where
  texts : s.project.AllTexts Printable
  allocated : ∀ i ∈ s.allocated, 0 ≤ i.toInt ∧ i.toInt < 2^31-1
  items : ∀ i ∈ s.project.items.map CanvasItem.id, i ∈ s.allocated
  widgets : ∀ n ∈ s.project.nodes, 0 ≤ n.widgetId.toInt
  next : 0 ≤ s.project.nextItemId.toInt

theorem AllTexts.imp {P Q : Bytes → Prop} (h : ∀ s, P s → Q s) {p : BuilderProject}
    (hp : p.AllTexts P) : p.AllTexts Q where
  projectName := h _ hp.projectName
  author s hs := h s (hp.author s hs)
  description s hs := h s (hp.description s hs)
  items item hi := by
    obtain ⟨h₁,h₂,h₃⟩ := hp.items item hi
    exact ⟨h _ h₁,h _ h₂,fun j hj s hs => h s (h₃ j hj s hs)⟩
  nodes n hn := by
    obtain ⟨h₁,h₂,h₃,h₄⟩ := hp.nodes n hn
    exact ⟨h _ h₁,fun s hs => h s (h₂ s hs),fun s hs => h s (h₃ s hs),
      fun port hport => ⟨h _ (h₄ port hport).1,fun s hs => h s ((h₄ port hport).2 s hs)⟩⟩
  edges e he := ⟨fun s hs => h s ((hp.edges e he).1 s hs),fun s hs => h s ((hp.edges e he).2 s hs)⟩
  keymaps k hk := ⟨h _ (hp.keymaps k hk).1,h _ (hp.keymaps k hk).2⟩
  storeVars v hv :=
    ⟨h _ (hp.storeVars v hv).1,h _ (hp.storeVars v hv).2.1,h _ (hp.storeVars v hv).2.2⟩
  fallbackFont s hs := h s (hp.fallbackFont s hs)

theorem Sound.clean {s : History} (h : Sound s) : s.project.AllTexts Clean :=
  AllTexts.imp (fun _ => clean_of_printable) h.texts

theorem Sound.nul {s : History} (h : Sound s) : s.project.AllTexts (0 ∉ ·) :=
  AllTexts.imp (fun _ ht => Clean.nul_notMem (clean_of_printable ht)) h.texts

theorem Sound.ids_lt {s : History} (h : Sound s) :
    ∀ item ∈ s.project.items, item.id.toInt < 2^31-1 := fun item hi =>
  (h.allocated item.id (h.items item.id (List.mem_map_of_mem hi))).2

theorem sound_start {name : Option Bytes} (h : ∀ t ∈ name, Printable t) (rootW rootH : Int32) :
    Sound (.start name rootW rootH) where
  texts := by
    have hname : Printable (name.getD (bytes "untitled")) := by
      cases name with
      | none => exact printable_ofList rfl
      | some t => exact h t rfl
    exact ⟨hname,by rintro s ⟨⟩,by rintro s ⟨⟩,List.forall_mem_nil _,List.forall_mem_nil _,
      List.forall_mem_nil _,List.forall_mem_nil _,List.forall_mem_nil _,by rintro s ⟨⟩⟩
  allocated := List.forall_mem_nil _
  items := List.forall_mem_nil _
  widgets := List.forall_mem_nil _
  next := by
    change 0 ≤ (1 : Int32).toInt
    decide

theorem Sound.take {s : History} (h : Sound s) {o : Op} (ho : o.Allowed s) : Sound (s.take o) := by
  have hids : ∀ i ∈ s.project.items.map CanvasItem.id, 0 ≤ i.toInt := fun i hi =>
    (h.allocated i (h.items i hi)).1
  have hnew : ∀ i ∈ o.allocates s.project, 0 ≤ i.toInt := by
    obtain ⟨ha,-⟩ | ⟨ha,-⟩ := o.allocates_cases s.project
    · rw [ha]
      exact List.forall_mem_nil _
    · rw [ha]
      exact List.forall_mem_singleton.mpr h.next
  refine ⟨Op.apply_texts h.texts ho.1,?_,?_,Op.widgets_apply hids h.widgets,?_⟩
  · exact List.forall_mem_append.mpr ⟨h.allocated,fun i hi => ⟨hnew i hi,ho.2 i hi⟩⟩
  · intro i hi
    rcases Op.mem_ids_apply hi with hi | hi
    · exact List.mem_append_left _ (h.items i hi)
    · exact List.mem_append_right _ hi
  · have hnext := h.next
    obtain ⟨-,hn⟩ | ⟨ha,hn⟩ := o.allocates_cases s.project
    · rwa [History.take,hn]
    · have hlt := ho.2 s.project.nextItemId (by rw [ha]; exact List.mem_singleton_self _)
      rw [History.take,hn,toInt_succ hlt]
      omega

theorem rereadItem_id {a b : CanvasItem} (h : rereadItem a = some b) : b.id = a.id := by
  unfold rereadItem at h
  split at h
  · cases h
    rfl
  · obtain ⟨w,-,rfl⟩ := Option.map_eq_some_iff.mp h
    rfl

theorem map_id_reread {l m : List CanvasItem} (h : l.mapM rereadItem = some m) :
    m.map CanvasItem.id = l.map CanvasItem.id := by
  rw [mapM_eq_some_iff] at h
  induction h with
  | nil => rfl
  | cons hab _ ih => rw [List.map_cons,List.map_cons,rereadItem_id hab,ih]

theorem reopened_texts {p : BuilderProject} (hp : p.AllTexts Printable) :
    (reopened p).AllTexts Printable where
  projectName := hp.projectName
  author := by
    rintro s ⟨⟩
    exact (getD_text_iff (P := Printable) rfl _).mpr hp.author
  description := by
    rintro s ⟨⟩
    exact (getD_text_iff (P := Printable) rfl _).mpr hp.description
  items := by
    refine List.forall_mem_map.mpr fun item hi => ?_
    obtain ⟨h₁,h₂,h₃⟩ := hp.items item hi
    refine ⟨h₁,h₂,?_⟩
    rintro j ⟨⟩
    cases hparams : item.params with
    | none => exact List.forall_mem_nil _
    | some j => exact h₃ j hparams
  nodes := by
    refine List.forall_mem_map.mpr fun n hn => ?_
    obtain ⟨h₁,h₂,h₃,h₄⟩ := hp.nodes n hn
    refine ⟨h₁,h₂,h₃,List.forall_mem_map.mpr fun port hport => ⟨(h₄ port hport).1,?_⟩⟩
    rintro s ⟨⟩
  edges := hp.edges
  keymaps := hp.keymaps
  storeVars := hp.storeVars
  fallbackFont := hp.fallbackFont

theorem Sound.reopen {s : History} (h : Sound s) {q : BuilderProject}
    (hq : projectLoad (projectSave s.project) = .ok q) : Sound { s with project := q } := by
  obtain ⟨-,items,hitems,rfl⟩ := (projectLoad_save_iff h.clean h.nul).mp hq
  have hids : (reopened { s.project with items := items }).items.map CanvasItem.id =
      s.project.items.map CanvasItem.id := by
    rw [← map_id_reread hitems]
    exact List.map_map
  have hlt : ∀ item ∈ items, item.id.toInt < 2^31-1 := by
    intro item hi
    have hm := List.mem_map_of_mem (f := CanvasItem.id) hi
    rw [map_id_reread hitems] at hm
    exact (h.allocated _ (h.items _ hm)).2
  refine ⟨reopened_texts (reread_texts hitems h.clean h.texts),h.allocated,?_,?_,
    countedIds_nonneg hlt⟩
  · rw [hids]
    exact h.items
  · refine List.forall_mem_map.mpr fun n hn => ?_
    have hw := h.widgets n hn
    simp only [reopenedNode,Int32.le_iff_toInt_le,Int32.toInt_zero,hw,if_true]

theorem Sound.step {s : History} (h : Sound s) {e : Event} (he : e.Allowed s) :
    Sound (s.step e) := by
  cases e with
  | op o => exact h.take he
  | reopen =>
      cases hq : projectLoad (projectSave s.project) with
      | ok q =>
          have hstep : s.step .reopen = { s with project := q } := by simp only [History.step,hq]
          rw [hstep]
          exact h.reopen hq
      | error e =>
          have hstep : s.step .reopen = s := by simp only [History.step,hq]
          rwa [hstep]

/-! ## When the file is faithful -/

theorem exists_mapM_iff {α β : Type} {f : α → Option β} {R : β → α → Prop} {l : List α} :
    (∃ m, l.mapM f = some m ∧ List.Forall₂ R m l) ↔ ∀ a ∈ l, ∃ b, f a = some b ∧ R b a := by
  simp only [mapM_eq_some_iff]
  induction l with
  | nil => simp
  | cons a l ih =>
      rw [List.forall_mem_cons,← ih]
      constructor
      · rintro ⟨m,hm,hr⟩
        obtain ⟨b,bs,hab,hbs,rfl⟩ := List.forall₂_cons_left_iff.mp hm
        obtain ⟨hr₁,hr₂⟩ := List.forall₂_cons.mp hr
        exact ⟨⟨b,hab,hr₁⟩,bs,hbs,hr₂⟩
      · rintro ⟨⟨b,hab,hr₁⟩,bs,hbs,hr₂⟩
        exact ⟨b::bs,.cons hab hbs,.cons hr₁ hr₂⟩

/-- An item comes back when it has parameters that survive the file. -/
theorem item_returns_iff {item : CanvasItem} (h : item.AllTexts Clean) :
    (∃ b, rereadItem item = some b ∧ SameItem (reopenedItem b) item) ↔
      ∃ j, item.params = some j ∧ (∀ d ∈ j.numbers, Survives d) ∧ 3+j.nesting ≤ 1000 := by
  obtain ⟨id,widgetType,instanceName,rect,params,parentId,tabIndex,locked,visible⟩ := item
  cases params with
  | none =>
      constructor
      · rintro ⟨b,⟨⟩,-,hrel⟩
        cases hrel
      · rintro ⟨j,⟨⟩,-⟩
  | some j =>
      have hread := readBack_same_iff j (d := 3) (by decide)
      constructor
      · rintro ⟨b,hb,-,hrel⟩
        obtain ⟨w,hw,rfl⟩ := Option.map_eq_some_iff.mp hb
        obtain ⟨-,hnum,hnest⟩ := hread.mp ⟨w,hw,by cases hrel; assumption⟩
        exact ⟨j,rfl,hnum,hnest⟩
      · rintro ⟨j',⟨⟩,hnum,hnest⟩
        obtain ⟨w,hw,hsame⟩ := hread.mpr ⟨h.2.2 j rfl,hnum,hnest⟩
        exact ⟨_,Option.map_eq_some_iff.mpr ⟨w,hw,rfl⟩,rfl,.some hsame⟩

theorem map_eq_self_iff {α : Type} {f : α → α} {l : List α} :
    l.map f = l ↔ ∀ a ∈ l, f a = a := by
  have h := List.map_inj_left (f := f) (g := id) (l := l)
  rwa [List.map_id] at h

/-- A node comes back when its ports have no descriptions. -/
theorem reopenedNode_eq_iff {n : GraphNode} (h : 0 ≤ n.widgetId.toInt) :
    reopenedNode n = n ↔ ∀ port ∈ n.ports, port.description = none := by
  have hwidget : (if 0 ≤ n.widgetId then n.widgetId else -1) = n.widgetId := by
    rw [if_pos]
    rwa [Int32.le_iff_toInt_le,Int32.toInt_zero]
  have hport : ∀ port : PortDef, reopenedPort port = port ↔ port.description = none := by
    intro port
    rw [reopenedPort,PortDef.ext_iff]
    simp [eq_comm]
  rw [reopenedNode,GraphNode.ext_iff]
  simp only [hwidget,map_eq_self_iff,hport,true_and]

theorem sameProject_reopened_iff {p : BuilderProject} {items : List CanvasItem}
    (hw : ∀ n ∈ p.nodes, 0 ≤ n.widgetId.toInt) :
    SameProject (reopened { p with items := items }) p ↔
      List.Forall₂ (fun b a => SameItem (reopenedItem b) a) items p.items ∧
        ∀ n ∈ p.nodes, ∀ port ∈ n.ports, port.description = none := by
  have hnodes : p.nodes.map reopenedNode = p.nodes ↔
      ∀ n ∈ p.nodes, ∀ port ∈ n.ports, port.description = none := by
    rw [map_eq_self_iff]
    exact forall₂_congr fun n hn => reopenedNode_eq_iff (hw n hn)
  rw [← hnodes]
  constructor
  · intro h
    exact ⟨List.forall₂_map_left_iff.mp h.items,h.nodes⟩
  · rintro ⟨hitems,hn⟩
    exact ⟨rfl,rfl,rfl,rfl,rfl,rfl,List.forall₂_map_left_iff.mpr hitems,hn,rfl,rfl,rfl,rfl⟩

theorem countedIds_congr {l m : List CanvasItem}
    (h : m.map CanvasItem.id = l.map CanvasItem.id) : countedIds m = countedIds l := by
  have hmap : ∀ l : List CanvasItem, countedIds l =
      (l.map CanvasItem.id).foldl (fun next i => if next ≤ i then i+1 else next) 0 := by
    intro l
    rw [List.foldl_map]
    rfl
  rw [hmap,hmap,h]

theorem Sound.roundTrips_iff_keeps {s : History} (h : Sound s) : RoundTrips s ↔ Keeps s := by
  have hitems : (∃ items, s.project.items.mapM rereadItem = some items ∧
      List.Forall₂ (fun b a => SameItem (reopenedItem b) a) items s.project.items) ↔
        ∀ item ∈ s.project.items, ∃ j, item.params = some j ∧
          (∀ d ∈ j.numbers, Survives d) ∧ 3+j.nesting ≤ 1000 := by
    rw [exists_mapM_iff]
    exact forall₂_congr fun item hi => item_returns_iff (h.clean.items item hi)
  have hfresh : ∀ items, s.project.items.mapM rereadItem = some items →
      (AllocatesFresh (reopened { s.project with items := items }) s.allocated ↔
        ∀ i ∈ s.allocated, ∃ item ∈ s.project.items, i.toInt ≤ item.id.toInt) := by
    intro items hm
    rw [allocatesFresh_iff fun i hi => (h.allocated i hi).2]
    refine forall₂_congr fun i hi => ?_
    rw [← lt_countedIds_iff h.ids_lt (h.allocated i hi).1,← countedIds_congr (map_id_reread hm)]
    rfl
  constructor
  · rintro ⟨q,hq,hsame,hq'⟩
    obtain ⟨hfits,items,hm,rfl⟩ := (projectLoad_save_iff h.clean h.nul).mp hq
    obtain ⟨hi,hports⟩ := (sameProject_reopened_iff h.widgets).mp hsame
    exact ⟨hports,hitems.mp ⟨items,hm,hi⟩,(hfresh items hm).mp hq',hfits⟩
  · rintro ⟨hports,hparams,hids,hfits⟩
    obtain ⟨items,hm,hi⟩ := hitems.mpr hparams
    exact ⟨_,(projectLoad_save_iff h.clean h.nul).mpr ⟨hfits,items,hm,rfl⟩,
      (sameProject_reopened_iff h.widgets).mpr ⟨hi,hports⟩,(hfresh items hm).mpr hids⟩

theorem sound_run {name : Option Bytes} (hname : ∀ t ∈ name, Printable t) {rootW rootH : Int32}
    {es : List Event} (h : Guarded History.step Event.Allowed (.start name rootW rootH) es) :
    Sound (run History.step (.start name rootW rootH) es) :=
  (Guarded.always (fun _ _ hs he => hs.step he) h (sound_start hname rootW rootH)).finish

/-- In every history the file is faithful exactly when it can keep the project. -/
theorem roundTrips_iff {name : Option Bytes} (hname : ∀ t ∈ name, Printable t)
    {rootW rootH : Int32} {es : List Event}
    (h : Guarded History.step Event.Allowed (.start name rootW rootH) es) :
    RoundTrips (run History.step (.start name rootW rootH) es) ↔
      Keeps (run History.step (.start name rootW rootH) es) :=
  (sound_run hname h).roundTrips_iff_keeps

/-- An item, an edge with a condition, a keymap and a store variable. -/
def plainEvents : List Event :=
  [.op (.addItem (bytes "button") 10 20 200 120),.op (.addEdge 1 0 2 0),
    .op (.editCondition 0 (bytes "x > 1")),.op (.addKeymap .global (-1) (bytes "F5") (bytes "run")),
    .op (.addStoreVar (bytes "count") (some (bytes "0")) none)]

theorem plainEvents_round_trip : RoundTrips (run History.step (.start none 0 0) plainEvents) := by
  have h : Guarded History.step Event.Allowed (.start none 0 0) plainEvents := by decide +kernel
  apply (roundTrips_iff (by rintro t ⟨⟩) h).mpr
  refine ⟨List.forall_mem_nil _,?_,?_,?_⟩
  · refine List.forall_mem_singleton.mpr ⟨_,rfl,List.forall_mem_nil _,?_⟩
    decide
  · exact List.forall_mem_singleton.mpr ⟨_,List.mem_singleton_self _,Int.le_refl _⟩
  · refine ⟨by decide +kernel,by rintro s ⟨⟩,by rintro s ⟨⟩,?_,List.forall_mem_nil _,?_,?_,?_,
      by rintro s ⟨⟩⟩
    · refine List.forall_mem_singleton.mpr ⟨by decide +kernel,by decide +kernel,?_⟩
      rintro j ⟨⟩
      decide +kernel
    · refine List.forall_mem_singleton.mpr ⟨?_,by rintro s ⟨⟩⟩
      rintro s ⟨⟩
      decide +kernel
    · exact List.forall_mem_singleton.mpr ⟨by decide +kernel,by decide +kernel⟩
    · exact List.forall_mem_singleton.mpr
        ⟨by decide +kernel,by decide +kernel,by decide +kernel⟩

/-- A button with its node on the graph. -/
def buttonNode : List Event := [.op (.addItem (bytes "button") 10 20 200 120),.op (.addNode 1)]

/-- The item with the last id is taken off the canvas. -/
def removedItem : List Event :=
  [.op (.addItem (bytes "input") 0 0 200 40),.op (.addItem (bytes "button") 0 60 200 40),
    .op (.removeItem 2)]

theorem described_port_and_removed_id_are_lost :
    (Guarded History.step Event.Allowed (.start none 0 0) buttonNode ∧
      ¬ RoundTrips (run History.step (.start none 0 0) buttonNode)) ∧
    Guarded History.step Event.Allowed (.start none 0 0) removedItem ∧
      ¬ RoundTrips (run History.step (.start none 0 0) removedItem) := by
  have hbutton : Guarded History.step Event.Allowed (.start none 0 0) buttonNode := by
    decide +kernel
  have hremoved : Guarded History.step Event.Allowed (.start none 0 0) removedItem := by
    decide +kernel
  refine ⟨⟨hbutton,fun h => ?_⟩,hremoved,fun h => ?_⟩
  · have hports := ((sound_run (by rintro t ⟨⟩) hbutton).roundTrips_iff_keeps.mp h).ports
    revert hports
    decide +kernel
  · have hids := ((sound_run (by rintro t ⟨⟩) hremoved).roundTrips_iff_keeps.mp h).ids
    obtain ⟨item,hi,hle⟩ := hids 2 (by decide +kernel)
    have hitem : item.id = 1 := by
      rw [List.mem_singleton.mp hi]
      rfl
    rw [hitem] at hle
    revert hle
    decide

end Filly.Builder
