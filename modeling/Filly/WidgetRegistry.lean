import Filly.LinkedStack
import Filly.Requests

/-!
# The widget registry

`core/widget.c` keeps built-in widgets and those of plugins in one list, the newest in
front, and looks for a name from the front. Reloading the plugins takes all of theirs out
of the list. A name that is null can only be compared with nothing.
-/
namespace Filly.WidgetRegistry
open CJson Protocol LinkedStack

/-- A factory may be a null pointer. -/
abbrev WidgetFactory (ω : Type) := Option (WidgetRequest → Option ω)

structure RegistryEntry (ω : Type) where
  name : Bytes
  factory : WidgetFactory ω
  isPlugin : Bool

abbrev Registry (ω : Type) := Heap (RegistryEntry ω)

variable {ω : Type}

def widgetRegistryRegister (r : Registry ω) (name : Bytes) (factory : WidgetFactory ω) :
    Registry ω :=
  r.push ⟨name,factory,false⟩

def widgetRegistryRegisterPlugin (r : Registry ω) (name : Bytes) (factory : WidgetFactory ω) :
    Registry ω :=
  r.push ⟨name,factory,true⟩

def widgetRegistryClearPlugins (r : Registry ω) : Option (Registry ω) :=
  removeFrom RegistryEntry.isPlugin r.turns r .head

/-- `strcmp(e->name, req->widget) == 0` -/
def named (req : WidgetRequest) (e : RegistryEntry ω) : Option Bool :=
  req.widget.map fun name => e.name = name

def widgetRegistryCreate (r : Registry ω) (req : WidgetRequest) : Option (Option ω) := do
  match ← findFrom (named req) r.mem r.turns r.head with
  | none => some none
  | some e => some (e.factory.bind fun factory => factory req)

/-- The entry with that number, and the next number. -/
def widgetRegistryEnum (r : Registry ω) (idx : ℕ) :
    Option (Option (ℕ × Bytes × WidgetFactory ω)) := do
  match ← advance r.mem idx r.head with
  | none => some none
  | some a => do
      let e ← r.mem a
      some (some (idx+1,e.val.name,e.val.factory))

/-! ## Histories -/

inductive RegistryOp (ω : Type) where
  | register (name : Bytes) (factory : WidgetFactory ω)
  | registerPlugin (name : Bytes) (factory : WidgetFactory ω)
  | clearPlugins

def RegistryOp.perform (r : Registry ω) : RegistryOp ω → Option (Registry ω)
  | .register name factory => some (widgetRegistryRegister r name factory)
  | .registerPlugin name factory => some (widgetRegistryRegisterPlugin r name factory)
  | .clearPlugins => widgetRegistryClearPlugins r

/-- The registry after the operations, from an empty one. -/
def registryAfter (ops : List (RegistryOp ω)) : Option (Registry ω) :=
  ops.foldlM RegistryOp.perform Heap.empty

/-- What an operation registers. -/
def RegistryOp.entry : RegistryOp ω → Option (RegistryEntry ω)
  | .register name factory => some ⟨name,factory,false⟩
  | .registerPlugin name factory => some ⟨name,factory,true⟩
  | .clearPlugins => none

/-- The operation with that number has registered the entry. -/
def Registered (ops : List (RegistryOp ω)) (i : ℕ) (e : RegistryEntry ω) : Prop :=
  ∃ op, ops[i]? = some op ∧ op.entry = some e

/-- No later operation has cleared it. -/
def Survives (ops : List (RegistryOp ω)) (i : ℕ) (e : RegistryEntry ω) : Prop :=
  Registered ops i e ∧ (e.isPlugin → ∀ j, i < j → ops[j]? ≠ some .clearPlugins)

/-- The last registration of a name that has not been cleared. -/
def MostRecent (ops : List (RegistryOp ω)) (name : Bytes) (e : RegistryEntry ω) : Prop :=
  ∃ i, Survives ops i e ∧ e.name = name ∧
    ∀ j e', Survives ops j e' → e'.name = name → j ≤ i

/-- A request is served by the last registration of its name, if there is one, and the
numbers from zero on go through all registrations, each at one number. -/
structure Serves (ops : List (RegistryOp ω)) (r : Registry ω) : Prop where
  created : ∀ req name, req.widget = some name → ∀ e, MostRecent ops name e →
    widgetRegistryCreate r req = some (e.factory.bind fun factory => factory req)
  unknown : ∀ req name, req.widget = some name → (∀ i e, Survives ops i e → e.name ≠ name) →
    widgetRegistryCreate r req = some none
  listed : ∃ entries : List (ℕ × RegistryEntry ω), (entries.map Prod.fst).Nodup ∧
    (∀ i e, (i,e) ∈ entries ↔ Survives ops i e) ∧ ∀ idx, widgetRegistryEnum r idx =
      some (entries[idx]?.map fun b => (idx+1,b.2.name,b.2.factory))

/-! ## The registrations as a stack -/

/-- The stack after one more operation, which has the number `n`. -/
def stacked (n : ℕ) (stack : List (ℕ × RegistryEntry ω)) (op : RegistryOp ω) :
    List (ℕ × RegistryEntry ω) :=
  match op.entry with
  | some e => (n,e)::stack
  | none => stack.filter fun b => !b.2.isPlugin

/-- The surviving registrations and their numbers, the newest in front; the operations are
given from the last one back. -/
def stackOf : List (RegistryOp ω) → List (ℕ × RegistryEntry ω)
  | [] => []
  | op::ops => stacked ops.length (stackOf ops) op

theorem registered_append_iff {ops : List (RegistryOp ω)} {op : RegistryOp ω} {i : ℕ}
    {e : RegistryEntry ω} : Registered (ops++[op]) i e ↔
      Registered ops i e ∨ i = ops.length ∧ op.entry = some e := by
  unfold Registered
  rcases lt_trichotomy i ops.length with hi | rfl | hi
  · rw [List.getElem?_append_left hi]
    simp [hi.ne]
  · simp
  · rw [List.getElem?_eq_none (by simp; omega),List.getElem?_eq_none hi.le]
    simp [hi.ne']

theorem Registered.lt_length {ops : List (RegistryOp ω)} {i : ℕ} {e : RegistryEntry ω}
    (h : Registered ops i e) : i < ops.length := by
  obtain ⟨op,hop,-⟩ := h
  exact (List.getElem?_eq_some_iff.1 hop).1

theorem survives_register_iff {ops : List (RegistryOp ω)} {op : RegistryOp ω}
    {new : RegistryEntry ω} (hop : op.entry = some new) {i : ℕ} {e : RegistryEntry ω} :
    Survives (ops++[op]) i e ↔ i = ops.length ∧ e = new ∨ Survives ops i e := by
  have hne : op ≠ .clearPlugins := by
    intro heq
    rw [heq] at hop
    cases hop
  have hlater : ∀ j : ℕ, (ops++[op])[j]? = some .clearPlugins ↔ ops[j]? = some .clearPlugins := by
    intro j
    rcases lt_trichotomy j ops.length with hj | rfl | hj
    · rw [List.getElem?_append_left hj]
    · simp [hne]
    · rw [List.getElem?_eq_none (by simp; omega),List.getElem?_eq_none hj.le]
  unfold Survives
  simp only [registered_append_iff,hop,Option.some.injEq,ne_eq,hlater]
  constructor
  · rintro ⟨hold | ⟨rfl,rfl⟩,hkept⟩
    · exact Or.inr ⟨hold,hkept⟩
    · exact Or.inl ⟨rfl,rfl⟩
  · rintro (⟨rfl,rfl⟩ | ⟨hold,hkept⟩)
    · refine ⟨Or.inr ⟨rfl,rfl⟩,fun _ j hj => ?_⟩
      rw [List.getElem?_eq_none hj.le]
      exact Option.some_ne_none _ ∘ Eq.symm
    · exact ⟨Or.inl hold,hkept⟩

/-- Built-in registrations are all that a clearing leaves. -/
theorem survives_clear_iff {ops : List (RegistryOp ω)} {i : ℕ} {e : RegistryEntry ω} :
    Survives (ops++[.clearPlugins]) i e ↔ Registered ops i e ∧ e.isPlugin = false := by
  unfold Survives
  rw [registered_append_iff]
  simp only [RegistryOp.entry,reduceCtorEq,and_false,or_false]
  refine and_congr_right fun hi => ?_
  cases hplugin : e.isPlugin with
  | false => simp
  | true =>
      simp only [true_implies,Bool.true_eq_false,iff_false,not_forall]
      exact ⟨ops.length,hi.lt_length,by simp⟩

theorem mem_stackOf_iff {ops : List (RegistryOp ω)} {i : ℕ} {e : RegistryEntry ω} :
    (i,e) ∈ stackOf ops ↔ Survives ops.reverse i e := by
  induction ops with
  | nil => simp [stackOf,Survives,Registered]
  | cons op ops ih =>
      rw [stackOf,stacked,List.reverse_cons]
      cases hop : op.entry with
      | some new =>
          simp only [survives_register_iff hop,List.mem_cons,Prod.mk.injEq,List.length_reverse,ih]
      | none =>
          obtain rfl : op = .clearPlugins := by
            cases op
            case clearPlugins => rfl
            all_goals cases hop
          rw [List.mem_filter,ih,survives_clear_iff]
          simp only [Bool.not_eq_true',and_congr_left_iff]
          intro hbuiltin
          simp [Survives,hbuiltin]

/-- The newest registration is the one with the largest number. -/
theorem stackOf_sorted (ops : List (RegistryOp ω)) :
    (stackOf ops).Pairwise fun b c => c.1 < b.1 := by
  induction ops with
  | nil => exact List.Pairwise.nil
  | cons op ops ih =>
      rw [stackOf,stacked]
      cases op.entry with
      | none => exact ih.filter _
      | some new =>
          refine List.pairwise_cons.2 ⟨fun b hb => ?_,ih⟩
          have hlt := (mem_stackOf_iff.1 hb).1.lt_length
          rwa [List.length_reverse] at hlt

/-! ## The list in memory -/

/-- The cells hold the stack. -/
def Represents (r : Registry ω) (stack : List (RegistryEntry ω)) : Prop :=
  ∃ cells, Holds r cells ∧ cells.map Prod.snd = stack

theorem Represents.push {r : Registry ω} {stack : List (RegistryEntry ω)}
    (h : Represents r stack) (e : RegistryEntry ω) : Represents (r.push e) (e::stack) := by
  obtain ⟨cells,hcells,rfl⟩ := h
  exact ⟨_,hcells.push e,rfl⟩

theorem Represents.clear {r : Registry ω} {stack : List (RegistryEntry ω)}
    (h : Represents r stack) : ∃ r', widgetRegistryClearPlugins r = some r' ∧
      Represents r' (stack.filter fun e => !e.isPlugin) := by
  obtain ⟨cells,hcells,rfl⟩ := h
  obtain ⟨r',hrun,hr'⟩ := hcells.remove RegistryEntry.isPlugin
  refine ⟨r',hrun,_,hr',?_⟩
  rw [List.filter_map]
  rfl

theorem Represents.create {r : Registry ω} {stack : List (RegistryEntry ω)}
    (h : Represents r stack) {req : WidgetRequest} {name : Bytes} (hname : req.widget = some name) :
    widgetRegistryCreate r req = some ((stack.find? fun e => e.name = name).bind fun e =>
      e.factory.bind fun factory => factory req) := by
  obtain ⟨cells,hcells,rfl⟩ := h
  have htest : ∀ b ∈ cells, named req b.2 = some (decide (b.2.name = name)) := by
    intro b _
    rw [named,hname]
    rfl
  have hfind := findFrom_spec (p := fun e => decide (e.name = name)) htest hcells.linked
    (Nat.lt_succ_of_le hcells.length_le)
  rw [widgetRegistryCreate,Heap.turns,hfind,List.find?_map]
  simp only [Option.bind_eq_bind,Option.bind_some,Function.comp_def]
  cases cells.find? fun b => decide (b.2.name = name) with
  | none => rfl
  | some b => rfl

theorem Represents.enum {r : Registry ω} {stack : List (RegistryEntry ω)}
    (h : Represents r stack) (idx : ℕ) : widgetRegistryEnum r idx =
      some (stack[idx]?.map fun e => (idx+1,e.name,e.factory)) := by
  obtain ⟨cells,hcells,rfl⟩ := h
  obtain ⟨p,hrun,hp⟩ := advance_spec hcells.linked idx
  rw [widgetRegistryEnum,hrun,Option.bind_eq_bind,Option.bind_some,List.getElem?_map]
  cases hdrop : cells.drop idx with
  | nil =>
      rw [hdrop] at hp
      obtain rfl : p = none := hp
      rw [List.getElem?_eq_none (List.drop_eq_nil_iff.1 hdrop)]
      rfl
  | cons b rest =>
      obtain ⟨a,e⟩ := b
      rw [hdrop] at hp
      obtain ⟨rfl,q,ha,-⟩ := hp
      have hget : cells[idx]? = some (a,e) := by
        rw [← List.head?_drop,hdrop]
        rfl
      simp [ha,hget]

/-- The list always holds the stack of the registrations. -/
theorem registryAfter_represents (ops : List (RegistryOp ω)) :
    ∃ r, registryAfter ops.reverse = some r ∧ Represents r ((stackOf ops).map Prod.snd) := by
  induction ops with
  | nil => exact ⟨Heap.empty,rfl,[],holds_empty,rfl⟩
  | cons op ops ih =>
      obtain ⟨r,hr,hrep⟩ := ih
      have hnext : registryAfter (op::ops).reverse = op.perform r := by
        rw [registryAfter,List.reverse_cons,List.foldlM_append,← registryAfter,hr]
        simp
      rw [hnext,stackOf,stacked]
      cases op with
      | register name factory => exact ⟨_,rfl,hrep.push _⟩
      | registerPlugin name factory => exact ⟨_,rfl,hrep.push _⟩
      | clearPlugins =>
          obtain ⟨r',hrun,hr'⟩ := hrep.clear
          refine ⟨r',hrun,?_⟩
          rwa [List.filter_map] at hr'

/-- The first entry of a name in the stack is the last registration of it. -/
theorem find_of_mostRecent {ops : List (RegistryOp ω)} {name : Bytes} {e : RegistryEntry ω}
    (h : MostRecent ops.reverse name e) :
    ((stackOf ops).map Prod.snd).find? (fun e => e.name = name) = some e := by
  obtain ⟨i,hi,hname,hlast⟩ := h
  have hmem : (i,e) ∈ stackOf ops := mem_stackOf_iff.2 hi
  obtain ⟨b,hb⟩ : ∃ b, (stackOf ops).find? (fun b => b.2.name = name) = some b := by
    rw [← Option.isSome_iff_exists,List.find?_isSome]
    exact ⟨(i,e),hmem,decide_eq_true hname⟩
  have hbname : b.2.name = name := by simpa using List.find?_some hb
  have hle : b.1 ≤ i := hlast b.1 b.2 (mem_stackOf_iff.1 (List.mem_of_find?_eq_some hb)) hbname
  obtain ⟨-,before,behind,hsplit,hbefore⟩ := List.find?_eq_some_iff_append.1 hb
  have hsorted := stackOf_sorted ops
  rw [hsplit] at hmem hsorted
  have heq : (i,e) = b := by
    rcases List.mem_append.1 hmem with hmem | hmem
    · have hno := hbefore (i,e) hmem
      rw [decide_eq_true hname] at hno
      cases hno
    · refine (List.mem_cons.1 hmem).resolve_right fun hbehind => ?_
      have hlt := (List.pairwise_cons.1 (List.pairwise_append.1 hsorted).2.1).1 _ hbehind
      exact absurd hlt (not_lt.2 hle)
  rw [List.find?_map,Function.comp_def,hb,← heq]
  rfl

theorem serves_of_represents {ops : List (RegistryOp ω)} {r : Registry ω}
    (h : Represents r ((stackOf ops).map Prod.snd)) : Serves ops.reverse r := by
  constructor
  · intro req name hname e he
    rw [h.create hname,find_of_mostRecent he]
    rfl
  · intro req name hname hnone
    have hfind : ((stackOf ops).map Prod.snd).find? (fun e => e.name = name) = none := by
      rw [List.find?_eq_none]
      intro e he
      obtain ⟨b,hb,rfl⟩ := List.mem_map.1 he
      simpa using hnone b.1 b.2 (mem_stackOf_iff.1 hb)
    rw [h.create hname,hfind]
    rfl
  · refine ⟨stackOf ops,?_,fun i e => mem_stackOf_iff,fun idx => ?_⟩
    · rw [List.Nodup,List.pairwise_map]
      exact (stackOf_sorted ops).imp fun hlt => hlt.ne'
    · rw [h.enum idx,List.getElem?_map,Option.map_map]
      rfl

/-- After any operations the registry serves the registrations that survive, and clearing the
plugins leaves those that are built in. -/
theorem registry_serves (ops : List (RegistryOp ω)) :
    (∃ r, registryAfter ops = some r ∧ Serves ops r) ∧
      ∀ i e, Survives (ops++[.clearPlugins]) i e ↔ Registered ops i e ∧ e.isPlugin = false := by
  refine ⟨?_,fun i e => survives_clear_iff⟩
  obtain ⟨r,hr,hrep⟩ := registryAfter_represents ops.reverse
  have hserves := serves_of_represents hrep
  rw [List.reverse_reverse] at hr hserves
  exact ⟨r,hr,hserves⟩

end Filly.WidgetRegistry
