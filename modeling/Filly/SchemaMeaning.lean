import Filly.CJsonRoundTrip
import Filly.Requests
import Filly.Schema

/-!
# What a schema means

A document satisfies a schema when each node that the schema speaks about has the
declared type, each object has the keys its schema requires, and properties and
array elements satisfy their own schemas. A name that is no type says nothing.

The validator starts with the properties of the root and looks at `required` only
for keys that `properties` lists.
-/
namespace Filly.Protocol
open CJson

/-! ## The reference -/

def requiredKeys (schema : Json) : List Bytes :=
  ((schema.getObjectItem (bytes "required")).elim [] Json.children).filterMap Json.valuestring

def HasDeclaredType (node schema : Json) : Prop :=
  ∀ type ∈ typeNames, stringField schema (bytes "type") = some type → isOfType node type

inductive Satisfies : Json → Json → Prop
  | intro {node schema : Json} (type : HasDeclaredType node schema)
      (required : node.isObject → ∀ key ∈ requiredKeys schema, (node.getObjectItem key).isSome)
      (properties : ∀ p ∈ properties schema, ∀ v, node.getObjectItem p.1 = some v →
        Satisfies v p.2)
      (items : ∀ s, schema.getObjectItem (bytes "items") = some s → ∀ v ∈ node.elements,
        Satisfies v s) : Satisfies node schema

/-- A schema is accepted or refused as the reference says, and a refusal has a
text. -/
def ValidatesAs (text schemaText : Bytes) (node schema : Json) : Prop :=
  (schemaValidate text schemaText = none ↔ Satisfies node schema) ∧
    ∀ error, schemaValidate text schemaText = some error → error ≠ []

/-! ## What is checked and what is not -/

/-- The rules for a node below the root that the validator looks at. -/
inductive Checked : Json → Json → Prop
  | intro {node schema : Json} (type : HasDeclaredType node schema)
      (required : node.isObject → ∀ p ∈ properties schema, p.1 ∈ requiredKeys schema →
        (node.getObjectItem p.1).isSome)
      (properties : ∀ p ∈ properties schema, ∀ v, node.getObjectItem p.1 = some v →
        Checked v p.2)
      (items : ∀ s, schema.getObjectItem (bytes "items") = some s → ∀ v ∈ node.elements,
        Checked v s) : Checked node schema

/-- Every visited object has the required keys that are not listed. -/
inductive Complete : Json → Json → Prop
  | intro {node schema : Json}
      (unlisted : node.isObject → ∀ key ∈ requiredKeys schema,
        key ∉ (properties schema).map Prod.fst → (node.getObjectItem key).isSome)
      (properties : ∀ p ∈ properties schema, ∀ v, node.getObjectItem p.1 = some v →
        Complete v p.2)
      (items : ∀ s, schema.getObjectItem (bytes "items") = some s → ∀ v ∈ node.elements,
        Complete v s) : Complete node schema

/-- A listed key is required and absent, or its value breaks a rule. -/
def BreaksProperty (node schema : Json) : Prop :=
  ∃ p ∈ properties schema, (node.getObjectItem p.1 = none ∧ p.1 ∈ requiredKeys schema) ∨
    ∃ v, node.getObjectItem p.1 = some v ∧ ¬Checked v p.2

/-- A root object breaks a rule that is checked or none at all. Any other root is
refused exactly if the schema requires one of its properties, whatever the root
is. -/
def Judged (node schema : Json) : Prop :=
  if node.isObject then
    BreaksProperty node schema ∨ (HasDeclaredType node schema ∧ Complete node schema)
  else
    (∃ p ∈ properties schema, p.1 ∈ requiredKeys schema) ↔
      ¬(HasDeclaredType node schema ∧
        ∀ s, schema.getObjectItem (bytes "items") = some s → ∀ v ∈ node.elements, Satisfies v s)

/-! ## The reference is what is checked and what is not -/

theorem Satisfies.checked {node schema : Json} (h : Satisfies node schema) :
    Checked node schema := by
  induction h with
  | intro type required _ _ properties items =>
      exact .intro type (fun ho p _ hr => required ho p.1 hr) properties items

theorem Satisfies.complete {node schema : Json} (h : Satisfies node schema) :
    Complete node schema := by
  induction h with
  | intro type required _ _ properties items =>
      exact .intro (fun ho key hk _ => required ho key hk) properties items

theorem Checked.satisfies {node schema : Json} (h : Checked node schema)
    (hc : Complete node schema) : Satisfies node schema := by
  induction h with
  | @intro node schema type required _ _ properties items =>
      cases hc with
      | intro unlisted cproperties citems =>
          refine .intro type ?_ ?_ ?_
          · intro ho key hk
            by_cases hl : key ∈ (Protocol.properties schema).map Prod.fst
            · obtain ⟨p,hp,rfl⟩ := List.mem_map.mp hl
              exact required ho p hp hk
            · exact unlisted ho key hk hl
          · exact fun p hp v hv => properties p hp v hv (cproperties p hp v hv)
          · exact fun s hs v hv => items s hs v hv (citems s hs v hv)

/-! ## The validator -/

theorem isRequired_iff (schema : Json) (key : Bytes) :
    isRequired schema key = true ↔ key ∈ requiredKeys schema := by
  simp [isRequired,requiredKeys]

theorem validateType_eq_none_iff (node schema : Json) :
    validateType node schema = none ↔ HasDeclaredType node schema := by
  unfold validateType HasDeclaredType stringField
  cases (schema.getObjectItem (bytes "type")).bind Json.valuestring with
  | none => simp
  | some type =>
      simp only [Option.some_inj,ite_eq_right_iff,reduceCtorEq,imp_false,not_and,not_not]
      exact ⟨fun h t ht he => he ▸ h (he ▸ ht),fun h ht => h type ht rfl⟩

theorem nesting_le_members {members : List (Bytes × Json)} {m : Bytes × Json} (h : m ∈ members) :
    m.2.nesting ≤ membersNesting members := by
  induction members with
  | nil => cases h
  | cons n members ih =>
      rw [membersNesting]
      obtain rfl | h := List.mem_cons.mp h
      · exact le_max_left _ _
      · exact (ih h).trans (le_max_right _ _)

theorem nesting_getObjectItem {j v : Json} {name : Bytes} (h : j.getObjectItem name = some v) :
    v.nesting < j.nesting := by
  cases j with
  | object members =>
      obtain ⟨m,hm,rfl⟩ := Option.map_eq_some_iff.mp h
      exact Nat.lt_succ_of_le (nesting_le_members (List.mem_of_find?_eq_some hm))
  | _ => cases h

theorem nesting_properties {schema : Json} {p : Bytes × Json} (h : p ∈ properties schema) :
    p.2.nesting < schema.nesting := by
  unfold properties at h
  cases hp : schema.getObjectItem (bytes "properties") with
  | none => simp [hp] at h
  | some props =>
      cases props with
      | object members =>
          rw [hp] at h
          have hmembers := nesting_getObjectItem hp
          rw [Json.nesting] at hmembers
          exact (nesting_le_members h).trans_lt ((Nat.lt_succ_self _).trans hmembers)
      | _ => simp [hp] at h

theorem validateProperty_eq_none_iff (validate : Json → Json → Option Bytes) (node schema : Json)
    (p : Bytes × Json) : validateProperty validate node schema p = none ↔
      (node.getObjectItem p.1 = none → p.1 ∉ requiredKeys schema) ∧
        ∀ v, node.getObjectItem p.1 = some v → validate v p.2 = none := by
  unfold validateProperty
  cases node.getObjectItem p.1 with
  | none => simp [← isRequired_iff]
  | some v => simp

theorem validateArray_eq_none_iff (validate : Json → Json → Option Bytes) (children : List Json)
    (schema : Json) : validateArray validate children schema = none ↔
      ∀ s, schema.getObjectItem (bytes "items") = some s → ∀ v ∈ children, validate v s = none := by
  unfold validateArray
  cases schema.getObjectItem (bytes "items") <;> simp

theorem validateObject_eq_none_iff (validate : Json → Json → Option Bytes) (node schema : Json) :
    validateObject validate node schema = none ↔ ∀ p ∈ properties schema,
      (node.getObjectItem p.1 = none → p.1 ∉ requiredKeys schema) ∧
        ∀ v, node.getObjectItem p.1 = some v → validate v p.2 = none := by
  unfold validateObject
  rw [List.findSome?_eq_none_iff]
  exact forall₂_congr fun p _ => validateProperty_eq_none_iff validate node schema p

theorem getObjectItem_of_not_isObject {node : Json} (h : node.isObject = false) (name : Bytes) :
    node.getObjectItem name = none := by
  cases node with
  | object members => cases h
  | _ => rfl

/-- The rules that are checked, in the order of the validator. -/
theorem checked_iff (node schema : Json) : Checked node schema ↔ HasDeclaredType node schema ∧
    (node.isObject → ∀ p ∈ properties schema,
      (node.getObjectItem p.1 = none → p.1 ∉ requiredKeys schema) ∧
        ∀ v, node.getObjectItem p.1 = some v → Checked v p.2) ∧
    ∀ s, schema.getObjectItem (bytes "items") = some s → ∀ v ∈ node.elements, Checked v s := by
  constructor
  · intro h
    cases h with
    | intro type required properties items =>
        refine ⟨type,fun ho p hp => ⟨fun hn hr => ?_,properties p hp⟩,items⟩
        have hsome := required ho p hp hr
        rw [hn] at hsome
        cases hsome
  · intro ⟨type,hobject,items⟩
    refine .intro type ?_ ?_ items
    · intro ho p hp hr
      rw [Option.isSome_iff_ne_none]
      exact fun hn => (hobject ho p hp).1 hn hr
    · intro p hp v hv
      cases ho : node.isObject with
      | true => exact (hobject ho p hp).2 v hv
      | false =>
          rw [getObjectItem_of_not_isObject ho] at hv
          cases hv

/-- Below the root a node is accepted if it keeps the rules that are checked. -/
theorem validateNode_eq_none_iff {n : ℕ} {schema : Json} (h : schema.nesting ≤ n) (node : Json) :
    validateNode n node schema = none ↔ Checked node schema := by
  induction n generalizing node schema with
  | zero =>
      -- Without members the schema says nothing.
      have hnone : ∀ name, schema.getObjectItem name = none := by
        intro name
        cases hv : schema.getObjectItem name with
        | none => rfl
        | some v => exact absurd (nesting_getObjectItem hv) (by omega)
      have hproperties : properties schema = [] := by rw [properties,hnone]
      apply iff_of_true rfl
      refine .intro ?_ ?_ ?_ ?_
      · intro type _ ht
        rw [stringField,hnone] at ht
        cases ht
      · rw [hproperties]
        exact fun _ p hp => absurd hp List.not_mem_nil
      · rw [hproperties]
        exact fun p hp => absurd hp List.not_mem_nil
      · intro s hs
        rw [hnone] at hs
        cases hs
  | succ n ih =>
      have hprops : ∀ p ∈ properties schema, ∀ v, validateNode n v p.2 = none ↔ Checked v p.2 :=
        fun p hp v => ih (by have := nesting_properties hp; omega) v
      have hitems : ∀ s, schema.getObjectItem (bytes "items") = some s →
          ∀ v, validateNode n v s = none ↔ Checked v s :=
        fun s hs v => ih (by have := nesting_getObjectItem hs; omega) v
      have hobject : ∀ j : Json, (∀ p ∈ properties schema,
          (j.getObjectItem p.1 = none → p.1 ∉ requiredKeys schema) ∧
            ∀ v, j.getObjectItem p.1 = some v → validateNode n v p.2 = none) ↔
          ∀ p ∈ properties schema,
            (j.getObjectItem p.1 = none → p.1 ∉ requiredKeys schema) ∧
              ∀ v, j.getObjectItem p.1 = some v → Checked v p.2 := by
        intro j
        refine forall₂_congr fun p hp => and_congr_right fun _ => forall₂_congr fun v _ => ?_
        exact hprops p hp v
      rw [validateNode,Option.or_eq_none_iff,validateType_eq_none_iff,checked_iff]
      apply and_congr_right
      intro _
      cases node with
      | object members =>
          rw [validateChildren,validateObject_eq_none_iff,hobject]
          simp [Json.isObject,Json.elements]
      | array items =>
          rw [validateChildren,validateArray_eq_none_iff]
          simp only [Json.isObject,Json.elements,Bool.false_eq_true,false_imp_iff,true_and]
          exact forall₂_congr fun s hs => forall₂_congr fun v _ => hitems s hs v
      | _ => simp [validateChildren,Json.isObject,Json.elements]

/-! ## Errors -/

theorem validateProperty_error {validate : Json → Json → Option Bytes} {node schema : Json}
    {p : Bytes × Json} {error : Bytes} (hv : ∀ v s e, validate v s = some e → e ≠ [])
    (h : validateProperty validate node schema p = some error) : error ≠ [] := by
  unfold validateProperty at h
  cases hn : node.getObjectItem p.1 with
  | none =>
      simp only [hn] at h
      split_ifs at h
      cases h
      exact List.cons_ne_nil _ _
  | some v => exact hv v p.2 error (by simpa [hn] using h)

theorem validateObject_error {validate : Json → Json → Option Bytes} {node schema : Json}
    {error : Bytes} (hv : ∀ v s e, validate v s = some e → e ≠ [])
    (h : validateObject validate node schema = some error) : error ≠ [] := by
  obtain ⟨p,-,hp⟩ := List.exists_of_findSome?_eq_some h
  exact validateProperty_error hv hp

theorem validateChildren_error {validate : Json → Json → Option Bytes} {node schema : Json}
    {error : Bytes} (hv : ∀ v s e, validate v s = some e → e ≠ [])
    (h : validateChildren validate node schema = some error) : error ≠ [] := by
  cases node with
  | object members => exact validateObject_error hv h
  | array items =>
      unfold validateChildren validateArray at h
      cases hs : schema.getObjectItem (bytes "items") with
      | none => simp [hs] at h
      | some s =>
          rw [hs] at h
          obtain ⟨v,-,hv'⟩ := List.exists_of_findSome?_eq_some h
          exact hv v s error hv'
  | _ => cases h

theorem validateNode_error (n : ℕ) (node schema : Json) (error : Bytes)
    (h : validateNode n node schema = some error) : error ≠ [] := by
  induction n generalizing node schema error with
  | zero => cases h
  | succ n ih =>
      rw [validateNode,Option.or_eq_some_iff] at h
      obtain h | ⟨-,h⟩ := h
      · unfold validateType at h
        cases ht : (schema.getObjectItem (bytes "type")).bind Json.valuestring with
        | none => simp [ht] at h
        | some type =>
            simp only [ht] at h
            split_ifs at h
            cases h
            exact List.cons_ne_nil _ _
      · exact validateChildren_error ih h

theorem schemaValidate_error {text schemaText error : Bytes}
    (h : schemaValidate text schemaText = some error) : error ≠ [] := by
  unfold schemaValidate at h
  cases hn : cJSONParse text with
  | none =>
      rw [hn] at h
      cases h
      exact List.cons_ne_nil _ _
  | some node =>
      cases hs : cJSONParse schemaText with
      | none =>
          rw [hn,hs] at h
          cases h
          exact List.cons_ne_nil _ _
      | some schema =>
          rw [hn,hs] at h
          exact validateObject_error (fun v s e => validateNode_error _ v s e) h

/-! ## Where the validator agrees with the reference -/

theorem not_breaksProperty_iff (node schema : Json) :
    ¬BreaksProperty node schema ↔ ∀ p ∈ properties schema,
      (node.getObjectItem p.1 = none → p.1 ∉ requiredKeys schema) ∧
        ∀ v, node.getObjectItem p.1 = some v → Checked v p.2 := by
  unfold BreaksProperty
  push Not
  rfl

theorem schemaValidate_eq_none_iff {text schemaText : Bytes} {node schema : Json}
    (hn : cJSONParse text = some node) (hs : cJSONParse schemaText = some schema) :
    schemaValidate text schemaText = none ↔ ¬BreaksProperty node schema := by
  unfold schemaValidate
  rw [hn,hs,not_breaksProperty_iff]
  refine (validateObject_eq_none_iff _ node schema).trans ?_
  refine forall₂_congr fun p hp => and_congr_right fun _ => forall₂_congr fun v _ => ?_
  exact validateNode_eq_none_iff (nesting_properties hp).le v

theorem satisfies_object_iff {node schema : Json} (h : node.isObject = true) :
    Satisfies node schema ↔
      HasDeclaredType node schema ∧ ¬BreaksProperty node schema ∧ Complete node schema := by
  have helements : node.elements = [] := by
    cases node with
    | object members => rfl
    | _ => cases h
  have hchecked : Checked node schema ↔
      HasDeclaredType node schema ∧ ¬BreaksProperty node schema := by
    rw [checked_iff,not_breaksProperty_iff,helements]
    simp [h]
  rw [← and_assoc,← hchecked]
  exact ⟨fun hs => ⟨hs.checked,hs.complete⟩,fun hc => hc.1.satisfies hc.2⟩

theorem satisfies_other_iff {node schema : Json} (h : node.isObject = false) :
    Satisfies node schema ↔ HasDeclaredType node schema ∧
      ∀ s, schema.getObjectItem (bytes "items") = some s → ∀ v ∈ node.elements,
        Satisfies v s := by
  constructor
  · intro hs
    cases hs with
    | intro type _ _ items => exact ⟨type,items⟩
  · intro ⟨type,items⟩
    refine .intro type ?_ ?_ items
    · intro ho
      rw [h] at ho
      cases ho
    · intro p _ v hv
      rw [getObjectItem_of_not_isObject h] at hv
      cases hv

theorem breaksProperty_other_iff {node schema : Json} (h : node.isObject = false) :
    BreaksProperty node schema ↔ ∃ p ∈ properties schema, p.1 ∈ requiredKeys schema := by
  unfold BreaksProperty
  simp [getObjectItem_of_not_isObject h]

/-- A document is judged as the reference says exactly if it breaks a rule that is
checked or none; a root that is no object is judged by its schema alone. -/
theorem validatesAs_iff_judged {text schemaText : Bytes} {node schema : Json}
    (hn : cJSONParse text = some node) (hs : cJSONParse schemaText = some schema) :
    ValidatesAs text schemaText node schema ↔ Judged node schema := by
  have herror : ∀ error, schemaValidate text schemaText = some error → error ≠ [] :=
    fun _ => schemaValidate_error
  unfold ValidatesAs Judged
  rw [and_iff_left herror,schemaValidate_eq_none_iff hn hs]
  cases ho : node.isObject with
  | true =>
      rw [if_pos rfl,satisfies_object_iff ho]
      tauto
  | false =>
      rw [if_neg (by simp),satisfies_other_iff ho,breaksProperty_other_iff ho]
      exact not_iff_comm.trans Iff.comm

/-- `{"properties":{"widget":{"type":"string"}},"required":["widget"]}`. -/
def namedWidgetSchema : Json :=
  .object [(bytes "properties",.object
      [(bytes "widget",.object [(bytes "type",.string (bytes "string"))])]),
    (bytes "required",.array [.string (bytes "widget")])]

/-- `{"widget":true}`. -/
def unnamedWidget : Json := .object [(bytes "widget",.bool true)]

theorem unnamedWidget_judged :
    ValidatesAs unnamedWidget.text namedWidgetSchema.text unnamedWidget namedWidgetSchema := by
  have hn : cJSONParse unnamedWidget.text = some unnamedWidget := by
    rw [cJSONParse_text_nil]
    rfl
  have hs : cJSONParse namedWidgetSchema.text = some namedWidgetSchema := by
    rw [cJSONParse_text_nil]
    rfl
  refine (validatesAs_iff_judged hn hs).mpr (Or.inl ?_)
  refine ⟨_,List.mem_singleton_self _,Or.inr ⟨.bool true,rfl,?_⟩⟩
  intro h
  cases h with
  | intro type _ _ _ => exact absurd (type (bytes "string") (by decide) rfl) (by decide)

/-- `{"type":"object","required":["widget"]}`. -/
def unlistedSchema : Json :=
  .object [(bytes "type",.string (bytes "object")),
    (bytes "required",.array [.string (bytes "widget")])]

/-- A required key that is not listed may be absent, and the root may be of
another type. -/
theorem required_key_is_overlooked :
    (schemaValidate (bytes "\x7b\x7d") unlistedSchema.text = none ∧
      cJSONParse (bytes "\x7b\x7d") = some (.object []) ∧
      cJSONParse unlistedSchema.text = some unlistedSchema ∧
      ¬Satisfies (.object []) unlistedSchema) ∧
    schemaValidate (bytes "7") unlistedSchema.text = none ∧
      cJSONParse (bytes "7") = some (.number ⟨false,7,0⟩) ∧
      ¬Satisfies (.number ⟨false,7,0⟩) unlistedSchema := by
  have hs : cJSONParse unlistedSchema.text = some unlistedSchema := by
    rw [cJSONParse_text_nil]
    rfl
  have hempty : cJSONParse (bytes "\x7b\x7d") = some (.object []) := rfl
  have hseven : cJSONParse (bytes "7") = some (.number ⟨false,7,0⟩) := rfl
  refine ⟨⟨?_,hempty,hs,?_⟩,?_,hseven,?_⟩
  · rw [schemaValidate,hempty,hs]
    rfl
  · intro h
    cases h with
    | intro _ required _ _ => exact absurd (required rfl (bytes "widget") (by decide)) (by decide)
  · rw [schemaValidate,hseven,hs]
    rfl
  · intro h
    cases h with
    | intro type _ _ _ => exact absurd (type (bytes "object") (by decide) rfl) (by decide)

end Filly.Protocol
