import Mathlib.Tactic

/-!
# Lists of records with a key

A linear list of records is searched by key from the front, a record is changed
in place where it is first found, and a missing one is put in front. As long as
records keep their keys, the first-match view of such a list is a finite map and
the keys stay distinct.
-/
namespace Filly.KeyedList

variable {ε κ : Type} [DecidableEq κ] (key : ε → κ)

/-- The first record with that key. -/
def lookup (k : κ) (es : List ε) : Option ε := es.find? fun e => key e = k

/-- Change the first record with that key. -/
def modify (k : κ) (f : ε → ε) : List ε → List ε
  | [] => []
  | e::es => if key e = k then f e::es else e::modify k f es

/-- Change the first record with that key, or put a new one in front. -/
def upsert (k : κ) (f : ε → ε) (new : ε) (es : List ε) : List ε :=
  if (lookup key k es).isSome then modify key k f es else new::es

variable {key} {k j : κ} {f : ε → ε} {new : ε}

@[simp] theorem lookup_nil : lookup key k [] = none := rfl

theorem lookup_cons (e : ε) (es : List ε) :
    lookup key k (e::es) = if key e = k then some e else lookup key k es := by
  unfold lookup
  rw [List.find?_cons]
  split_ifs with h <;> simp [h]

theorem key_of_lookup {es : List ε} {e : ε} (h : lookup key k es = some e) : key e = k := by
  simpa using List.find?_some h

theorem lookup_isSome_iff (es : List ε) : (lookup key k es).isSome ↔ k ∈ es.map key := by
  simp [lookup]

/-- With distinct keys every record is the first one of its key. -/
theorem mem_iff_lookup {es : List ε} (h : (es.map key).Nodup) (e : ε) :
    e ∈ es ↔ lookup key (key e) es = some e := by
  constructor
  · intro hm
    induction es with
    | nil => cases hm
    | cons a es ih =>
        rw [List.map_cons,List.nodup_cons] at h
        rw [lookup_cons]
        rcases List.mem_cons.mp hm with rfl | hm
        · rw [if_pos rfl]
        · have hne : key a ≠ key e := fun he => h.1 (he ▸ List.mem_map_of_mem hm)
          rw [if_neg hne]
          exact ih h.2 hm
  · exact List.mem_of_find?_eq_some

theorem modify_cons (e : ε) (es : List ε) :
    modify key k f (e::es) = if key e = k then f e::es else e::modify key k f es := rfl

theorem modify_of_notMem {es : List ε} (h : k ∉ es.map key) : modify key k f es = es := by
  induction es with
  | nil => rfl
  | cons e es ih =>
      rw [List.map_cons,List.mem_cons,not_or] at h
      rw [modify_cons,if_neg (Ne.symm h.1),ih h.2]

/-- A change that leaves the record that is found. -/
theorem modify_eq_self {es : List ε} (h : ∀ e, lookup key k es = some e → f e = e) :
    modify key k f es = es := by
  induction es with
  | nil => rfl
  | cons e es ih =>
      rw [modify_cons]
      split_ifs with he
      · rw [h e (by rw [lookup_cons,if_pos he])]
      · rw [ih fun a ha => h a (by rw [lookup_cons,if_neg he]; exact ha)]

/-- The changed record is there. -/
theorem exists_mem_modify {es : List ε} (h : k ∈ es.map key) :
    ∃ e ∈ es, key e = k ∧ f e ∈ modify key k f es := by
  induction es with
  | nil => cases h
  | cons e es ih =>
      rw [modify_cons]
      split_ifs with he
      · exact ⟨e,List.mem_cons_self,he,List.mem_cons_self⟩
      · rw [List.map_cons,List.mem_cons] at h
        obtain ⟨a,ha,hk,hm⟩ := ih (h.resolve_left (Ne.symm he))
        exact ⟨a,List.mem_cons_of_mem e ha,hk,List.mem_cons_of_mem e hm⟩

/-- What the change keeps of one record holds of all of them. -/
theorem forall_mem_modify {Q : ε → Prop} (hf : ∀ e, Q e → Q (f e)) {es : List ε}
    (h : ∀ e ∈ es, Q e) : ∀ e ∈ modify key k f es, Q e := by
  induction es with
  | nil => exact h
  | cons e es ih =>
      rw [List.forall_mem_cons] at h
      rw [modify_cons]
      split_ifs
      · exact List.forall_mem_cons.mpr ⟨hf e h.1,h.2⟩
      · exact List.forall_mem_cons.mpr ⟨h.1,ih h.2⟩

theorem length_modify (es : List ε) : (modify key k f es).length = es.length := by
  induction es with
  | nil => rfl
  | cons e es ih =>
      rw [modify_cons]
      split_ifs
      · rfl
      · rw [List.length_cons,List.length_cons,ih]

/-- A view that the change does not touch. -/
theorem map_modify_of_comp {β : Type} {g : ε → β} (h : ∀ e, g (f e) = g e) (es : List ε) :
    (modify key k f es).map g = es.map g := by
  induction es with
  | nil => rfl
  | cons e es ih =>
      rw [modify_cons]
      split_ifs
      · rw [List.map_cons,List.map_cons,h]
      · rw [List.map_cons,List.map_cons,ih]

/-- A view with keys of its own, on which the change is another one. -/
theorem map_modify {ε' : Type} {key' : ε' → κ} {f' : ε' → ε'} {g : ε → ε'}
    (hkey : ∀ e, key' (g e) = key e) (h : ∀ e, g (f e) = f' (g e)) (es : List ε) :
    (modify key k f es).map g = modify key' k f' (es.map g) := by
  induction es with
  | nil => rfl
  | cons e es ih =>
      simp only [modify_cons,List.map_cons,hkey]
      split_ifs
      · rw [List.map_cons,h]
      · rw [List.map_cons,ih]

section
variable (hf : ∀ e, key (f e) = key e)
include hf

theorem map_key_modify (es : List ε) : (modify key k f es).map key = es.map key :=
  map_modify_of_comp hf es

theorem lookup_modify_self (es : List ε) :
    lookup key k (modify key k f es) = (lookup key k es).map f := by
  induction es with
  | nil => rfl
  | cons e es ih =>
      rw [modify_cons]
      split_ifs with h
      · simp [lookup_cons,hf,h]
      · simp [lookup_cons,h,ih]

theorem lookup_modify_ne (hne : j ≠ k) (es : List ε) :
    lookup key j (modify key k f es) = lookup key j es := by
  induction es with
  | nil => rfl
  | cons e es ih =>
      rw [modify_cons]
      split_ifs with h
      · have hj : key e ≠ j := fun he => hne (he.symm.trans h)
        simp [lookup_cons,hf,hj]
      · simp [lookup_cons,ih]

end

section
variable (hf : ∀ e, key (f e) = key e) (hn : key new = k)
include hf hn

theorem lookup_upsert_self (es : List ε) :
    lookup key k (upsert key k f new es) = some (((lookup key k es).map f).getD new) := by
  unfold upsert
  split_ifs with h
  · obtain ⟨e,he⟩ := Option.isSome_iff_exists.mp h
    simp [lookup_modify_self hf,he]
  · rw [Option.not_isSome_iff_eq_none] at h
    simp [lookup_cons,hn,h]

theorem lookup_upsert_ne (hne : j ≠ k) (es : List ε) :
    lookup key j (upsert key k f new es) = lookup key j es := by
  unfold upsert
  split_ifs with h
  · exact lookup_modify_ne hf hne es
  · rw [lookup_cons,if_neg]
    rw [hn]
    exact hne.symm

theorem nodup_upsert {es : List ε} (h : (es.map key).Nodup) :
    ((upsert key k f new es).map key).Nodup := by
  unfold upsert
  split_ifs with hk
  · rw [map_key_modify hf]
    exact h
  · rw [List.map_cons,List.nodup_cons,hn,← lookup_isSome_iff]
    exact ⟨hk,h⟩

end

/-! ## Beside a filter -/

section
variable {q : ε → Bool}

/-- A change that leaves the found record or moves it among those left out. -/
theorem filter_modify (hq : ∀ e, q (f e) = q e) {es : List ε}
    (h : ∀ e, lookup key k es = some e → q e → f e = e) :
    (modify key k f es).filter q = es.filter q := by
  induction es with
  | nil => rfl
  | cons e es ih =>
      rw [modify_cons]
      split_ifs with he
      · by_cases hkept : q e
        · rw [h e (by rw [lookup_cons,if_pos he]) hkept]
        · rw [List.filter_cons_of_neg (by rwa [hq]),List.filter_cons_of_neg hkept]
      · have htail := ih fun a ha => h a (by rw [lookup_cons,if_neg he]; exact ha)
        rw [List.filter_cons,List.filter_cons,htail]

theorem filter_eraseP {es : List ε} (h : ∀ e, lookup key k es = some e → q e = false) :
    (es.eraseP (key · = k)).filter q = es.filter q := by
  induction es with
  | nil => rfl
  | cons e es ih =>
      by_cases he : key e = k
      · have hout := h e (by rw [lookup_cons,if_pos he])
        rw [List.eraseP_cons_of_pos (by simpa using he),List.filter_cons_of_neg (by simp [hout])]
      · have htail := ih fun a ha => h a (by rw [lookup_cons,if_neg he]; exact ha)
        rw [List.eraseP_cons_of_neg (by simpa using he),List.filter_cons,List.filter_cons,htail]

end

/-! ## A record among others -/

omit [DecidableEq κ] in
/-- With distinct keys the key tells whether the record is among those that are kept. -/
theorem key_mem_filter_iff {q : ε → Bool} {es : List ε} (h : (es.map key).Nodup) {e : ε}
    (he : e ∈ es) : key e ∈ (es.filter q).map key ↔ q e := by
  rw [List.mem_map]
  constructor
  · rintro ⟨a,ha,hkey⟩
    rw [List.mem_filter] at ha
    rw [← List.inj_on_of_nodup_map h ha.1 he hkey]
    exact ha.2
  · exact fun hq => ⟨e,List.mem_filter.2 ⟨he,hq⟩,rfl⟩

section
variable {before after : List ε} {e : ε} (h : ((before++e::after).map key).Nodup)
include h

/-- With distinct keys a record is found where it stands. -/
theorem findIdx?_key :
    (before++e::after).findIdx? (fun a => key a = key e) = some before.length := by
  rw [List.findIdx?_eq_some_iff_findIdx_eq,List.length_append,List.length_cons]
  refine ⟨by omega,?_⟩
  rw [List.map_append,List.map_cons,List.nodup_append] at h
  have hbefore : ∀ a ∈ before, decide (key a = key e) = false := fun a ha =>
    decide_eq_false (h.2.2 _ (List.mem_map_of_mem ha) _ List.mem_cons_self)
  rw [List.findIdx_append,List.findIdx_eq_length.2 hbefore,if_neg (Nat.lt_irrefl _),
    List.findIdx_cons]
  simp

end

end Filly.KeyedList
