import Filly.SessionStore

/-!
# What a store means after any sequence of calls

The abstract store is a partial map from keys to values, changed by `store_set`
only. The list of `core/store.c` agrees with it except where a key was
subscribed to and never set: there it holds an empty value.
-/
namespace Filly.SessionStore
open CJson KeyedList

inductive Call where
  | set (key value : Bytes)
  | subscribe (key : Bytes) (fd : ℤ)
  | unsubscribe (key : Bytes) (fd : ℤ)
  deriving DecidableEq, Repr

def Store.apply (s : Store) : Call → Store
  | .set k v => (storeSet s k v).1
  | .subscribe k fd => storeSubscribe s k fd
  | .unsubscribe k fd => storeUnsubscribe s k fd

def runCalls (calls : List Call) : Store := calls.foldl Store.apply storeNew

/-- The abstract effect of a call. -/
def assign (m : Bytes → Option Bytes) : Call → Bytes → Option Bytes
  | .set k v => Function.update m k (some v)
  | _ => m

/-- The value of the last `store_set` of each key. -/
def assigned (calls : List Call) : Bytes → Option Bytes := calls.foldl assign fun _ => none

def Call.isSet : Call → Bool
  | .set _ _ => true
  | _ => false

def sets (calls : List Call) : ℕ := calls.countP Call.isSet

def Subscribed (calls : List Call) (k : Bytes) : Prop := ∃ fd, Call.subscribe k fd ∈ calls

def WasSet (calls : List Call) (k : Bytes) : Prop := ∃ v, Call.set k v ∈ calls

theorem runCalls_snoc (calls : List Call) (c : Call) :
    runCalls (calls++[c]) = (runCalls calls).apply c := by
  simp [runCalls]

theorem assigned_snoc (calls : List Call) (c : Call) :
    assigned (calls++[c]) = assign (assigned calls) c := by
  simp [assigned]

theorem subscribed_snoc (calls : List Call) (c : Call) (k : Bytes) :
    Subscribed (calls++[c]) k ↔ Subscribed calls k ∨ ∃ fd, Call.subscribe k fd = c := by
  simp [Subscribed,exists_or]

theorem assigned_isSome_iff (calls : List Call) (k : Bytes) :
    (assigned calls k).isSome ↔ WasSet calls k := by
  induction calls using List.reverseRecOn with
  | nil => simp [assigned,WasSet]
  | append_singleton calls c ih =>
      rw [assigned_snoc]
      cases c with
      | set j v =>
          by_cases h : k = j
          · subst h
            simp [assign,WasSet]
          · simp [assign,h,ih,WasSet]
      | subscribe j fd => simp [assign,ih,WasSet]
      | unsubscribe j fd => simp [assign,ih,WasSet]

/-- The list against the map: a key that was only subscribed to reads as empty. -/
theorem storeGet_runCalls (calls : List Call) (k : Bytes) :
    (∀ v, assigned calls k = some v → storeGet (runCalls calls) k = some v) ∧
    (assigned calls k = none → Subscribed calls k → storeGet (runCalls calls) k = some []) ∧
    (assigned calls k = none → ¬Subscribed calls k → storeGet (runCalls calls) k = none) := by
  induction calls using List.reverseRecOn with
  | nil => exact ⟨fun _ h => by simp [assigned] at h,fun _ ⟨_,h⟩ => by simp at h,fun _ _ => rfl⟩
  | append_singleton calls c ih =>
      obtain ⟨ih₁,ih₂,ih₃⟩ := ih
      rw [runCalls_snoc,assigned_snoc]
      cases c with
      | set j v =>
          simp only [Store.apply,storeGet_set,assign]
          by_cases h : k = j
          · subst h
            simp
          · simpa [h,subscribed_snoc] using ⟨ih₁,ih₂,ih₃⟩
      | unsubscribe j fd =>
          simpa [Store.apply,storeGet_unsubscribe,assign,subscribed_snoc] using ⟨ih₁,ih₂,ih₃⟩
      | subscribe j fd =>
          simp only [Store.apply,storeGet_subscribe,assign]
          by_cases h : k = j
          · subst h
            have hs : Subscribed (calls++[Call.subscribe k fd]) k := ⟨fd,by simp⟩
            refine ⟨fun v hv => by simp [ih₁ v hv],fun hn _ => ?_,fun _ hs' => (hs' hs).elim⟩
            by_cases hb : Subscribed calls k
            · simp [ih₂ hn hb]
            · simp [ih₃ hn hb]
          · simpa [h,subscribed_snoc] using ⟨ih₁,ih₂,ih₃⟩

theorem version_apply (s : Store) (c : Call) :
    (s.apply c).version = if c.isSet then increment s.version else s.version := by
  cases c <;> rfl

theorem version_runCalls (calls : List Call) :
    (runCalls calls).version = (sets calls : ℤ).bmod (2^32) := by
  induction calls using List.reverseRecOn with
  | nil => rfl
  | append_singleton calls c ih =>
      rw [runCalls_snoc,version_apply,ih]
      cases h : c.isSet with
      | false => simp [sets,h]
      | true =>
          have hs : sets (calls++[c]) = sets calls+1 := by simp [sets,h]
          simp [hs,increment]

theorem version_runCalls_eq_iff (calls : List Call) :
    storeGetVersion (runCalls calls) = sets calls ↔ sets calls < 2^31 := by
  unfold storeGetVersion
  rw [version_runCalls]
  constructor
  · intro h
    have hlt := @Int.bmod_lt (sets calls : ℤ) (2^32) (by norm_num)
    rw [h] at hlt
    norm_num at hlt
    omega
  · intro h
    apply Int.bmod_eq_of_le <;> omega

/-- The list refines the map: keys are distinct, every lookup gives the last
value set, setting one key changes no other, the enumeration is the graph of the
map without repetition, and the version counts the assignments. -/
structure Refines (calls : List Call) : Prop where
  unique : ((runCalls calls).entries.map Entry.key).Nodup
  get : ∀ k, storeGet (runCalls calls) k = assigned calls k
  frame : ∀ k v j, j ≠ k →
    storeGet (storeSet (runCalls calls) k v).1 j = storeGet (runCalls calls) j
  once : ((enumerate (runCalls calls)).map Prod.fst).Nodup
  graph : ∀ k v, (k,v) ∈ enumerate (runCalls calls) ↔ assigned calls k = some v
  version : storeGetVersion (runCalls calls) = sets calls

theorem refines_iff_subscribed_set (calls : List Call) :
    Refines calls ↔ (∀ k, Subscribed calls k → WasSet calls k) ∧ sets calls < 2^31 := by
  constructor
  · intro h
    constructor
    · intro k hk
      by_contra hn
      have hnone : assigned calls k = none := by
        rw [← Option.not_isSome_iff_eq_none,assigned_isSome_iff]
        exact hn
      have hget := h.get k
      rw [(storeGet_runCalls calls k).2.1 hnone hk,hnone] at hget
      cases hget
    · exact (version_runCalls_eq_iff calls).mp h.version
  · intro ⟨hsub,hver⟩
    have hget : ∀ k, storeGet (runCalls calls) k = assigned calls k := by
      intro k
      cases hk : assigned calls k with
      | some v => exact (storeGet_runCalls calls k).1 v hk
      | none =>
          apply (storeGet_runCalls calls k).2.2 hk
          intro hs
          have := (assigned_isSome_iff calls k).mpr (hsub k hs)
          simp [hk] at this
    constructor
    · exact (runCalls calls).unique
    · exact hget
    · intro k v j hj
      rw [storeGet_set,if_neg hj]
    · rw [enumerate_keys]
      exact (runCalls calls).unique
    · intro k v
      rw [mem_enumerate,hget]
    · exact (version_runCalls_eq_iff calls).mpr hver

/-- A client asks to be told about a key that nobody has set yet. -/
theorem subscription_to_unset_key_reads_empty :
    ¬Refines [Call.subscribe (bytes "lang") 5] ∧
      storeGet (runCalls [Call.subscribe (bytes "lang") 5]) (bytes "lang") = some [] ∧
      assigned [Call.subscribe (bytes "lang") 5] (bytes "lang") = none := by
  have hget : storeGet (runCalls [Call.subscribe (bytes "lang") 5]) (bytes "lang") = some [] := rfl
  have hnone : assigned [Call.subscribe (bytes "lang") 5] (bytes "lang") = none := rfl
  refine ⟨fun h => ?_,hget,hnone⟩
  have := h.get (bytes "lang")
  rw [hget,hnone] at this
  cases this

end Filly.SessionStore
