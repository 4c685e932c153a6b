import Filly.CJson
import Filly.KeyedList

/-!
# The session store of `core/store.c`

A store is a linked list of entries, newest first. Setting a value and
subscribing both look for an entry and both make one when there is none, so a
subscription leaves a trace among the values. Subscribers are descriptor
numbers. `version` is a C `int` that wraps around.

Key and value are the bytes of C strings. `store_set` also returns what it
writes, in order: the descriptor and the line.
-/
namespace Filly.SessionStore
open CJson KeyedList

structure Entry where
  key : Bytes
  value : Bytes
  subs : List ℤ
  deriving DecidableEq, Repr

structure Store where
  entries : List Entry
  version : ℤ
  unique : (entries.map Entry.key).Nodup

def storeNew : Store := ⟨[],0,List.nodup_nil⟩

def storeGet (s : Store) (key : Bytes) : Option Bytes :=
  (lookup Entry.key key s.entries).map Entry.value

/-- `version++`. -/
def increment (v : ℤ) : ℤ := (v+1).bmod (2^32)

/-- The line `snprintf` leaves in a buffer of 512 bytes. -/
def stateLine (key value : Bytes) : Bytes :=
  (bytes "\x7b\"type\":\"state\",\"key\":\""++key++bytes "\",\"value\":\""++value++
    bytes "\"\x7d\n").take 511

/-- The descriptors stored in a key's entry. -/
def subscribers (s : Store) (key : Bytes) : List ℤ :=
  ((lookup Entry.key key s.entries).map Entry.subs).getD []

def Entry.setValue (value : Bytes) (e : Entry) : Entry := { e with value := value }

def Entry.subscribe (fd : ℤ) (e : Entry) : Entry := { e with subs := fd::e.subs }

/-- Every cell with that descriptor is unlinked, not only the first. -/
def Entry.unsubscribe (fd : ℤ) (e : Entry) : Entry := { e with subs := e.subs.filter (· ≠ fd) }

theorem key_setValue (value : Bytes) (e : Entry) : (e.setValue value).key = e.key := rfl
theorem key_subscribe (fd : ℤ) (e : Entry) : (e.subscribe fd).key = e.key := rfl
theorem key_unsubscribe (fd : ℤ) (e : Entry) : (e.unsubscribe fd).key = e.key := rfl
theorem key_mk (key value : Bytes) (subs : List ℤ) : (Entry.mk key value subs).key = key := rfl

def storeSet (s : Store) (key value : Bytes) : Store × List (ℤ × Bytes) :=
  (⟨upsert Entry.key key (Entry.setValue value) ⟨key,value,[]⟩ s.entries,increment s.version,
      nodup_upsert (key_setValue value) (key_mk key value []) s.unique⟩,
    (subscribers s key).map fun fd => (fd,stateLine key value))

def storeSubscribe (s : Store) (key : Bytes) (fd : ℤ) : Store :=
  ⟨upsert Entry.key key (Entry.subscribe fd) ⟨key,[],[fd]⟩ s.entries,s.version,
    nodup_upsert (key_subscribe fd) (key_mk key [] [fd]) s.unique⟩

def storeUnsubscribe (s : Store) (key : Bytes) (fd : ℤ) : Store :=
  ⟨modify Entry.key key (Entry.unsubscribe fd) s.entries,s.version,
    (map_key_modify (key_unsubscribe fd) s.entries).symm ▸ s.unique⟩

/-- `store_enum`: the entry at an index, and the next index. -/
def storeEnum (s : Store) (idx : ℕ) : Option ((Bytes × Bytes) × ℕ) :=
  s.entries[idx]?.map fun e => ((e.key,e.value),idx+1)

/-- `while (store_enum(s, &idx, &key, &val))`, with enough turns. -/
def enumLoop (s : Store) : ℕ → ℕ → List (Bytes × Bytes)
  | 0, _ => []
  | n+1, idx =>
      match storeEnum s idx with
      | none => []
      | some r => r.1::enumLoop s n r.2

def enumerate (s : Store) : List (Bytes × Bytes) := enumLoop s (s.entries.length+1) 0

def storeGetVersion (s : Store) : ℤ := s.version

/-! ## One call -/

theorem lookup_set (s : Store) (k v j : Bytes) :
    lookup Entry.key j (storeSet s k v).1.entries =
      if j = k then some (((lookup Entry.key k s.entries).map (Entry.setValue v)).getD ⟨k,v,[]⟩)
      else lookup Entry.key j s.entries := by
  split_ifs with h
  · subst h
    exact lookup_upsert_self (key_setValue v) (key_mk j v []) s.entries
  · exact lookup_upsert_ne (key_setValue v) (key_mk k v []) h s.entries

theorem lookup_subscribe (s : Store) (k j : Bytes) (fd : ℤ) :
    lookup Entry.key j (storeSubscribe s k fd).entries =
      if j = k then some (((lookup Entry.key k s.entries).map (Entry.subscribe fd)).getD ⟨k,[],[fd]⟩)
      else lookup Entry.key j s.entries := by
  split_ifs with h
  · subst h
    exact lookup_upsert_self (key_subscribe fd) (key_mk j [] [fd]) s.entries
  · exact lookup_upsert_ne (key_subscribe fd) (key_mk k [] [fd]) h s.entries

theorem lookup_unsubscribe (s : Store) (k j : Bytes) (fd : ℤ) :
    lookup Entry.key j (storeUnsubscribe s k fd).entries =
      if j = k then (lookup Entry.key k s.entries).map (Entry.unsubscribe fd)
      else lookup Entry.key j s.entries := by
  split_ifs with h
  · subst h
    exact lookup_modify_self (key_unsubscribe fd) s.entries
  · exact lookup_modify_ne (key_unsubscribe fd) h s.entries

theorem storeGet_set (s : Store) (k v j : Bytes) :
    storeGet (storeSet s k v).1 j = if j = k then some v else storeGet s j := by
  unfold storeGet
  rw [lookup_set]
  split_ifs with h
  · cases lookup Entry.key k s.entries <;> rfl
  · rfl

theorem storeGet_subscribe (s : Store) (k j : Bytes) (fd : ℤ) :
    storeGet (storeSubscribe s k fd) j =
      if j = k then some ((storeGet s k).getD []) else storeGet s j := by
  unfold storeGet
  rw [lookup_subscribe]
  split_ifs with h
  · cases lookup Entry.key k s.entries <;> rfl
  · rfl

theorem storeGet_unsubscribe (s : Store) (k j : Bytes) (fd : ℤ) :
    storeGet (storeUnsubscribe s k fd) j = storeGet s j := by
  unfold storeGet
  rw [lookup_unsubscribe]
  split_ifs with h
  · subst h
    cases lookup Entry.key j s.entries <;> rfl
  · rfl

theorem subscribers_set (s : Store) (k v j : Bytes) :
    subscribers (storeSet s k v).1 j = subscribers s j := by
  unfold subscribers
  rw [lookup_set]
  split_ifs with h
  · subst h
    cases lookup Entry.key j s.entries <;> rfl
  · rfl

theorem subscribers_subscribe (s : Store) (k j : Bytes) (fd : ℤ) :
    subscribers (storeSubscribe s k fd) j =
      if j = k then fd::subscribers s k else subscribers s j := by
  unfold subscribers
  rw [lookup_subscribe]
  split_ifs with h
  · cases lookup Entry.key k s.entries <;> rfl
  · rfl

theorem subscribers_unsubscribe (s : Store) (k j : Bytes) (fd : ℤ) :
    subscribers (storeUnsubscribe s k fd) j =
      if j = k then (subscribers s k).filter (· ≠ fd) else subscribers s j := by
  unfold subscribers
  rw [lookup_unsubscribe]
  split_ifs with h
  · cases lookup Entry.key k s.entries <;> rfl
  · rfl

/-- The enumeration follows the list. -/
theorem enumerate_eq (s : Store) : enumerate s = s.entries.map fun e => (e.key,e.value) := by
  have loop : ∀ n idx, s.entries.length < n+idx →
      enumLoop s n idx = (s.entries.drop idx).map fun e => (e.key,e.value) := by
    intro n
    induction n with
    | zero =>
        intro idx h
        rw [List.drop_eq_nil_of_le (by omega)]
        rfl
    | succ n ih =>
        intro idx h
        unfold enumLoop storeEnum
        by_cases hi : idx < s.entries.length
        · rw [List.getElem?_eq_getElem hi,List.drop_eq_getElem_cons hi]
          simp only [Option.map_some,List.map_cons]
          rw [ih (idx+1) (by omega)]
        · rw [List.getElem?_eq_none (by omega),List.drop_eq_nil_of_le (by omega)]
          rfl
  have h := loop (s.entries.length+1) 0 (by omega)
  rwa [List.drop_zero] at h

theorem enumerate_keys (s : Store) : (enumerate s).map Prod.fst = s.entries.map Entry.key := by
  simp [enumerate_eq]

theorem mem_enumerate (s : Store) (k v : Bytes) :
    (k,v) ∈ enumerate s ↔ storeGet s k = some v := by
  rw [enumerate_eq]
  unfold storeGet
  constructor
  · intro h
    obtain ⟨e,he,heq⟩ := List.mem_map.mp h
    obtain ⟨rfl,rfl⟩ := Prod.mk.inj heq
    rw [(mem_iff_lookup s.unique e).mp he]
    rfl
  · intro h
    obtain ⟨e,he,rfl⟩ := Option.map_eq_some_iff.mp h
    have hk := key_of_lookup he
    rw [← hk] at he
    exact List.mem_map.mpr ⟨e,(mem_iff_lookup s.unique e).mpr he,by rw [hk]⟩

end Filly.SessionStore
