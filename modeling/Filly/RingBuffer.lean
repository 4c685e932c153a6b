import Mathlib.Tactic

/-!
# Ring buffers with a spare slot

The slots of a ring are taken in turn by a writer at the tail and a reader at the head. The
ring is empty when both are at one place, and full when the tail is right behind the head,
so one slot is never in use. A writer changes a slot: what it leaves of it has been there
before.
-/
namespace Filly.RingBuffer

structure Ring (α : Type*) (n : ℕ) where
  slots : Fin n → α
  head : Fin n
  tail : Fin n

variable {α : Type*} {n : ℕ}

/-- `(i + k) % n` -/
def ahead (i : Fin n) (k : ℕ) : Fin n := ⟨(i+k) % n,Nat.mod_lt _ i.pos⟩

def Ring.isEmpty (r : Ring α n) : Prop := r.head = r.tail

def Ring.isFull (r : Ring α n) : Prop := ahead r.tail 1 = r.head

instance (r : Ring α n) : Decidable r.isEmpty := inferInstanceAs (Decidable (r.head = r.tail))

instance (r : Ring α n) : Decidable r.isFull :=
  inferInstanceAs (Decidable (ahead r.tail 1 = r.head))

/-- The slot at the tail is changed and given away. -/
def Ring.push (r : Ring α n) (write : α → α) : Ring α n where
  slots := Function.update r.slots r.tail (write (r.slots r.tail))
  head := r.head
  tail := ahead r.tail 1

/-- The slot at the head is taken back. -/
def Ring.pop (r : Ring α n) : Ring α n := { r with head := ahead r.head 1 }

def Ring.held (r : Ring α n) : ℕ := (r.tail+n-r.head) % n

/-- What the slots in use hold, from the head on. -/
def Ring.contents (r : Ring α n) : List α :=
  (List.range r.held).map fun k => r.slots (ahead r.head k)

/-! ## Places -/

theorem mod_of_lt_double {a : ℕ} (h : a < 2*n) : a % n = if a < n then a else a-n := by
  split_ifs with hlt
  · exact Nat.mod_eq_of_lt hlt
  · rw [Nat.mod_eq_sub_mod (not_lt.1 hlt)]
    exact Nat.mod_eq_of_lt (by omega)

theorem val_ahead (i : Fin n) {k : ℕ} (hk : k ≤ n) :
    (ahead i k : ℕ) = if i+k < n then i+k else i+k-n :=
  mod_of_lt_double (by omega)

theorem ahead_ahead (i : Fin n) (k l : ℕ) : ahead (ahead i k) l = ahead i (k+l) := by
  ext
  simp [ahead,Nat.add_assoc]

@[simp] theorem ahead_zero (i : Fin n) : ahead i 0 = i := by
  ext
  exact Nat.mod_eq_of_lt i.2

theorem held_eq (r : Ring α n) :
    r.held = if r.head ≤ r.tail then r.tail.val-r.head else r.tail+n-r.head := by
  rw [Ring.held,mod_of_lt_double (by omega)]
  simp only [Fin.le_def]
  split_ifs <;> omega

theorem held_lt (r : Ring α n) : r.held < n := Nat.mod_lt _ r.head.pos

/-- The tail is behind the slots in use. -/
theorem ahead_held (r : Ring α n) : ahead r.head r.held = r.tail := by
  ext
  rw [val_ahead _ (held_lt r).le,held_eq]
  simp only [Fin.le_def]
  split_ifs <;> omega

theorem isEmpty_iff (r : Ring α n) : r.isEmpty ↔ r.held = 0 := by
  rw [Ring.isEmpty,held_eq,Fin.ext_iff]
  simp only [Fin.le_def]
  split_ifs <;> omega

theorem isFull_iff (r : Ring α n) : r.isFull ↔ r.held+1 = n := by
  have hhead := r.head.2
  have htail := r.tail.2
  rw [Ring.isFull,held_eq,Fin.ext_iff,val_ahead _ (by omega)]
  simp only [Fin.le_def]
  split_ifs <;> omega

theorem held_push {r : Ring α n} (h : ¬r.isFull) (write : α → α) :
    (r.push write).held = r.held+1 := by
  have hroom := held_lt r
  have hhead := r.head.2
  have htail := r.tail.2
  rw [isFull_iff] at h
  rw [held_eq] at h hroom ⊢
  rw [held_eq]
  simp only [Fin.le_def,Ring.push,val_ahead r.tail (show 1 ≤ n by omega)] at *
  split_ifs at * <;> omega

theorem held_pop {r : Ring α n} (h : ¬r.isEmpty) : r.pop.held+1 = r.held := by
  have hhead := r.head.2
  have htail := r.tail.2
  rw [isEmpty_iff] at h
  rw [held_eq] at h ⊢
  rw [held_eq]
  simp only [Fin.le_def,Ring.pop,val_ahead r.head (show 1 ≤ n by omega)] at *
  split_ifs at * <;> omega

/-- Places before the tail are not the tail. -/
theorem ahead_ne_tail {r : Ring α n} {k : ℕ} (hk : k < r.held) : ahead r.head k ≠ r.tail := by
  have hroom := held_lt r
  rw [← ahead_held r,Ne,Fin.ext_iff,val_ahead _ (by omega),val_ahead _ hroom.le]
  split_ifs <;> omega

/-! ## Contents -/

@[simp] theorem length_contents (r : Ring α n) : r.contents.length = r.held := by
  simp [Ring.contents]

theorem contents_eq_nil_iff (r : Ring α n) : r.contents = [] ↔ r.isEmpty := by
  rw [isEmpty_iff,← length_contents,List.length_eq_zero_iff]

/-- A writer puts behind the others what it makes of the slot. -/
theorem contents_push {r : Ring α n} (h : ¬r.isFull) (write : α → α) :
    (r.push write).contents = r.contents++[write (r.slots r.tail)] := by
  have hlast : (r.push write).slots (ahead r.head r.held) = write (r.slots r.tail) := by
    rw [ahead_held]
    exact Function.update_self ..
  rw [Ring.contents,held_push h,List.range_succ,List.map_append,List.map_singleton]
  refine congrArg₂ _ (List.map_congr_left fun k hk => ?_) (congrArg (fun x => [x]) hlast)
  exact Function.update_of_ne (ahead_ne_tail (List.mem_range.1 hk)) _ _

/-- The reader takes the first one. -/
theorem contents_pop {r : Ring α n} (h : ¬r.isEmpty) :
    r.contents = r.slots r.head::r.pop.contents := by
  have hrest : ∀ k, r.pop.slots (ahead r.pop.head k) = r.slots (ahead r.head (k+1)) := by
    intro k
    rw [Ring.pop,ahead_ahead,Nat.add_comm]
  rw [Ring.contents,← held_pop h,List.range_succ_eq_map,List.map_cons,List.map_map,ahead_zero]
  simp only [Ring.contents,hrest,Function.comp_def,Nat.succ_eq_add_one]

end Filly.RingBuffer
