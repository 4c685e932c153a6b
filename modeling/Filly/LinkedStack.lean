import Filly.LinkedChain

/-!
# Singly linked lists that grow at the front

A heap has cells with one link and a pointer to the first of them. `Segment m p l q` says
that the pointer `p` leads through the cells listed in `l` and then is `q`. Cells are taken
out through the place that holds the pointer to them, which is the pointer to the list or
the link of the cell before. A null or dangling pointer makes an operation undefined.
-/
namespace Filly.LinkedStack
open LinkedChain (addresses last addresses_nil addresses_cons addresses_append
  last_append_singleton)

structure Node (α : Type) where
  val : α
  next : Option ℕ

abbrev Memory (α : Type) := ℕ → Option (Node α)

structure Heap (α : Type) where
  mem : Memory α
  head : Option ℕ
  fresh : ℕ

/-- Where a pointer to a cell is kept. -/
inductive Place where
  | head
  | next (a : ℕ)
  deriving DecidableEq, Repr

variable {α : Type}

def Heap.empty : Heap α := ⟨fun _ => none,none,0⟩

def Heap.load (h : Heap α) : Place → Option (Option ℕ)
  | .head => some h.head
  | .next a => (h.mem a).map Node.next

def Heap.store (h : Heap α) (q : Option ℕ) : Place → Option (Heap α)
  | .head => some { h with head := q }
  | .next a => (h.mem a).map fun c =>
      { h with mem := Function.update h.mem a (some { c with next := q }) }

def Heap.free (h : Heap α) (a : ℕ) : Heap α :=
  { h with mem := Function.update h.mem a none }

/-- A new cell in front of the others. -/
def Heap.push (h : Heap α) (x : α) : Heap α where
  mem := Function.update h.mem h.fresh (some ⟨x,h.head⟩)
  head := some h.fresh
  fresh := h.fresh+1

/-- Take out the cells that are dropped, from a place on, with a bound on the turns. -/
def removeFrom (drop : α → Bool) : ℕ → Heap α → Place → Option (Heap α)
  | 0, _, _ => none
  | n+1, h, place => do
      match ← h.load place with
      | none => some h
      | some a => do
          let c ← h.mem a
          if drop c.val then do
            let h ← h.store c.next place
            removeFrom drop n (h.free a) place
          else removeFrom drop n h (.next a)

/-- The value of the first cell that passes a test, which may be undefined. -/
def findFrom (test : α → Option Bool) (m : Memory α) : ℕ → Option ℕ → Option (Option α)
  | _, none => some none
  | 0, some _ => none
  | n+1, some a => do
      let c ← m a
      if ← test c.val then some (some c.val) else findFrom test m n c.next

/-- Follow the links that many times, unless the list ends before. -/
def advance (m : Memory α) : ℕ → Option ℕ → Option (Option ℕ)
  | 0, p => some p
  | _+1, none => some none
  | n+1, some a => do
      let c ← m a
      advance m n c.next

/-- Each cell needs a turn and the end needs one more. -/
def Heap.turns (h : Heap α) : ℕ := h.fresh+1

/-! ## Segments -/

def Segment (m : Memory α) : Option ℕ → List (ℕ × α) → Option ℕ → Prop
  | p, [], q => p = q
  | p, (a,x)::l, q => p = some a ∧ ∃ r, m a = some ⟨x,r⟩ ∧ Segment m r l q

theorem segment_append {m : Memory α} {p q : Option ℕ} {l k : List (ℕ × α)} :
    Segment m p (l++k) q ↔ ∃ r, Segment m p l r ∧ Segment m r k q := by
  induction l generalizing p with
  | nil => simp [Segment]
  | cons b l ih =>
      simp only [List.cons_append,Segment,ih]
      constructor
      · rintro ⟨hp,r,hr,s,hl,hk⟩
        exact ⟨s,⟨hp,r,hr,hl⟩,hk⟩
      · rintro ⟨s,⟨hp,r,hr,hl⟩,hk⟩
        exact ⟨hp,r,hr,s,hl,hk⟩

/-- Changes outside the listed addresses do not matter. -/
theorem Segment.frame {m m' : Memory α} {p q : Option ℕ} {l : List (ℕ × α)}
    (h : Segment m p l q) (hm : ∀ a ∈ addresses l, m' a = m a) : Segment m' p l q := by
  induction l generalizing p with
  | nil => exact h
  | cons b l ih =>
      obtain ⟨a,x⟩ := b
      obtain ⟨hp,r,hr,hl⟩ := h
      rw [addresses_cons,List.forall_mem_cons] at hm
      exact ⟨hp,r,hm.1.trans hr,ih hl hm.2⟩

theorem Segment.update {m : Memory α} {p q : Option ℕ} {l : List (ℕ × α)} {a : ℕ}
    {c : Option (Node α)} (h : Segment m p l q) (ha : a ∉ addresses l) :
    Segment (Function.update m a c) p l q :=
  h.frame fun _ hb => Function.update_of_ne (ne_of_mem_of_not_mem hb ha) _ _

/-- The place that holds the pointer behind the cells. -/
def placeAfter (l : List (ℕ × α)) : Place := ((last l).map Place.next).getD .head

@[simp] theorem placeAfter_nil : placeAfter ([] : List (ℕ × α)) = .head := rfl

@[simp] theorem placeAfter_append_singleton (l : List (ℕ × α)) (a : ℕ) (x : α) :
    placeAfter (l++[(a,x)]) = .next a := by
  rw [placeAfter,last_append_singleton]
  rfl

theorem Segment.load {h : Heap α} {l : List (ℕ × α)} {q : Option ℕ}
    (hl : Segment h.mem h.head l q) : h.load (placeAfter l) = some q := by
  induction l using List.reverseRecOn with
  | nil => exact congrArg some hl
  | append_singleton l b _ =>
      obtain ⟨a,x⟩ := b
      obtain ⟨r,-,-,s,hs,hq⟩ := segment_append.1 hl
      obtain rfl : s = q := hq
      rw [placeAfter_append_singleton,Heap.load,hs]
      rfl

/-- What follows the cells is replaced, and nothing else changes. -/
theorem Segment.store {h : Heap α} {l : List (ℕ × α)} {q : Option ℕ}
    (hl : Segment h.mem h.head l q) (hn : (addresses l).Nodup) (q' : Option ℕ) :
    ∃ h', h.store q' (placeAfter l) = some h' ∧ Segment h'.mem h'.head l q' ∧
      h'.fresh = h.fresh ∧ ∀ b ∉ addresses l, h'.mem b = h.mem b := by
  induction l using List.reverseRecOn with
  | nil => exact ⟨_,rfl,rfl,rfl,fun _ _ => rfl⟩
  | append_singleton l b _ =>
      obtain ⟨a,x⟩ := b
      obtain ⟨r,hl,hr,s,hs,-⟩ := segment_append.1 hl
      have ha : a ∉ addresses l := by
        rw [addresses_append,List.nodup_append] at hn
        exact fun hmem => hn.2.2 a hmem a List.mem_cons_self rfl
      have hstore : h.store q' (placeAfter (l++[(a,x)])) =
          some { h with mem := Function.update h.mem a (some ⟨x,q'⟩) } := by
        rw [placeAfter_append_singleton,Heap.store,hs]
        rfl
      refine ⟨_,hstore,?_,rfl,?_⟩
      · exact segment_append.2 ⟨r,hl.update ha,hr,q',Function.update_self ..,rfl⟩
      · intro b hb
        refine Function.update_of_ne ?_ _ _
        rintro rfl
        exact hb (by simp)

/-! ## The whole list -/

/-- The heap holds these cells in this order. -/
structure Holds (h : Heap α) (l : List (ℕ × α)) : Prop where
  linked : Segment h.mem h.head l none
  distinct : (addresses l).Nodup
  allocated : ∀ a ∈ addresses l, a < h.fresh

theorem holds_empty : Holds (Heap.empty : Heap α) [] :=
  ⟨rfl,List.nodup_nil,List.forall_mem_nil _⟩

theorem Holds.length_le {h : Heap α} {l : List (ℕ × α)} (hl : Holds h l) :
    l.length ≤ h.fresh := by
  have hsub : addresses l ⊆ List.range h.fresh := fun a ha => List.mem_range.2 (hl.allocated a ha)
  have hle := (List.subperm_of_subset hl.distinct hsub).length_le
  rwa [List.length_range,addresses,List.length_map] at hle

theorem Holds.push {h : Heap α} {l : List (ℕ × α)} (hl : Holds h l) (x : α) :
    Holds (h.push x) ((h.fresh,x)::l) := by
  have hnew : h.fresh ∉ addresses l := fun hmem => lt_irrefl _ (hl.allocated _ hmem)
  refine ⟨⟨rfl,h.head,Function.update_self ..,hl.linked.update hnew⟩,?_,?_⟩
  · exact List.nodup_cons.2 ⟨hnew,hl.distinct⟩
  · refine List.forall_mem_cons.2 ⟨Nat.lt_succ_self _,fun a ha => ?_⟩
    exact (hl.allocated a ha).trans (Nat.lt_succ_self _)

/-- With the cells before it already looked at, the rest is filtered in place. -/
theorem removeFrom_spec (drop : α → Bool) {n : ℕ} {h : Heap α} {l k : List (ℕ × α)}
    (hl : Holds h (l++k)) (hn : k.length < n) :
    ∃ h', removeFrom drop n h (placeAfter l) = some h' ∧ h'.fresh = h.fresh ∧
      Holds h' (l++k.filter fun b => !drop b.2) := by
  induction k generalizing n h l with
  | nil =>
      obtain ⟨n,rfl⟩ := Nat.exists_eq_succ_of_ne_zero (Nat.ne_zero_of_lt hn)
      rw [List.append_nil] at hl
      refine ⟨h,?_,rfl,by rwa [List.filter_nil,List.append_nil]⟩
      rw [removeFrom,hl.linked.load]
      rfl
  | cons b k ih =>
      obtain ⟨a,x⟩ := b
      obtain ⟨n,rfl⟩ := Nat.exists_eq_succ_of_ne_zero (Nat.ne_zero_of_lt hn)
      obtain ⟨p,hbefore,rfl,q,ha,hbehind⟩ := segment_append.1 hl.linked
      have hshort : k.length < n := Nat.lt_of_succ_lt_succ hn
      rw [removeFrom,hbefore.load]
      simp only [Option.bind_eq_bind,Option.bind_some,ha]
      by_cases hx : drop x
      · have hdistinct := hl.distinct
        rw [addresses_append,addresses_cons,List.nodup_append,List.nodup_cons] at hdistinct
        obtain ⟨hl₁,⟨hak,hk₁⟩,hlk⟩ := hdistinct
        have hal : a ∉ addresses l := fun hmem => hlk a hmem a List.mem_cons_self rfl
        obtain ⟨h₁,hstore,hlinked,hfresh,hkept⟩ := hbefore.store hl₁ q
        -- the cell is passed by, so it can be freed
        have hrest : Segment h₁.mem q k none := hbehind.frame fun b hb => hkept b fun hmem =>
          hlk b hmem b (List.mem_cons_of_mem _ hb) rfl
        have hholds : Holds (h₁.free a) (l++k) := by
          refine ⟨segment_append.2 ⟨q,hlinked.update hal,hrest.update hak⟩,?_,?_⟩
          · rw [addresses_append,List.nodup_append]
            exact ⟨hl₁,hk₁,fun b hb c hc => hlk b hb c (List.mem_cons_of_mem _ hc)⟩
          · intro b hb
            rw [Heap.free,hfresh]
            refine hl.allocated b ?_
            rw [addresses_append,List.mem_append] at hb ⊢
            exact hb.imp_right (List.mem_cons_of_mem _)
        obtain ⟨h',hrun,hfresh',hh'⟩ := ih hholds hshort
        refine ⟨h',?_,hfresh'.trans hfresh,?_⟩
        · rw [if_pos hx,hstore,Option.bind_some,hrun]
        · rwa [List.filter_cons_of_neg (by simp [hx])]
      · have hsplit : l++(a,x)::k = (l++[(a,x)])++k := by simp
        rw [hsplit] at hl
        obtain ⟨h',hrun,hfresh,hh'⟩ := ih hl hshort
        rw [placeAfter_append_singleton] at hrun
        refine ⟨h',by rw [if_neg hx,hrun],hfresh,?_⟩
        rw [List.filter_cons_of_pos (by simp [hx])]
        simpa using hh'

/-- All cells that are dropped are taken out, wherever they are. -/
theorem Holds.remove {h : Heap α} {l : List (ℕ × α)} (hl : Holds h l) (drop : α → Bool) :
    ∃ h', removeFrom drop h.turns h .head = some h' ∧ Holds h' (l.filter fun b => !drop b.2) := by
  obtain ⟨h',hrun,-,hh'⟩ := removeFrom_spec (l := []) drop hl (Nat.lt_succ_of_le hl.length_le)
  exact ⟨h',hrun,hh'⟩

/-! ## Reading -/

theorem findFrom_spec {test : α → Option Bool} {p : α → Bool} {m : Memory α} {n : ℕ}
    {s : Option ℕ} {l : List (ℕ × α)} (htest : ∀ b ∈ l, test b.2 = some (p b.2))
    (hl : Segment m s l none) (hn : l.length < n) :
    findFrom test m n s = some ((l.find? fun b => p b.2).map Prod.snd) := by
  induction l generalizing n s with
  | nil =>
      obtain rfl : s = none := hl
      cases n <;> rfl
  | cons b l ih =>
      obtain ⟨a,x⟩ := b
      obtain ⟨n,rfl⟩ := Nat.exists_eq_succ_of_ne_zero (Nat.ne_zero_of_lt hn)
      obtain ⟨rfl,q,ha,hl⟩ := hl
      rw [List.forall_mem_cons] at htest
      simp only [findFrom,ha,htest.1,Option.bind_eq_bind,Option.bind_some]
      by_cases hx : p x
      · simp [hx]
      · rw [if_neg hx,List.find?_cons_of_neg (by simpa using hx)]
        exact ih htest.2 hl (Nat.lt_of_succ_lt_succ hn)

/-- After `n` links the pointer is at the cell with that number. -/
theorem advance_spec {m : Memory α} {s : Option ℕ} {l : List (ℕ × α)}
    (hl : Segment m s l none) (n : ℕ) :
    ∃ p, advance m n s = some p ∧ Segment m p (l.drop n) none := by
  induction n generalizing s l with
  | zero => exact ⟨s,rfl,hl⟩
  | succ n ih =>
      cases l with
      | nil =>
          obtain rfl : s = none := hl
          exact ⟨none,rfl,rfl⟩
      | cons b l =>
          obtain ⟨a,x⟩ := b
          obtain ⟨rfl,q,ha,hl⟩ := hl
          obtain ⟨p,hrun,hp⟩ := ih hl
          exact ⟨p,by simp [advance,ha,hrun],hp⟩

end Filly.LinkedStack
