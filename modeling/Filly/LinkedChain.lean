import Mathlib.Data.List.Nodup
import Mathlib.Logic.Function.Basic
import Mathlib.Tactic

/-!
# Doubly linked chains in a partial memory

A memory maps addresses to cells with two links. `Chain m p l q` says that the
cells listed in `l` are linked both ways in this order, that the first one
points back to `p` and that the last one points on to `q`. The lemmas are the
ones pointer code needs: cutting a chain in two, changing one of its two end
links, and leaving it alone when other addresses change.
-/
namespace Filly.LinkedChain

structure Cell (α : Type) where
  val : α
  prev : Option ℕ
  next : Option ℕ
  deriving DecidableEq, Repr

abbrev Memory (α : Type) := ℕ → Option (Cell α)

variable {α : Type}

/-- Address of the first cell of a list of located values. -/
def first (l : List (ℕ × α)) : Option ℕ := l.head?.map Prod.fst

/-- Address of the last cell of a list of located values. -/
def last (l : List (ℕ × α)) : Option ℕ := l.getLast?.map Prod.fst

def addresses (l : List (ℕ × α)) : List ℕ := l.map Prod.fst

@[simp] theorem first_nil : first ([] : List (ℕ × α)) = none := rfl
@[simp] theorem last_nil : last ([] : List (ℕ × α)) = none := rfl
@[simp] theorem first_cons (a : ℕ) (x : α) (l : List (ℕ × α)) : first ((a,x)::l) = some a := rfl

@[simp] theorem last_append_singleton (l : List (ℕ × α)) (a : ℕ) (x : α) :
    last (l++[(a,x)]) = some a := by
  simp [last]

theorem last_cons_cons (b : ℕ × α) (c : ℕ × α) (l : List (ℕ × α)) :
    last (b::c::l) = last (c::l) := by
  simp [last]

theorem first_append (l k : List (ℕ × α)) : first (l++k) = (first l).or (first k) := by
  cases l <;> simp [first]

@[simp] theorem addresses_nil : addresses ([] : List (ℕ × α)) = [] := rfl
@[simp] theorem addresses_cons (a : ℕ) (x : α) (l : List (ℕ × α)) :
    addresses ((a,x)::l) = a::addresses l := rfl
@[simp] theorem addresses_append (l k : List (ℕ × α)) :
    addresses (l++k) = addresses l++addresses k := List.map_append

theorem mem_of_last {l : List (ℕ × α)} {a : ℕ} (h : last l = some a) : a ∈ addresses l := by
  obtain ⟨b,hb,rfl⟩ := Option.map_eq_some_iff.mp h
  exact List.mem_map_of_mem (List.mem_of_getLast? hb)

/-- With distinct addresses the last one tells how far a list reaches. -/
theorem eq_nil_of_last_append {l k : List (ℕ × α)} (hn : (addresses (l++k)).Nodup)
    (h : last l = last (l++k)) : k = [] := by
  induction k using List.reverseRecOn with
  | nil => rfl
  | append_singleton k b _ =>
      obtain ⟨a,x⟩ := b
      rw [← List.append_assoc,last_append_singleton] at h
      have ha := mem_of_last h
      rw [addresses_append,List.nodup_append] at hn
      exact (hn.2.2 a ha a (by simp) rfl).elim

/-- The cells of `l`, linked both ways from `p` to `q`. -/
def Chain (m : Memory α) : Option ℕ → List (ℕ × α) → Option ℕ → Prop
  | _, [], _ => True
  | p, (a,x)::l, q => m a = some ⟨x,p,(first l).or q⟩ ∧ Chain m (some a) l q

@[simp] theorem chain_nil (m : Memory α) (p q : Option ℕ) : Chain m p [] q := trivial

@[simp] theorem chain_cons (m : Memory α) (p q : Option ℕ) (a : ℕ) (x : α)
    (l : List (ℕ × α)) :
    Chain m p ((a,x)::l) q ↔ m a = some ⟨x,p,(first l).or q⟩ ∧ Chain m (some a) l q := Iff.rfl

theorem chain_append (m : Memory α) (p q : Option ℕ) (l k : List (ℕ × α)) :
    Chain m p (l++k) q ↔ Chain m p l ((first k).or q) ∧ Chain m ((last l).or p) k q := by
  induction l generalizing p with
  | nil => simp
  | cons b l ih =>
      obtain ⟨a,x⟩ := b
      have hl : (last ((a,x)::l)).or p = (last l).or (some a) := by
        cases l with
        | nil => rfl
        | cons c l =>
            rw [last_cons_cons]
            simp [last,List.getLast?_cons]
      rw [List.cons_append,chain_cons,chain_cons,ih,first_append,hl,Option.or_assoc,and_assoc]

/-- Changes outside the listed addresses do not matter. -/
theorem Chain.frame {m m' : Memory α} {p q : Option ℕ} {l : List (ℕ × α)}
    (h : Chain m p l q) (hm : ∀ a ∈ addresses l, m' a = m a) : Chain m' p l q := by
  induction l generalizing p with
  | nil => trivial
  | cons b l ih =>
      obtain ⟨a,x⟩ := b
      refine ⟨?_,ih h.2 fun c hc => hm c (by simp [hc])⟩
      rw [hm a (by simp)]
      exact h.1

theorem Chain.update {m : Memory α} {p q : Option ℕ} {l : List (ℕ × α)} {a : ℕ}
    {c : Option (Cell α)} (h : Chain m p l q) (ha : a ∉ addresses l) :
    Chain (Function.update m a c) p l q :=
  h.frame fun _ hb => Function.update_of_ne (ne_of_mem_of_not_mem hb ha) _ _

/-- The cell at the end of a chain. -/
theorem Chain.last_cell {m : Memory α} {p q : Option ℕ} {l : List (ℕ × α)} {a : ℕ} {x : α}
    (h : Chain m p (l++[(a,x)]) q) : m a = some ⟨x,(last l).or p,q⟩ := by
  rw [chain_append] at h
  simpa using h.2.1

/-- Redirect the forward link of the last cell. -/
theorem Chain.set_next {m : Memory α} {p q q' : Option ℕ} {l : List (ℕ × α)} {a : ℕ} {x : α}
    (h : Chain m p (l++[(a,x)]) q) (ha : a ∉ addresses l) :
    Chain (Function.update m a (some ⟨x,(last l).or p,q'⟩)) p (l++[(a,x)]) q' := by
  rw [chain_append] at h ⊢
  refine ⟨?_,?_,trivial⟩
  · exact Chain.update h.1 ha
  · simp

/-- Redirect the backward link of the first cell. -/
theorem Chain.set_prev {m : Memory α} {p p' q : Option ℕ} {l : List (ℕ × α)} {a : ℕ} {x : α}
    (h : Chain m p ((a,x)::l) q) (ha : a ∉ addresses l) :
    Chain (Function.update m a (some ⟨x,p',(first l).or q⟩)) p' ((a,x)::l) q :=
  ⟨by simp,h.2.update ha⟩

/-- A terminated chain is determined by where it starts. -/
theorem Chain.unique {m : Memory α} {p p' : Option ℕ} {l k : List (ℕ × α)}
    (hl : Chain m p l none) (hk : Chain m p' k none) (hf : first l = first k) : l = k := by
  induction l generalizing k p p' with
  | nil =>
      cases k with
      | nil => rfl
      | cons b k => simp [first] at hf
  | cons b l ih =>
      obtain ⟨a,x⟩ := b
      cases k with
      | nil => simp [first] at hf
      | cons c k =>
          obtain ⟨a',x'⟩ := c
          obtain rfl : a = a' := by simpa using hf
          have he := hl.1.symm.trans hk.1
          simp only [Option.or_none,Option.some.injEq,Cell.mk.injEq] at he
          rw [ih hl.2 hk.2 he.2.2,he.1]

end Filly.LinkedChain
