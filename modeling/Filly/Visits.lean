import Mathlib.Tactic
import Mathlib.Data.Set.Finite.List
import Mathlib.Order.WellFounded

/-!
# Recursion along links

A program calls itself for every link that it finds at a place, one after the
other, and carries a state along. It is given with a bound on the depth of its
calls. If only finitely many places can be reached, it ends exactly when no place
that is reached leads back to itself.
-/
namespace Filly.Visits
open Relation

variable {α σ β : Type*}

/-- A program with a bound: it does not end without calls, it does not end when one
of the calls it makes does not end, and it ends when all of them do. -/
structure Visiting (next : α → List α) (f : ℕ → α → σ → Option β) : Prop where
  zero : ∀ x s, f 0 x s = none
  strict : ∀ n x y, y ∈ next x → (∀ s, f n y s = none) → ∀ s, f (n+1) x s = none
  total : ∀ n x, (∀ y ∈ next x, ∀ s, (f n y s).isSome) → ∀ s, (f (n+1) x s).isSome

/-- There is a link from `x` to `y`. -/
def Links (next : α → List α) (x y : α) : Prop := y ∈ next x

/-- A place that leads back to itself can be reached. -/
def Loops (next : α → List α) (x : α) : Prop :=
  ∃ y, ReflTransGen (Links next) x y ∧ TransGen (Links next) y y

variable {next : α → List α} {f : ℕ → α → σ → Option β}

theorem Loops.step {x : α} (h : Loops next x) : ∃ z ∈ next x, Loops next z := by
  obtain ⟨y,hxy,hyy⟩ := h
  cases ReflTransGen.cases_head hxy with
  | inl he =>
      subst he
      obtain ⟨z,hxz,hzx⟩ := TransGen.head'_iff.mp hyy
      exact ⟨z,hxz,x,hzx,hyy⟩
  | inr hz =>
      obtain ⟨z,hxz,hzy⟩ := hz
      exact ⟨z,hxz,y,hzy,hyy⟩

theorem Visiting.none_of_loops (h : Visiting next f) (n : ℕ) {x : α} (hx : Loops next x) (s : σ) :
    f n x s = none := by
  induction n generalizing x s with
  | zero => exact h.zero x s
  | succ n ih =>
      obtain ⟨z,hz,hloop⟩ := hx.step
      exact h.strict n x z hz (fun s => ih hloop s) s

/-- Induction from the places without links back to where they are linked from. -/
theorem links_induction {x : α} (hfin : {y | ReflTransGen (Links next) x y}.Finite)
    (hx : ¬Loops next x) {P : α → Prop} (h : ∀ y, (∀ z ∈ next y, P z) → P y) : P x := by
  have hfinite : Finite {y // ReflTransGen (Links next) x y} := hfin
  let r (a b : {y // ReflTransGen (Links next) x y}) : Prop := TransGen (Links next) b.1 a.1
  have htrans : IsTrans _ r := ⟨fun _ _ _ hab hbc => hbc.trans hab⟩
  have hirrefl : Std.Irrefl r := ⟨fun a ha => hx ⟨a.1,a.2,ha⟩⟩
  have hwf : WellFounded r := Finite.wellFounded_of_trans_of_irrefl r
  have key : ∀ a : {y // ReflTransGen (Links next) x y}, P a.1 := by
    intro a
    induction a using hwf.induction with
    | h a ih => exact h a.1 fun z hz => ih ⟨z,a.2.tail hz⟩ (.single hz)
  exact key ⟨x,.refl⟩

theorem Visiting.isSome_of_not_loops (h : Visiting next f) {x : α}
    (hfin : {y | ReflTransGen (Links next) x y}.Finite) (hx : ¬Loops next x) :
    ∃ n, ∀ m ≥ n, ∀ s, (f m x s).isSome := by
  refine links_induction (P := fun y => ∃ n, ∀ m ≥ n, ∀ s, (f m y s).isSome) hfin hx
    (fun y hy => ?_)
  choose bound hbound using hy
  -- One more than the largest bound of the links.
  let bounds := (next y).attach.map fun z => bound z.1 z.2
  refine ⟨bounds.sum+1,fun m hm s => ?_⟩
  obtain ⟨m,rfl⟩ : ∃ k, m = k+1 := ⟨m-1,by omega⟩
  refine h.total m y (fun z hz s => hbound z hz m ?_ s) s
  have hmem : bound z hz ∈ bounds := List.mem_map.mpr ⟨⟨z,hz⟩,List.mem_attach _ _,rfl⟩
  have hle := List.single_le_sum (fun _ _ => Nat.zero_le _) _ hmem
  omega

/-- The program ends exactly when it does not come to a loop. -/
theorem Visiting.ends_iff (h : Visiting next f) {x : α}
    (hfin : {y | ReflTransGen (Links next) x y}.Finite) (s : σ) :
    (∃ n, (f n x s).isSome) ↔ ¬Loops next x := by
  constructor
  · rintro ⟨n,hn⟩ hloop
    rw [h.none_of_loops n hloop s] at hn
    cases hn
  · intro hx
    obtain ⟨n,hn⟩ := h.isSome_of_not_loops hfin hx
    exact ⟨n,hn n le_rfl s⟩

end Filly.Visits
