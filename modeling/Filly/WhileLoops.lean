import Mathlib.Tactic

/-!
# Loops that end by a return

One turn of a loop either goes on with a new state or leaves the function with a
value. A loop without a condition may go on forever, so it is looked at after any
number of turns.
-/
namespace Filly.WhileLoops

inductive Turn (σ ρ : Type*) where
  | next (s : σ)
  | returned (r : ρ)

variable {σ ρ : Type*} (turn : σ → Turn σ ρ)

/-- A turn after another one, if that goes on. -/
def Turn.andThen (t : Turn σ ρ) : Turn σ ρ :=
  match t with
  | .next s => turn s
  | .returned r => .returned r

/-- The loop after some turns. -/
def runFor (s : σ) : ℕ → Turn σ ρ
  | 0 => .next s
  | n+1 => (runFor s n).andThen turn

/-- The state is met at the head of the loop. -/
def Reaches (s t : σ) : Prop := ∃ n, runFor turn s n = .next t

/-- The loop is left with this value. -/
def Returns (s : σ) (r : ρ) : Prop := ∃ n, runFor turn s n = .returned r

variable {turn} {s : σ}

theorem runFor_zero (s : σ) : runFor turn s 0 = .next s := rfl

theorem runFor_succ (s : σ) (n : ℕ) :
    runFor turn s (n+1) = (runFor turn s n).andThen turn := rfl

theorem andThen_next (s : σ) : Turn.andThen turn (.next s) = turn s := rfl

theorem andThen_returned (r : ρ) : Turn.andThen turn (.returned r) = .returned r := rfl

theorem Reaches.refl (s : σ) : Reaches turn s s := ⟨0,rfl⟩

theorem Reaches.step {t u : σ} (h : Reaches turn s t) (hu : turn t = .next u) :
    Reaches turn s u := by
  obtain ⟨n,hn⟩ := h
  exact ⟨n+1,by rw [runFor_succ,hn,andThen_next,hu]⟩

/-- What every turn that goes on keeps holds wherever the loop gets. -/
theorem Reaches.invariant {I : σ → Prop} (hturn : ∀ t u, I t → turn t = .next u → I u)
    {t : σ} (h : Reaches turn s t) (hs : I s) : I t := by
  obtain ⟨n,hn⟩ := h
  induction n generalizing t with
  | zero =>
      rw [runFor_zero,Turn.next.injEq] at hn
      exact hn ▸ hs
  | succ n ih =>
      cases hu : runFor turn s n with
      | next u =>
          rw [runFor_succ,hu,andThen_next] at hn
          exact hturn u t (ih hu) hn
      | returned r =>
          rw [runFor_succ,hu,andThen_returned] at hn
          exact absurd hn (by simp)

/-- A run is a first turn and a shorter run. -/
theorem runFor_of_next {t : σ} (ht : turn s = .next t) (n : ℕ) :
    runFor turn s (n+1) = runFor turn t n := by
  induction n with
  | zero => rw [runFor_succ,runFor_zero,runFor_zero,andThen_next,ht]
  | succ n ih => rw [runFor_succ,ih,runFor_succ]

theorem runFor_of_returned {r : ρ} (hr : turn s = .returned r) (n : ℕ) :
    runFor turn s (n+1) = .returned r := by
  induction n with
  | zero => rw [runFor_succ,runFor_zero,andThen_next,hr]
  | succ n ih => rw [runFor_succ,ih,andThen_returned]

theorem returned_of_next {t : σ} {r : ρ} {n : ℕ} (ht : turn s = .next t)
    (h : runFor turn s n = .returned r) : ∃ m, runFor turn t m = .returned r := by
  cases n with
  | zero => cases h
  | succ n => exact ⟨n,(runFor_of_next ht n).symm.trans h⟩

theorem returned_eq {r r' : ρ} {n : ℕ} (hr : turn s = .returned r')
    (h : runFor turn s n = .returned r) : r = r' := by
  cases n with
  | zero => cases h
  | succ n => exact Turn.returned.inj (h.symm.trans (runFor_of_returned hr n))

theorem Reaches.head {t u : σ} (ht : turn s = .next t) (h : Reaches turn t u) :
    Reaches turn s u := by
  obtain ⟨n,hn⟩ := h
  exact ⟨n+1,(runFor_of_next ht n).trans hn⟩

theorem Reaches.trans {t u : σ} (hst : Reaches turn s t) (htu : Reaches turn t u) :
    Reaches turn s u := by
  obtain ⟨n,hn⟩ := hst
  induction n generalizing s with
  | zero =>
      rw [runFor_zero,Turn.next.injEq] at hn
      exact hn ▸ htu
  | succ n ih =>
      cases hs : turn s with
      | next v => exact .head hs (ih ((runFor_of_next hs n).symm.trans hn))
      | returned r =>
          rw [runFor_of_returned hs] at hn
          cases hn

theorem runFor_stays {r : ρ} {n : ℕ} (h : runFor turn s n = .returned r) (m : ℕ) :
    runFor turn s (n+m) = .returned r := by
  induction m with
  | zero => exact h
  | succ m ih => rw [← Nat.add_assoc,runFor_succ,ih,andThen_returned]

theorem Returns.unique {r r' : ρ} (h : Returns turn s r) (h' : Returns turn s r') : r = r' := by
  obtain ⟨n,hn⟩ := h
  obtain ⟨m,hm⟩ := h'
  have hr := runFor_stays hn m
  rw [Nat.add_comm,runFor_stays hm n] at hr
  exact (Turn.returned.inj hr).symm

theorem returns_of_returned {r : ρ} (hr : turn s = .returned r) : Returns turn s r :=
  ⟨1,runFor_of_returned hr 0⟩

theorem Reaches.returns_iff {t : σ} {r : ρ} (h : Reaches turn s t) :
    Returns turn s r ↔ Returns turn t r := by
  obtain ⟨n,hn⟩ := h
  induction n generalizing s with
  | zero =>
      rw [runFor_zero,Turn.next.injEq] at hn
      rw [hn]
  | succ n ih =>
      cases hs : turn s with
      | next u =>
          rw [← ih ((runFor_of_next hs n).symm.trans hn)]
          constructor
          · exact fun ⟨m,hm⟩ => returned_of_next hs hm
          · exact fun ⟨m,hm⟩ => ⟨m+1,(runFor_of_next hs m).trans hm⟩
      | returned r =>
          rw [runFor_of_returned hs] at hn
          cases hn

/-- States with one turn in common have every longer run in common. -/
theorem runFor_congr {t : σ} (h : turn s = turn t) (n : ℕ) :
    runFor turn s (n+1) = runFor turn t (n+1) := by
  cases ht : turn t with
  | next u => rw [runFor_of_next (h.trans ht),runFor_of_next ht]
  | returned r => rw [runFor_of_returned (h.trans ht),runFor_of_returned ht]

theorem returns_congr {t : σ} {r : ρ} (h : turn s = turn t) :
    Returns turn s r ↔ Returns turn t r := by
  have key : ∀ u v : σ, turn u = turn v → Returns turn u r → Returns turn v r := by
    rintro u v huv ⟨n,hn⟩
    cases n with
    | zero => cases hn
    | succ n => exact ⟨n+1,(runFor_congr huv n).symm.trans hn⟩
  exact ⟨key s t h,key t s h.symm⟩

theorem Reaches.of_congr {t u : σ} (ht : turn s = turn t) (h : Reaches turn t u) (hne : t ≠ u) :
    Reaches turn s u := by
  obtain ⟨n,hn⟩ := h
  cases n with
  | zero => exact absurd (Turn.next.inj hn) hne
  | succ n => exact ⟨n+1,(runFor_congr ht n).trans hn⟩

/-- A loop does not return where every turn goes on. -/
theorem not_returns {I : σ → Prop} (hI : ∀ t, I t → ∃ u, turn t = .next u ∧ I u) (hs : I s)
    (r : ρ) : ¬Returns turn s r := by
  have hon : ∀ n, ∃ u, runFor turn s n = .next u ∧ I u := by
    intro n
    induction n with
    | zero => exact ⟨s,rfl,hs⟩
    | succ n ih =>
        obtain ⟨u,hu,hiu⟩ := ih
        obtain ⟨v,hv,hiv⟩ := hI u hiu
        exact ⟨v,by rw [runFor_succ,hu,andThen_next,hv],hiv⟩
  rintro ⟨n,hn⟩
  obtain ⟨u,hu,-⟩ := hon n
  rw [hu] at hn
  cases hn

/-- Where a turn keeps the property exactly under a condition, it holds after any number
of turns exactly when every state that is met fulfils the condition. -/
theorem forall_runFor_iff {P : Turn σ ρ → Prop} {I C : σ → Prop}
    (hI : ∀ t u, I t → turn t = .next u → I u)
    (hP : ∀ t, I t → P (.next t) → (P (turn t) ↔ C t)) (hs : I s) (hstart : P (.next s)) :
    (∀ n, P (runFor turn s n)) ↔ ∀ t, Reaches turn s t → C t := by
  constructor
  · rintro h t ⟨n,hn⟩
    have hnext := h (n+1)
    rw [runFor_succ,hn,andThen_next] at hnext
    exact (hP t (Reaches.invariant hI ⟨n,hn⟩ hs) (hn ▸ h n)).1 hnext
  · intro h n
    induction n with
    | zero => exact hstart
    | succ n ih =>
        rw [runFor_succ]
        cases ht : runFor turn s n with
        | next t =>
            rw [ht] at ih
            exact (hP t (Reaches.invariant hI ⟨n,ht⟩ hs) ih).2 (h t ⟨n,ht⟩)
        | returned r =>
            rw [ht] at ih
            exact ih

end Filly.WhileLoops
