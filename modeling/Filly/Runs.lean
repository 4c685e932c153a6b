import Mathlib.Tactic

/-!
# Runs of a transition function

Events are taken one after another. `Always` looks at every state of a run and
`Guarded` at every step of it, so a property of all reachable states can be
compared with a condition on the steps that lead to them.
-/
namespace Filly.Runs

variable {σ ε : Type*} (step : σ → ε → σ)

/-- The state after the events. -/
def run (s : σ) (es : List ε) : σ := es.foldl step s

/-- The property holds in each state that is passed. -/
def Always (P : σ → Prop) : σ → List ε → Prop
  | s, [] => P s
  | s, e::es => P s ∧ Always P (step s e) es

/-- Each event meets the condition in the state where it is taken. -/
def Guarded (C : σ → ε → Prop) : σ → List ε → Prop
  | _, [] => True
  | s, e::es => C s e ∧ Guarded C (step s e) es

variable {step} {P I : σ → Prop} {C : σ → ε → Prop}

instance decidableGuarded [∀ s e, Decidable (C s e)] :
    (s : σ) → (es : List ε) → Decidable (Guarded step C s es)
  | _, [] => isTrue trivial
  | s, e::es =>
      have := decidableGuarded (step s e) es
      inferInstanceAs (Decidable (C s e ∧ Guarded step C (step s e) es))

/-- An invariant that every guarded step keeps holds along every guarded run. -/
theorem Guarded.always (hstep : ∀ s e, I s → C s e → I (step s e)) {s : σ} {es : List ε}
    (h : Guarded step C s es) (hs : I s) : Always step I s es := by
  induction es generalizing s with
  | nil => exact hs
  | cons e es ih => exact ⟨hs,ih h.2 (hstep s e hs h.1)⟩

theorem always_of_invariant (hstep : ∀ s e, I s → I (step s e)) (s : σ) (es : List ε) (hs : I s) :
    Always step I s es := by
  induction es generalizing s with
  | nil => exact hs
  | cons e es ih => exact ⟨hs,ih (step s e) (hstep s e hs)⟩

theorem Guarded.of_forall (h : ∀ s e, C s e) (s : σ) (es : List ε) : Guarded step C s es := by
  induction es generalizing s with
  | nil => trivial
  | cons e es ih => exact ⟨h s e,ih (step s e)⟩

/-- A condition on the events alone. -/
theorem guarded_iff_forall (step : σ → ε → σ) (s : σ) {D : ε → Prop} (es : List ε) :
    Guarded step (fun _ e => D e) s es ↔ ∀ e ∈ es, D e := by
  induction es generalizing s with
  | nil => exact iff_of_true trivial fun e he => absurd he List.not_mem_nil
  | cons e es ih => rw [List.forall_mem_cons,Guarded,ih]

theorem Always.and {s : σ} {es : List ε} (h₁ : Always step P s es) (h₂ : Always step I s es) :
    Always step (fun s => P s ∧ I s) s es := by
  induction es generalizing s with
  | nil => exact ⟨h₁,h₂⟩
  | cons e es ih => exact ⟨⟨h₁.1,h₂.1⟩,ih h₁.2 h₂.2⟩

theorem Always.imp (hP : ∀ s, I s → P s) {s : σ} {es : List ε} (h : Always step I s es) :
    Always step P s es := by
  induction es generalizing s with
  | nil => exact hP s h
  | cons e es ih => exact ⟨hP s h.1,ih h.2⟩

theorem Always.start {s : σ} {es : List ε} (h : Always step P s es) : P s := by
  cases es with
  | nil => exact h
  | cons e es => exact h.1

/-- A property that only guarded steps keep guards every run it holds along. -/
theorem Always.guarded (hstep : ∀ s e, P s → P (step s e) → C s e) {s : σ} {es : List ε}
    (h : Always step P s es) : Guarded step C s es := by
  induction es generalizing s with
  | nil => trivial
  | cons e es ih => exact ⟨hstep s e h.1 h.2.start,ih h.2⟩

/-- Where a step keeps the property exactly under a condition, a run keeps it
exactly when each of its steps meets that condition. -/
theorem Guarded.always_iff {D : σ → ε → Prop} (hI : ∀ s e, I s → D s e → I (step s e))
    (hP : ∀ s e, I s → D s e → P s → (P (step s e) ↔ C s e)) {s : σ} {es : List ε}
    (h : Guarded step D s es) (hi : I s) (hp : P s) : Always step P s es ↔ Guarded step C s es := by
  induction es generalizing s with
  | nil => exact iff_of_true hp trivial
  | cons e es ih =>
      have hstep := hP s e hi h.1 hp
      constructor
      · intro ha
        have hq : P (step s e) := ha.2.start
        exact ⟨hstep.mp hq,(ih h.2 (hI s e hi h.1) hq).mp ha.2⟩
      · intro hg
        have hq := hstep.mpr hg.1
        exact ⟨hp,(ih h.2 (hI s e hi h.1) hq).mpr hg.2⟩

/-- Where an invariant gives the property, each event that meets the condition keeps the
invariant and every other one breaks the property, the property holds along a run
exactly when all its events meet the condition. -/
theorem always_iff_guarded (hP : ∀ s, I s → P s) (hstep : ∀ s e, I s → C s e → I (step s e))
    (hbreak : ∀ s e, I s → ¬C s e → ¬P (step s e)) {s : σ} (hs : I s) (es : List ε) :
    Always step P s es ↔ Guarded step C s es := by
  induction es generalizing s with
  | nil => exact iff_of_true (hP s hs) trivial
  | cons e es ih =>
      by_cases he : C s e
      · have hnext := ih (hstep s e hs he)
        exact ⟨fun h => ⟨he,hnext.1 h.2⟩,fun h => ⟨hP s hs,hnext.2 h.2⟩⟩
      · exact iff_of_false (fun h => hbreak s e hs he h.2.start) fun h => he h.1

/-- Two conditions on the steps that agree under an invariant hold along the same runs. -/
theorem guarded_congr {D : σ → ε → Prop} (hstep : ∀ s e, I s → C s e → I (step s e))
    (hiff : ∀ s e, I s → (D s e ↔ C s e)) {s : σ} (hs : I s) (es : List ε) :
    Guarded step D s es ↔ Guarded step C s es := by
  induction es generalizing s with
  | nil => exact Iff.rfl
  | cons e es ih =>
      by_cases he : C s e
      · exact and_congr (hiff s e hs) (ih (hstep s e hs he))
      · exact iff_of_false (fun h => he ((hiff s e hs).1 h.1)) fun h => he h.1

/-- The state after the events is one of those passed. -/
theorem Always.finish {s : σ} {es : List ε} (h : Always step P s es) : P (run step s es) := by
  induction es generalizing s with
  | nil => exact h
  | cons e es ih => exact ih h.2

end Filly.Runs
