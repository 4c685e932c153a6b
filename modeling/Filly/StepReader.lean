import Mathlib.Tactic

/-!
# Reading a text step by step

A reader takes some of the text and gives an event, until there is nothing to
take. Its log pairs each event with the text that was taken for it. When one
reader gives an event in each step and some steps of another one are not counted,
the logs are equal only if the readers take the same steps.
-/
namespace Filly.StepReader

variable {α ε φ : Type*}

/-- The log of a reader with a bound on its steps. -/
def logUpTo (step : List α → Option (ε × List α)) : ℕ → List α → List (List α × ε)
  | 0, _ => []
  | n+1, s => match step s with
    | none => []
    | some r => (s.take (s.length-r.2.length),r.1)::logUpTo step n r.2

/-- The log of a whole text; a step takes at least one element. -/
def log (step : List α → Option (ε × List α)) (s : List α) : List (List α × ε) :=
  logUpTo step s.length s

/-- Each step takes something from the front. -/
def Consumes (step : List α → Option (ε × List α)) : Prop :=
  ∀ s r, step s = some r → r.2 <:+ s ∧ r.2.length < s.length

variable {step : List α → Option (ε × List α)}

theorem logUpTo_none {s : List α} (h : step s = none) (n : ℕ) : logUpTo step n s = [] := by
  cases n with
  | zero => rfl
  | succ n =>
      change (match step s with
        | none => []
        | some r => _) = _
      rw [h]

theorem logUpTo_some {s : List α} {r : ε × List α} (h : step s = some r) (n : ℕ) :
    logUpTo step (n+1) s = (s.take (s.length-r.2.length),r.1)::logUpTo step n r.2 := by
  change (match step s with
    | none => []
    | some r => _) = _
  rw [h]

theorem logUpTo_enough (h : Consumes step) {n : ℕ} {s : List α} (hn : s.length ≤ n) :
    logUpTo step n s = log step s := by
  have key : ∀ n m (s : List α), s.length ≤ n → s.length ≤ m → logUpTo step n s = logUpTo step m s := by
    intro n
    induction n with
    | zero =>
        intro m s hn hm
        obtain rfl : s = [] := List.length_eq_zero_iff.mp (by omega)
        have hnone : step [] = none := by
          cases hs : step [] with
          | none => rfl
          | some r => exact absurd (h [] r hs).2 (by simp)
        rw [logUpTo_none hnone,logUpTo_none hnone]
    | succ n ih =>
        intro m s hn hm
        cases hs : step s with
        | none => rw [logUpTo_none hs,logUpTo_none hs]
        | some r =>
            have hlt := (h s r hs).2
            obtain ⟨m,rfl⟩ : ∃ k, m = k+1 := ⟨m-1,by omega⟩
            rw [logUpTo_some hs,logUpTo_some hs,ih m r.2 (by omega) (by omega)]
  exact key n s.length s hn le_rfl

theorem log_none {s : List α} (h : step s = none) : log step s = [] :=
  logUpTo_none h s.length

theorem log_some (h : Consumes step) {s : List α} {r : ε × List α} (hs : step s = some r) :
    log step s = (s.take (s.length-r.2.length),r.1)::log step r.2 := by
  have hlt := (h s r hs).2
  obtain ⟨n,hn⟩ : ∃ n, s.length = n+1 := ⟨s.length-1,by omega⟩
  calc log step s = logUpTo step (n+1) s := by rw [← hn]; rfl
    _ = (s.take (s.length-r.2.length),r.1)::logUpTo step n r.2 := logUpTo_some hs n
    _ = _ := by rw [logUpTo_enough h (by omega)]

/-- Every event of a log is that of a step. -/
theorem exists_step_of_mem_log {s : List α} {e : List α × ε} (h : e ∈ log step s) :
    ∃ t r, step t = some r ∧ e.2 = r.1 := by
  unfold log at h
  generalize s.length = n at h
  induction n generalizing s with
  | zero => cases h
  | succ n ih =>
      cases hs : step s with
      | none =>
          rw [logUpTo_none hs] at h
          cases h
      | some r =>
          rw [logUpTo_some hs] at h
          obtain rfl | h := List.mem_cons.mp h
          · exact ⟨s,r,hs,rfl⟩
          · exact ih h

/-- How much of the text a log accounts for. -/
def taken (l : List (List α × ε)) : ℕ := (l.map fun e => e.1.length).sum

theorem taken_log_le (h : Consumes step) (s : List α) : taken (log step s) ≤ s.length := by
  induction hn : s.length using Nat.strong_induction_on generalizing s with
  | _ n ih =>
      cases hs : step s with
      | none => simp [log_none hs,taken]
      | some r =>
          have hlt := (h s r hs).2
          have hrest := ih r.2.length (by omega) r.2 rfl
          rw [log_some h hs]
          simp only [taken,List.map_cons,List.sum_cons,List.length_take] at hrest ⊢
          omega

/-- A reader that always gives an event takes the whole text. -/
theorem taken_log (h : Consumes step) (htotal : ∀ s ≠ [], (step s).isSome) (s : List α) :
    taken (log step s) = s.length := by
  induction hn : s.length using Nat.strong_induction_on generalizing s with
  | _ n ih =>
      cases hs : step s with
      | none =>
          have hnil : s = [] := by
            by_contra hne
            have := htotal s hne
            rw [hs] at this
            cases this
          subst hnil
          simp [log_none hs,taken,← hn]
      | some r =>
          have hlt := (h s r hs).2
          have hrest := ih r.2.length (by omega) r.2 rfl
          rw [log_some h hs]
          simp only [taken,List.map_cons,List.sum_cons,List.length_take] at hrest ⊢
          omega

theorem taken_filter_le (p : List α × ε → Bool) (l : List (List α × ε)) :
    taken (l.filter p) ≤ taken l := by
  induction l with
  | nil => rfl
  | cons e l ih =>
      unfold taken at *
      rw [List.filter_cons]
      split_ifs
      · simp only [List.map_cons,List.sum_cons]
        omega
      · simp only [List.map_cons,List.sum_cons]
        omega

/-- A reader that always gives an event and the counted steps of another one have the
same log exactly when the first steps are the same and the rest has the same log. -/
theorem log_eq_filter_iff {f : List α → Option (φ × List α)} {g : List α → Option (ε × List α)}
    (hf : Consumes f) (hg : Consumes g) (htotal : ∀ s ≠ [], (f s).isSome) (event : φ → ε)
    (counts : ε → Bool) {s : List α} {a : φ × List α} {b : ε × List α} (ha : f s = some a)
    (hb : g s = some b) :
    (log f s).map (fun e => (e.1,event e.2)) = (log g s).filter (fun e => counts e.2) ↔
      counts b.1 = true ∧ event a.1 = b.1 ∧ a.2 = b.2 ∧
        (log f a.2).map (fun e => (e.1,event e.2)) =
          (log g a.2).filter (fun e => counts e.2) := by
  have hmap (t : List α) : taken ((log f t).map fun e => (e.1,event e.2)) = t.length := by
    rw [← taken_log hf htotal t,taken,taken,List.map_map]
    rfl
  obtain ⟨hsuff,hlt⟩ := hf s a ha
  obtain ⟨hsuff',hlt'⟩ := hg s b hb
  rw [log_some hg hb,List.filter_cons]
  split_ifs with hc
  · rw [log_some hf ha,List.map_cons,List.cons_eq_cons,Prod.mk.injEq]
    constructor
    · rintro ⟨⟨htake,hevent⟩,hrest⟩
      have hlen := congrArg List.length htake
      simp only [List.length_take] at hlen
      have hab : a.2 = b.2 :=
        List.IsSuffix.eq_of_length (List.suffix_of_suffix_length_le hsuff hsuff' (by omega)) (by omega)
      refine ⟨hc,hevent,hab,?_⟩
      rw [hrest,hab]
    · rintro ⟨-,hevent,hab,hrest⟩
      rw [hab] at hrest ⊢
      exact ⟨⟨rfl,hevent⟩,hrest⟩
  · -- Less is counted than the first reader takes.
    refine ⟨fun h => ?_,fun h => absurd h.1 hc⟩
    have htaken := congrArg taken h
    have hle := (taken_filter_le (fun e => counts e.2) (log g b.2)).trans (taken_log_le hg b.2)
    rw [hmap s] at htaken
    omega

end Filly.StepReader
