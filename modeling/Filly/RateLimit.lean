import Filly.Runs

/-!
# The rate of connections

`daemon_run` reads the clock at the start of each turn, forgets its count when the
second has changed, and then waits for a connection. The connection is counted
for the second that was read, whenever it comes.

`accepted` records the seconds in which connections came. The daemon does not keep
them.
-/
namespace Filly.Daemon
open Runs

/-- `cfg.max_connections_per_sec > 0 ? cfg.max_connections_per_sec : 10`. -/
def maxConn (configured : ℤ) : ℤ := if 0 < configured then configured else 10

structure Limiter where
  connCountThisSecond : ℤ
  lastSecond : ℤ
  accepted : List ℤ
  deriving DecidableEq, Repr

/-- One turn of the loop: the clock at its start, and the second in which `accept`
returns a connection, if it does. -/
structure Turn where
  now : ℤ
  completed : Option ℤ
  deriving DecidableEq, Repr

def Limiter.readClock (s : Limiter) (now : ℤ) : Limiter :=
  if now ≠ s.lastSecond then { s with connCountThisSecond := 0, lastSecond := now } else s

/-- A turn that finds the count used up sleeps and does not accept. -/
def limiterStep (configured : ℤ) (s : Limiter) (t : Turn) : Limiter :=
  let s := s.readClock t.now
  if maxConn configured ≤ s.connCountThisSecond then s
  else match t.completed with
    | none => s
    | some second => { s with connCountThisSecond := s.connCountThisSecond+1
                              accepted := s.accepted++[second] }

def limiterStart (second : ℤ) : Limiter := ⟨0,second,[]⟩

/-- No second has more connections than are allowed. -/
def Limited (configured : ℤ) (s : Limiter) : Prop :=
  ∀ second, (s.accepted.count second : ℤ) ≤ maxConn configured

/-- The clock has not gone back, and a connection comes in the second that was
read. -/
def Prompt (s : Limiter) (t : Turn) : Prop :=
  s.lastSecond ≤ t.now ∧ ∀ second ∈ t.completed, second = t.now

instance (s : Limiter) (t : Turn) : Decidable (Prompt s t) :=
  inferInstanceAs (Decidable (_ ∧ ∀ second ∈ t.completed, second = t.now))

/-! ## Counting -/

/-- The count is that of the last second, and no connection came later. -/
structure Limiter.Counted (configured : ℤ) (s : Limiter) : Prop where
  limited : Limited configured s
  count : (s.accepted.count s.lastSecond : ℤ) = s.connCountThisSecond
  past : ∀ second ∈ s.accepted, second ≤ s.lastSecond

theorem maxConn_pos (configured : ℤ) : 0 < maxConn configured := by
  unfold maxConn
  split_ifs with h
  · exact h
  · norm_num

theorem counted_limiterStart (configured second : ℤ) :
    (limiterStart second).Counted configured where
  limited := fun _ => (maxConn_pos configured).le
  count := rfl
  past := fun _ h => absurd h List.not_mem_nil

theorem Limiter.Counted.readClock {configured : ℤ} {s : Limiter} (h : s.Counted configured)
    {now : ℤ} (hnow : s.lastSecond ≤ now) : (s.readClock now).Counted configured := by
  unfold Limiter.readClock
  split_ifs with hne
  · refine ⟨h.limited,?_,fun second hs => (h.past second hs).trans hnow⟩
    -- No connection has come in the new second yet.
    have hnew : now ∉ s.accepted := fun hm => hne (le_antisymm (h.past now hm) hnow)
    simp [List.count_eq_zero.mpr hnew]
  · exact h

theorem lastSecond_readClock (s : Limiter) (now : ℤ) : (s.readClock now).lastSecond = now := by
  unfold Limiter.readClock
  split_ifs with h
  · rfl
  · exact (not_not.mp h).symm

theorem Limiter.Counted.accept {configured : ℤ} {s : Limiter} (h : s.Counted configured)
    (hroom : s.connCountThisSecond < maxConn configured) :
    Limiter.Counted configured { s with connCountThisSecond := s.connCountThisSecond+1
                                        accepted := s.accepted++[s.lastSecond] } where
  limited := fun second => by
    have hold := h.limited second
    have hcount := h.count
    rw [List.count_append,List.count_singleton]
    split_ifs with he
    · rw [beq_iff_eq] at he
      subst he
      push_cast
      omega
    · simpa using hold
  count := by
    have hcount := h.count
    rw [List.count_append,List.count_singleton_self]
    push_cast
    omega
  past := fun second hs => by
    obtain hs | hs := List.mem_append.mp hs
    · exact h.past second hs
    · exact (List.mem_singleton.mp hs).le

theorem counted_limiterStep (configured : ℤ) (s : Limiter) (t : Turn) (h : s.Counted configured)
    (hprompt : Prompt s t) : (limiterStep configured s t).Counted configured := by
  have hread := h.readClock hprompt.1
  unfold limiterStep
  simp only
  split_ifs with hfull
  · exact hread
  · cases hc : t.completed with
    | none => exact hread
    | some second =>
        obtain rfl : second = (s.readClock t.now).lastSecond := by
          rw [lastSecond_readClock]
          exact hprompt.2 second hc
        exact hread.accept (not_le.mp hfull)

/-! ## Runs of the loop -/

/-- While each connection comes in the second that was read for it and the clock
does not go back, no second has too many. -/
theorem limited_of_prompt (configured second : ℤ) (turns : List Turn)
    (h : Guarded (limiterStep configured) Prompt (limiterStart second) turns) :
    Always (limiterStep configured) (Limited configured) (limiterStart second) turns :=
  (h.always (counted_limiterStep configured) (counted_limiterStart configured second)).imp
    fun _ hs => hs.limited

/-- Three connections in a second that allows two; the third one has to wait. -/
def promptTurns : List Turn := [⟨100,some 100⟩,⟨100,some 100⟩,⟨100,some 100⟩,⟨101,some 101⟩]

theorem limited_promptTurns :
    Guarded (limiterStep 2) Prompt (limiterStart 99) promptTurns ∧
      Always (limiterStep 2) (Limited 2) (limiterStart 99) promptTurns := by
  have h : Guarded (limiterStep 2) Prompt (limiterStart 99) promptTurns := by decide
  exact ⟨h,limited_of_prompt 2 99 promptTurns h⟩

/-- With one connection allowed, a connection that was waited for from second 100
to second 105 leaves room for another one in second 105. -/
theorem late_connection_is_not_counted :
    ¬Always (limiterStep 1) (Limited 1) (limiterStart 100) [⟨100,some 105⟩,⟨105,some 105⟩] := by
  intro h
  have htwo := h.finish 105
  revert htwo
  decide

end Filly.Daemon
