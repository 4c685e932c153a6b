import Mathlib.Tactic

/-!
# Walks with an error term

A walk on a grid takes steps in two directions, and one number says how far it is from the
straight line to the point `(D,E)`. Each move tests that number twice, for a step in either
direction. The walk is the same with the directions exchanged.
-/
namespace Filly.ErrorTermWalk

/-- Steps taken in either direction, and the error. -/
structure Walk where
  i : ℕ
  j : ℕ
  err : ℤ

def start (D E : ℕ) : Walk := ⟨0,0,D-E⟩

/-- Both tests look at the error that the move begins with. -/
def move (D E : ℕ) (w : Walk) : Walk where
  i := if -E ≤ 2*w.err then w.i+1 else w.i
  j := if 2*w.err ≤ D then w.j+1 else w.j
  err := w.err+(if -E ≤ 2*w.err then (-E:ℤ) else 0)+(if 2*w.err ≤ D then (D:ℤ) else 0)

def after (D E n : ℕ) : Walk := (move D E)^[n] (start D E)

theorem after_succ (D E n : ℕ) : after D E (n+1) = move D E (after D E n) :=
  Function.iterate_succ_apply' _ _ _

def Walk.swap (w : Walk) : Walk := ⟨w.j,w.i,-w.err⟩

theorem move_swap (D E : ℕ) (w : Walk) : (move D E w).swap = move E D w.swap := by
  have hi : (-(E:ℤ) ≤ 2*w.err) ↔ 2*(-w.err) ≤ E := by omega
  have hj : (2*w.err ≤ (D:ℤ)) ↔ -(D:ℤ) ≤ 2*(-w.err) := by omega
  simp only [move,Walk.swap,hi,hj,Walk.mk.injEq]
  refine ⟨rfl,rfl,?_⟩
  split_ifs <;> omega

theorem after_swap (D E n : ℕ) : (after D E n).swap = after E D n := by
  induction n with
  | zero =>
      simp only [after,Function.iterate_zero,id_eq,start,Walk.swap,neg_sub]
  | succ n ih => rw [after_succ,after_succ,move_swap,ih]

/-- With the longer side first, every move steps along it. -/
structure Follows (D E n : ℕ) (w : Walk) : Prop where
  i_eq : w.i = n
  j_le_i : w.j ≤ w.i
  err_eq : w.err = D-E-w.i*E+w.j*D
  err_ge : -(E:ℤ) ≤ 2*w.err
  err_le : 2*w.err ≤ 3*D-2*E

theorem start_follows {D E : ℕ} (h : E ≤ D) : Follows D E 0 (start D E) := by
  constructor
  all_goals simp only [start]
  all_goals push_cast
  all_goals omega

theorem Follows.move {D E n : ℕ} {w : Walk} (hle : E ≤ D) (h : Follows D E n w) :
    Follows D E (n+1) (move D E w) := by
  obtain ⟨hi,hji,herr,hge,hbound⟩ := h
  by_cases hj : 2*w.err ≤ D
  · constructor
    all_goals simp only [ErrorTermWalk.move,if_pos hge,if_pos hj]
    · omega
    · omega
    · rw [herr]
      push_cast
      ring
    · omega
    · omega
  · constructor
    all_goals simp only [ErrorTermWalk.move,if_pos hge,if_neg hj]
    · omega
    · omega
    · rw [herr]
      push_cast
      ring
    · omega
    · omega

theorem after_follows {D E : ℕ} (h : E ≤ D) (n : ℕ) : Follows D E n (after D E n) := by
  induction n with
  | zero => exact start_follows h
  | succ n ih =>
      rw [after_succ]
      exact ih.move h

/-- The shorter side is not overrun. -/
theorem Follows.j_le {D E n : ℕ} {w : Walk} (h : Follows D E n w) (hn : n ≤ D) : w.j ≤ E := by
  obtain ⟨hi,hji,herr,-,hbound⟩ := h
  rcases Nat.eq_zero_or_pos D with rfl | hD
  · omega
  · have hover : 2*(w.j*D:ℤ) ≤ D+2*(w.i*E) := by linarith
    have hside : (w.i*E:ℤ) ≤ D*E :=
      mul_le_mul_of_nonneg_right (by omega) (Int.natCast_nonneg E)
    by_contra hlt
    have hj : ((E:ℤ)+1)*D ≤ w.j*D :=
      mul_le_mul_of_nonneg_right (by omega) (Int.natCast_nonneg D)
    have hpos : (0:ℤ) < D := by omega
    linarith

/-- Both ends are reached together. -/
theorem Follows.j_eq {D E : ℕ} {w : Walk} (h : Follows D E D w) : w.j = E := by
  have hle := h.j_le le_rfl
  obtain ⟨hi,hji,herr,hge,-⟩ := h
  rw [hi] at herr
  by_contra hne
  have hj : ((w.j:ℤ)+1)*D ≤ E*D :=
    mul_le_mul_of_nonneg_right (by omega) (Int.natCast_nonneg D)
  have hE : (0:ℤ) < E := by omega
  linarith

/-- Where the walk is before its end. -/
structure Bounded (D E n : ℕ) (w : Walk) : Prop where
  i_le : w.i ≤ D
  j_le : w.j ≤ E
  err_ge : -3*(E:ℤ) ≤ 2*w.err
  err_le : 2*w.err ≤ 3*D
  ended_iff : w.i = D ∧ w.j = E ↔ n = max D E

theorem Follows.bounded {D E n : ℕ} {w : Walk} (hle : E ≤ D) (hn : n ≤ D)
    (h : Follows D E n w) : Bounded D E n w := by
  have hj := h.j_le hn
  have hi := h.i_eq
  have hge := h.err_ge
  have hbound := h.err_le
  refine ⟨by omega,hj,by omega,by omega,?_⟩
  rw [max_eq_left hle]
  constructor
  · omega
  · rintro rfl
    exact ⟨hi,h.j_eq⟩

/-- The walk ends in the far corner after as many moves as the longer side has, and stays between
the corners before. -/
theorem after_bounded {D E n : ℕ} (hn : n ≤ max D E) : Bounded D E n (after D E n) := by
  rcases le_total E D with hle | hle
  · rw [max_eq_left hle] at hn
    exact (after_follows hle n).bounded hle hn
  · rw [max_eq_right hle] at hn
    have h := (after_follows hle n).bounded hle hn
    rw [← after_swap] at h
    obtain ⟨hi,hj,hge,hbound,hended⟩ := h
    simp only [Walk.swap] at *
    refine ⟨hj,hi,by omega,by omega,?_⟩
    rw [max_comm,← hended,and_comm]

end Filly.ErrorTermWalk
