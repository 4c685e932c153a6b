import Mathlib

/-!
# Blocks cut off one after another

An allocator that only moves a frontier upwards hands out blocks that lie one above the
other. Sizes are rounded up to a multiple of the alignment. The room is doubled until it is
large enough, in a number type that wraps, so it may never get there.
-/
namespace Filly.BumpAllocation

/-! ## Blocks below a frontier -/

structure Region where
  start : ℕ
  size : ℕ
  deriving DecidableEq, Repr

def Region.cells (r : Region) : Set ℕ := Set.Ico r.start (r.start+r.size)

/-- The newest block comes first and lies below the frontier, the others lie below it. -/
def Stacked : ℕ → List Region → Prop
  | _, [] => True
  | top, r::rs => r.start+r.size ≤ top ∧ Stacked r.start rs

theorem Stacked.mono {n m : ℕ} {rs : List Region} (h : Stacked n rs) (hle : n ≤ m) :
    Stacked m rs := by
  cases rs with
  | nil => trivial
  | cons r rs => exact ⟨h.1.trans hle,h.2⟩

/-- A block cut off at the frontier. -/
theorem Stacked.cut {n : ℕ} {rs : List Region} (h : Stacked n rs) (size : ℕ) :
    Stacked (n+size) (⟨n,size⟩::rs) := ⟨le_rfl,h⟩

theorem Stacked.end_le {n : ℕ} {rs : List Region} (h : Stacked n rs) :
    ∀ r ∈ rs, r.start+r.size ≤ n := by
  induction rs generalizing n with
  | nil => exact fun r hr => absurd hr List.not_mem_nil
  | cons r rs ih =>
      rw [List.forall_mem_cons]
      refine ⟨h.1,fun r' hr' => (ih h.2 r' hr').trans ?_⟩
      exact (Nat.le_add_right _ _).trans h.1

/-- No cell belongs to two blocks. -/
theorem Stacked.pairwise_disjoint {n : ℕ} {rs : List Region} (h : Stacked n rs) :
    rs.Pairwise fun r r' => Disjoint r.cells r'.cells := by
  induction rs generalizing n with
  | nil => exact List.Pairwise.nil
  | cons r rs ih =>
      refine List.Pairwise.cons (fun r' hr' => ?_) (ih h.2)
      have hle := h.2.end_le r' hr'
      rw [Region.cells,Region.cells,Set.disjoint_left]
      intro i hi hi'
      exact absurd (hi.1.trans_lt hi'.2) hle.not_gt

/-! ## Multiples of the alignment -/

/-- The least multiple of `a` that is no less than `n`. -/
def roundUp (a n : ℕ) : ℕ := (n+(a-1))/a*a

theorem dvd_roundUp (a n : ℕ) : a ∣ roundUp a n := Dvd.intro_left _ rfl

theorem le_roundUp {a : ℕ} (ha : 0 < a) (n : ℕ) : n ≤ roundUp a n := by
  have hsplit := Nat.div_add_mod (n+(a-1)) a
  have hlt := Nat.mod_lt (n+(a-1)) ha
  rw [Nat.mul_comm] at hsplit
  unfold roundUp
  omega

/-- A number of `w` bits without the lowest `a` of them. -/
theorem and_mask {w a x : ℕ} (hx : x < 2^w) (ha : a ≤ w) :
    x &&& (2^w-2^a) = x/2^a*2^a := by
  have hmask : 2^w-2^a = (2^(w-a)-1) <<< a := by
    rw [Nat.shiftLeft_eq,Nat.sub_mul,← pow_add,Nat.sub_add_cancel ha,one_mul]
  rw [hmask,← Nat.shiftRight_eq_div_pow,← Nat.shiftLeft_eq]
  apply Nat.eq_of_testBit_eq
  intro i
  rw [Nat.testBit_and,Nat.testBit_shiftLeft,Nat.testBit_shiftLeft,Nat.testBit_two_pow_sub_one,
    Nat.testBit_shiftRight]
  by_cases hlow : a ≤ i
  · rw [Nat.add_sub_cancel' hlow]
    by_cases hhigh : i < w
    · simp [hlow,show i-a < w-a by omega]
    · have hzero : x.testBit i = false :=
        Nat.testBit_lt_two_pow (hx.trans_le (Nat.pow_le_pow_right two_pos (not_lt.1 hhigh)))
      simp [hzero]
  · simp [hlow]

/-! ## Doubled room -/

/-- One of the numbers got by doubling `c` is no less than `need`. They are numbers of `w`
bits, so after `w` doublings nothing is left. -/
def Fits (w need c : ℕ) : Prop := ∃ k < w, need ≤ c*2^k % 2^w

instance (w need c : ℕ) : Decidable (Fits w need c) :=
  inferInstanceAs (Decidable (∃ k < w, need ≤ c*2^k % 2^w))

theorem Fits.lt {w need c : ℕ} (h : Fits w need c) : need < 2^w := by
  obtain ⟨k,-,hle⟩ := h
  exact hle.trans_lt (Nat.mod_lt _ (Nat.two_pow_pos w))

/-- Some room is doubled to any size up to half the range. -/
theorem fits_of_le {w need c : ℕ} (hc : 0 < c) (hlt : c < 2^w) (h : 2*need ≤ 2^w) :
    Fits w need c := by
  have hlow : 2^Nat.log 2 c ≤ c := Nat.pow_log_le_self 2 hc.ne'
  have hhigh : c < 2^(Nat.log 2 c+1) := Nat.lt_pow_succ_log_self one_lt_two c
  have hbits : Nat.log 2 c < w := (Nat.pow_lt_pow_iff_right one_lt_two).1 (hlow.trans_lt hlt)
  have htop : c*2^(w-1-Nat.log 2 c) < 2^w := by
    calc c*2^(w-1-Nat.log 2 c) < 2^(Nat.log 2 c+1)*2^(w-1-Nat.log 2 c) :=
          Nat.mul_lt_mul_of_pos_right hhigh (Nat.two_pow_pos _)
      _ = 2^w := by rw [← pow_add]; congr 1; omega
  have hhalf : 2^w ≤ 2*(c*2^(w-1-Nat.log 2 c)) := by
    calc 2^w = 2*(2^Nat.log 2 c*2^(w-1-Nat.log 2 c)) := by
          rw [← pow_add,← pow_succ']
          congr 1
          omega
      _ ≤ 2*(c*2^(w-1-Nat.log 2 c)) := Nat.mul_le_mul_left _ (Nat.mul_le_mul_right _ hlow)
  refine ⟨w-1-Nat.log 2 c,by omega,?_⟩
  rw [Nat.mod_eq_of_lt htop]
  omega

end Filly.BumpAllocation
