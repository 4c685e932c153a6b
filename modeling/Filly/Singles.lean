import Filly.Numerals

/-!
# A portion of an integer in single precision

An integer converted to a single can become larger. Its product with a single below 1 is
rounded once more, and the two roundings together do not pass the integer.
-/
namespace Filly.Numerals

/-! ## Rounding against a bound -/

theorem halfEven_le_of_le {q : ℚ} {z : ℤ} (h : q ≤ z) : halfEven q ≤ z := by
  obtain rfl | hlt := h.eq_or_lt
  · rw [halfEven_intCast]
  · have hfloor : ⌊q⌋ < z := Int.floor_lt.2 hlt
    have := halfEven_le q
    omega

theorem le_halfEven_of_le {q : ℚ} {z : ℤ} (h : (z : ℚ) ≤ q) : z ≤ halfEven q :=
  (Int.le_floor.2 h).trans (floor_le_halfEven q)

theorem halfEven_lt_of_lt {q : ℚ} {z : ℤ} (h : q < z-1/2) : halfEven q < z := by
  have hnear := (abs_le.1 (abs_halfEven_sub_le q)).2
  have hlt : (halfEven q : ℚ) < z := by linarith
  exact_mod_cast hlt

/-! ## The grid of the singles -/

/-- The exponent of the last binary digit of a single near a rational. -/
def lastDigit (v : ℚ) : ℤ := max (Int.log 2 |v|-23) (-149)

/-- The single nearest to a rational, before the range is looked at. -/
def onGrid (v : ℚ) : ℚ := halfEven (|v|/2^lastDigit v)*2^lastDigit v

theorem binary32_eq {v : ℚ} (h0 : 0 ≤ v) (h : onGrid v < 2^128) : binary32 v = some (onGrid v) := by
  unfold binary32
  exact (if_neg (not_le.2 h)).trans (congrArg some (if_neg (not_lt.2 h0)))

theorem binary32_neg (v : ℚ) : binary32 (-v) = (binary32 v).map Neg.neg := by
  have hgrid : onGrid (-v) = onGrid v := by
    unfold onGrid lastDigit
    rw [abs_neg]
  change (if 2^128 ≤ onGrid (-v) then none else some (if -v < 0 then -onGrid (-v) else onGrid (-v))) =
    (if 2^128 ≤ onGrid v then none else some (if v < 0 then -onGrid v else onGrid v)).map Neg.neg
  rw [hgrid]
  split_ifs with hbig hneg hpos hpos
  · rfl
  · linarith
  · rfl
  · rw [Option.map_some,neg_neg]
  · have hzero : v = 0 := by linarith
    have hround : onGrid v = 0 := by
      rw [hzero,onGrid,abs_zero,zero_div]
      have hhalf : halfEven (0 : ℚ) = 0 := by exact_mod_cast halfEven_intCast 0
      rw [hhalf,Int.cast_zero,zero_mul]
    rw [Option.map_some,hround,neg_zero]

theorem onGrid_nonneg (v : ℚ) : 0 ≤ onGrid v := by
  have hhalf : 0 ≤ halfEven (|v|/2^lastDigit v) :=
    le_halfEven_of_le (by rw [Int.cast_zero]; positivity)
  have hcast : (0 : ℚ) ≤ (halfEven (|v|/2^lastDigit v) : ℚ) := by exact_mod_cast hhalf
  unfold onGrid
  positivity

/-- A multiple of a coarser grid is not passed. -/
theorem onGrid_le {v : ℚ} {z e : ℤ} (h0 : 0 ≤ v) (he : lastDigit v ≤ e) (h : v ≤ z*2^e) :
    onGrid v ≤ z*2^e := by
  obtain ⟨k,hk⟩ := Int.le.dest he
  have hpow : (2 : ℚ)^e = 2^k*2^lastDigit v := by
    rw [← hk,zpow_add₀ (by norm_num),zpow_natCast,mul_comm]
  have hpos : (0 : ℚ) < 2^lastDigit v := by positivity
  have hround : halfEven (v/2^lastDigit v) ≤ z*2^k := by
    apply halfEven_le_of_le
    rw [div_le_iff₀ hpos]
    push_cast
    rwa [mul_assoc,← hpow]
  have hcast : (halfEven (v/2^lastDigit v) : ℚ) ≤ z*2^k := by exact_mod_cast hround
  rw [onGrid,abs_of_nonneg h0,hpow,← mul_assoc]
  exact mul_le_mul_of_nonneg_right hcast hpos.le

theorem lastDigit_le {v : ℚ} {e : ℤ} (hv : 0 < v) (h : v < 2^(e+24)) (he : -149 ≤ e) :
    lastDigit v ≤ e := by
  have hlog : Int.log 2 v < e+24 :=
    (Int.lt_zpow_iff_log_lt (by norm_num) hv).1 (by exact_mod_cast h)
  unfold lastDigit
  rw [abs_of_pos hv]
  omega

theorem le_lastDigit {v : ℚ} {e : ℤ} (hv : 0 < v) (h : 2^(e+23) ≤ v) : e ≤ lastDigit v := by
  have hlog : e+23 ≤ Int.log 2 v := by
    by_contra hlt
    have hup := (Int.lt_zpow_iff_log_lt (b := 2) (by norm_num) hv).2 (not_le.1 hlt)
    exact absurd h (not_le.2 (by exact_mod_cast hup))
  unfold lastDigit
  rw [abs_of_pos hv]
  omega

/-- A single below 1 leaves a step of its grid. -/
theorem single_le {t : ℚ} (ht : binary32 t = some t) (h0 : 0 < t) (h1 : t < 1) :
    t ≤ 1-1/2^24 := by
  by_cases hhalf : t < 1/2
  · exact hhalf.le.trans (by norm_num)
  rw [not_lt] at hhalf
  have hlast : lastDigit t = -24 :=
    le_antisymm (lastDigit_le h0 (by norm_num; exact h1) (by norm_num))
      (le_lastDigit h0 (by norm_num; linarith))
  have hround : onGrid t = t := by
    have hbound : onGrid t ≤ (2^24 : ℤ)*2^(-24 : ℤ) := onGrid_le h0.le hlast.le (by norm_num; exact h1.le)
    have hsmall : onGrid t < 2^128 := hbound.trans_lt (by norm_num)
    rw [binary32_eq h0.le hsmall] at ht
    exact Option.some.inj ht
  rw [onGrid,hlast,abs_of_pos h0] at hround
  generalize halfEven (t/2^(-24 : ℤ)) = j at hround
  have hj : (j : ℚ) < (2^24 : ℤ) := by
    rw [zpow_neg,← div_eq_mul_inv,div_eq_iff (by norm_num)] at hround
    norm_num at hround ⊢
    linarith
  have hj' : (j : ℚ) ≤ ((2^24-1 : ℤ) : ℚ) := by
    have : j < 2^24 := by exact_mod_cast hj
    exact_mod_cast (by omega : j ≤ 2^24-1)
  rw [← hround]
  norm_num at hj' ⊢
  linarith

/-! ## The product -/

/-- A positive integer as a single is a multiple of a power of two. -/
theorem single_intCast {n : ℤ} (h0 : 0 < n) (hn : n ≤ 2^31) : ∃ k e : ℤ,
    onGrid n = k*2^e ∧ k ≤ 2^24 ∧ -23 ≤ e ∧ e ≤ 8 ∧ 2^(e+23) ≤ (n : ℚ) ∧
      ((k : ℚ)-1)*2^e < n := by
  have hpos : (0 : ℚ) < n := by exact_mod_cast h0
  have hone : (1 : ℚ) ≤ n := by exact_mod_cast h0
  have hlog : 0 ≤ Int.log 2 (n : ℚ) := by
    rw [← Int.log_one_right (R := ℚ) 2]
    exact Int.log_mono_right one_pos hone
  have hlog' : Int.log 2 (n : ℚ) < 32 := by
    refine (Int.lt_zpow_iff_log_lt (by norm_num) hpos).1 ?_
    have hlt : (n : ℚ) < ((2^32 : ℤ) : ℚ) := by exact_mod_cast (by omega : n < 2^32)
    norm_num at hlt ⊢
    exact hlt
  have hlast : lastDigit (n : ℚ) = Int.log 2 (n : ℚ)-23 := by
    unfold lastDigit
    rw [abs_of_pos hpos]
    omega
  have hdown : (2 : ℚ)^(Int.log 2 (n : ℚ)) ≤ n := by
    exact_mod_cast Int.zpow_log_le_self (b := 2) (by norm_num) hpos
  have hup : (n : ℚ) < 2^(Int.log 2 (n : ℚ)+1) := by
    exact_mod_cast Int.lt_zpow_succ_log_self (b := 2) (by norm_num) (n : ℚ)
  refine ⟨halfEven (n/2^(Int.log 2 (n : ℚ)-23)),Int.log 2 (n : ℚ)-23,?_,?_,by omega,by omega,
    by rwa [sub_add_cancel],?_⟩
  · rw [onGrid,hlast,abs_of_pos hpos]
  · apply halfEven_le_of_le
    rw [div_le_iff₀ (by positivity)]
    have hpow : (2 : ℚ)^(Int.log 2 (n : ℚ)+1) = ((2^24 : ℤ) : ℚ)*2^(Int.log 2 (n : ℚ)-23) := by
      rw [show Int.log 2 (n : ℚ)+1 = Int.log 2 (n : ℚ)-23+24 by ring,zpow_add₀ (by norm_num),mul_comm]
      norm_num
    rw [← hpow]
    exact hup.le
  · have hnear := (abs_le.1 (abs_halfEven_sub_le (n/2^(Int.log 2 (n : ℚ)-23)))).2
    rw [← lt_div_iff₀ (by positivity)]
    linarith

section
variable {k e : ℤ} {t : ℚ} (hk0 : 0 ≤ k) (hk : k ≤ 2^24) (he : -23 ≤ e)
  (ht : binary32 t = some t) (ht0 : 0 < t) (ht1 : t < 1)
include hk0 hk he ht0 ht1

theorem lastDigit_mul_le : lastDigit (k*2^e*t) ≤ e := by
  have hpow : (0 : ℚ) < 2^e := by positivity
  obtain hzero | hkpos := hk0.eq_or_lt
  · rw [← hzero,Int.cast_zero,zero_mul,zero_mul,lastDigit,abs_zero,Int.log_zero_right]
    omega
  have hkpos' : (0 : ℚ) < k := by exact_mod_cast hkpos
  refine lastDigit_le (by positivity) ?_ (by omega)
  calc (k : ℚ)*2^e*t < k*2^e := mul_lt_of_lt_one_right (by positivity) ht1
    _ ≤ 2^24*2^e := mul_le_mul_of_nonneg_right (by exact_mod_cast hk) hpow.le
    _ = 2^(e+24) := by rw [zpow_add₀ (by norm_num),mul_comm]; norm_num

theorem onGrid_mul_le : onGrid (k*2^e*t) ≤ k*2^e := by
  have hk0' : (0 : ℚ) ≤ k := by exact_mod_cast hk0
  exact onGrid_le (by positivity) (lastDigit_mul_le hk0 hk he ht0 ht1)
    (mul_le_of_le_one_right (by positivity) ht1.le)

include ht

/-- With a full significand the product is nearer to a smaller neighbour. -/
theorem onGrid_mul_le_pred (hfull : 2^23 < k) : onGrid (k*2^e*t) ≤ ((k-1 : ℤ) : ℚ)*2^e := by
  have hpow : (0 : ℚ) < 2^e := by positivity
  have hkpos : (2^23 : ℚ) < k := by exact_mod_cast hfull
  have hkpos' : (0 : ℚ) < k := lt_trans (by norm_num) hkpos
  have hgrid := lastDigit_mul_le hk0 hk he ht0 ht1
  by_cases hbelow : (k : ℚ)*2^e*t ≤ ((k-1 : ℤ) : ℚ)*2^e
  · exact onGrid_le (by positivity) hgrid hbelow
  have hlow : (2 : ℚ)^(e+23) ≤ k*2^e*t := by
    have hpred : (2^23 : ℚ) ≤ ((k-1 : ℤ) : ℚ) := by exact_mod_cast (by omega : (2^23 : ℤ) ≤ k-1)
    calc (2 : ℚ)^(e+23) = 2^23*2^e := by rw [zpow_add₀ (by norm_num),mul_comm]; norm_num
      _ ≤ ((k-1 : ℤ) : ℚ)*2^e := mul_le_mul_of_nonneg_right hpred hpow.le
      _ ≤ k*2^e*t := (not_le.1 hbelow).le
  have hlast : lastDigit (k*2^e*t) = e :=
    le_antisymm hgrid (le_lastDigit (by positivity) hlow)
  have hround : halfEven (k*2^e*t/2^e) < k := by
    apply halfEven_lt_of_lt
    rw [mul_right_comm,mul_div_cancel_right₀ _ hpow.ne']
    have hstep := single_le ht ht0 ht1
    nlinarith only [hstep,hkpos]
  have hround' : (halfEven (k*2^e*t/2^e) : ℚ) ≤ ((k-1 : ℤ) : ℚ) := by
    exact_mod_cast (by omega : halfEven (k*2^e*t/2^e) ≤ k-1)
  rw [onGrid,hlast,abs_of_pos (by positivity)]
  exact mul_le_mul_of_nonneg_right hround' hpow.le

end

theorem onGrid_zero : onGrid 0 = 0 := by
  refine le_antisymm ?_ (onGrid_nonneg 0)
  have hbound : onGrid 0 ≤ (0 : ℤ)*2^lastDigit 0 := onGrid_le le_rfl le_rfl (by norm_num)
  simpa using hbound

/-- The portion lies between zero and the integer. -/
theorem binary32_portion {n : ℤ} {t : ℚ} (h0 : 0 ≤ n) (hn : n ≤ 2^31) (ht : binary32 t = some t)
    (ht0 : 0 < t) (ht1 : t < 1) :
    ∃ m w, binary32 n = some m ∧ binary32 (m*t) = some w ∧ 0 ≤ w ∧ w ≤ n := by
  obtain rfl | hpos := h0.eq_or_lt
  · have hzero : binary32 0 = some 0 := by
      rw [binary32_eq le_rfl (by rw [onGrid_zero]; norm_num),onGrid_zero]
    exact ⟨0,0,by rw [Int.cast_zero,hzero],by rw [zero_mul,hzero],le_rfl,by simp⟩
  obtain ⟨k,e,hm,hk,he,he',hlow,hpred⟩ := single_intCast hpos hn
  have hpow : (0 : ℚ) < 2^e := by positivity
  have hn0 : (0 : ℚ) < n := by exact_mod_cast hpos
  have hn31 : (n : ℚ) ≤ ((2^31 : ℤ) : ℚ) := by exact_mod_cast hn
  have hm0 := onGrid_nonneg (n : ℚ)
  have hk0 : 0 ≤ k := by
    rw [hm] at hm0
    exact_mod_cast nonneg_of_mul_nonneg_left hm0 hpow
  have hsmall : onGrid (n : ℚ) < 2^128 := by
    have hpowle : (2 : ℚ)^e ≤ 2^(8 : ℤ) := zpow_le_zpow_right₀ (by norm_num) he'
    have hk' : (k : ℚ) ≤ 2^24 := by exact_mod_cast hk
    calc onGrid (n : ℚ) = k*2^e := hm
      _ ≤ 2^24*2^(8 : ℤ) := mul_le_mul hk' hpowle hpow.le (by norm_num)
      _ < 2^128 := by norm_num
  have hw : onGrid (onGrid (n : ℚ)*t) ≤ n := by
    by_cases hle : onGrid (n : ℚ) ≤ n
    · rw [hm] at hle ⊢
      exact (onGrid_mul_le hk0 hk he ht0 ht1).trans hle
    -- The integer lies between two neighbours of the grid, and became the upper one.
    rw [not_le,hm] at hle
    have hfull : (2 : ℚ)^23 < k := by
      refine lt_of_mul_lt_mul_right (lt_of_le_of_lt ?_ hle) hpow.le
      rw [mul_comm,← zpow_natCast,← zpow_add₀ (by norm_num)]
      exact hlow
    rw [hm]
    refine (onGrid_mul_le_pred hk0 hk he ht ht0 ht1 (by exact_mod_cast hfull)).trans ?_
    push_cast
    exact hpred.le
  refine ⟨onGrid n,onGrid (onGrid n*t),binary32_eq hn0.le hsmall,binary32_eq (by positivity) ?_,
    onGrid_nonneg _,hw⟩
  exact (hw.trans hn31).trans_lt (by norm_num)

end Filly.Numerals
