import Mathlib.Tactic
import Mathlib.Data.Int.Log

/-!
# Rounding and digits

Rounding a rational to the nearest integer with ties to even gives both the
nearest double (a significand of 53 bits above a smallest exponent) and the
nearest decimal with a given number of significant digits. Numerals are written
most significant digit first, in the characters `0-9a-f`.
-/
namespace Filly.Numerals

/-! ## Rounding -/

/-- The nearest integer, ties to even. -/
def halfEven (q : ℚ) : ℤ :=
  if q-⌊q⌋ < 1/2 then ⌊q⌋
  else if 1/2 < q-⌊q⌋ then ⌊q⌋+1
  else if ⌊q⌋ % 2 = 0 then ⌊q⌋ else ⌊q⌋+1

theorem halfEven_intCast (n : ℤ) : halfEven n = n := by
  unfold halfEven
  rw [if_pos]
  · exact Int.floor_intCast n
  · rw [Int.floor_intCast]
    norm_num

theorem halfEven_le (q : ℚ) : halfEven q ≤ ⌊q⌋+1 := by
  unfold halfEven
  split_ifs <;> omega

theorem floor_le_halfEven (q : ℚ) : ⌊q⌋ ≤ halfEven q := by
  unfold halfEven
  split_ifs <;> omega

theorem abs_halfEven_sub_le (q : ℚ) : |(halfEven q : ℚ)-q| ≤ 1/2 := by
  have hlo := Int.floor_le q
  have hhi := (Int.lt_floor_add_one q).le
  unfold halfEven
  split_ifs with h₁ h₂ h₃
  · rw [abs_le]
    constructor <;> linarith
  · push_cast
    rw [abs_le]
    constructor <;> linarith
  · rw [abs_le]
    constructor <;> linarith
  · push_cast
    rw [abs_le]
    constructor <;> linarith

/-- The double nearest to a rational; `none` is an infinity. -/
def binary64 (v : ℚ) : Option ℚ :=
  let e : ℤ := max (Int.log 2 |v|-52) (-1074)
  let r : ℚ := halfEven (|v|/2^e)*2^e
  if 2^1024 ≤ r then none else some (if v < 0 then -r else r)

theorem binary64_intCast (n : ℤ) (h : |n| < 2^53) : binary64 n = some (n : ℚ) := by
  have hlog : Int.log 2 |(n : ℚ)| ≤ 52 := by
    by_cases h0 : n = 0
    · simp [h0]
    · have hpos : 0 < |(n : ℚ)| := by positivity
      have hlt : |(n : ℚ)| < ((2 : ℕ) : ℚ)^(53 : ℤ) := by exact_mod_cast h
      have := (Int.lt_zpow_iff_log_lt (by norm_num) hpos).mp hlt
      omega
  unfold binary64
  generalize he : max (Int.log 2 |(n : ℚ)|-52) (-1074) = e
  obtain ⟨k,hk⟩ : ∃ k : ℕ, e = -k := ⟨e.natAbs,by omega⟩
  have hq : |(n : ℚ)|/2^e = ((|n| * 2^k : ℤ) : ℚ) := by
    rw [hk,zpow_neg,zpow_natCast,div_inv_eq_mul]
    push_cast
    rfl
  have hr : (halfEven (|(n : ℚ)|/2^e) : ℚ)*2^e = |(n : ℚ)| := by
    rw [hq,halfEven_intCast,← hq]
    field_simp
  have hbig : ¬(2 : ℚ)^1024 ≤ |(n : ℚ)| := by
    have hlt : |(n : ℚ)| < 2^53 := by exact_mod_cast h
    have hpow : (2 : ℚ)^53 ≤ 2^1024 := pow_le_pow_right₀ (by norm_num) (by norm_num)
    exact not_le.mpr (hlt.trans_le hpow)
  simp only [hr,if_neg hbig]
  congr 1
  split_ifs with hn
  · rw [abs_of_neg hn,neg_neg]
  · rw [abs_of_nonneg (not_lt.mp hn)]

/-- The single nearest to a rational; `none` is an infinity. -/
def binary32 (v : ℚ) : Option ℚ :=
  let e : ℤ := max (Int.log 2 |v|-23) (-149)
  let r : ℚ := halfEven (|v|/2^e)*2^e
  if 2^128 ≤ r then none else some (if v < 0 then -r else r)

/-- The error of a single below `2^k`. -/
theorem binary32_near {v : ℚ} {k : ℤ} (h0 : 0 ≤ v) (hv : v < 2^k) (hlo : -125 ≤ k) (hhi : k ≤ 127) :
    ∃ w, binary32 v = some w ∧ 0 ≤ w ∧ |w-v| ≤ 2^(k-25) := by
  unfold binary32
  simp only [abs_of_nonneg h0,if_neg (not_lt.mpr h0)]
  generalize he : max (Int.log 2 v-23) (-149) = e
  have hpos : (0 : ℚ) < 2^e := by positivity
  have hq0 : 0 ≤ v/2^e := by positivity
  have hr0 : (0 : ℚ) ≤ (halfEven (v/2^e) : ℚ)*2^e := by
    have hfloor : 0 ≤ ⌊v/2^e⌋ := Int.floor_nonneg.mpr hq0
    have hm : 0 ≤ halfEven (v/2^e) := hfloor.trans (floor_le_halfEven _)
    have hm' : (0 : ℚ) ≤ (halfEven (v/2^e) : ℚ) := by exact_mod_cast hm
    exact mul_nonneg hm' hpos.le
  have herr : |(halfEven (v/2^e) : ℚ)*2^e-v| ≤ 2^(k-25) := by
    obtain rfl | hvpos := h0.eq_or_lt
    · have hzero : halfEven (0 : ℚ) = 0 := by exact_mod_cast halfEven_intCast 0
      rw [zero_div,hzero]
      simp only [Int.cast_zero,zero_mul,sub_zero,abs_zero]
      positivity
    · have hlog : Int.log 2 v < k := (Int.lt_zpow_iff_log_lt (by norm_num) hvpos).mp (by exact_mod_cast hv)
      calc |(halfEven (v/2^e) : ℚ)*2^e-v| = 2^e*|(halfEven (v/2^e) : ℚ)-v/2^e| := by
            rw [← abs_of_pos hpos,← abs_mul,abs_of_pos hpos,mul_sub,mul_div_cancel₀ _ hpos.ne',mul_comm]
        _ ≤ 2^e*(1/2) := by gcongr; exact abs_halfEven_sub_le _
        _ = 2^(e-1) := by rw [zpow_sub_one₀ (by norm_num)]; ring
        _ ≤ 2^(k-25) := zpow_le_zpow_right₀ (by norm_num) (by omega)
  have hsmall : ¬(2 : ℚ)^128 ≤ (halfEven (v/2^e) : ℚ)*2^e := by
    have hle := (abs_le.mp herr).2
    have h₁ : (2 : ℚ)^(k-25) ≤ 2^k := zpow_le_zpow_right₀ (by norm_num) (by omega)
    have h₂ : (2 : ℚ)^k ≤ 2^(127 : ℤ) := zpow_le_zpow_right₀ (by norm_num) hhi
    have h₃ : (2 : ℚ)^128 = 2^(127 : ℤ)+2^(127 : ℤ) := by norm_num
    rw [h₃]
    linarith
  exact ⟨_,if_neg hsmall,hr0,herr⟩

/-- The range of the format. -/
theorem binary64_range {x v : ℚ} (h : binary64 x = some v) :
    |v| < 2^1024 ∧ (v ≠ 0 → (2 : ℚ)^(-1074 : ℤ) ≤ |v|) := by
  unfold binary64 at h
  simp only at h
  generalize he : max (Int.log 2 |x|-52) (-1074) = e at h
  generalize hm : halfEven (|x|/2^e) = m at h
  have hm0 : 0 ≤ m := by
    have hfloor : 0 ≤ ⌊|x|/2^e⌋ := Int.floor_nonneg.mpr (by positivity)
    exact hm ▸ hfloor.trans (floor_le_halfEven _)
  have hr0 : 0 ≤ (m : ℚ)*2^e := by positivity
  by_cases hbig : (2 : ℚ)^1024 ≤ m*2^e
  · rw [if_pos hbig] at h
    cases h
  rw [if_neg hbig] at h
  have habs : |v| = (m : ℚ)*2^e := by
    rw [← Option.some.inj h]
    split_ifs
    · rw [abs_neg,abs_of_nonneg hr0]
    · exact abs_of_nonneg hr0
  rw [habs]
  refine ⟨not_le.mp hbig,fun hv => ?_⟩
  have hm1 : 1 ≤ m := by
    by_contra hlt
    have : m = 0 := by omega
    rw [this,Int.cast_zero,zero_mul] at habs
    exact hv (abs_eq_zero.mp habs)
  calc (2 : ℚ)^(-1074 : ℤ) ≤ 2^e := zpow_le_zpow_right₀ (by norm_num) (by omega)
    _ = 1*2^e := (one_mul _).symm
    _ ≤ m*2^e := by gcongr; exact_mod_cast hm1

/-- A positive rational rounded to `p` significant digits: the digits as a
number, and the exponent of the first one. -/
def significant (p : ℕ) (v : ℚ) : ℕ × ℤ :=
  let x := Int.log 10 v
  let n := (halfEven (v/10^(x-(p-1)))).toNat
  if n = 10^p then (10^(p-1),x+1) else (n,x)

theorem significant_lt (p : ℕ) (v : ℚ) : (significant (p+1) v).1 < 10^(p+1) := by
  unfold significant
  simp only
  split_ifs with h
  · exact Nat.pow_lt_pow_right (by norm_num) (by omega)
  · have hv : v < (10 : ℚ)^(Int.log 10 v+1) := by
      exact_mod_cast Int.lt_zpow_succ_log_self (b := 10) (by norm_num) v
    have hq : v/10^(Int.log 10 v-(((p+1 : ℕ) : ℤ)-1)) < ((10^(p+1) : ℤ) : ℚ) := by
      rw [div_lt_iff₀ (by positivity)]
      push_cast
      rw [← zpow_natCast,← zpow_add₀ (by norm_num)]
      have he : ((p+1 : ℕ) : ℤ)+(Int.log 10 v-((p : ℤ)+1-1)) = Int.log 10 v+1 := by
        push_cast
        ring
      rw [he]
      exact hv
    have hfloor := Int.floor_lt.mpr hq
    have hle := halfEven_le (v/10^(Int.log 10 v-(((p+1 : ℕ) : ℤ)-1)))
    have hpos : 0 < 10^(p+1) := Nat.pow_pos (by norm_num)
    have hcast : ((10^(p+1) : ℕ) : ℤ) = 10^(p+1) := by push_cast; rfl
    rw [← hcast] at hfloor
    omega

theorem significant_exponent {p : ℕ} {v : ℚ} {a b : ℤ} (hv : 0 < v) (ha : (10 : ℚ)^a ≤ v)
    (hb : v < (10 : ℚ)^b) : a ≤ (significant p v).2 ∧ (significant p v).2 ≤ b := by
  have h₁ : a ≤ Int.log 10 v := (Int.zpow_le_iff_le_log (by norm_num) hv).mp (by exact_mod_cast ha)
  have h₂ : Int.log 10 v < b := (Int.lt_zpow_iff_log_lt (by norm_num) hv).mp (by exact_mod_cast hb)
  unfold significant
  simp only
  split_ifs
  · exact ⟨by simp only; omega,by simp only; omega⟩
  · exact ⟨h₁,h₂.le⟩

/-! ## Digits -/

def digitByte (d : ℕ) : UInt8 := UInt8.ofNat (if d < 10 then 48+d else 87+d)

/-- The numeral of `n`, with no leading zero unless it is zero. -/
def numeral (base n : ℕ) : List UInt8 :=
  if n = 0 then [48] else (Nat.digits base n).reverse.map digitByte

/-- The last `width` digits of `n`. -/
def fixedNumeral (base : ℕ) : ℕ → ℕ → List UInt8
  | 0, _ => []
  | width+1, n => fixedNumeral base width (n / base)++[digitByte (n % base)]

@[simp] theorem length_fixedNumeral (base width n : ℕ) :
    (fixedNumeral base width n).length = width := by
  induction width generalizing n with
  | zero => rfl
  | succ width ih => simp [fixedNumeral,ih]

theorem mem_fixedNumeral {base width n : ℕ} (hb : 0 < base) {b : UInt8}
    (h : b ∈ fixedNumeral base width n) : ∃ d < base, b = digitByte d := by
  induction width generalizing n with
  | zero => cases h
  | succ width ih =>
      rcases List.mem_append.mp h with h | h
      · exact ih h
      · exact ⟨n % base,Nat.mod_lt n hb,List.mem_singleton.mp h⟩

theorem mem_numeral {base n : ℕ} (hb : 1 < base) {b : UInt8} (h : b ∈ numeral base n) :
    ∃ d < base, b = digitByte d := by
  unfold numeral at h
  split_ifs at h with h0
  · exact ⟨0,by omega,List.mem_singleton.mp h⟩
  · obtain ⟨d,hd,rfl⟩ := List.mem_map.mp h
    exact ⟨d,Nat.digits_lt_base hb (List.mem_reverse.mp hd),rfl⟩

theorem numeral_ne_nil (base n : ℕ) : numeral base n ≠ [] := by
  unfold numeral
  split_ifs with h
  · simp
  · simpa using Nat.digits_ne_nil_iff_ne_zero.mpr h

theorem length_numeral_le {base n k : ℕ} (hb : 1 < base) (hk : 0 < k) (h : n < base^k) :
    (numeral base n).length ≤ k := by
  unfold numeral
  split_ifs
  · exact hk
  · simpa using (Nat.digits_length_le_iff hb n).mpr h

end Filly.Numerals
