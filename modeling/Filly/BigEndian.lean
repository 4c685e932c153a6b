import Mathlib.Data.UInt
import Mathlib.Tactic

/-!
# Big-endian words over bytes

A word of a fixed number of bytes is written most significant byte first. The
writer side extracts each byte by an arithmetic shift of an integer, so one
statement serves unsigned values and two's complement values alike; the reader
side accumulates by shift and bitwise or, as byte-oriented readers do.
-/
namespace Filly.BigEndian

/-- The low eight bits of an integer, in two's complement. -/
def lowByte (v : ℤ) : UInt8 := UInt8.ofNat (v % 256).toNat

theorem lowByte_toNat (v : ℤ) : ((lowByte v).toNat : ℤ) = v % 256 := by
  have h₀ : 0 ≤ v % 256 := Int.emod_nonneg _ (by norm_num)
  have h₁ : v % 256 < 256 := Int.emod_lt_of_pos _ (by norm_num)
  rw [lowByte,UInt8.toNat_ofNat']
  omega

/-- The `n` low bytes of `v`, most significant first. -/
def word (v : ℤ) : ℕ → List UInt8
  | 0 => []
  | n+1 => lowByte (v >>> (8*n))::word v n

@[simp] theorem word_length (v : ℤ) (n : ℕ) : (word v n).length = n := by
  induction n with
  | zero => rfl
  | succ n ih => simp only [word,List.length_cons,ih]

/-- One accumulation step of a reader: shift in the next byte. -/
def shiftIn (acc : ℕ) (b : UInt8) : ℕ := (acc <<< 8) ||| b.toNat

theorem shiftIn_eq (acc : ℕ) (b : UInt8) : shiftIn acc b = acc*256+b.toNat := by
  have hb : b.toNat < 2^8 := b.toNat_lt
  rw [shiftIn,← Nat.shiftLeft_add_eq_or_of_lt hb,Nat.shiftLeft_eq]

/-- The value accumulated from a byte list, starting from `acc`. -/
def accumulate (acc : ℕ) (bs : List UInt8) : ℕ := bs.foldl shiftIn acc

theorem emod_pow_succ (v : ℤ) (n : ℕ) :
    v % 256^(n+1) = v / 256^n % 256*256^n+v % 256^n := by
  have hd := Int.emod_add_mul_ediv v (256^n)
  have hq := Int.emod_add_mul_ediv (v / 256^n) 256
  have hlo : 0 ≤ v % 256^n := Int.emod_nonneg _ (by positivity)
  have hlt : v % 256^n < 256^n := Int.emod_lt_of_pos _ (by positivity)
  have hb : 0 ≤ v / 256^n % 256 := Int.emod_nonneg _ (by norm_num)
  have hc : v / 256^n % 256 < 256 := Int.emod_lt_of_pos _ (by norm_num)
  have he : v = (v / 256^n % 256*256^n+v % 256^n)+256^(n+1)*(v / 256^n / 256) := by
    rw [pow_succ]
    linear_combination -hd-256^n*hq
  conv_lhs => rw [he]
  rw [Int.add_mul_emod_self_left]
  apply Int.emod_eq_of_lt (by positivity)
  rw [pow_succ]
  nlinarith

theorem accumulate_word (acc : ℕ) (v : ℤ) (n : ℕ) :
    (accumulate acc (word v n) : ℤ) = acc*256^n+v % 256^n := by
  induction n generalizing acc with
  | zero => simp [accumulate,word]
  | succ n ih =>
      have hs : v >>> (8*n) = v / 256^n := by
        rw [Int.shiftRight_eq_div_pow,pow_mul]
        norm_num
      change (accumulate (shiftIn acc (lowByte (v >>> (8*n)))) (word v n) : ℤ) = _
      rw [ih,shiftIn_eq,emod_pow_succ,hs]
      push_cast
      rw [lowByte_toNat]
      ring

/-- A value that fits its width is recovered exactly. -/
theorem accumulate_word_of_lt (v n : ℕ) (h : v < 256^n) :
    accumulate 0 (word v n) = v := by
  have hw := accumulate_word 0 v n
  have hm : (v : ℤ) % 256^n = v := Int.emod_eq_of_lt (by omega) (by exact_mod_cast h)
  rw [hm] at hw
  simpa using hw

/-- The two's complement reading of the low `8*n` bits. -/
def signed (n acc : ℕ) : ℤ := Int.bmod acc (256^n)

theorem signed_accumulate_word (v : ℤ) (n : ℕ) (lo : -(256^n/2 : ℤ) ≤ v)
    (hi : v < (256^n+1)/2) : signed n (accumulate 0 (word v n)) = v := by
  have hw : (accumulate 0 (word v n) : ℤ) = v % ((256^n : ℕ) : ℤ) := by
    rw [accumulate_word]
    push_cast
    ring
  rw [signed,hw,Int.emod_bmod]
  apply Int.bmod_eq_of_le
  · push_cast; exact lo
  · push_cast; exact hi

end Filly.BigEndian
