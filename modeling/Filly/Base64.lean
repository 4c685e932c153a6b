import Mathlib.Tactic

/-!
# Base64

Three bytes are written as four digits of six bits, and what is left over at the end is
padded to four characters. Decoding is strict: the padding stands at the end, and the bits
that it leaves over are zero.
-/
namespace Filly.Base64

def digit (n : ℕ) : UInt8 :=
  if n < 26 then UInt8.ofNat (65+n)
  else if n < 52 then UInt8.ofNat (97+(n-26))
  else if n < 62 then UInt8.ofNat (48+(n-52))
  else if n = 62 then 43 else 47

def value (c : UInt8) : Option ℕ :=
  if 65 ≤ c ∧ c ≤ 90 then some (c.toNat-65)
  else if 97 ≤ c ∧ c ≤ 122 then some (c.toNat-97+26)
  else if 48 ≤ c ∧ c ≤ 57 then some (c.toNat-48+52)
  else if c = 43 then some 62
  else if c = 47 then some 63
  else none

/-- The character `=`. -/
def pad : UInt8 := 61

def encode : List UInt8 → List UInt8
  | [] => []
  | [a] => [digit (a.toNat/4),digit (a.toNat%4*16),pad,pad]
  | [a,b] =>
      [digit (a.toNat/4),digit (a.toNat%4*16+b.toNat/16),digit (b.toNat%16*4),pad]
  | a::b::c::s =>
      digit (a.toNat/4)::digit (a.toNat%4*16+b.toNat/16)::digit (b.toNat%16*4+c.toNat/64)::
        digit (c.toNat%64)::encode s

/-- The bytes of the last four characters, of which one or two are padding. -/
def decodeLast (w x y : UInt8) : Option (List UInt8) := do
  let i ← value w
  let j ← value x
  if y = pad then
    if j%16 = 0 then some [UInt8.ofNat (i*4+j/16)] else none
  else
    let k ← value y
    if k%4 = 0 then some [UInt8.ofNat (i*4+j/16),UInt8.ofNat (j%16*16+k/4)] else none

def decode : List UInt8 → Option (List UInt8)
  | [] => some []
  | w::x::y::z::s =>
      if z = pad then
        if s = [] then decodeLast w x y else none
      else do
        let i ← value w
        let j ← value x
        let k ← value y
        let l ← value z
        let bs ← decode s
        some (UInt8.ofNat (i*4+j/16)::UInt8.ofNat (j%16*16+k/4)::UInt8.ofNat (k%4*64+l)::bs)
  | _ => none

theorem value_digit {n : ℕ} (h : n < 64) : value (digit n) = some n := by
  have hall : ∀ m : Fin 64, value (digit m) = some (m:ℕ) := by decide
  exact hall ⟨n,h⟩

theorem digit_ne_pad (n : ℕ) (h : n < 64) : digit n ≠ pad := by
  have hall : ∀ m : Fin 64, digit m ≠ pad := by decide
  exact hall ⟨n,h⟩

theorem length_encode (s : List UInt8) : (encode s).length = 4*((s.length+2)/3) := by
  fun_induction encode s with
  | case1 => rfl
  | case2 a => simp
  | case3 a b => simp
  | case4 a b c s ih =>
      simp only [List.length_cons,ih]
      omega

theorem ofNat_eq {n : ℕ} {a : UInt8} (h : n = a.toNat) : UInt8.ofNat n = a := by
  rw [h,UInt8.ofNat_toNat]

/-- Decoding gives back what was encoded. -/
theorem decode_encode (s : List UInt8) : decode (encode s) = some s := by
  fun_induction encode s with
  | case1 => rfl
  | case2 a =>
      have ha := a.toNat_lt
      rw [decode,if_pos rfl,if_pos rfl,decodeLast,value_digit (by omega),value_digit (by omega)]
      simp only [Option.bind_eq_bind,Option.bind_some,if_true]
      rw [if_pos (by omega),ofNat_eq (a := a) (by omega)]
  | case3 a b =>
      have ha := a.toNat_lt
      have hb := b.toNat_lt
      rw [decode,if_pos rfl,if_pos rfl,decodeLast,value_digit (by omega),value_digit (by omega),
        value_digit (by omega)]
      simp only [Option.bind_eq_bind,Option.bind_some]
      rw [if_neg (digit_ne_pad _ (by omega)),if_pos (by omega),ofNat_eq (a := a) (by omega),
        ofNat_eq (a := b) (by omega)]
  | case4 a b c s ih =>
      have ha := a.toNat_lt
      have hb := b.toNat_lt
      have hc := c.toNat_lt
      rw [decode,if_neg (digit_ne_pad _ (by omega)),value_digit (by omega),value_digit (by omega),
        value_digit (by omega),value_digit (by omega),ih]
      simp only [Option.bind_eq_bind,Option.bind_some]
      rw [ofNat_eq (a := a) (by omega),ofNat_eq (a := b) (by omega),ofNat_eq (a := c) (by omega)]

theorem forall_mem_encode {P : UInt8 → Prop} (hdigit : ∀ n < 64, P (digit n)) (hpad : P pad)
    (s : List UInt8) : ∀ c ∈ encode s, P c := by
  fun_induction encode s with
  | case1 => exact List.forall_mem_nil P
  | case2 a =>
      have ha := a.toNat_lt
      simp only [List.forall_mem_cons]
      exact ⟨hdigit _ (by omega),hdigit _ (by omega),hpad,hpad,List.forall_mem_nil P⟩
  | case3 a b =>
      have ha := a.toNat_lt
      have hb := b.toNat_lt
      simp only [List.forall_mem_cons]
      exact ⟨hdigit _ (by omega),hdigit _ (by omega),hdigit _ (by omega),hpad,
        List.forall_mem_nil P⟩
  | case4 a b c s ih =>
      have ha := a.toNat_lt
      have hb := b.toNat_lt
      have hc := c.toNat_lt
      simp only [List.forall_mem_cons]
      exact ⟨hdigit _ (by omega),hdigit _ (by omega),hdigit _ (by omega),hdigit _ (by omega),ih⟩

/-- The digits are characters of a text. -/
theorem zero_notMem_encode (s : List UInt8) : 0 ∉ encode s := by
  have hdigit : ∀ m : Fin 64, digit m ≠ 0 := by decide
  exact fun hzero => forall_mem_encode (P := (· ≠ 0)) (fun n hn => hdigit ⟨n,hn⟩) (by decide) s 0
    hzero rfl

end Filly.Base64
