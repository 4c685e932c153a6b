import Filly.CJsonPrint

/-!
# Colour texts of `theme.c`

A colour is a word of four channels, alpha first. `parse_color` reads the text
`#rrggbb` or `#rrggbbaa` with `sscanf`, and `color_to_hex` writes `#aarrggbb`, so
a text that was written and read again has its channels moved by one place.

`resolve_var` replaces a variable by its value once and evaluates a call whose
arguments end at the first closing parenthesis. A float is the rational it stands
for, rounded to single precision after each operation; `none` stands for the
infinities and for no number, which all convert to the smallest `int`.
-/
namespace Filly.Themes
open CJson Numerals

/-! ## Words of four channels -/

def pack (a r g b : UInt32) : UInt32 := a <<< 24 ||| r <<< 16 ||| g <<< 8 ||| b

def alpha (c : UInt32) : UInt32 := c >>> 24 &&& 0xFF
def red (c : UInt32) : UInt32 := c >>> 16 &&& 0xFF
def green (c : UInt32) : UInt32 := c >>> 8 &&& 0xFF
def blue (c : UInt32) : UInt32 := c &&& 0xFF

theorem toNat_lowByte (c : UInt32) : (c &&& 0xFF).toNat = c.toNat % 256 := by
  rw [UInt32.toNat_and,show (0xFF : UInt32).toNat = 2^8-1 from rfl,Nat.and_two_pow_sub_one_eq_mod]

theorem toNat_alpha (c : UInt32) : (alpha c).toNat = c.toNat / 2^24 % 256 := by
  rw [alpha,toNat_lowByte,UInt32.toNat_shiftRight]
  exact congrArg (· % 256) (Nat.shiftRight_eq_div_pow _ _)

theorem toNat_red (c : UInt32) : (red c).toNat = c.toNat / 2^16 % 256 := by
  rw [red,toNat_lowByte,UInt32.toNat_shiftRight]
  exact congrArg (· % 256) (Nat.shiftRight_eq_div_pow _ _)

theorem toNat_green (c : UInt32) : (green c).toNat = c.toNat / 2^8 % 256 := by
  rw [green,toNat_lowByte,UInt32.toNat_shiftRight]
  exact congrArg (· % 256) (Nat.shiftRight_eq_div_pow _ _)

theorem toNat_blue (c : UInt32) : (blue c).toNat = c.toNat % 256 := toNat_lowByte c

/-- A channel has one byte. -/
def IsByte (v : UInt32) : Prop := v.toNat < 256

theorem isByte_alpha (c : UInt32) : IsByte (alpha c) := by
  rw [IsByte,toNat_alpha]
  omega

theorem isByte_red (c : UInt32) : IsByte (red c) := by
  rw [IsByte,toNat_red]
  omega

theorem isByte_green (c : UInt32) : IsByte (green c) := by
  rw [IsByte,toNat_green]
  omega

theorem isByte_blue (c : UInt32) : IsByte (blue c) := by
  rw [IsByte,toNat_blue]
  omega

theorem toNat_shiftLeft_byte {v k : UInt32} (hv : IsByte v) (hk : k.toNat ≤ 24) :
    (v <<< k).toNat = v.toNat*2^k.toNat := by
  have hlt : v.toNat*2^k.toNat < 2^32 :=
    calc v.toNat*2^k.toNat < 2^8*2^k.toNat := Nat.mul_lt_mul_of_pos_right hv (by positivity)
      _ ≤ 2^8*2^24 := Nat.mul_le_mul_left _ (Nat.pow_le_pow_right (by norm_num) hk)
      _ = 2^32 := by norm_num
  rw [UInt32.toNat_shiftLeft,Nat.shiftLeft_eq,Nat.mod_eq_of_lt (by omega : k.toNat < 32),
    Nat.mod_eq_of_lt hlt]

theorem toNat_pack {a r g b : UInt32} (ha : IsByte a) (hr : IsByte r) (hg : IsByte g)
    (hb : IsByte b) : (pack a r g b).toNat = a.toNat*2^24+r.toNat*2^16+g.toNat*2^8+b.toNat := by
  unfold IsByte at ha hr hg hb
  have h₁ : (a <<< 24).toNat = a.toNat*2^24 := toNat_shiftLeft_byte ha (by decide)
  have h₂ : (r <<< 16).toNat = r.toNat*2^16 := toNat_shiftLeft_byte hr (by decide)
  have h₃ : (g <<< 8).toNat = g.toNat*2^8 := toNat_shiftLeft_byte hg (by decide)
  -- Each channel falls on zeros of what stands before it.
  have h₁₂ : a.toNat*2^24 ||| r.toNat*2^16 = a.toNat*2^24+r.toNat*2^16 := by
    rw [← Nat.shiftLeft_eq a.toNat,Nat.shiftLeft_add_eq_or_of_lt (by omega)]
  have h₁₃ : (a.toNat*2^24+r.toNat*2^16) ||| g.toNat*2^8 =
      a.toNat*2^24+r.toNat*2^16+g.toNat*2^8 := by
    rw [show a.toNat*2^24+r.toNat*2^16 = (a.toNat*2^8+r.toNat)*2^16 by ring,
      ← Nat.shiftLeft_eq _ 16,Nat.shiftLeft_add_eq_or_of_lt (by omega)]
  have h₁₄ : (a.toNat*2^24+r.toNat*2^16+g.toNat*2^8) ||| b.toNat =
      a.toNat*2^24+r.toNat*2^16+g.toNat*2^8+b.toNat := by
    rw [show a.toNat*2^24+r.toNat*2^16+g.toNat*2^8 = (a.toNat*2^16+r.toNat*2^8+g.toNat)*2^8 by ring,
      ← Nat.shiftLeft_eq _ 8,Nat.shiftLeft_add_eq_or_of_lt (by omega)]
  rw [pack,UInt32.toNat_or,UInt32.toNat_or,UInt32.toNat_or,h₁,h₂,h₃,h₁₂,h₁₃,h₁₄]

theorem pack_channels (c : UInt32) : pack (alpha c) (red c) (green c) (blue c) = c := by
  apply UInt32.toNat_inj.mp
  rw [toNat_pack (isByte_alpha c) (isByte_red c) (isByte_green c) (isByte_blue c),toNat_alpha,
    toNat_red,toNat_green,toNat_blue]
  have := c.toNat_lt
  omega

theorem pack_inj {a r g b a' r' g' b' : UInt32} (ha : IsByte a) (hr : IsByte r) (hg : IsByte g)
    (hb : IsByte b) (ha' : IsByte a') (hr' : IsByte r') (hg' : IsByte g') (hb' : IsByte b') :
    pack a r g b = pack a' r' g' b' ↔ a = a' ∧ r = r' ∧ g = g' ∧ b = b' := by
  rw [← UInt32.toNat_inj,toNat_pack ha hr hg hb,toNat_pack ha' hr' hg' hb']
  simp only [← UInt32.toNat_inj]
  unfold IsByte at *
  omega

theorem channels_pack {a r g b : UInt32} (ha : IsByte a) (hr : IsByte r) (hg : IsByte g)
    (hb : IsByte b) : alpha (pack a r g b) = a ∧ red (pack a r g b) = r ∧
      green (pack a r g b) = g ∧ blue (pack a r g b) = b := by
  have h := pack_channels (pack a r g b)
  rwa [pack_inj (isByte_alpha _) (isByte_red _) (isByte_green _) (isByte_blue _) ha hr hg hb] at h

/-! ## Reading and writing -/

def isSpace (b : UInt8) : Bool := b = 32 || (9 ≤ b && b ≤ 13)

/-- The conversion `%02x`: at most two characters after the spaces, of which the
first may be a sign and the second the `x` of a base. -/
def scanHex (s : Bytes) : Option (UInt32 × Bytes) :=
  match s.dropWhile isSpace with
  | [] => none
  | c::t =>
      if c = 43 || c = 45 then
        match t with
        | [] => none
        | d::t => (hexDigit d).map fun n => (if c = 45 then -UInt32.ofNat n else UInt32.ofNat n,t)
      else match hexDigit c with
        | none => none
        | some n => match t with
          | [] => some (UInt32.ofNat n,[])
          | d::u =>
              if c = 48 && (d = 120 || d = 88) then some (0,u)
              else match hexDigit d with
                | none => some (UInt32.ofNat n,d::u)
                | some m => some (UInt32.ofNat (n*16+m),u)

/-- The values that `sscanf` stores before its first failure. -/
def scanChannels : ℕ → Bytes → List UInt32
  | 0, _ => []
  | n+1, s => match scanHex s with
    | none => []
    | some v => v.1::scanChannels n v.2

/-- A text of another length leaves the channels as they were set before. -/
def parseColor : Option Bytes → UInt32
  | none => 0xFF000000
  | some s =>
      let s := if s.head? = some 35 then s.tail else s
      let v := if s.length = 6 then scanChannels 3 s
        else if s.length = 8 then scanChannels 4 s else []
      pack (v.getD 3 255) (v.getD 0 0) (v.getD 1 0) (v.getD 2 0)

/-- `%02x` of a channel. -/
def hexByte (c : UInt32) : Bytes := fixedNumeral 16 2 c.toNat

def colorToHex (c : UInt32) : Bytes :=
  35::(hexByte (alpha c)++hexByte (red c)++hexByte (green c)++hexByte (blue c))

/-! ## Colour functions -/

/-- The conversion of a float to `int`. -/
def toInt : Option ℚ → ℤ
  | some q => if 0 ≤ q then ⌊q⌋ else ⌈q⌉
  | none => -2^31

def clampInt (v lo hi : ℤ) : ℤ := if v < lo then lo else if hi < v then hi else v

/-- The double that `atof` returns, converted to single precision. -/
inductive Amount where
  | finite (q : ℚ)
  | infinite (negative : Bool)
  | nan
  deriving DecidableEq, Repr

def clampFloat : Amount → ℚ → ℚ → Option ℚ
  | .finite v, lo, hi => some (if v < lo then lo else if hi < v then hi else v)
  | .infinite true, lo, _ => some lo
  | .infinite false, _, hi => some hi
  | .nan, _, _ => none

def word (v : ℤ) : UInt32 := UInt32.ofNat (v % 2^32).toNat

/-- `(int)(255*amount)`. -/
def share (amount : Option ℚ) : ℤ := toInt (amount.bind fun m => binary32 (255*m))

def colorLighten (c : UInt32) (amount : Option ℚ) : UInt32 :=
  let lighter (v : UInt32) := word (clampInt (v.toNat+share amount) 0 255)
  pack (alpha c) (lighter (red c)) (lighter (green c)) (lighter (blue c))

def colorDarken (c : UInt32) (amount : Option ℚ) : UInt32 :=
  let darker (v : UInt32) := word (clampInt (v.toNat-share amount) 0 255)
  pack (alpha c) (darker (red c)) (darker (green c)) (darker (blue c))

def colorAlpha (c : UInt32) (amount : Option ℚ) : UInt32 :=
  let a := clampInt (toInt (amount.bind fun m => binary32 ((alpha c).toNat*m))) 0 255
  word a <<< 24 ||| c &&& 0x00FFFFFF

/-- `(int)(v1*(1-t)+v2*t)`. -/
def mixChannel (t : Option ℚ) (v₁ v₂ : UInt32) : UInt32 :=
  word (toInt (do
    let t ← t
    let u ← binary32 (1-t)
    let p ← binary32 (v₁.toNat*u)
    let q ← binary32 (v₂.toNat*t)
    binary32 (p+q)))

def colorMix (c₁ c₂ : UInt32) (t : Amount) : UInt32 :=
  let t := clampFloat t 0 1
  pack (mixChannel t (alpha c₁) (alpha c₂)) (mixChannel t (red c₁) (red c₂))
    (mixChannel t (green c₁) (green c₂)) (mixChannel t (blue c₁) (blue c₂))

/-! ## Amounts -/

/-- A case-insensitive comparison with the start of a text. -/
def startsLower (word s : Bytes) : Bool :=
  (s.take word.length).map (fun b => if 65 ≤ b && b ≤ 90 then b+32 else b) = word

/-- The value of a hexadecimal numeral: its digits, and the exponent of two. -/
def hexFloat (s : Bytes) : Option (ℕ × ℤ) :=
  let isHex (b : UInt8) := (hexDigit b).isSome
  let whole := s.takeWhile isHex
  let after := s.drop whole.length
  let frac := match after with
    | 46::t => t.takeWhile isHex
    | _ => []
  if whole = [] ∧ frac = [] then none else
    let point := match after with
      | 46::_ => 1
      | _ => 0
    let binary := match after.drop (point+frac.length) with
      | p::t => if p = 112 || p = 80 then (strtodExponent (101::t)).1 else 0
      | [] => 0
    let digits := (whole++frac).foldl (fun n b => n*16+(hexDigit b).getD 0) 0
    some (digits,binary-4*frac.length)

/-- A double that is converted to single precision. -/
def toSingle (negative : Bool) (v : ℚ) : Amount :=
  match binary64 v with
  | none => .infinite negative
  | some v => match binary32 v with
    | none => .infinite negative
    | some v => .finite v

/-- `(float)atof(s)`: an infinity, no number, a hexadecimal or a decimal numeral
after the spaces and a sign, and zero for any other text. -/
def atof (s : Bytes) : Amount :=
  let s := s.dropWhile isSpace
  let negative : Bool := s.head? = some 45
  let body := if s.head? = some 45 ∨ s.head? = some 43 then s.tail else s
  let signed (v : ℚ) : ℚ := if negative then -v else v
  if startsLower (bytes "inf") body then .infinite negative
  else if startsLower (bytes "nan") body then .nan
  else match (if startsLower (bytes "0x") body then hexFloat (body.drop 2) else none) with
    | some h => toSingle negative (signed (h.1*2^h.2))
    | none =>
        -- A second sign is no part of a numeral.
        if body.head? = some 45 ∨ body.head? = some 43 then .finite 0
        else match strtod body with
          | some d => toSingle negative (signed d.1.value)
          | none => .finite 0

/-! ## Variables and calls -/

structure Variable where
  name : Bytes
  value : Bytes
  deriving DecidableEq, Repr

inductive ColorFunction where
  | lighten | darken | alpha
  deriving DecidableEq, Repr

/-- The text of a call up to its arguments. -/
def ColorFunction.opening : ColorFunction → Bytes
  | .lighten => bytes "lighten("
  | .darken => bytes "darken("
  | .alpha => bytes "alpha("

/-- The colour computed, with the amounts 0.2f and 0.5f. -/
def ColorFunction.compute : ColorFunction → UInt32 → UInt32
  | .lighten, c => colorLighten c (binary32 (1/5))
  | .darken, c => colorDarken c (binary32 (1/5))
  | .alpha, c => colorAlpha c (binary32 (1/2))

/-- What stands before the first `c`, and what after it. -/
def splitAt (c : UInt8) (s : Bytes) : Option (Bytes × Bytes) :=
  if c ∈ s then some (s.takeWhile (· ≠ c),(s.dropWhile (· ≠ c)).tail) else none

/-- The argument of a call, which ends at the first closing parenthesis. -/
def argument (opening name : Bytes) : Option Bytes :=
  if opening <+: name then (splitAt 41 (name.drop opening.length)).map Prod.fst else none

def functionCall (name : Bytes) : Option (ColorFunction × Bytes) :=
  [ColorFunction.lighten,.darken,.alpha].findSome? fun f =>
    (argument f.opening name).map fun arg => (f,arg)

/-- The three arguments of `mix`. -/
def mixCall (name : Bytes) : Option (Bytes × Bytes × Bytes) :=
  if bytes "mix(" <+: name then do
    let first ← splitAt 44 (name.drop 4)
    let second ← splitAt 44 first.2
    let third ← splitAt 41 second.2
    some (first.1,second.1,third.1)
  else none

theorem splitAt_length {c : UInt8} {s : Bytes} {p : Bytes × Bytes} (h : splitAt c s = some p) :
    p.1.length+p.2.length+1 = s.length := by
  unfold splitAt at h
  split_ifs at h with hc
  cases h
  have hne : s.dropWhile (· ≠ c) ≠ [] := by
    intro hnil
    have := List.dropWhile_eq_nil_iff.mp hnil c hc
    simp at this
  have hpos := List.length_pos_iff.mpr hne
  have hsum := congrArg List.length (List.takeWhile_append_dropWhile (p := (· ≠ c)) (l := s))
  rw [List.length_append] at hsum
  simp only [List.length_tail]
  omega

theorem argument_length {opening name arg : Bytes} (h : argument opening name = some arg) :
    arg.length < name.length := by
  unfold argument at h
  split_ifs at h
  obtain ⟨p,hp,rfl⟩ := Option.map_eq_some_iff.mp h
  have := splitAt_length hp
  rw [List.length_drop] at this
  omega

theorem functionCall_length {name : Bytes} {p : ColorFunction × Bytes}
    (h : functionCall name = some p) : p.2.length < name.length := by
  obtain ⟨f,-,hf⟩ := List.exists_of_findSome?_eq_some h
  obtain ⟨arg,harg,rfl⟩ := Option.map_eq_some_iff.mp hf
  exact argument_length harg

theorem mixCall_length {name : Bytes} {p : Bytes × Bytes × Bytes} (h : mixCall name = some p) :
    p.1.length < name.length ∧ p.2.1.length < name.length := by
  unfold mixCall at h
  split_ifs at h
  obtain ⟨first,hf,h⟩ := Option.bind_eq_some_iff.mp h
  obtain ⟨second,hs,h⟩ := Option.bind_eq_some_iff.mp h
  obtain ⟨third,-,h⟩ := Option.bind_eq_some_iff.mp h
  cases h
  have h₁ := splitAt_length hf
  have h₂ := splitAt_length hs
  rw [List.length_drop] at h₁
  constructor <;> simp only <;> omega

/-- `resolve_var`, with `apply_color_function` in its call. A name that is no
variable stays as it is. -/
def resolveVar (vars : List Variable) (value : Bytes) : Bytes :=
  match value with
  | 36::name =>
      match _h : functionCall name with
      | some (f,arg) => colorToHex (f.compute (parseColor (some (resolveVar vars arg))))
      | none => match _h : mixCall name with
        | some (arg₁,arg₂,amount) =>
            colorToHex (colorMix (parseColor (some (resolveVar vars arg₁)))
              (parseColor (some (resolveVar vars arg₂))) (atof amount))
        | none => match vars.find? (·.name = name) with
          | some v => v.value
          | none => 36::name
  | value => value
  termination_by value.length
  decreasing_by
    · have := functionCall_length _h
      simp only [List.length_cons] at *
      omega
    · have := (mixCall_length _h).1
      simp only [List.length_cons] at *
      omega
    · have := (mixCall_length _h).2
      simp only [List.length_cons] at *
      omega

/-! ## A colour that is written and read -/

theorem scanHex_hexByte {v : UInt32} (hv : IsByte v) (rest : Bytes) :
    scanHex (hexByte v++rest) = some (v,rest) := by
  have digit : ∀ d < 16, hexDigit (digitByte d) = some d ∧ isSpace (digitByte d) = false ∧
      digitByte d ≠ 43 ∧ digitByte d ≠ 45 ∧ digitByte d ≠ 120 ∧ digitByte d ≠ 88 := by decide
  have hhi : v.toNat / 16 % 16 < 16 := Nat.mod_lt _ (by norm_num)
  have hlo : v.toNat % 16 < 16 := Nat.mod_lt _ (by norm_num)
  obtain ⟨h₁,hs,hplus,hminus,-,-⟩ := digit _ hhi
  obtain ⟨h₂,-,-,-,hx,hX⟩ := digit _ hlo
  have htwo : hexByte v++rest =
      digitByte (v.toNat / 16 % 16)::digitByte (v.toNat % 16)::rest := rfl
  have hvalue : v.toNat / 16 % 16*16+v.toNat % 16 = v.toNat := by
    unfold IsByte at hv
    omega
  rw [htwo,scanHex,List.dropWhile_cons_of_neg (by simp [hs])]
  simp [h₁,h₂,hplus,hminus,hx,hX,hvalue]

theorem parseColor_colorToHex (c : UInt32) :
    parseColor (some (colorToHex c)) = pack (blue c) (alpha c) (red c) (green c) := by
  have hlen : (colorToHex c).tail.length = 8 := by simp [colorToHex,hexByte]
  have hscan : scanChannels 4 (colorToHex c).tail = [alpha c,red c,green c,blue c] := by
    have hrest : hexByte (blue c) = hexByte (blue c)++[] := (List.append_nil _).symm
    rw [colorToHex,List.tail_cons,hrest]
    simp only [scanChannels,List.append_assoc,scanHex_hexByte (isByte_alpha c),
      scanHex_hexByte (isByte_red c),scanHex_hexByte (isByte_green c),
      scanHex_hexByte (isByte_blue c)]
  have hhead : (colorToHex c).head? = some 35 := rfl
  simp only [parseColor,if_pos hhead,hlen,hscan]
  rfl

/-! ## Texts of calls -/

/-- The colour of a property's text. -/
def colorOf (vars : List Variable) (value : Bytes) : UInt32 :=
  parseColor (some (resolveVar vars value))

/-- The text of a call, `$lighten(arg)` and the like. -/
def ColorFunction.text (f : ColorFunction) (arg : Bytes) : Bytes := 36::(f.opening++(arg++[41]))

def mixText (arg₁ arg₂ amount : Bytes) : Bytes :=
  36::(bytes "mix("++(arg₁++44::(arg₂++44::(amount++[41]))))

/-- What stands between the parenthesis, the commas and the parenthesis that the
source finds first in the text of a mixture. -/
def mixArguments (arg₁ arg₂ amount : Bytes) : Bytes × Bytes × Bytes :=
  let s := arg₁++44::(arg₂++44::(amount++[41]))
  let r := (s.dropWhile (· ≠ 44)).tail
  (s.takeWhile (· ≠ 44),r.takeWhile (· ≠ 44),((r.dropWhile (· ≠ 44)).tail).takeWhile (· ≠ 41))

theorem functionCall_text (f : ColorFunction) (arg : Bytes) :
    functionCall (f.opening++(arg++[41])) = some (f,arg.takeWhile (· ≠ 41)) := by
  have hsplit : (splitAt 41 (arg++[41])).map Prod.fst = some (arg.takeWhile (· ≠ 41)) := by
    rw [splitAt,if_pos (by simp),Option.map_some]
    congr 1
    induction arg with
    | nil => rfl
    | cons b arg ih =>
        by_cases hb : b = 41
        · simp [hb]
        · simpa [hb] using ih
  have hopen : argument f.opening (f.opening++(arg++[41])) = some (arg.takeWhile (· ≠ 41)) := by
    rw [argument,if_pos (List.prefix_append _ _),List.drop_left,hsplit]
  cases f with
  | lighten => simp [functionCall,hopen]
  | darken =>
      have h₁ : argument (ColorFunction.opening .lighten)
          (ColorFunction.opening .darken++(arg++[41])) = none := rfl
      simp [functionCall,h₁,hopen]
  | alpha =>
      have h₁ : argument (ColorFunction.opening .lighten)
          (ColorFunction.opening .alpha++(arg++[41])) = none := rfl
      have h₂ : argument (ColorFunction.opening .darken)
          (ColorFunction.opening .alpha++(arg++[41])) = none := rfl
      simp [functionCall,h₁,h₂,hopen]

theorem resolveVar_call (vars : List Variable) {name : Bytes} {p : ColorFunction × Bytes}
    (h : functionCall name = some p) :
    resolveVar vars (36::name) = colorToHex (p.1.compute (colorOf vars p.2)) := by
  rw [resolveVar]
  split
  · rename_i h'
    rw [h] at h'
    cases h'
    rfl
  · rename_i h'
    rw [h] at h'
    cases h'

theorem resolveVar_mix (vars : List Variable) {name : Bytes} {p : Bytes × Bytes × Bytes}
    (hno : functionCall name = none) (h : mixCall name = some p) :
    resolveVar vars (36::name) =
      colorToHex (colorMix (colorOf vars p.1) (colorOf vars p.2.1) (atof p.2.2)) := by
  rw [resolveVar]
  split
  · rename_i h'
    rw [hno] at h'
    cases h'
  · split
    · rename_i h'
      rw [h] at h'
      cases h'
      rfl
    · rename_i h'
      rw [h] at h'
      cases h'

theorem resolveVar_text (vars : List Variable) (f : ColorFunction) (arg : Bytes) :
    resolveVar vars (f.text arg) =
      colorToHex (f.compute (colorOf vars (arg.takeWhile (· ≠ 41)))) := by
  rw [ColorFunction.text,resolveVar_call vars (functionCall_text f arg)]

theorem suffix_splitAt (c : UInt8) (s t : Bytes) : t <:+ ((s++c::t).dropWhile (· ≠ c)).tail := by
  induction s with
  | nil => simp
  | cons b s ih =>
      by_cases hb : b = c
      · simp only [hb,List.cons_append]
        rw [List.dropWhile_cons_of_neg (by simp),List.tail_cons]
        exact (List.suffix_cons c t).trans (List.suffix_append s _)
      · rw [List.cons_append,List.dropWhile_cons_of_pos (by simpa using hb)]
        exact ih

theorem mixCall_text (arg₁ arg₂ amount : Bytes) :
    mixCall (bytes "mix("++(arg₁++44::(arg₂++44::(amount++[41])))) =
      some (mixArguments arg₁ arg₂ amount) := by
  obtain ⟨u,hu⟩ := suffix_splitAt 44 arg₁ (arg₂++44::(amount++[41]))
  have hr : ((arg₁++44::(arg₂++44::(amount++[41]))).dropWhile (· ≠ 44)).tail =
      (u++arg₂)++44::(amount++[41]) := by
    rw [← hu,List.append_assoc]
  obtain ⟨w,hw⟩ := suffix_splitAt 44 (u++arg₂) (amount++[41])
  have h₁ : (44 : UInt8) ∈ arg₁++44::(arg₂++44::(amount++[41])) := by simp
  have h₂ : (44 : UInt8) ∈ (u++arg₂)++44::(amount++[41]) := by simp
  have h₃ : (41 : UInt8) ∈ (((u++arg₂)++44::(amount++[41])).dropWhile (· ≠ 44)).tail := by
    rw [← hw]
    simp
  have hdrop : List.drop 4 (bytes "mix("++(arg₁++44::(arg₂++44::(amount++[41])))) =
      arg₁++44::(arg₂++44::(amount++[41])) := rfl
  rw [mixCall,if_pos (List.prefix_append _ _),hdrop]
  simp only [splitAt,if_pos h₁,Option.bind_eq_bind,Option.bind_some,hr,if_pos h₂,if_pos h₃,
    mixArguments]

theorem resolveVar_mixText (vars : List Variable) (arg₁ arg₂ amount : Bytes) :
    resolveVar vars (mixText arg₁ arg₂ amount) =
      let p := mixArguments arg₁ arg₂ amount
      colorToHex (colorMix (colorOf vars p.1) (colorOf vars p.2.1) (atof p.2.2)) := by
  have hno : functionCall (bytes "mix("++(arg₁++44::(arg₂++44::(amount++[41])))) = none := rfl
  rw [mixText,resolveVar_mix vars hno (mixCall_text arg₁ arg₂ amount)]

/-! ## Channels of the results -/

/-- The channels of a colour as numbers. -/
structure Channels where
  alpha : ℕ
  red : ℕ
  green : ℕ
  blue : ℕ
  deriving DecidableEq, Repr

def channels (c : UInt32) : Channels :=
  ⟨(alpha c).toNat,(red c).toNat,(green c).toNat,(blue c).toNat⟩

/-- What is written in the order of `color_to_hex` and read in that of
`parse_color`. -/
def Channels.moved (x : Channels) : Channels := ⟨x.blue,x.alpha,x.red,x.green⟩

def ColorFunction.channels : ColorFunction → Channels → Channels
  | .lighten, x => ⟨x.alpha,min 255 (x.red+51),min 255 (x.green+51),min 255 (x.blue+51)⟩
  | .darken, x => ⟨x.alpha,x.red-51,x.green-51,x.blue-51⟩
  | .alpha, x => ⟨x.alpha / 2,x.red,x.green,x.blue⟩

/-- A channel of a mixture in single precision. -/
def mixed (t : ℚ) (v₁ v₂ : ℕ) : ℕ :=
  (toInt (do
    let u ← binary32 (1-t)
    let p ← binary32 (v₁*u)
    let q ← binary32 (v₂*t)
    binary32 (p+q))).toNat

/-- An amount that is no number makes each channel the smallest `int`, of which
one bit is left. -/
def mixedChannels : Option ℚ → Channels → Channels → Channels
  | none, _, _ => ⟨128,0,0,0⟩
  | some t, x, y => ⟨mixed t x.alpha y.alpha,mixed t x.red y.red,mixed t x.green y.green,
      mixed t x.blue y.blue⟩

theorem channels_inj {c d : UInt32} : channels c = channels d ↔ c = d := by
  refine ⟨fun h => ?_,fun h => h ▸ rfl⟩
  obtain ⟨ha,hr,hg,hb⟩ := Channels.mk.injEq .. ▸ h
  rw [← pack_channels c,← pack_channels d,UInt32.toNat_inj.mp ha,UInt32.toNat_inj.mp hr,
    UInt32.toNat_inj.mp hg,UInt32.toNat_inj.mp hb]

theorem channels_pack_eq {a r g b : UInt32} (ha : IsByte a) (hr : IsByte r) (hg : IsByte g)
    (hb : IsByte b) : channels (pack a r g b) = ⟨a.toNat,r.toNat,g.toNat,b.toNat⟩ := by
  obtain ⟨h₁,h₂,h₃,h₄⟩ := channels_pack ha hr hg hb
  rw [channels,h₁,h₂,h₃,h₄]

theorem channels_parseColor_colorToHex (c : UInt32) :
    channels (parseColor (some (colorToHex c))) = (channels c).moved := by
  rw [parseColor_colorToHex,
    channels_pack_eq (isByte_blue c) (isByte_alpha c) (isByte_red c) (isByte_green c)]
  rfl

theorem moved_eq_iff (x : Channels) :
    x.moved = x ↔ x.alpha = x.red ∧ x.red = x.green ∧ x.green = x.blue := by
  cases x with
  | mk a r g b =>
      simp only [Channels.moved,Channels.mk.injEq]
      omega

theorem toNat_word {v : ℤ} (h₀ : 0 ≤ v) (h : v < 256) : (word v).toNat = v.toNat := by
  rw [word,UInt32.toNat_ofNat',Int.emod_eq_of_lt h₀ (by omega),Nat.mod_eq_of_lt (by omega)]

theorem clampInt_range (v : ℤ) : 0 ≤ clampInt v 0 255 ∧ clampInt v 0 255 < 256 := by
  unfold clampInt
  split_ifs <;> omega

theorem isByte_word_clampInt (v : ℤ) : IsByte (word (clampInt v 0 255)) := by
  obtain ⟨h₀,h⟩ := clampInt_range v
  rw [IsByte,toNat_word h₀ h]
  omega

theorem share_fifth : share (binary32 (1/5)) = 51 := by decide +kernel

theorem toInt_half (v : UInt32) (hv : IsByte v) :
    toInt ((binary32 (1/2)).bind fun m => binary32 (v.toNat*m)) = (v.toNat / 2 : ℕ) := by
  have h : ∀ n < 256, toInt ((binary32 (1/2)).bind fun m => binary32 ((n : ℕ)*m)) =
      (n / 2 : ℕ) := by decide +kernel
  exact h v.toNat hv

theorem channels_colorLighten (c : UInt32) :
    channels (colorLighten c (binary32 (1/5))) = ColorFunction.lighten.channels (channels c) := by
  have hv (v : UInt32) : (word (clampInt (v.toNat+51) 0 255)).toNat = min 255 (v.toNat+51) := by
    rw [toNat_word (clampInt_range _).1 (clampInt_range _).2,clampInt]
    split_ifs <;> omega
  rw [colorLighten,share_fifth]
  simp only
  rw [channels_pack_eq (isByte_alpha c) (isByte_word_clampInt _) (isByte_word_clampInt _)
    (isByte_word_clampInt _),hv,hv,hv]
  rfl

theorem channels_colorDarken (c : UInt32) :
    channels (colorDarken c (binary32 (1/5))) = ColorFunction.darken.channels (channels c) := by
  have hv (v : UInt32) (hbyte : IsByte v) :
      (word (clampInt (v.toNat-51) 0 255)).toNat = v.toNat-51 := by
    unfold IsByte at hbyte
    rw [toNat_word (clampInt_range _).1 (clampInt_range _).2,clampInt]
    split_ifs <;> omega
  rw [colorDarken,share_fifth]
  simp only
  rw [channels_pack_eq (isByte_alpha c) (isByte_word_clampInt _) (isByte_word_clampInt _)
    (isByte_word_clampInt _),hv _ (isByte_red c),hv _ (isByte_green c),hv _ (isByte_blue c)]
  rfl

/-- The lower three channels stay where they are. -/
theorem shiftLeft_or_low {a : UInt32} (ha : IsByte a) (c : UInt32) :
    a <<< 24 ||| c &&& 0x00FFFFFF = pack a (red c) (green c) (blue c) := by
  apply UInt32.toNat_inj.mp
  rw [toNat_pack ha (isByte_red c) (isByte_green c) (isByte_blue c),toNat_red,toNat_green,
    toNat_blue,UInt32.toNat_or,UInt32.toNat_and,toNat_shiftLeft_byte ha (by decide),
    show (0x00FFFFFF : UInt32).toNat = 2^24-1 from rfl,Nat.and_two_pow_sub_one_eq_mod,
    show (24 : UInt32).toNat = 24 from rfl,← Nat.shiftLeft_eq a.toNat 24,
    ← Nat.shiftLeft_add_eq_or_of_lt (Nat.mod_lt _ (by norm_num)),Nat.shiftLeft_eq]
  omega

theorem channels_colorAlpha (c : UInt32) :
    channels (colorAlpha c (binary32 (1/2))) = ColorFunction.alpha.channels (channels c) := by
  have hbyte := isByte_alpha c
  rw [colorAlpha,shiftLeft_or_low (isByte_word_clampInt _),channels_pack_eq (isByte_word_clampInt _)
    (isByte_red c) (isByte_green c) (isByte_blue c),toInt_half _ hbyte,
    toNat_word (clampInt_range _).1 (clampInt_range _).2]
  have hhalf : (clampInt ((alpha c).toNat / 2 : ℕ) 0 255).toNat = (alpha c).toNat / 2 := by
    unfold IsByte at hbyte
    unfold clampInt
    split_ifs <;> omega
  rw [hhalf]
  rfl

theorem channels_compute (f : ColorFunction) (c : UInt32) :
    channels (f.compute c) = f.channels (channels c) := by
  cases f with
  | lighten => exact channels_colorLighten c
  | darken => exact channels_colorDarken c
  | alpha => exact channels_colorAlpha c

/-- A mixture of two bytes is a byte: the four roundings move it by less than one. -/
theorem mixed_spec {t : ℚ} (h₀ : 0 ≤ t) (h₁ : t ≤ 1) {v₁ v₂ : ℕ} (hv₁ : v₁ < 256)
    (hv₂ : v₂ < 256) :
    ∃ w, (do
      let u ← binary32 (1-t)
      let p ← binary32 (v₁*u)
      let q ← binary32 (v₂*t)
      binary32 (p+q)) = some w ∧ 0 ≤ w ∧ w < 256 := by
  have hb₁ : (v₁ : ℚ) ≤ 255 := by exact_mod_cast Nat.le_of_lt_succ hv₁
  have hb₂ : (v₂ : ℚ) ≤ 255 := by exact_mod_cast Nat.le_of_lt_succ hv₂
  obtain ⟨u,hu,hu₀,herr⟩ := binary32_near (v := 1-t) (k := 1) (by linarith)
    (by norm_num; linarith) (by norm_num) (by norm_num)
  have hu₁ : u ≤ 1-t+1/2^24 := by
    have := (abs_le.mp herr).2
    norm_num at this ⊢
    linarith
  have hp : (v₁ : ℚ)*u ≤ 255*(1-t+1/2^24) := mul_le_mul hb₁ hu₁ hu₀ (by norm_num)
  have hq : (v₂ : ℚ)*t ≤ 255*t := mul_le_mul_of_nonneg_right hb₂ h₀
  obtain ⟨p,hp',hp₀,herrp⟩ := binary32_near (v := v₁*u) (k := 8) (by positivity)
    (by norm_num at hp ⊢; linarith) (by norm_num) (by norm_num)
  obtain ⟨q,hq',hq₀,herrq⟩ := binary32_near (v := v₂*t) (k := 8) (by positivity)
    (by norm_num at hq ⊢; linarith) (by norm_num) (by norm_num)
  have hp₁ := (abs_le.mp herrp).2
  have hq₁ := (abs_le.mp herrq).2
  norm_num at hp hp₁ hq₁
  obtain ⟨w,hw,hw₀,herrw⟩ := binary32_near (v := p+q) (k := 9) (by positivity)
    (by norm_num; linarith) (by norm_num) (by norm_num)
  have hw₁ := (abs_le.mp herrw).2
  norm_num at hw₁
  exact ⟨w,by simp [hu,hp',hq',hw],hw₀,by linarith⟩

theorem toNat_mixChannel {t : ℚ} (h₀ : 0 ≤ t) (h₁ : t ≤ 1) {v₁ v₂ : UInt32} (hv₁ : IsByte v₁)
    (hv₂ : IsByte v₂) : IsByte (mixChannel (some t) v₁ v₂) ∧
      (mixChannel (some t) v₁ v₂).toNat = mixed t v₁.toNat v₂.toNat := by
  obtain ⟨w,hw,hw₀,hw₁⟩ := mixed_spec h₀ h₁ hv₁ hv₂
  have hfloor₀ : 0 ≤ ⌊w⌋ := Int.floor_nonneg.mpr hw₀
  have hfloor₁ : ⌊w⌋ < 256 := Int.floor_lt.mpr (by exact_mod_cast hw₁)
  have hword : mixChannel (some t) v₁ v₂ = word ⌊w⌋ := by
    have hsome : ∀ f : ℚ → Option ℚ, (some t >>= f) = f t := fun _ => rfl
    rw [mixChannel,hsome,hw,toInt,if_pos hw₀]
  have hmixed : mixed t v₁.toNat v₂.toNat = ⌊w⌋.toNat := by
    rw [mixed,hw,toInt,if_pos hw₀]
  rw [hword,hmixed,IsByte,toNat_word hfloor₀ hfloor₁]
  exact ⟨by omega,rfl⟩

theorem clampFloat_range {t : Amount} {q : ℚ} (h : clampFloat t 0 1 = some q) : 0 ≤ q ∧ q ≤ 1 := by
  cases t with
  | nan => cases h
  | infinite negative =>
      cases negative with
      | true => cases h; norm_num
      | false => cases h; norm_num
  | finite v =>
      rw [clampFloat] at h
      cases h
      split_ifs with hlo hhi
      · norm_num
      · norm_num
      · exact ⟨not_lt.mp hlo,not_lt.mp hhi⟩

theorem channels_colorMix (c₁ c₂ : UInt32) (t : Amount) :
    channels (colorMix c₁ c₂ t) =
      mixedChannels (clampFloat t 0 1) (channels c₁) (channels c₂) := by
  rw [colorMix]
  cases ht : clampFloat t 0 1 with
  | none =>
      have hno (v₁ v₂ : UInt32) : mixChannel none v₁ v₂ = word (-2^31) := rfl
      have hleft : channels (pack (word (-2^31)) (word (-2^31)) (word (-2^31)) (word (-2^31))) =
          ⟨128,0,0,0⟩ := by decide
      rw [hno,hno,hno,hno,hleft]
      rfl
  | some q =>
      obtain ⟨h₀,h₁⟩ := clampFloat_range ht
      obtain ⟨ba,ha⟩ := toNat_mixChannel h₀ h₁ (isByte_alpha c₁) (isByte_alpha c₂)
      obtain ⟨br,hr⟩ := toNat_mixChannel h₀ h₁ (isByte_red c₁) (isByte_red c₂)
      obtain ⟨bg,hg⟩ := toNat_mixChannel h₀ h₁ (isByte_green c₁) (isByte_green c₂)
      obtain ⟨bb,hb⟩ := toNat_mixChannel h₀ h₁ (isByte_blue c₁) (isByte_blue c₂)
      rw [channels_pack_eq ba br bg bb,ha,hr,hg,hb]
      rfl

/-! ## Colours through their texts -/

/-- A colour survives exactly when its channels are equal. The result of a call is
the colour computed exactly when moving the channels of what is computed from the
text before the first parenthesis (or comma) gives the channels of what is computed
from the arguments; these are the same colours unless an argument is a call. -/
theorem colors_survive_iff (c : UInt32) (vars : List Variable) (f : ColorFunction)
    (arg arg₁ arg₂ amount : Bytes) :
    (parseColor (some (colorToHex c)) = c ↔
      alpha c = red c ∧ red c = green c ∧ green c = blue c) ∧
    (colorOf vars (f.text arg) = f.compute (colorOf vars arg) ↔
      (f.channels (channels (colorOf vars (arg.takeWhile (· ≠ 41))))).moved =
        f.channels (channels (colorOf vars arg))) ∧
    let p := mixArguments arg₁ arg₂ amount
    (colorOf vars (mixText arg₁ arg₂ amount) =
        colorMix (colorOf vars arg₁) (colorOf vars arg₂) (atof amount) ↔
      (mixedChannels (clampFloat (atof p.2.2) 0 1) (channels (colorOf vars p.1))
          (channels (colorOf vars p.2.1))).moved =
        mixedChannels (clampFloat (atof amount) 0 1) (channels (colorOf vars arg₁))
          (channels (colorOf vars arg₂))) := by
  refine ⟨?_,?_,?_⟩
  · rw [← channels_inj,channels_parseColor_colorToHex,moved_eq_iff]
    simp only [channels,UInt32.toNat_inj]
  · rw [← channels_inj,colorOf,resolveVar_text,channels_parseColor_colorToHex,channels_compute,
      channels_compute]
  · rw [← channels_inj,colorOf,resolveVar_mixText,channels_parseColor_colorToHex,
      channels_colorMix,channels_colorMix]

theorem color_text_moves_channels :
    parseColor (some (colorToHex 0x12345678)) = 0x78123456 ∧
      ¬(∀ c, parseColor (some (colorToHex c)) = c) ∧
      colorOf [] (ColorFunction.text .lighten (bytes "#808080")) ≠
        ColorFunction.compute .lighten (colorOf [] (bytes "#808080")) := by
  have h : parseColor (some (colorToHex 0x12345678)) = 0x78123456 := by decide +kernel
  refine ⟨h,fun hall => ?_,by decide +kernel⟩
  rw [hall] at h
  exact absurd h (by decide)

end Filly.Themes
