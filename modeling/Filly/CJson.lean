import Mathlib.Tactic

/-!
# The JSON reader of `cJSON.c`

A parse works on the bytes of a C string together with its final NUL; the
source's offset into that buffer is the remaining suffix here. Whitespace
skipping steps back onto the NUL when it runs off the end, so a suffix is never
empty. Trailing text after the first value is ignored, as in the source.

A number keeps its decimal literal. `valueint` is computed from the double
nearest to it, with the source's clamping. An escape may put a NUL into a
string; every later use reads the string up to it.
-/
namespace Filly.CJson

abbrev Bytes := List UInt8

instance lawfulBytes : LawfulBEq Bytes := inferInstance

/-- ASCII text as bytes. -/
def bytes (s : String) : Bytes := s.toList.map fun c => UInt8.ofNat c.toNat

theorem takeWhile_ne_append {a : UInt8} {s : Bytes} (h : a ∉ s) (t : Bytes) :
    (s++t).takeWhile (· ≠ a) = s++t.takeWhile (· ≠ a) :=
  List.takeWhile_append_of_pos fun b hb => decide_eq_true fun he : b = a => h (he ▸ hb)

/-- The bytes before the first end of a line, or whatever ends the text. -/
theorem takeWhile_ne_append_cons {a : UInt8} {s : Bytes} (h : a ∉ s) (t : Bytes) :
    (s++a::t).takeWhile (· ≠ a) = s := by
  rw [takeWhile_ne_append h,List.takeWhile_cons_of_neg (by simp),List.append_nil]

/-- The value `±mant * 10^exp`. -/
structure Decimal where
  neg : Bool
  mant : ℕ
  exp : ℤ
  deriving DecidableEq, Repr

inductive Json where
  | null
  | bool (b : Bool)
  | number (d : Decimal)
  | string (s : Bytes)
  | array (items : List Json)
  | object (members : List (Bytes × Json))
  deriving Repr

/-! ## Numbers -/

/-- `a * 2^s / b`, rounded half to even, for a possibly negative shift. -/
def scaled (a b : ℕ) (s : ℤ) : ℕ :=
  let num := a*2^s.toNat
  let den := b*2^(-s).toNat
  let q := num / den
  let r := num % den
  if 2*r < den then q
  else if den < 2*r then q+1
  else if q % 2 = 0 then q else q+1

/-- The double nearest to `a/b` as mantissa and binary exponent. The exponent
range of the format plays no role for the integer part taken below. -/
def nearest (a b : ℕ) : ℕ × ℤ :=
  let s : ℤ := 52-((Nat.log2 a : ℤ)-Nat.log2 b)
  let s := if a*2^s.toNat < b*2^(-s).toNat*2^52 then s+1 else s
  (scaled a b s,-s)

/-- Integer part of the double nearest to a decimal's absolute value. -/
def Decimal.magnitude (d : Decimal) : ℕ :=
  if d.mant = 0 then 0 else
    let v := nearest (d.mant*10^d.exp.toNat) (10^(-d.exp).toNat)
    v.1*2^v.2.toNat / 2^(-v.2).toNat

/-- `(number >= INT_MAX) ? INT_MAX : (number <= INT_MIN) ? INT_MIN : (int)number`. -/
def Decimal.valueint (d : Decimal) : ℤ :=
  let v : ℤ := if d.neg then -d.magnitude else d.magnitude
  if 2^31-1 ≤ v then 2^31-1 else if v ≤ -2^31 then -2^31 else v

def isDigit (b : UInt8) : Bool := 48 ≤ b && b ≤ 57

def digitsValue (ds : Bytes) : ℕ := ds.foldl (fun n b => n*10+(b.toNat-48)) 0

/-- The exponent part of `strtod`, with its length; absent when malformed. -/
def strtodExponent : Bytes → ℤ × ℕ
  | e::s =>
      if e = 101 || e = 69 then
        let sign := match s with
          | 45::_ => (true,1)
          | 43::_ => (false,1)
          | _ => (false,0)
        let ds := (s.drop sign.2).takeWhile isDigit
        if ds = [] then (0,0)
        else (if sign.1 then -digitsValue ds else digitsValue ds,1+sign.2+ds.length)
      else (0,0)
  | [] => (0,0)

/-- `strtod` on the characters a JSON number may be made of, with the length
of the part it accepts. -/
def strtod (s : Bytes) : Option (Decimal × ℕ) :=
  let sign := match s with
    | 45::_ => (true,1)
    | 43::_ => (false,1)
    | _ => (false,0)
  let body := s.drop sign.2
  let whole := body.takeWhile isDigit
  let after := body.drop whole.length
  let frac := match after with
    | 46::t => t.takeWhile isDigit
    | _ => []
  if whole = [] ∧ frac = [] then none else
    let point := match after with
      | 46::_ => 1
      | _ => 0
    let tail := after.drop (point+frac.length)
    let e := strtodExponent tail
    some (⟨sign.1,digitsValue (whole++frac),e.1-frac.length⟩,
      sign.2+whole.length+point+frac.length+e.2)

/-- Characters collected by `parse_number`: digits, signs, exponent and point. -/
def isNumberChar (b : UInt8) : Bool :=
  isDigit b || b = 43 || b = 45 || b = 101 || b = 69 || b = 46

def parseNumber (s : Bytes) : Option (Json × Bytes) := do
  let v ← strtod (s.takeWhile isNumberChar)
  some (.number v.1,s.drop v.2)

/-! ## Strings -/

/-- The raw text up to the closing quote, and what follows the quote. -/
def scanString : Bytes → Option (Bytes × Bytes)
  | [] => none
  | b::s =>
      if b = 34 then some ([],s)
      else if b = 92 then
        match s with
        | [] => none
        | c::t => (scanString t).map fun r => (b::c::r.1,r.2)
      else (scanString s).map fun r => (b::r.1,r.2)

def hexDigit (b : UInt8) : Option ℕ :=
  if 48 ≤ b && b ≤ 57 then some (b.toNat-48)
  else if 65 ≤ b && b ≤ 70 then some (b.toNat-55)
  else if 97 ≤ b && b ≤ 102 then some (b.toNat-87)
  else none

/-- A character that is no hexadecimal digit makes the whole code zero. -/
def parseHex4 (s : Bytes) : ℕ :=
  match (s.take 4).mapM hexDigit with
  | some ds => ds.foldl (fun h d => h*16+d) 0
  | none => 0

def utf8Encode (cp : ℕ) : Bytes :=
  let cont := fun k => UInt8.ofNat (128+cp / 2^(6*k) % 64)
  if cp < 0x80 then [UInt8.ofNat cp]
  else if cp < 0x800 then [UInt8.ofNat (0xC0+cp / 2^6),cont 0]
  else if cp < 0x10000 then [UInt8.ofNat (0xE0+cp / 2^12),cont 1,cont 0]
  else [UInt8.ofNat (0xF0+cp / 2^18),cont 2,cont 1,cont 0]

/-- `utf16_literal_to_utf8`: the bytes of one escape and how much it takes. -/
def utf16LiteralToUtf8 (s : Bytes) : Option (Bytes × ℕ) :=
  if s.length < 6 then none else
    let first := parseHex4 (s.drop 2)
    if 0xDC00 ≤ first ∧ first ≤ 0xDFFF then none
    else if 0xD800 ≤ first ∧ first ≤ 0xDBFF then
      let t := s.drop 6
      if t.length < 6 ∨ t.take 2 ≠ [92,117] then none else
        let second := parseHex4 (t.drop 2)
        if second < 0xDC00 ∨ 0xDFFF < second then none
        else some (utf8Encode (0x10000+(first % 1024*1024+second % 1024)),12)
    else some (utf8Encode first,6)

/-- Replace the escapes of a raw string; the fuel is its length. -/
def unescape : ℕ → Bytes → Option Bytes
  | _, [] => some []
  | 0, _ => none
  | n+1, b::s =>
      if b ≠ 92 then (unescape n s).map (b::·)
      else match s with
        | [] => none
        | c::t =>
            if c = 98 then (unescape n t).map (8::·)
            else if c = 102 then (unescape n t).map (12::·)
            else if c = 110 then (unescape n t).map (10::·)
            else if c = 114 then (unescape n t).map (13::·)
            else if c = 116 then (unescape n t).map (9::·)
            else if c = 34 || c = 92 || c = 47 then (unescape n t).map (c::·)
            else if c = 117 then do
              let u ← utf16LiteralToUtf8 (b::s)
              (unescape n ((b::s).drop u.2)).map (u.1++·)
            else none

def parseString : Bytes → Option (Bytes × Bytes)
  | [] => none
  | q::s =>
      if q ≠ 34 then none else do
        let r ← scanString s
        let out ← unescape r.1.length r.1
        some (out.takeWhile (· ≠ 0),r.2)

/-! ## Values -/

/-- Bytes up to 32 are skipped, the final NUL included; then one step back. -/
def skipWhitespace (s : Bytes) : Bytes :=
  match s.dropWhile (· ≤ 32) with
  | [] => [0]
  | t => t

mutual

def parseValue : ℕ → ℕ → Bytes → Option (Json × Bytes)
  | 0, _, _ => none
  | n+1, depth, s =>
      if (bytes "null").isPrefixOf s then some (.null,s.drop 4)
      else if (bytes "false").isPrefixOf s then some (.bool false,s.drop 5)
      else if (bytes "true").isPrefixOf s then some (.bool true,s.drop 4)
      else match s with
        | [] => none
        | b::t =>
            if b = 34 then (parseString s).map fun r => (.string r.1,r.2)
            else if b = 45 || isDigit b then parseNumber s
            else if b = 91 then
              if 1000 ≤ depth then none
              else
                let u := skipWhitespace t
                if u.head? = some 93 then some (.array [],u.drop 1)
                else (parseItems n (depth+1) u).map fun r => (.array r.1,r.2)
            else if b = 123 then
              if 1000 ≤ depth then none
              else
                let u := skipWhitespace t
                if u.head? = some 125 then some (.object [],u.drop 1)
                else (parseMembers n (depth+1) u).map fun r => (.object r.1,r.2)
            else none

/-- The loop of `parse_array`, from the start of an element. -/
def parseItems : ℕ → ℕ → Bytes → Option (List Json × Bytes)
  | 0, _, _ => none
  | n+1, depth, s => do
      let v ← parseValue n depth (skipWhitespace s)
      let u := skipWhitespace v.2
      if u.head? = some 44 then (parseItems n depth (u.drop 1)).map fun r => (v.1::r.1,r.2)
      else if u.head? = some 93 then some ([v.1],u.drop 1)
      else none

/-- The loop of `parse_object`, from the start of a member. -/
def parseMembers : ℕ → ℕ → Bytes → Option (List (Bytes × Json) × Bytes)
  | 0, _, _ => none
  | n+1, depth, s => do
      let k ← parseString (skipWhitespace s)
      let u := skipWhitespace k.2
      if u.head? ≠ some 58 then none else do
        let v ← parseValue n depth (skipWhitespace (u.drop 1))
        let u := skipWhitespace v.2
        if u.head? = some 44 then
          (parseMembers n depth (u.drop 1)).map fun r => ((k.1,v.1)::r.1,r.2)
        else if u.head? = some 125 then some ([(k.1,v.1)],u.drop 1)
        else none

end

/-- `cJSON_Parse` on a C string. Every call below consumes a byte, so the
length of the text, twice, bounds the nesting of calls. -/
def cJSONParse (text : Bytes) : Option Json :=
  (parseValue (2*text.length+2) 0 (skipWhitespace (text++[0]))).map Prod.fst

/-! ## Access -/

/-- `item->valuestring`, null unless the item is a string. -/
def Json.valuestring : Json → Option Bytes
  | .string s => some s
  | _ => none

/-- `item->valueint`; the reader sets it for `true` and for numbers. -/
def Json.valueint : Json → ℤ
  | .bool true => 1
  | .number d => d.valueint
  | _ => 0

/-- What `cJSON_ArrayForEach` visits. -/
def Json.children : Json → List Json
  | .array items => items
  | .object members => members.map Prod.snd
  | _ => []

def Json.isObject : Json → Bool
  | .object _ => true
  | _ => false

/-- What an array holds; nothing for any other value. -/
def Json.elements : Json → List Json
  | .array items => items
  | _ => []

/-- `cJSON_CreateNumber` of an `int`. -/
def Json.ofInt (n : ℤ) : Json := .number ⟨n < 0,n.natAbs,0⟩

/-- `cJSON_GetObjectItem`: the first member of that name. -/
def Json.getObjectItem (j : Json) (name : Bytes) : Option Json :=
  match j with
  | .object ms => (ms.find? fun m => m.1 = name).map Prod.snd
  | _ => none

end Filly.CJson
