import Filly.CJson
import Filly.Numerals
import Mathlib.Data.List.DropRight

/-!
# The JSON printer of `cJSON.c`

A `printbuffer` is kept as the text before its offset and the length of its
allocation. `ensure` asks for room, growing the allocation to twice what is
needed; a store behind the allocation is undefined, and so is every use of the
null pointer a failed print returns, so both are `none`.

`print_string_ptr` counts two characters for an escaped one. A control character
without a short escape takes more: `sprintf` writes five characters after the
backslash and the pointer moves on by four, so that the next character is
written over the last digit.
-/
namespace Filly.CJson
open Numerals

/-! ## Numbers -/

def Decimal.value (d : Decimal) : ℚ := (if d.neg then -(d.mant : ℚ) else d.mant)*10^d.exp

/-- `item->valuedouble`; `none` is an infinity. -/
def Decimal.valuedouble (d : Decimal) : Option ℚ := binary64 d.value

def sign (negative : Bool) : Bytes := if negative then [45] else []

/-- `"%d"`. -/
def formatInt (n : ℤ) : Bytes := sign (n < 0)++numeral 10 n.natAbs

def stripZeros (ds : Bytes) : Bytes := ds.rdropWhile (· = 48)

/-- The point is not written when nothing follows it. -/
def fraction (ds : Bytes) : Bytes := if ds = [] then [] else 46::ds

/-- A sign and at least two digits. -/
def exponent (x : ℤ) : Bytes :=
  101::(if x < 0 then 45 else 43)::
    (if x.natAbs < 100 then fixedNumeral 10 2 x.natAbs else numeral 10 x.natAbs)

/-- The two sides of the point of `"%1.15g"`, and the exponent part. -/
def partsG (v : ℚ) : Bytes × Bytes × ℤ :=
  let r := significant 15 v
  let ds := fixedNumeral 10 15 r.1
  if r.2 < -4 ∨ 15 ≤ r.2 then (ds.take 1,stripZeros (ds.drop 1),r.2)
  else if r.2 < 0 then ([48],stripZeros (List.replicate (-r.2-1).toNat 48++ds),0)
  else (ds.take (r.2.toNat+1),stripZeros (ds.drop (r.2.toNat+1)),0)

/-- `"%1.15g"` of a number other than zero. -/
def formatG (v : ℚ) : Bytes :=
  let p := partsG |v|
  sign (v < 0)++p.1++fraction p.2.1++if p.2.2 = 0 then [] else exponent p.2.2

def printNumber (d : Decimal) : Bytes :=
  match d.valuedouble with
  | none => bytes "null"
  | some v => if v = d.valueint then formatInt d.valueint else formatG v

/-! ## Strings -/

/-- What one character adds to the text. -/
def escapeByte (b : UInt8) : Bytes :=
  if 32 ≤ b && b ≠ 34 && b ≠ 92 then [b]
  else 92::
    if b = 34 then [34]
    else if b = 92 then [92]
    else if b = 8 then [98]
    else if b = 12 then [102]
    else if b = 10 then [110]
    else if b = 13 then [114]
    else if b = 9 then [116]
    else (117::fixedNumeral 16 4 b.toNat).take 4

def escape (s : Bytes) : Bytes := s.flatMap escapeByte

/-- The text of a C string, which ends at its first NUL. -/
def stringText (s : Bytes) : Bytes := 34::(escape (s.takeWhile (· ≠ 0))++[34])

/-- `output_length`: one more for each character to be escaped. -/
def outputLength (s : Bytes) : ℕ :=
  let c := s.takeWhile (· ≠ 0)
  c.length+c.countP fun b => b = 34 || b = 92 || b < 32

/-! ## The buffer -/

structure PrintBuffer where
  length : ℕ
  text : Bytes
  deriving DecidableEq, Repr

def intMax : ℕ := 2^31-1

def ensure (p : PrintBuffer) (needed : ℕ) : Option PrintBuffer :=
  if 0 < p.length ∧ p.length ≤ p.text.length then none
  else if intMax < needed then none
  else if needed+p.text.length+1 ≤ p.length then some p
  else some { p with length := (needed+p.text.length+1)*2 }

/-- Store characters and the NUL behind them. -/
def put (p : PrintBuffer) (cs : Bytes) : Option PrintBuffer :=
  if p.text.length+cs.length+1 ≤ p.length then some { p with text := p.text++cs } else none

def emit (needed : ℕ) (cs : Bytes) (p : PrintBuffer) : Option PrintBuffer :=
  (ensure p needed).bind fun p => put p cs

def printStringPtr (s : Bytes) : PrintBuffer → Option PrintBuffer :=
  emit (outputLength s+3) (stringText s)

/-- `if (current->next)`. -/
def printComma (last : Bool) (p : PrintBuffer) : Option PrintBuffer :=
  if last then some p else emit 2 [44] p

def comma (last : Bool) : Bytes := if last then [] else [44]

mutual

def printValue : Json → PrintBuffer → Option PrintBuffer
  | .null, p => emit 5 (bytes "null") p
  | .bool false, p => emit 6 (bytes "false") p
  | .bool true, p => emit 5 (bytes "true") p
  | .number d, p => emit ((printNumber d).length+1) (printNumber d) p
  | .string s, p => printStringPtr s p
  | .array items, p => do
      let p ← emit 1 [91] p
      let p ← printItems items p
      emit 2 [93] p
  | .object members, p => do
      let p ← emit 1 [123] p
      let p ← printMembers members p
      emit 2 [125] p

def printItems : List Json → PrintBuffer → Option PrintBuffer
  | [], p => some p
  | v::vs, p => do
      let p ← printValue v p
      let p ← printComma vs.isEmpty p
      printItems vs p

def printMembers : List (Bytes × Json) → PrintBuffer → Option PrintBuffer
  | [], p => some p
  | (k,v)::ms, p => do
      let p ← printStringPtr k p
      let p ← emit 1 [58] p
      let p ← printValue v p
      let p ← printComma ms.isEmpty p
      printMembers ms p

end

def cJSONPrintUnformatted (j : Json) : Option Bytes :=
  (printValue j ⟨256,[]⟩).map PrintBuffer.text

mutual

/-- The text of a tree. -/
def Json.text : Json → Bytes
  | .null => bytes "null"
  | .bool false => bytes "false"
  | .bool true => bytes "true"
  | .number d => printNumber d
  | .string s => stringText s
  | .array items => 91::(itemsText items++[93])
  | .object members => 123::(membersText members++[125])

def itemsText : List Json → Bytes
  | [] => []
  | v::vs => v.text++comma vs.isEmpty++itemsText vs

def membersText : List (Bytes × Json) → Bytes
  | [] => []
  | (k,v)::ms => stringText k++[58]++v.text++comma ms.isEmpty++membersText ms

end

/-! ## What a tree is made of -/

mutual

/-- All strings and member names. -/
def Json.strings : Json → List Bytes
  | .string s => [s]
  | .array items => itemsStrings items
  | .object members => membersStrings members
  | _ => []

def itemsStrings : List Json → List Bytes
  | [] => []
  | v::vs => v.strings++itemsStrings vs

def membersStrings : List (Bytes × Json) → List Bytes
  | [] => []
  | (k,v)::ms => k::(v.strings++membersStrings ms)

end

theorem forall_mem_itemsStrings (P : Bytes → Prop) (items : List Json) :
    (∀ s ∈ itemsStrings items, P s) ↔ ∀ v ∈ items, ∀ s ∈ v.strings, P s := by
  induction items with
  | nil => simp [itemsStrings]
  | cons v vs ih => rw [itemsStrings,List.forall_mem_append,ih,List.forall_mem_cons]

theorem forall_mem_membersStrings (P : Bytes → Prop) (members : List (Bytes × Json)) :
    (∀ s ∈ membersStrings members, P s) ↔ ∀ m ∈ members, P m.1 ∧ ∀ s ∈ m.2.strings, P s := by
  induction members with
  | nil => simp [membersStrings]
  | cons m ms ih =>
      rw [membersStrings,List.forall_mem_cons,List.forall_mem_append,ih,List.forall_mem_cons,
        and_assoc]

mutual

def Json.numbers : Json → List Decimal
  | .number d => [d]
  | .array items => itemsNumbers items
  | .object members => membersNumbers members
  | _ => []

def itemsNumbers : List Json → List Decimal
  | [] => []
  | v::vs => v.numbers++itemsNumbers vs

def membersNumbers : List (Bytes × Json) → List Decimal
  | [] => []
  | (_,v)::ms => v.numbers++membersNumbers ms

end

mutual

/-- How deep arrays and objects are nested. -/
def Json.nesting : Json → ℕ
  | .array items => itemsNesting items+1
  | .object members => membersNesting members+1
  | _ => 0

def itemsNesting : List Json → ℕ
  | [] => 0
  | v::vs => max v.nesting (itemsNesting vs)

def membersNesting : List (Bytes × Json) → ℕ
  | [] => 0
  | (_,v)::ms => max v.nesting (membersNesting ms)

end

/-! ## The buffer holds the text -/

theorem emit_text {n : ℕ} {cs : Bytes} {p q : PrintBuffer} (h : emit n cs p = some q) :
    q.text = p.text++cs := by
  obtain ⟨p',he,hp⟩ := Option.bind_eq_some_iff.mp h
  have ht : p'.text = p.text := by
    unfold ensure at he
    split_ifs at he <;> cases he <;> rfl
  unfold put at hp
  split_ifs at hp
  cases hp
  rw [ht]

theorem printComma_text {last : Bool} {p q : PrintBuffer} (h : printComma last p = some q) :
    q.text = p.text++comma last := by
  cases last with
  | true =>
      cases h
      simp [comma]
  | false => exact emit_text h

mutual

theorem printValue_text : ∀ (j : Json) {p q : PrintBuffer},
    printValue j p = some q → q.text = p.text++j.text
  | .null, _, _, h => emit_text h
  | .bool false, _, _, h => emit_text h
  | .bool true, _, _, h => emit_text h
  | .number _, _, _, h => emit_text h
  | .string _, _, _, h => emit_text h
  | .array items, p, q, h => by
      rw [printValue] at h
      obtain ⟨p₁,h₁,h⟩ := Option.bind_eq_some_iff.mp h
      obtain ⟨p₂,h₂,h⟩ := Option.bind_eq_some_iff.mp h
      rw [emit_text h,printItems_text items h₂,emit_text h₁]
      simp [Json.text]
  | .object members, p, q, h => by
      rw [printValue] at h
      obtain ⟨p₁,h₁,h⟩ := Option.bind_eq_some_iff.mp h
      obtain ⟨p₂,h₂,h⟩ := Option.bind_eq_some_iff.mp h
      rw [emit_text h,printMembers_text members h₂,emit_text h₁]
      simp [Json.text]

theorem printItems_text : ∀ (items : List Json) {p q : PrintBuffer},
    printItems items p = some q → q.text = p.text++itemsText items
  | [], p, q, h => by
      rw [printItems] at h
      cases h
      simp [itemsText]
  | v::vs, p, q, h => by
      rw [printItems] at h
      obtain ⟨p₁,h₁,h⟩ := Option.bind_eq_some_iff.mp h
      obtain ⟨p₂,h₂,h⟩ := Option.bind_eq_some_iff.mp h
      rw [printItems_text vs h,printComma_text h₂,printValue_text v h₁]
      simp [itemsText]

theorem printMembers_text : ∀ (members : List (Bytes × Json)) {p q : PrintBuffer},
    printMembers members p = some q → q.text = p.text++membersText members
  | [], p, q, h => by
      rw [printMembers] at h
      cases h
      simp [membersText]
  | (k,v)::ms, p, q, h => by
      rw [printMembers] at h
      obtain ⟨p₁,h₁,h⟩ := Option.bind_eq_some_iff.mp h
      obtain ⟨p₂,h₂,h⟩ := Option.bind_eq_some_iff.mp h
      obtain ⟨p₃,h₃,h⟩ := Option.bind_eq_some_iff.mp h
      obtain ⟨p₄,h₄,h⟩ := Option.bind_eq_some_iff.mp h
      rw [printMembers_text ms h,printComma_text h₄,printValue_text v h₃,emit_text h₂,emit_text h₁]
      simp [membersText]

end

theorem cJSONPrintUnformatted_text {j : Json} {t : Bytes}
    (h : cJSONPrintUnformatted j = some t) : t = j.text := by
  obtain ⟨q,hq,rfl⟩ := Option.map_eq_some_iff.mp h
  rw [printValue_text j hq]
  rfl

end Filly.CJson
