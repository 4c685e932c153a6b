import Filly.CJsonNumbers
import Filly.CJsonStrings

/-!
# Trees through the printer and the reader

Reading a printed tree never loses its way: every part is found where it was
printed, and the result is a function of the tree alone. It fails only where a
string cannot be read back or where the nesting is too deep.
-/
namespace Filly.CJson
open Numerals

/-! ## Room for the text -/

def PrintBuffer.Roomy (p : PrintBuffer) : Prop := p.text.length < p.length

theorem emit_roomy {n : ℕ} {c : Bytes} {p : PrintBuffer} (hp : p.Roomy) (hn : n ≤ intMax)
    (hc : c.length ≤ n) : ∃ q, emit n c p = some q ∧ q.Roomy := by
  unfold PrintBuffer.Roomy at hp
  have h₁ : ¬(0 < p.length ∧ p.length ≤ p.text.length) := by omega
  have h₂ : ¬intMax < n := by omega
  unfold emit ensure
  rw [if_neg h₁,if_neg h₂]
  split_ifs with h₃
  · refine ⟨⟨p.length,p.text++c⟩,?_,?_⟩
    · simp only [Option.bind_some,put]
      rw [if_pos (by omega)]
    · simp only [PrintBuffer.Roomy,List.length_append]
      omega
  · refine ⟨⟨(n+p.text.length+1)*2,p.text++c⟩,?_,?_⟩
    · simp only [Option.bind_some,put]
      rw [if_pos (by omega)]
    · simp only [PrintBuffer.Roomy,List.length_append]
      omega

theorem roomy_initial : PrintBuffer.Roomy ⟨256,[]⟩ := by
  simp [PrintBuffer.Roomy]

/-- Whatever was stored left room for a NUL. -/
theorem roomy_of_emit {n : ℕ} {c : Bytes} {p q : PrintBuffer} (h : emit n c p = some q) :
    q.Roomy := by
  obtain ⟨p',-,hp⟩ := Option.bind_eq_some_iff.mp h
  unfold put at hp
  split_ifs at hp
  cases hp
  simp only [PrintBuffer.Roomy,List.length_append]
  omega

theorem printStringPtr_roomy {s : Bytes} {p : PrintBuffer} (hp : p.Roomy) (hs : Clean s ∧ Fits s) :
    ∃ q, printStringPtr s p = some q ∧ q.Roomy := by
  apply emit_roomy hp hs.2
  rw [length_stringText_clean hs.1]
  omega

theorem printComma_roomy (last : Bool) {p : PrintBuffer} (hp : p.Roomy) :
    ∃ q, printComma last p = some q ∧ q.Roomy := by
  cases last with
  | true => exact ⟨p,rfl,hp⟩
  | false => exact emit_roomy hp (by decide) (by decide)

mutual

theorem printValue_roomy : ∀ (j : Json), (∀ s ∈ j.strings, Clean s ∧ Fits s) →
    ∀ {p : PrintBuffer}, p.Roomy → ∃ q, printValue j p = some q ∧ q.Roomy
  | .null, _, _, hp => emit_roomy hp (by decide) (by decide)
  | .bool false, _, _, hp => emit_roomy hp (by decide) (by decide)
  | .bool true, _, _, hp => emit_roomy hp (by decide) (by decide)
  | .number d, _, _, hp => by
      have := length_printNumber d
      apply emit_roomy hp
      · unfold intMax
        omega
      · omega
  | .string s, h, _, hp => printStringPtr_roomy hp (h s (by simp [Json.strings]))
  | .array items, h, p, hp => by
      obtain ⟨p₁,h₁,hp₁⟩ := emit_roomy (n := 1) (c := [91]) hp (by decide) (by decide)
      obtain ⟨p₂,h₂,hp₂⟩ := printItems_roomy items (by simpa [Json.strings] using h) hp₁
      obtain ⟨p₃,h₃,hp₃⟩ := emit_roomy (n := 2) (c := [93]) hp₂ (by decide) (by decide)
      refine ⟨p₃,?_,hp₃⟩
      rw [printValue]
      simp [h₁,h₂,h₃]
  | .object members, h, p, hp => by
      obtain ⟨p₁,h₁,hp₁⟩ := emit_roomy (n := 1) (c := [123]) hp (by decide) (by decide)
      obtain ⟨p₂,h₂,hp₂⟩ := printMembers_roomy members (by simpa [Json.strings] using h) hp₁
      obtain ⟨p₃,h₃,hp₃⟩ := emit_roomy (n := 2) (c := [125]) hp₂ (by decide) (by decide)
      refine ⟨p₃,?_,hp₃⟩
      rw [printValue]
      simp [h₁,h₂,h₃]

theorem printItems_roomy : ∀ (items : List Json), (∀ s ∈ itemsStrings items, Clean s ∧ Fits s) →
    ∀ {p : PrintBuffer}, p.Roomy → ∃ q, printItems items p = some q ∧ q.Roomy
  | [], _, p, hp => ⟨p,rfl,hp⟩
  | v::vs, h, p, hp => by
      rw [itemsStrings] at h
      obtain ⟨p₁,h₁,hp₁⟩ := printValue_roomy v (fun s hs => h s (List.mem_append_left _ hs)) hp
      obtain ⟨p₂,h₂,hp₂⟩ := printComma_roomy vs.isEmpty hp₁
      obtain ⟨p₃,h₃,hp₃⟩ := printItems_roomy vs (fun s hs => h s (List.mem_append_right _ hs)) hp₂
      refine ⟨p₃,?_,hp₃⟩
      rw [printItems]
      simp [h₁,h₂,h₃]

theorem printMembers_roomy : ∀ (members : List (Bytes × Json)),
    (∀ s ∈ membersStrings members, Clean s ∧ Fits s) →
    ∀ {p : PrintBuffer}, p.Roomy → ∃ q, printMembers members p = some q ∧ q.Roomy
  | [], _, p, hp => ⟨p,rfl,hp⟩
  | (k,v)::ms, h, p, hp => by
      rw [membersStrings] at h
      have hk := h k (by simp)
      have hv : ∀ s ∈ v.strings, Clean s ∧ Fits s :=
        fun s hs => h s (List.mem_cons_of_mem k (List.mem_append_left _ hs))
      have hms : ∀ s ∈ membersStrings ms, Clean s ∧ Fits s :=
        fun s hs => h s (List.mem_cons_of_mem k (List.mem_append_right _ hs))
      obtain ⟨p₁,h₁,hp₁⟩ := printStringPtr_roomy hp hk
      obtain ⟨p₂,h₂,hp₂⟩ := emit_roomy (n := 1) (c := [58]) hp₁ (by decide) (by decide)
      obtain ⟨p₃,h₃,hp₃⟩ := printValue_roomy v hv hp₂
      obtain ⟨p₄,h₄,hp₄⟩ := printComma_roomy ms.isEmpty hp₃
      obtain ⟨p₅,h₅,hp₅⟩ := printMembers_roomy ms hms hp₄
      refine ⟨p₅,?_,hp₅⟩
      rw [printMembers]
      simp [h₁,h₂,h₃,h₄,h₅]

end

theorem cJSONPrintUnformatted_eq {j : Json} (h : ∀ s ∈ j.strings, Clean s ∧ Fits s) :
    cJSONPrintUnformatted j = some j.text := by
  obtain ⟨q,hq,-⟩ := printValue_roomy j h roomy_initial
  have hs : cJSONPrintUnformatted j = some q.text := by
    unfold cJSONPrintUnformatted
    rw [hq]
    rfl
  rw [hs,cJSONPrintUnformatted_text hs]

/-- A string that was printed was not too long. -/
theorem printStringPtr_fits {s : Bytes} {p q : PrintBuffer} (h : printStringPtr s p = some q) :
    Fits s := by
  obtain ⟨p',he,-⟩ := Option.bind_eq_some_iff.mp h
  unfold ensure at he
  unfold Fits
  split_ifs at he <;> omega

mutual

theorem printValue_fits : ∀ (j : Json) {p q : PrintBuffer}, printValue j p = some q →
    ∀ s ∈ j.strings, Fits s
  | .null, _, _, _, _, hs => by cases hs
  | .bool _, _, _, _, _, hs => by cases hs
  | .number _, _, _, _, _, hs => by cases hs
  | .string s, p, q, h, t, ht => by
      rw [List.mem_singleton.mp ht]
      exact printStringPtr_fits h
  | .array items, p, q, h, s, hs => by
      rw [printValue] at h
      obtain ⟨p₁,h₁,h⟩ := Option.bind_eq_some_iff.mp h
      obtain ⟨p₂,h₂,h⟩ := Option.bind_eq_some_iff.mp h
      exact printItems_fits items h₂ s hs
  | .object members, p, q, h, s, hs => by
      rw [printValue] at h
      obtain ⟨p₁,h₁,h⟩ := Option.bind_eq_some_iff.mp h
      obtain ⟨p₂,h₂,h⟩ := Option.bind_eq_some_iff.mp h
      exact printMembers_fits members h₂ s hs

theorem printItems_fits : ∀ (items : List Json) {p q : PrintBuffer}, printItems items p = some q →
    ∀ s ∈ itemsStrings items, Fits s
  | [], _, _, _, _, hs => by cases hs
  | v::vs, p, q, h, s, hs => by
      rw [printItems] at h
      obtain ⟨p₁,h₁,h⟩ := Option.bind_eq_some_iff.mp h
      obtain ⟨p₂,h₂,h⟩ := Option.bind_eq_some_iff.mp h
      rw [itemsStrings] at hs
      rcases List.mem_append.mp hs with hs | hs
      · exact printValue_fits v h₁ s hs
      · exact printItems_fits vs h s hs

theorem printMembers_fits : ∀ (members : List (Bytes × Json)) {p q : PrintBuffer},
    printMembers members p = some q → ∀ s ∈ membersStrings members, Fits s
  | [], _, _, _, _, hs => by cases hs
  | (k,v)::ms, p, q, h, s, hs => by
      rw [printMembers] at h
      obtain ⟨p₁,h₁,h⟩ := Option.bind_eq_some_iff.mp h
      obtain ⟨p₂,h₂,h⟩ := Option.bind_eq_some_iff.mp h
      obtain ⟨p₃,h₃,h⟩ := Option.bind_eq_some_iff.mp h
      obtain ⟨p₄,h₄,h⟩ := Option.bind_eq_some_iff.mp h
      rw [membersStrings] at hs
      rcases List.mem_cons.mp hs with rfl | hs
      · exact printStringPtr_fits h₁
      rcases List.mem_append.mp hs with hs | hs
      · exact printValue_fits v h₃ s hs
      · exact printMembers_fits ms h s hs

end

/-! ## The result of reading -/

/-- A printed number: an infinity reads as null. -/
def readNumber (d : Decimal) : Json :=
  match d.valuedouble with
  | none => .null
  | some v => .number (rereadDecimal d v)

mutual

/-- What the reader makes of the text of a tree, at a nesting depth. -/
def readBack : ℕ → Json → Option Json
  | _, .null => some .null
  | _, .bool b => some (.bool b)
  | _, .number d => some (readNumber d)
  | _, .string s => (readString s).map .string
  | depth, .array items =>
      if 1000 ≤ depth then none else (readItems (depth+1) items).map .array
  | depth, .object members =>
      if 1000 ≤ depth then none else (readMembers (depth+1) members).map .object

def readItems : ℕ → List Json → Option (List Json)
  | _, [] => some []
  | depth, v::vs => (readBack depth v).bind fun w => (readItems depth vs).map (w::·)

def readMembers : ℕ → List (Bytes × Json) → Option (List (Bytes × Json))
  | _, [] => some []
  | depth, (k,v)::ms => (readString k).bind fun l => (readBack depth v).bind fun w =>
      (readMembers depth ms).map ((l,w)::·)

end

theorem readItems_cons (depth : ℕ) (v : Json) (vs : List Json) :
    readItems depth (v::vs) =
      (readBack depth v).bind fun w => (readItems depth vs).map (w::·) := by
  rw [readItems]

theorem readMembers_cons (depth : ℕ) (m : Bytes × Json) (ms : List (Bytes × Json)) :
    readMembers depth (m::ms) = (readString m.1).bind fun l => (readBack depth m.2).bind fun w =>
      (readMembers depth ms).map ((l,w)::·) := by
  rw [readMembers]

/-- An `int` is read as it was written. -/
theorem readBack_ofInt {n : ℤ} (h : -2^31 ≤ n ∧ n < 2^31) (d : ℕ) :
    readBack d (.ofInt n) = some (.ofInt n) := by
  simp only [Json.ofInt,readBack,readNumber,valuedouble_intCast h,rereadDecimal,
    valueint_intCast h,if_true]

/-- An array of values that are each read as they were written. -/
theorem readItems_fixed {depth : ℕ} {items : List Json}
    (h : ∀ v ∈ items, readBack depth v = some v) : readItems depth items = some items := by
  induction items with
  | nil => rfl
  | cons v vs ih =>
      rw [List.forall_mem_cons] at h
      rw [readItems_cons,h.1,ih h.2]
      rfl

theorem readMembers_append (depth : ℕ) (ms ns : List (Bytes × Json)) :
    readMembers depth (ms++ns) =
      (readMembers depth ms).bind fun us => (readMembers depth ns).map (us++·) := by
  induction ms with
  | nil =>
      change readMembers depth ns = (readMembers depth ns).map id
      rw [Option.map_id]
      rfl
  | cons m ms ih =>
      rw [List.cons_append,readMembers_cons,readMembers_cons,ih]
      cases readString m.1 <;> cases readBack depth m.2 <;> cases readMembers depth ms <;>
        cases readMembers depth ns <;> rfl

theorem readMembers_fixed {depth : ℕ} {members : List (Bytes × Json)}
    (h : ∀ m ∈ members, Clean m.1 ∧ readBack depth m.2 = some m.2) :
    readMembers depth members = some members := by
  induction members with
  | nil => rfl
  | cons m ms ih =>
      rw [List.forall_mem_cons] at h
      rw [readMembers_cons,readString_clean h.1.1,h.1.2,ih h.2]
      rfl

theorem readBack_array_fixed {depth : ℕ} {items : List Json} (hd : depth < 1000)
    (h : ∀ v ∈ items, readBack (depth+1) v = some v) :
    readBack depth (.array items) = some (.array items) := by
  rw [readBack,if_neg (by omega),readItems_fixed h]
  rfl

theorem readBack_object_fixed {depth : ℕ} {members : List (Bytes × Json)} (hd : depth < 1000)
    (h : ∀ m ∈ members, Clean m.1 ∧ readBack (depth+1) m.2 = some m.2) :
    readBack depth (.object members) = some (.object members) := by
  rw [readBack,if_neg (by omega),readMembers_fixed h]
  rfl

theorem readBack_string {s : Bytes} (h : Clean s) (depth : ℕ) :
    readBack depth (.string s) = some (.string s) := by
  rw [readBack,readString_clean h]
  rfl

mutual

/-- The reader keeps all strings that it can read. -/
theorem readBack_strings : ∀ (j : Json) {d : ℕ} {w : Json}, (∀ s ∈ j.strings, Clean s) →
    readBack d j = some w → w.strings = j.strings
  | .null, d, w, _, hw => by cases hw; rfl
  | .bool b, d, w, _, hw => by cases hw; rfl
  | .number e, d, w, _, hw => by
      rw [readBack,Option.some.injEq] at hw
      subst hw
      unfold readNumber
      split <;> rfl
  | .string s, d, w, h, hw => by
      rw [readBack,readString_clean (h s (List.mem_singleton_self s))] at hw
      cases hw
      rfl
  | .array items, d, w, h, hw => by
      rw [readBack] at hw
      split_ifs at hw
      obtain ⟨ws,hws,rfl⟩ := Option.map_eq_some_iff.mp hw
      exact readItems_strings items h hws
  | .object members, d, w, h, hw => by
      rw [readBack] at hw
      split_ifs at hw
      obtain ⟨ws,hws,rfl⟩ := Option.map_eq_some_iff.mp hw
      exact readMembers_strings members h hws

theorem readItems_strings : ∀ (items : List Json) {d : ℕ} {ws : List Json},
    (∀ s ∈ itemsStrings items, Clean s) → readItems d items = some ws →
      itemsStrings ws = itemsStrings items
  | [], d, ws, _, hw => by cases hw; rfl
  | v::vs, d, ws, h, hw => by
      rw [itemsStrings,List.forall_mem_append] at h
      obtain ⟨w,hv,hw⟩ := Option.bind_eq_some_iff.mp hw
      obtain ⟨us,hvs,rfl⟩ := Option.map_eq_some_iff.mp hw
      rw [itemsStrings,itemsStrings,readBack_strings v h.1 hv,readItems_strings vs h.2 hvs]

theorem readMembers_strings : ∀ (members : List (Bytes × Json)) {d : ℕ}
    {ws : List (Bytes × Json)}, (∀ s ∈ membersStrings members, Clean s) →
      readMembers d members = some ws → membersStrings ws = membersStrings members
  | [], d, ws, _, hw => by cases hw; rfl
  | (k,v)::ms, d, ws, h, hw => by
      rw [membersStrings,List.forall_mem_cons,List.forall_mem_append] at h
      rw [readMembers,readString_clean h.1,Option.bind_some] at hw
      obtain ⟨w,hv,hw⟩ := Option.bind_eq_some_iff.mp hw
      obtain ⟨us,hms,rfl⟩ := Option.map_eq_some_iff.mp hw
      rw [membersStrings,membersStrings,readBack_strings v h.2.1 hv,
        readMembers_strings ms h.2.2 hms]

end

/-! ## One call of the reader -/

theorem skipWhitespace_cons {b : UInt8} (h : 32 < b) (t : Bytes) : skipWhitespace (b::t) = b::t := by
  have hb : ¬b ≤ 32 := UInt8.not_le.mpr h
  simp [skipWhitespace,hb]

section
variable (n depth : ℕ) (t : Bytes)

/-- What begins with no letter of `null`, `false` and `true` is told apart by its first byte. -/
theorem parseValue_cons {b : UInt8} (hb : b ≠ 110 ∧ b ≠ 102 ∧ b ≠ 116) :
    parseValue (n+1) depth (b::t) =
      if b = 34 then (parseString (b::t)).map fun r => (.string r.1,r.2)
      else if b = 45 || isDigit b then parseNumber (b::t)
      else if b = 91 then
        if 1000 ≤ depth then none
        else if (skipWhitespace t).head? = some 93 then some (.array [],(skipWhitespace t).drop 1)
        else (parseItems n (depth+1) (skipWhitespace t)).map fun r => (.array r.1,r.2)
      else if b = 123 then
        if 1000 ≤ depth then none
        else if (skipWhitespace t).head? = some 125 then some (.object [],(skipWhitespace t).drop 1)
        else (parseMembers n (depth+1) (skipWhitespace t)).map fun r => (.object r.1,r.2)
      else none := by
  rw [parseValue,if_neg (by simp [bytes,hb.1.symm]),if_neg (by simp [bytes,hb.2.1.symm]),
    if_neg (by simp [bytes,hb.2.2.symm])]

theorem parseValue_null : parseValue (n+1) depth (bytes "null"++t) = some (.null,t) := by
  change parseValue (n+1) depth (110::117::108::108::t) = _
  rw [parseValue,if_pos (by simp [bytes])]
  rfl

theorem parseValue_false : parseValue (n+1) depth (bytes "false"++t) = some (.bool false,t) := by
  change parseValue (n+1) depth (102::97::108::115::101::t) = _
  rw [parseValue,if_neg (by simp [bytes]),if_pos (by simp [bytes])]
  rfl

theorem parseValue_true : parseValue (n+1) depth (bytes "true"++t) = some (.bool true,t) := by
  change parseValue (n+1) depth (116::114::117::101::t) = _
  rw [parseValue,if_neg (by simp [bytes]),if_neg (by simp [bytes]),if_pos (by simp [bytes])]
  rfl

theorem parseValue_string :
    parseValue (n+1) depth (34::t) = (parseString (34::t)).map fun r => (.string r.1,r.2) := by
  rw [parseValue_cons n depth t (by decide),if_pos rfl]

theorem parseValue_stringText (s : Bytes) : parseValue (n+1) depth (stringText s++t) =
    (readString s).map fun r => (.string r,t) := by
  have hparse := parseString_stringText s t
  unfold stringText at hparse ⊢
  rw [List.cons_append] at hparse ⊢
  rw [parseValue_string,hparse]
  cases readString s <;> rfl

theorem parseValue_number {b : UInt8} (hb : (b = 45 || isDigit b) = true) :
    parseValue (n+1) depth (b::t) = parseNumber (b::t) := by
  have hne : (b ≠ 110 ∧ b ≠ 102 ∧ b ≠ 116) ∧ b ≠ 34 := by
    refine ⟨⟨?_,?_,?_⟩,?_⟩ <;> rintro rfl <;> revert hb <;> decide
  rw [parseValue_cons n depth t hne.1,if_neg hne.2,if_pos hb]

theorem parseValue_array : parseValue (n+1) depth (91::t) =
    if 1000 ≤ depth then none
    else if (skipWhitespace t).head? = some 93 then some (.array [],(skipWhitespace t).drop 1)
    else (parseItems n (depth+1) (skipWhitespace t)).map fun r => (.array r.1,r.2) := by
  rw [parseValue_cons n depth t (by decide),if_neg (by decide),if_neg (by decide),if_pos rfl]

theorem parseValue_object : parseValue (n+1) depth (123::t) =
    if 1000 ≤ depth then none
    else if (skipWhitespace t).head? = some 125 then some (.object [],(skipWhitespace t).drop 1)
    else (parseMembers n (depth+1) (skipWhitespace t)).map fun r => (.object r.1,r.2) := by
  rw [parseValue_cons n depth t (by decide),if_neg (by decide),if_neg (by decide),
    if_neg (by decide),if_pos rfl]

end

/-! ## Heads of texts -/

theorem printNumber_head {d : Decimal} {v : ℚ} (hv : d.valuedouble = some v) :
    ∃ b t, printNumber d = b::t ∧ (b = 45 || isDigit b) = true := by
  have hsigned : ∀ (neg : Bool) (ds t : Bytes), AllDigits ds → ds ≠ [] →
      ∃ b u, sign neg++(ds++t) = b::u ∧ (b = 45 || isDigit b) = true := by
    intro neg ds t hds hne
    cases neg with
    | true => exact ⟨45,ds++t,rfl,rfl⟩
    | false =>
        obtain ⟨b,u,rfl⟩ := List.exists_cons_of_ne_nil hne
        exact ⟨b,u++t,rfl,by simp [hds b (by simp)]⟩
  unfold printNumber
  rw [hv]
  simp only
  split_ifs with h
  · rw [formatInt_eq]
    exact hsigned _ _ _ (allDigits_numeral _) (numeral_ne_nil 10 _)
  · obtain ⟨hw,hne,-,-⟩ := partsG_spec |v|
    unfold formatG
    simp only [List.append_assoc]
    exact hsigned _ _ _ hw hne

theorem lt_of_numberHead {b : UInt8} (h : (b = 45 || isDigit b) = true) : 32 < b := by
  simp only [isDigit,Bool.or_eq_true,decide_eq_true_eq,Bool.and_eq_true] at h
  rcases h with rfl | ⟨h,-⟩
  · decide
  · exact UInt8.lt_of_lt_of_le (show (32 : UInt8) < 48 by decide) h

/-- No text starts with white space or with a closing bracket. -/
theorem text_head (j : Json) : ∃ b t, j.text = b::t ∧ 32 < b ∧ b ≠ 93 ∧ b ≠ 125 := by
  cases j with
  | null => exact ⟨110,_,rfl,by decide,by decide,by decide⟩
  | bool b => cases b <;> exact ⟨_,_,rfl,by decide,by decide,by decide⟩
  | number d =>
      cases hv : d.valuedouble with
      | none => exact ⟨110,bytes "ull",by simp [Json.text,printNumber,hv,bytes],by decide,
          by decide,by decide⟩
      | some v =>
          obtain ⟨b,t,ht,hb⟩ := printNumber_head hv
          refine ⟨b,t,by simpa [Json.text] using ht,lt_of_numberHead hb,?_,?_⟩ <;>
            rintro rfl <;> revert hb <;> decide
  | string s => exact ⟨34,_,rfl,by decide,by decide,by decide⟩
  | array items => exact ⟨91,_,rfl,by decide,by decide,by decide⟩
  | object members => exact ⟨123,_,rfl,by decide,by decide,by decide⟩

theorem skipWhitespace_text (j : Json) (t : Bytes) : skipWhitespace (j.text++t) = j.text++t := by
  obtain ⟨b,u,hj,hb,-⟩ := text_head j
  rw [hj,List.cons_append,skipWhitespace_cons hb]

theorem skipWhitespace_stringText (s t : Bytes) :
    skipWhitespace (stringText s++t) = stringText s++t := by
  unfold stringText
  rw [List.cons_append,skipWhitespace_cons (by decide)]

theorem length_text_pos (j : Json) : 1 ≤ j.text.length := by
  obtain ⟨b,u,hj,-⟩ := text_head j
  simp [hj]

/-! ## Reading a printed tree -/

theorem endsNumber_cons {b : UInt8} (h : isNumberChar b = false) (t : Bytes) : EndsNumber (b::t) := by
  intro c hc
  cases hc
  exact h

/-- The loop of `parse_object` behind a value. -/
def afterMember (n depth : ℕ) (k : Bytes) (v : Json × Bytes) :
    Option (List (Bytes × Json) × Bytes) :=
  if (skipWhitespace v.2).head? = some 44 then
    (parseMembers n depth ((skipWhitespace v.2).drop 1)).map fun r => ((k,v.1)::r.1,r.2)
  else if (skipWhitespace v.2).head? = some 125 then
    some ([(k,v.1)],(skipWhitespace v.2).drop 1)
  else none

/-- A printed name and the colon behind it. -/
theorem parseMembers_key (n depth : ℕ) (k s : Bytes) :
    parseMembers (n+1) depth (stringText k++58::s) =
      (readString k).bind fun l => (parseValue n depth (skipWhitespace s)).bind
        (afterMember n depth l) := by
  rw [parseMembers,skipWhitespace_stringText,parseString_stringText]
  cases readString k with
  | none => rfl
  | some l =>
      simp only [Option.map_some,Option.bind_eq_bind,Option.bind_some]
      rw [skipWhitespace_cons (by decide)]
      rfl

theorem afterMember_cases {n depth : ℕ} {k : Bytes} {v : Json × Bytes}
    {m : List (Bytes × Json) × Bytes} (h : afterMember n depth k v = some m) :
    (∃ r, (skipWhitespace v.2).head? = some 44 ∧
      parseMembers n depth ((skipWhitespace v.2).drop 1) = some r ∧ m = ((k,v.1)::r.1,r.2)) ∨
    ((skipWhitespace v.2).head? = some 125 ∧ m = ([(k,v.1)],(skipWhitespace v.2).drop 1)) := by
  unfold afterMember at h
  split_ifs at h with h₁ h₂
  · obtain ⟨r,hr,rfl⟩ := Option.map_eq_some_iff.mp h
    exact Or.inl ⟨r,h₁,hr,rfl⟩
  · cases h
    exact Or.inr ⟨h₂,rfl⟩

theorem afterMember_comma (n depth : ℕ) (k : Bytes) (v : Json) (t : Bytes) :
    afterMember n depth k (v,44::t) =
      (parseMembers n depth t).map fun r => ((k,v)::r.1,r.2) := by
  rw [afterMember,skipWhitespace_cons (by decide),List.head?_cons,if_pos rfl]
  rfl

theorem afterMember_brace (n depth : ℕ) (k : Bytes) (v : Json) (t : Bytes) :
    afterMember n depth k (v,125::t) = some ([(k,v)],t) := by
  rw [afterMember,skipWhitespace_cons (by decide),List.head?_cons,if_neg (by simp),if_pos rfl]
  rfl

mutual

theorem parseValue_text : ∀ (j : Json) {n d : ℕ} {r : Bytes}, 2*j.text.length ≤ n →
    EndsNumber r → parseValue n d (j.text++r) = (readBack d j).map fun w => (w,r)
  | .null, n+1, depth, rest, _, _ => by
      rw [Json.text,parseValue_null]
      rfl
  | .bool false, n+1, depth, rest, _, _ => by
      rw [Json.text,parseValue_false]
      rfl
  | .bool true, n+1, depth, rest, _, _ => by
      rw [Json.text,parseValue_true]
      rfl
  | .number d, n+1, depth, rest, _, hr => by
      simp only [Json.text,readBack,readNumber,Option.map_some]
      cases hv : d.valuedouble with
      | none =>
          have hp : printNumber d = bytes "null" := by simp [printNumber,hv]
          rw [hp,parseValue_null]
      | some v =>
          obtain ⟨b,t,ht,hb⟩ := printNumber_head hv
          have hparse := parseNumber_printNumber hv hr
          rw [ht,List.cons_append] at hparse ⊢
          rw [parseValue_number n depth _ hb,hparse]
  | .string s, n+1, depth, rest, _, _ => by
      simp only [Json.text,readBack]
      rw [parseValue_stringText]
      cases readString s <;> rfl
  | .array [], n+1, depth, rest, _, _ => by
      simp only [Json.text,itemsText,List.nil_append,List.cons_append]
      rw [parseValue_array,skipWhitespace_cons (by decide)]
      simp only [List.head?_cons,if_true,List.drop_one,List.tail_cons,readBack,readItems]
      split_ifs <;> rfl
  | .array (v::vs), n+1, depth, rest, hn, hr => by
      obtain ⟨b,t,hv,hb,h93,-⟩ := text_head v
      simp only [Json.text,List.length_cons,List.length_append] at hn
      have hitems := parseItems_text v vs (n := n) (d := depth+1) (r := rest) (by omega)
      simp only [Json.text,List.cons_append,List.append_assoc,List.nil_append]
      rw [parseValue_array]
      simp only [itemsText,hv,List.cons_append,List.append_assoc] at hitems ⊢
      rw [skipWhitespace_cons hb,hitems]
      simp only [List.head?_cons,Option.some.injEq,h93,if_false,readBack]
      split_ifs
      · rfl
      · cases readItems (depth+1) (v::vs) <;> rfl
  | .object [], n+1, depth, rest, _, _ => by
      simp only [Json.text,membersText,List.nil_append,List.cons_append]
      rw [parseValue_object,skipWhitespace_cons (by decide)]
      simp only [List.head?_cons,if_true,List.drop_one,List.tail_cons,readBack,readMembers]
      split_ifs <;> rfl
  | .object ((k,v)::ms), n+1, depth, rest, hn, hr => by
      simp only [Json.text,List.length_cons,List.length_append] at hn
      have hmembers := parseMembers_text k v ms (n := n) (d := depth+1) (r := rest) (by omega)
      simp only [Json.text,List.cons_append,List.append_assoc,List.nil_append]
      rw [parseValue_object]
      simp only [membersText,stringText,List.cons_append,List.append_assoc] at hmembers ⊢
      rw [skipWhitespace_cons (by decide),hmembers]
      simp only [List.head?_cons,readBack]
      split_ifs
      · rfl
      · simp at *
      · cases readMembers (depth+1) ((k,v)::ms) <;> rfl
  | j, 0, _, _, hn, _ => by
      have := length_text_pos j
      omega

theorem parseItems_text : ∀ (v : Json) (vs : List Json) {n d : ℕ} {r : Bytes},
    2*(itemsText (v::vs)).length+1 ≤ n →
    parseItems n d (itemsText (v::vs)++93::r) = (readItems d (v::vs)).map fun ws => (ws,r)
  | v, [], n+1, depth, rest, hn => by
      simp only [itemsText,comma,List.isEmpty_nil,if_true,List.append_nil] at hn ⊢
      have hv := parseValue_text v (n := n) (d := depth) (by omega)
        (endsNumber_cons (show isNumberChar 93 = false by decide) rest)
      rw [parseItems,skipWhitespace_text,hv]
      cases hw : readBack depth v with
      | none => simp [readItems,hw]
      | some w =>
          simp only [Option.map_some,Option.bind_eq_bind,Option.bind_some]
          rw [skipWhitespace_cons (by decide)]
          simp [readItems,hw]
  | v, u::us, n+1, depth, rest, hn => by
      rw [itemsText] at hn ⊢
      simp only [comma,List.isEmpty_cons,Bool.false_eq_true,if_false,List.append_assoc,
        List.cons_append,List.nil_append,List.length_append,List.length_cons] at hn ⊢
      have hv := parseValue_text v (n := n) (d := depth) (by omega)
        (endsNumber_cons (show isNumberChar 44 = false by decide) (itemsText (u::us)++93::rest))
      have hvs := parseItems_text u us (n := n) (d := depth) (r := rest) (by omega)
      rw [parseItems,skipWhitespace_text,hv,readItems]
      cases readBack depth v with
      | none => rfl
      | some w =>
          simp only [Option.map_some,Option.bind_eq_bind,Option.bind_some]
          rw [skipWhitespace_cons (by decide)]
          simp only [List.head?_cons,if_true,List.drop_one,List.tail_cons,hvs]
          cases readItems depth (u::us) <;> rfl
  | v, vs, 0, _, _, hn => by omega

theorem parseMembers_text : ∀ (k : Bytes) (v : Json) (ms : List (Bytes × Json)) {n d : ℕ}
    {r : Bytes}, 2*(membersText ((k,v)::ms)).length+1 ≤ n →
    parseMembers n d (membersText ((k,v)::ms)++125::r) =
      (readMembers d ((k,v)::ms)).map fun ws => (ws,r)
  | k, v, [], n+1, depth, rest, hn => by
      rw [membersText] at hn ⊢
      simp only [membersText,comma,List.isEmpty_nil,if_true,List.append_nil,List.append_assoc,
        List.cons_append,List.nil_append,List.length_append,List.length_cons] at hn ⊢
      have hv := parseValue_text v (n := n) (d := depth) (by omega)
        (endsNumber_cons (show isNumberChar 125 = false by decide) rest)
      rw [parseMembers_key,skipWhitespace_text,hv,readMembers]
      cases readString k with
      | none => rfl
      | some l =>
          cases readBack depth v with
          | none => rfl
          | some w =>
              simp only [Option.bind_some,Option.map_some,afterMember_brace,readMembers]
  | k, v, (l,u)::ms, n+1, depth, rest, hn => by
      rw [membersText] at hn ⊢
      simp only [comma,List.isEmpty_cons,Bool.false_eq_true,if_false,List.append_assoc,
        List.cons_append,List.nil_append,List.length_append,List.length_cons] at hn ⊢
      have hv := parseValue_text v (n := n) (d := depth) (by omega) (endsNumber_cons
        (show isNumberChar 44 = false by decide) (membersText ((l,u)::ms)++125::rest))
      have hms := parseMembers_text l u ms (n := n) (d := depth) (r := rest) (by omega)
      rw [parseMembers_key,skipWhitespace_text,hv,readMembers]
      cases readString k with
      | none => rfl
      | some k' =>
          cases readBack depth v with
          | none => rfl
          | some w =>
              simp only [Option.bind_some,Option.map_some,afterMember_comma,hms]
              cases readMembers depth ((l,u)::ms) <;> rfl
  | k, v, ms, 0, _, _, hn => by omega

end

/-- `cJSON_Parse` of a printed tree, whatever follows it. -/
theorem cJSONParse_text (j : Json) {t : Bytes} (ht : EndsNumber (t++[0])) :
    cJSONParse (j.text++t) = readBack 0 j := by
  unfold cJSONParse
  rw [List.append_assoc,skipWhitespace_text,parseValue_text j _ ht]
  · cases readBack 0 j <;> rfl
  · rw [List.length_append]
    omega

theorem endsNumber_nul : EndsNumber [0] := endsNumber_cons (by decide) []

theorem cJSONParse_text_nil (j : Json) : cJSONParse j.text = readBack 0 j := by
  have := cJSONParse_text j (t := []) endsNumber_nul
  rwa [List.append_nil] at this

/-! ## A text is one line -/

def Printable (s : Bytes) : Prop := s.all (32 ≤ ·) = true

theorem printable_iff (s : Bytes) : Printable s ↔ ∀ b ∈ s, 32 ≤ b := by
  simp [Printable]

theorem Printable.append {s t : Bytes} (hs : Printable s) (ht : Printable t) : Printable (s++t) := by
  unfold Printable at *
  rw [List.all_append,hs,ht]
  rfl

theorem printable_digits {ds : Bytes} (h : ∀ b ∈ ds, ∃ d < 16, b = digitByte d) : Printable ds := by
  rw [printable_iff]
  intro b hb
  obtain ⟨d,hd,rfl⟩ := h b hb
  interval_cases d <;> decide

theorem printable_numberChars {s : Bytes} (h : AllNumberChars s) : Printable s := by
  rw [printable_iff]
  intro b hb
  have := h b hb
  simp only [isNumberChar,isDigit,Bool.or_eq_true,Bool.and_eq_true,decide_eq_true_eq] at this
  obtain ((((⟨h48,-⟩ | rfl) | rfl) | rfl) | rfl) | rfl := this
  · exact UInt8.le_trans (show (32 : UInt8) ≤ 48 by decide) h48
  all_goals decide

theorem printable_escapeByte (b : UInt8) : Printable (escapeByte b) := by
  unfold escapeByte
  split_ifs with h
  · simp only [Bool.and_eq_true,decide_eq_true_eq] at h
    simpa [Printable] using h.1.1
  all_goals first | rfl | skip
  change Printable ([92,117]++(fixedNumeral 16 4 b.toNat).take 3)
  refine Printable.append (s := [92,117]) rfl (printable_digits ?_)
  intro c hc
  exact mem_fixedNumeral (by norm_num) (List.mem_of_mem_take hc)

theorem printable_escape (s : Bytes) : Printable (escape s) := by
  induction s with
  | nil => rfl
  | cons b s ih => exact (printable_escapeByte b).append ih

theorem printable_stringText (s : Bytes) : Printable (stringText s) := by
  change Printable ([34]++(escape _++[34]))
  exact Printable.append rfl ((printable_escape _).append rfl)

theorem printable_printNumber (d : Decimal) : Printable (printNumber d) := by
  unfold printNumber
  cases d.valuedouble with
  | none => rfl
  | some v =>
      simp only
      split_ifs
      · exact printable_numberChars ((numberChars_sign _).append (allDigits_numeral _).numberChars)
      · exact printable_numberChars (numberChars_formatG v)

theorem printable_comma (last : Bool) : Printable (comma last) := by
  cases last <;> rfl

mutual

theorem printable_text : ∀ j : Json, Printable j.text
  | .null => rfl
  | .bool false => rfl
  | .bool true => rfl
  | .number d => printable_printNumber d
  | .string s => printable_stringText s
  | .array items => Printable.append (s := [91]) rfl ((printable_items items).append rfl)
  | .object members => Printable.append (s := [123]) rfl ((printable_members members).append rfl)

theorem printable_items : ∀ items : List Json, Printable (itemsText items)
  | [] => rfl
  | v::vs => ((printable_text v).append (printable_comma _)).append (printable_items vs)

theorem printable_members : ∀ members : List (Bytes × Json), Printable (membersText members)
  | [] => rfl
  | (k,v)::ms => by
      rw [membersText]
      have hk : Printable (stringText k++[58]) := (printable_stringText k).append (t := [58]) rfl
      exact ((hk.append (printable_text v)).append (printable_comma _)).append (printable_members ms)

end

theorem Printable.notMem {s : Bytes} (h : Printable s) {b : UInt8} (hb : b < 32) : b ∉ s :=
  fun hm => UInt8.not_le.mpr hb ((printable_iff s).mp h b hm)

/-! ## When a tree comes back -/

/-- A tree that is read as it was written, on a line of its own. -/
theorem parse_line {j : Json} (h : readBack 0 j = some j) :
    cJSONParse (j.text.takeWhile (· ≠ 0)) = some j := by
  rw [takeWhile_nul ((printable_text j).notMem (by decide)),cJSONParse_text_nil,h]

theorem text_noNewline (j : Json) : 10 ∉ j.text := (printable_text j).notMem (by decide)

theorem text_ofInt {n : ℤ} (h : -2^31 ≤ n ∧ n < 2^31) : (Json.ofInt n).text = formatInt n := by
  simp only [Json.ofInt,Json.text,printNumber,valuedouble_intCast h,valueint_intCast h,if_true]

theorem int32_bounds (n : Int32) : -2^31 ≤ n.toInt ∧ n.toInt < 2^31 :=
  ⟨n.le_toInt,n.toInt_lt⟩

mutual

/-- Equal trees; numbers are compared as doubles. -/
def Json.Same : Json → Json → Prop
  | .null, .null => True
  | .bool a, .bool b => a = b
  | .number d, .number e => d.valuedouble = e.valuedouble
  | .string s, .string t => s = t
  | .array vs, .array ws => SameItems vs ws
  | .object ms, .object ns => SameMembers ms ns
  | _, _ => False

def SameItems : List Json → List Json → Prop
  | [], [] => True
  | v::vs, w::ws => v.Same w ∧ SameItems vs ws
  | _, _ => False

def SameMembers : List (Bytes × Json) → List (Bytes × Json) → Prop
  | [], [] => True
  | (k,v)::ms, (l,w)::ns => k = l ∧ v.Same w ∧ SameMembers ms ns
  | _, _ => False

end

mutual

theorem Json.same_refl : ∀ j : Json, j.Same j
  | .null => trivial
  | .bool _ => rfl
  | .number _ => rfl
  | .string _ => rfl
  | .array items => sameItems_refl items
  | .object members => sameMembers_refl members

theorem sameItems_refl : ∀ items : List Json, SameItems items items
  | [] => trivial
  | j::items => ⟨j.same_refl,sameItems_refl items⟩

theorem sameMembers_refl : ∀ members : List (Bytes × Json), SameMembers members members
  | [] => trivial
  | (_,j)::members => ⟨rfl,j.same_refl,sameMembers_refl members⟩

end

/-- A number that keeps its double: an `int`, or the double nearest to its own
rounding to fifteen digits. -/
def Survives (d : Decimal) : Prop :=
  ∃ v, d.valuedouble = some v ∧
    (v = d.valueint ∨ binary64 (if v < 0 then -rounded15 |v| else rounded15 |v|) = some v)

theorem readNumber_same_iff (d : Decimal) : (readNumber d).Same (.number d) ↔ Survives d := by
  unfold readNumber Survives
  cases hv : d.valuedouble with
  | none => simp [Json.Same]
  | some v =>
      simp only [Json.Same,rereadDecimal_valuedouble,hv,Option.some.injEq,exists_eq_left']
      split_ifs with h <;> simp [h]

mutual

theorem readBack_same_iff : ∀ (j : Json) {d : ℕ}, d ≤ 1000 →
    ((∃ w, readBack d j = some w ∧ w.Same j) ↔
      (∀ s ∈ j.strings, Clean s) ∧ (∀ e ∈ j.numbers, Survives e) ∧ d+j.nesting ≤ 1000)
  | .null, d, hd => by simpa [readBack,Json.Same,Json.strings,Json.numbers,Json.nesting] using hd
  | .bool b, d, hd => by simpa [readBack,Json.Same,Json.strings,Json.numbers,Json.nesting] using hd
  | .number e, d, hd => by
      simpa [readBack,readNumber_same_iff,Json.strings,Json.numbers,Json.nesting] using fun _ => hd
  | .string s, d, hd => by
      simp only [readBack,Option.map_eq_some_iff,Json.strings,Json.numbers,Json.nesting,
        List.mem_singleton,forall_eq,List.not_mem_nil,false_implies,implies_true,true_and,
        Nat.add_zero]
      rw [← readString_eq_iff]
      constructor
      · rintro ⟨w,⟨r,hr,rfl⟩,hs⟩
        simp only [Json.Same] at hs
        exact ⟨hs ▸ hr,hd⟩
      · intro ⟨hr,_⟩
        exact ⟨.string s,⟨s,hr,rfl⟩,by simp [Json.Same]⟩
  | .array items, d, hd => by
      simp only [readBack,Json.strings,Json.numbers,Json.nesting]
      split_ifs with h
      · simp
        omega
      · rw [← Nat.add_assoc,Nat.add_right_comm,← readItems_same_iff items (by omega)]
        constructor
        · rintro ⟨w,hw,hs⟩
          obtain ⟨ws,hws,rfl⟩ := Option.map_eq_some_iff.mp hw
          exact ⟨ws,hws,by simpa [Json.Same] using hs⟩
        · rintro ⟨ws,hws,hs⟩
          exact ⟨.array ws,by rw [hws]; rfl,by simpa [Json.Same] using hs⟩
  | .object members, d, hd => by
      simp only [readBack,Json.strings,Json.numbers,Json.nesting]
      split_ifs with h
      · simp
        omega
      · rw [← Nat.add_assoc,Nat.add_right_comm,← readMembers_same_iff members (by omega)]
        constructor
        · rintro ⟨w,hw,hs⟩
          obtain ⟨ws,hws,rfl⟩ := Option.map_eq_some_iff.mp hw
          exact ⟨ws,hws,by simpa [Json.Same] using hs⟩
        · rintro ⟨ws,hws,hs⟩
          exact ⟨.object ws,by rw [hws]; rfl,by simpa [Json.Same] using hs⟩

theorem readItems_same_iff : ∀ (items : List Json) {d : ℕ}, d ≤ 1000 →
    ((∃ ws, readItems d items = some ws ∧ SameItems ws items) ↔
      (∀ s ∈ itemsStrings items, Clean s) ∧ (∀ e ∈ itemsNumbers items, Survives e) ∧
        d+itemsNesting items ≤ 1000)
  | [], d, hd => by
      simpa [readItems,SameItems,itemsStrings,itemsNumbers,itemsNesting] using hd
  | v::vs, d, hd => by
      have hv := readBack_same_iff v hd
      have hvs := readItems_same_iff vs hd
      simp only [readItems,itemsStrings,itemsNumbers,itemsNesting,List.mem_append,or_imp,
        forall_and]
      constructor
      · rintro ⟨ws,hws,hs⟩
        obtain ⟨w,hw,hws⟩ := Option.bind_eq_some_iff.mp hws
        obtain ⟨us,hus,rfl⟩ := Option.map_eq_some_iff.mp hws
        simp only [SameItems] at hs
        obtain ⟨h₁,h₂,h₃⟩ := hv.mp ⟨w,hw,hs.1⟩
        obtain ⟨h₄,h₅,h₆⟩ := hvs.mp ⟨us,hus,hs.2⟩
        exact ⟨⟨h₁,h₄⟩,⟨h₂,h₅⟩,by omega⟩
      · rintro ⟨⟨h₁,h₄⟩,⟨h₂,h₅⟩,h₃⟩
        obtain ⟨w,hw,hs⟩ := hv.mpr ⟨h₁,h₂,by omega⟩
        obtain ⟨us,hus,hss⟩ := hvs.mpr ⟨h₄,h₅,by omega⟩
        exact ⟨w::us,by simp [hw,hus],by simp [SameItems,hs,hss]⟩

theorem readMembers_same_iff : ∀ (members : List (Bytes × Json)) {d : ℕ}, d ≤ 1000 →
    ((∃ ws, readMembers d members = some ws ∧ SameMembers ws members) ↔
      (∀ s ∈ membersStrings members, Clean s) ∧ (∀ e ∈ membersNumbers members, Survives e) ∧
        d+membersNesting members ≤ 1000)
  | [], d, hd => by
      simpa [readMembers,SameMembers,membersStrings,membersNumbers,membersNesting] using hd
  | (k,v)::ms, d, hd => by
      have hv := readBack_same_iff v hd
      have hms := readMembers_same_iff ms hd
      simp only [readMembers,membersStrings,membersNumbers,membersNesting,List.mem_cons,
        List.mem_append,or_imp,forall_and,forall_eq]
      constructor
      · rintro ⟨ws,hws,hs⟩
        obtain ⟨l,hl,hws⟩ := Option.bind_eq_some_iff.mp hws
        obtain ⟨w,hw,hws⟩ := Option.bind_eq_some_iff.mp hws
        obtain ⟨us,hus,rfl⟩ := Option.map_eq_some_iff.mp hws
        simp only [SameMembers] at hs
        obtain ⟨rfl,hs,hss⟩ := hs
        obtain ⟨h₁,h₂,h₃⟩ := hv.mp ⟨w,hw,hs⟩
        obtain ⟨h₄,h₅,h₆⟩ := hms.mp ⟨us,hus,hss⟩
        exact ⟨⟨(readString_eq_iff l).mp hl,h₁,h₄⟩,⟨h₂,h₅⟩,by omega⟩
      · rintro ⟨⟨hk,h₁,h₄⟩,⟨h₂,h₅⟩,h₃⟩
        obtain ⟨w,hw,hs⟩ := hv.mpr ⟨h₁,h₂,by omega⟩
        obtain ⟨us,hus,hss⟩ := hms.mpr ⟨h₄,h₅,by omega⟩
        exact ⟨(k,w)::us,by simp [readString_clean hk,hw,hus],by simp [SameMembers,hs,hss]⟩

end

end Filly.CJson
