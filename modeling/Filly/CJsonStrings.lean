import Filly.CJsonPrint

/-!
# Strings through the printer and the reader

The reader always finds the closing quote where the printer put it. A string
comes back as itself when every control character in it has a short escape. With
any other control character the escape swallows the character behind it, or
reads as a NUL that ends the string, or is cut off by the closing quote: what
comes back, if anything does, is shorter.
-/
namespace Filly.CJson
open Numerals

/-- Bytes that survive: those with a short escape and those from the blank on. -/
def cleanByte (b : UInt8) : Bool := b = 8 || b = 9 || b = 10 || b = 12 || b = 13 || 32 ≤ b

/-- No NUL, and no control character that is written as a code. -/
def Clean (s : Bytes) : Prop := ∀ b ∈ s, cleanByte b = true

instance (s : Bytes) : Decidable (Clean s) := List.decidableBAll (cleanByte · = true) s

/-- The length `print_string_ptr` asks for is an `int`. -/
def Fits (s : Bytes) : Prop := outputLength s+3 ≤ intMax

instance (s : Bytes) : Decidable (Fits s) := Nat.decLe _ _

@[simp] theorem escape_nil : escape [] = [] := rfl

@[simp] theorem escape_cons (b : UInt8) (s : Bytes) : escape (b::s) = escapeByte b++escape s := rfl

theorem escapeByte_plain {b : UInt8} (h : 32 ≤ b) (h₁ : b ≠ 34) (h₂ : b ≠ 92) :
    escapeByte b = [b] := by
  simp [escapeByte,h,h₁,h₂]

theorem unescape_plain {b : UInt8} (h : b ≠ 92) (n : ℕ) (t : Bytes) :
    unescape (n+1) (b::t) = (unescape n t).map (b::·) := by
  simp [unescape,h]

/-- A control character without a short escape keeps three digits of its code. -/
theorem escapeByte_code {b : UInt8} (h : cleanByte b = false) :
    escapeByte b = [92,117,48,48,48] ∨ escapeByte b = [92,117,48,48,49] := by
  simp only [cleanByte,Bool.or_eq_false_iff,decide_eq_false_iff_not] at h
  obtain ⟨⟨⟨⟨⟨h₈,h₉⟩,h₁₀⟩,h₁₂⟩,h₁₃⟩,h₃₂⟩ := h
  have hlt : b.toNat < 32 := by
    have := UInt8.not_le.mp h₃₂
    simpa using UInt8.lt_iff_toNat_lt.mp this
  have h₃₄ : b ≠ 34 := by rintro rfl; simp at hlt
  have h₉₂ : b ≠ 92 := by rintro rfl; simp at hlt
  have hcode : escapeByte b = [92,117,48,48,digitByte (b.toNat / 16)] := by
    simp only [escapeByte,h₃₂,h₃₄,h₉₂,h₈,h₉,h₁₀,h₁₂,h₁₃,decide_false,Bool.false_and,if_false,
      Bool.false_eq_true,fixedNumeral,List.nil_append,List.cons_append,List.take_succ_cons,
      List.take_zero]
    have e₁ : b.toNat / 16 / 16 / 16 % 16 = 0 := by omega
    have e₂ : b.toNat / 16 / 16 % 16 = 0 := by omega
    have e₃ : b.toNat / 16 % 16 = b.toNat / 16 := by omega
    rw [e₁,e₂,e₃]
    rfl
  rw [hcode]
  have hd : b.toNat / 16 = 0 ∨ b.toNat / 16 = 1 := by omega
  rcases hd with hd | hd <;> rw [hd]
  · exact Or.inl rfl
  · exact Or.inr rfl

/-- Every other character is written plainly or as a short escape, and is read
back as itself. -/
theorem escapeByte_clean {b : UInt8} (h : cleanByte b = true) :
    ((b = 34 || b = 92 || b < 32) = false ∧ escapeByte b = [b]) ∨
    ((b = 34 || b = 92 || b < 32) = true ∧ ∃ c, escapeByte b = [92,c] ∧
      ∀ n t, unescape (n+1) (92::c::t) = (unescape n t).map (b::·)) := by
  by_cases h₃₄ : b = 34
  · subst h₃₄
    exact Or.inr ⟨rfl,34,rfl,fun n t => by simp [unescape]⟩
  by_cases h₉₂ : b = 92
  · subst h₉₂
    exact Or.inr ⟨rfl,92,rfl,fun n t => by simp [unescape]⟩
  by_cases h₃₂ : 32 ≤ b
  · left
    refine ⟨?_,escapeByte_plain h₃₂ h₃₄ h₉₂⟩
    simpa [h₃₄,h₉₂] using h₃₂
  · right
    simp only [cleanByte,h₃₂,decide_false,Bool.or_false,Bool.or_eq_true,decide_eq_true_eq] at h
    obtain (((rfl | rfl) | rfl) | rfl) | rfl := h
    · exact ⟨rfl,98,rfl,fun n t => by simp [unescape]⟩
    · exact ⟨rfl,116,rfl,fun n t => by simp [unescape]⟩
    · exact ⟨rfl,110,rfl,fun n t => by simp [unescape]⟩
    · exact ⟨rfl,102,rfl,fun n t => by simp [unescape]⟩
    · exact ⟨rfl,114,rfl,fun n t => by simp [unescape]⟩

/-- A character that is not escaped is neither quote nor backslash. -/
theorem ne_of_unescaped {b : UInt8} (h : (b = 34 || b = 92 || b < 32) = false) :
    b ≠ 34 ∧ b ≠ 92 := by
  simp only [Bool.or_eq_false_iff,decide_eq_false_iff_not] at h
  exact ⟨h.1.1,h.1.2⟩

theorem unescape_clean {b : UInt8} (h : cleanByte b = true) (n : ℕ) (t : Bytes) :
    unescape (n+1) (escapeByte b++t) = (unescape n t).map (b::·) := by
  obtain ⟨hb,he⟩ | ⟨-,c,he,hu⟩ := escapeByte_clean h
  · rw [he]
    exact unescape_plain (ne_of_unescaped hb).2 n t
  · rw [he]
    exact hu n t

theorem escapeByte_head (b : UInt8) : escapeByte b = [b] ∨ ∃ u, escapeByte b = 92::u := by
  unfold escapeByte
  split_ifs
  all_goals first | exact Or.inl rfl | exact Or.inr ⟨_,rfl⟩

theorem escapeByte_ne_nil (b : UInt8) : escapeByte b ≠ [] := by
  unfold escapeByte
  split_ifs <;> simp

theorem length_escapeByte_pos (b : UInt8) : 1 ≤ (escapeByte b).length :=
  List.length_pos_of_ne_nil (escapeByte_ne_nil b)

/-! ## The closing quote -/

theorem scanString_plain {b : UInt8} (h₁ : b ≠ 34) (h₂ : b ≠ 92) (t : Bytes) :
    scanString (b::t) = (scanString t).map fun r => (b::r.1,r.2) := by
  rw [scanString.eq_def]
  simp [h₁,h₂]

theorem scanString_backslash (c : UInt8) (t : Bytes) :
    scanString (92::c::t) = (scanString t).map fun r => (92::c::r.1,r.2) := by
  rw [scanString.eq_def]
  simp

theorem scanString_quote (t : Bytes) : scanString (34::t) = some ([],t) := by
  rw [scanString.eq_def]
  simp

theorem scanString_escapeByte (b : UInt8) (t : Bytes) :
    scanString (escapeByte b++t) = (scanString t).map fun r => (escapeByte b++r.1,r.2) := by
  cases hc : cleanByte b with
  | true =>
      obtain ⟨hb,he⟩ | ⟨-,c,he,-⟩ := escapeByte_clean hc
      · rw [he]
        exact scanString_plain (ne_of_unescaped hb).1 (ne_of_unescaped hb).2 t
      · rw [he]
        exact scanString_backslash c t
  | false =>
      rcases escapeByte_code hc with he | he
      all_goals
        rw [he]
        simp only [List.cons_append,List.nil_append]
        rw [scanString_backslash,scanString_plain (by decide) (by decide),
          scanString_plain (by decide) (by decide),scanString_plain (by decide) (by decide)]
        cases scanString t <;> rfl

/-- The reader stops at the quote the printer wrote. -/
theorem scanString_escape (s rest : Bytes) :
    scanString (escape s++34::rest) = some (escape s,rest) := by
  induction s with
  | nil => exact scanString_quote rest
  | cons b s ih =>
      rw [escape_cons,List.append_assoc,scanString_escapeByte,ih]
      rfl

/-! ## What comes back -/

/-- The string the reader makes of a printed string. -/
def readString (s : Bytes) : Option Bytes :=
  (unescape (escape (s.takeWhile (· ≠ 0))).length (escape (s.takeWhile (· ≠ 0)))).map
    fun out => out.takeWhile (· ≠ 0)

theorem parseString_stringText (s rest : Bytes) :
    parseString (stringText s++rest) = (readString s).map fun r => (r,rest) := by
  unfold stringText parseString readString
  simp only [List.cons_append,List.append_assoc,List.nil_append,ne_eq,not_true_eq_false,if_false]
  rw [scanString_escape]
  simp only [Option.bind_eq_bind,Option.bind_some]
  generalize escape (s.takeWhile fun x => decide ¬x = 0) = e
  cases unescape e.length e <;> rfl

theorem unescape_escape {s : Bytes} (h : Clean s) {n : ℕ} (hn : (escape s).length ≤ n) :
    unescape n (escape s) = some s := by
  induction s generalizing n with
  | nil => cases n <;> rfl
  | cons b s ih =>
      have hb := length_escapeByte_pos b
      rw [escape_cons,List.length_append] at hn
      obtain ⟨m,rfl⟩ : ∃ m, n = m+1 := ⟨n-1,by omega⟩
      rw [escape_cons,unescape_clean (h b (by simp)),
        ih (fun c hc => h c (List.mem_cons_of_mem b hc)) (by omega)]
      rfl

theorem hexDigit_lt {c : UInt8} {x : ℕ} (h : hexDigit c = some x) : x < 16 := by
  unfold hexDigit at h
  split_ifs at h with h₁ h₂ h₃
  all_goals
    simp only [Bool.and_eq_true,decide_eq_true_eq,UInt8.le_iff_toNat_le] at *
    simp only [Option.some.injEq,UInt8.toNat_ofNat] at *
    omega

/-- The code of a damaged escape is made of two zeros, a digit below two and the
character behind it. -/
theorem parseHex4_damaged {h : UInt8} (hh : h = 48 ∨ h = 49) (c : UInt8) (t : Bytes) :
    parseHex4 (48::48::h::c::t) < 32 ∧
      (hexDigit c = none → parseHex4 (48::48::h::c::t) = 0) := by
  have h0 : hexDigit 48 = some 0 := rfl
  have h1 : hexDigit 49 = some 1 := rfl
  unfold parseHex4
  cases hc : hexDigit c with
  | none => rcases hh with rfl | rfl <;> simp [h0,h1,hc]
  | some x =>
      have hx := hexDigit_lt hc
      rcases hh with rfl | rfl <;> simp [h0,h1,hc] <;> omega

theorem utf16_damaged {h : UInt8} (hh : h = 48 ∨ h = 49) (c : UInt8) (t : Bytes) :
    ∃ x, utf16LiteralToUtf8 (92::117::48::48::h::c::t) = some ([x],6) ∧
      (hexDigit c = none → x = 0) := by
  obtain ⟨hlt,hnone⟩ := parseHex4_damaged hh c t
  refine ⟨UInt8.ofNat (parseHex4 (48::48::h::c::t)),?_,fun hc => by rw [hnone hc]; rfl⟩
  have hlen : ¬(92::117::48::48::h::c::t).length < 6 := by simp
  have h₁ : ¬(0xDC00 ≤ parseHex4 (48::48::h::c::t) ∧ parseHex4 (48::48::h::c::t) ≤ 0xDFFF) := by
    omega
  have h₂ : ¬(0xD800 ≤ parseHex4 (48::48::h::c::t) ∧ parseHex4 (48::48::h::c::t) ≤ 0xDBFF) := by
    omega
  have h₃ : parseHex4 (48::48::h::c::t) < 0x80 := by omega
  unfold utf16LiteralToUtf8
  rw [if_neg hlen]
  simp only [List.drop_succ_cons,List.drop_zero,if_neg h₁,if_neg h₂,utf8Encode,if_pos h₃]

/-- Reading a damaged escape: it takes the next character with it. -/
theorem unescape_code {b : UInt8} (h : cleanByte b = false) (n : ℕ) :
    unescape (n+1) (escapeByte b) = none ∧
    ∀ c t, ∃ x, unescape (n+1) (escapeByte b++c::t) = (unescape n t).map (x::·) ∧
      (hexDigit c = none → x = 0) := by
  obtain ⟨d,hd,he⟩ : ∃ d, (d = 48 ∨ d = 49) ∧ escapeByte b = [92,117,48,48,d] := by
    rcases escapeByte_code h with he | he
    · exact ⟨48,Or.inl rfl,he⟩
    · exact ⟨49,Or.inr rfl,he⟩
  rw [he]
  constructor
  · simp [unescape,utf16LiteralToUtf8]
  · intro c t
    obtain ⟨x,hx,hzero⟩ := utf16_damaged hd c t
    refine ⟨x,?_,hzero⟩
    simp only [List.cons_append,List.nil_append]
    rw [unescape]
    simp [hx]

/-- Nothing gets longer, and anything but a clean string gets shorter. -/
theorem unescape_escape_length (s : Bytes) (hs : 0 ∉ s) {n : ℕ} (hn : (escape s).length ≤ n)
    {out : Bytes} (h : unescape n (escape s) = some out) :
    (out.takeWhile (· ≠ 0)).length ≤ s.length ∧
      (¬Clean s → (out.takeWhile (· ≠ 0)).length < s.length) := by
  induction hl : s.length using Nat.strong_induction_on generalizing s n out with
  | _ l ih =>
    subst hl
    cases s with
    | nil =>
        have : out = [] := by
          cases n <;> simpa [unescape] using h.symm
        subst this
        exact ⟨le_rfl,fun hc => (hc (by simp [Clean])).elim⟩
    | cons b s =>
        have hb := length_escapeByte_pos b
        have hs' : 0 ∉ s := fun hm => hs (List.mem_cons_of_mem b hm)
        have hb0 : b ≠ 0 := by rintro rfl; simp at hs
        rw [escape_cons,List.length_append] at hn
        obtain ⟨m,rfl⟩ : ∃ m, n = m+1 := ⟨n-1,by omega⟩
        rw [escape_cons] at h
        cases hc : cleanByte b with
        | true =>
            rw [unescape_clean hc] at h
            obtain ⟨r,hr,rfl⟩ := Option.map_eq_some_iff.mp h
            obtain ⟨hle,hlt⟩ := ih s.length (by simp) s hs' (by omega) hr rfl
            rw [List.takeWhile_cons_of_pos (by simpa using hb0)]
            simp only [List.length_cons]
            refine ⟨by omega,fun hn => ?_⟩
            have : ¬Clean s := fun hcs => hn fun c hcm => by
              rcases List.mem_cons.mp hcm with rfl | hcm
              · exact hc
              · exact hcs c hcm
            have := hlt this
            omega
        | false =>
            -- The escape is damaged; what it takes decides what is left.
            obtain ⟨hnone,hsome⟩ := unescape_code hc m
            cases s with
            | nil =>
                rw [escape_nil,List.append_nil,hnone] at h
                cases h
            | cons c s =>
                simp only [List.length_cons]
                rcases escapeByte_head c with he | ⟨u,he⟩
                · obtain ⟨x,hx,-⟩ := hsome c (escape s)
                  have hlen : (escape s).length ≤ m := by
                    rw [escape_cons,he,List.length_append] at hn
                    simp only [List.length_singleton] at hn
                    omega
                  rw [escape_cons,he,List.singleton_append,hx] at h
                  obtain ⟨r,hr,rfl⟩ := Option.map_eq_some_iff.mp h
                  have hs'' : 0 ∉ s := fun hm => hs' (List.mem_cons_of_mem c hm)
                  obtain ⟨hle,-⟩ := ih s.length (by simp) s hs'' hlen hr rfl
                  have hx : ((x::r).takeWhile (· ≠ 0)).length ≤ (r.takeWhile (· ≠ 0)).length+1 := by
                    rw [List.takeWhile_cons]
                    split_ifs <;> simp
                  exact ⟨by omega,fun _ => by omega⟩
                · obtain ⟨x,hx,hzero⟩ := hsome 92 (u++escape s)
                  rw [escape_cons,he,List.cons_append,hx] at h
                  obtain ⟨r,-,rfl⟩ := Option.map_eq_some_iff.mp h
                  rw [hzero rfl]
                  simp

theorem Clean.nul_notMem {s : Bytes} (h : Clean s) : 0 ∉ s := by
  intro hm
  have := h 0 hm
  revert this
  decide

theorem takeWhile_nul {s : Bytes} (h : 0 ∉ s) : s.takeWhile (· ≠ 0) = s := by
  simpa using takeWhile_ne_append h []

theorem takeWhile_nul_length (s : Bytes) :
    (s.takeWhile (· ≠ 0)).length ≤ s.length ∧
      (0 ∈ s → (s.takeWhile (· ≠ 0)).length < s.length) := by
  refine ⟨(List.takeWhile_prefix _).length_le,fun h0 => ?_⟩
  refine lt_of_le_of_ne (List.takeWhile_prefix _).length_le fun he => ?_
  have := (List.takeWhile_prefix (fun x => decide (x ≠ 0))).eq_of_length he
  rw [← this] at h0
  simpa using List.mem_takeWhile_imp h0

theorem nul_notMem_takeWhile (s : Bytes) : 0 ∉ s.takeWhile (· ≠ 0) := by
  intro h
  simpa using List.mem_takeWhile_imp h

theorem readString_length {s r : Bytes} (h : readString s = some r) :
    r.length ≤ s.length ∧ (¬Clean s → r.length < s.length) := by
  obtain ⟨out,hout,rfl⟩ := Option.map_eq_some_iff.mp h
  obtain ⟨hle,hlt⟩ := unescape_escape_length _ (nul_notMem_takeWhile s) le_rfl hout
  obtain ⟨hle',hlt'⟩ := takeWhile_nul_length s
  refine ⟨hle.trans hle',fun hn => ?_⟩
  by_cases h0 : 0 ∈ s
  · exact lt_of_le_of_lt hle (hlt' h0)
  · rw [takeWhile_nul h0] at hlt hle
    exact hlt hn

theorem readString_clean {s : Bytes} (h : Clean s) : readString s = some s := by
  unfold readString
  rw [takeWhile_nul h.nul_notMem,unescape_escape h le_rfl,Option.map_some,
    takeWhile_nul h.nul_notMem]

/-- A string comes back as itself exactly when it is clean. -/
theorem readString_eq_iff (s : Bytes) : readString s = some s ↔ Clean s := by
  constructor
  · intro h
    by_contra hn
    exact lt_irrefl _ ((readString_length h).2 hn)
  · exact readString_clean

/-! ## Raw text between quotes -/

theorem scanString_split {s raw rest : Bytes} (h : scanString s = some (raw,rest)) :
    s = raw++34::rest ∧ (92 ∉ raw → 34 ∉ raw) := by
  induction hl : s.length using Nat.strong_induction_on generalizing s raw rest with
  | _ l ih =>
    subst hl
    cases s with
    | nil => simp [scanString] at h
    | cons b s =>
        by_cases h₃₄ : b = 34
        · subst h₃₄
          rw [scanString_quote] at h
          cases h
          simp
        by_cases h₉₂ : b = 92
        · subst h₉₂
          cases s with
          | nil => simp [scanString] at h
          | cons c s =>
              rw [scanString_backslash] at h
              obtain ⟨r,hr,he⟩ := Option.map_eq_some_iff.mp h
              cases he
              obtain ⟨hs,-⟩ := ih s.length (by simp) (show scanString s = some (r.1,r.2) from hr) rfl
              refine ⟨by rw [hs]; simp,fun hn => ?_⟩
              simp at hn
        · rw [scanString_plain h₃₄ h₉₂] at h
          obtain ⟨r,hr,he⟩ := Option.map_eq_some_iff.mp h
          cases he
          obtain ⟨hs,hq⟩ := ih s.length (by simp) (show scanString s = some (r.1,r.2) from hr) rfl
          refine ⟨by rw [hs]; simp,fun hn => ?_⟩
          simp only [List.mem_cons,not_or] at hn ⊢
          exact ⟨Ne.symm h₃₄,hq hn.2⟩

/-- More characters in front change nothing of where a raw text ends. -/
theorem quote_cases_append (a : Bytes) {k t raw rest : Bytes}
    (h : raw.length < k.length ∨ raw = k ∨ ∃ u, scanString t = some (u,rest) ∧ raw = k++34::u) :
    (a++raw).length < (a++k).length ∨ a++raw = a++k ∨
      ∃ u, scanString t = some (u,rest) ∧ a++raw = a++k++34::u := by
  rcases h with h | h | ⟨u,hu,h⟩
  · exact Or.inl (by simpa using h)
  · exact Or.inr (Or.inl (by rw [h]))
  · exact Or.inr (Or.inr ⟨u,hu,by rw [h,List.append_assoc]⟩)

/-- A quote ends the raw text unless that ended before, or a backslash before
the quote takes it away. -/
theorem scanString_quote_cases {k t raw rest : Bytes} (h : scanString (k++34::t) = some (raw,rest)) :
    raw.length < k.length ∨ raw = k ∨ ∃ u, scanString t = some (u,rest) ∧ raw = k++34::u := by
  induction hl : k.length using Nat.strong_induction_on generalizing k raw with
  | _ l ih =>
    subst hl
    cases k with
    | nil =>
        rw [List.nil_append,scanString_quote] at h
        cases h
        exact Or.inr (Or.inl rfl)
    | cons b k =>
        rw [List.cons_append] at h
        by_cases h₃₄ : b = 34
        · subst h₃₄
          rw [scanString_quote] at h
          cases h
          exact Or.inl (by simp)
        by_cases h₉₂ : b = 92
        · subst h₉₂
          cases k with
          | nil =>
              rw [List.nil_append,scanString_backslash] at h
              obtain ⟨r,hr,he⟩ := Option.map_eq_some_iff.mp h
              cases he
              exact Or.inr (Or.inr ⟨r.1,hr,rfl⟩)
          | cons c k =>
              rw [List.cons_append,scanString_backslash] at h
              obtain ⟨r,hr,he⟩ := Option.map_eq_some_iff.mp h
              cases he
              exact quote_cases_append [92,c]
                (ih k.length (by simp) (show scanString _ = some (r.1,r.2) from hr) rfl)
        · rw [scanString_plain h₃₄ h₉₂] at h
          obtain ⟨r,hr,he⟩ := Option.map_eq_some_iff.mp h
          cases he
          exact quote_cases_append [b]
            (ih k.length (by simp) (show scanString _ = some (r.1,r.2) from hr) rfl)

theorem utf8Encode_length (n : ℕ) : (utf8Encode n).length ≤ 4 := by
  unfold utf8Encode
  simp only
  split_ifs <;> simp

theorem utf16_length {s : Bytes} {u : Bytes × ℕ} (h : utf16LiteralToUtf8 s = some u) :
    u.1.length < u.2 ∧ u.2 ≤ s.length := by
  unfold utf16LiteralToUtf8 at h
  by_cases hlen : s.length < 6
  · rw [if_pos hlen] at h
    cases h
  rw [if_neg hlen] at h
  simp only at h
  by_cases hlow : 0xDC00 ≤ parseHex4 (s.drop 2) ∧ parseHex4 (s.drop 2) ≤ 0xDFFF
  · rw [if_pos hlow] at h
    cases h
  rw [if_neg hlow] at h
  by_cases hhigh : 0xD800 ≤ parseHex4 (s.drop 2) ∧ parseHex4 (s.drop 2) ≤ 0xDBFF
  · rw [if_pos hhigh] at h
    by_cases htail : (s.drop 6).length < 6 ∨ (s.drop 6).take 2 ≠ [92,117]
    · rw [if_pos htail] at h
      cases h
    rw [if_neg htail] at h
    split_ifs at h
    cases h
    have hfour := utf8Encode_length
      (0x10000+(parseHex4 (s.drop 2) % 1024*1024+parseHex4 ((s.drop 6).drop 2) % 1024))
    rw [not_or,List.length_drop] at htail
    exact ⟨by simp only; omega,by simp only; omega⟩
  · rw [if_neg hhigh] at h
    cases h
    have hfour := utf8Encode_length (parseHex4 (s.drop 2))
    exact ⟨by simp only; omega,by simp only; omega⟩

/-- Undoing escapes only shortens. -/
theorem unescape_length {n : ℕ} {s out : Bytes} (h : unescape n s = some out) :
    out.length ≤ s.length ∧ (92 ∈ s → out.length < s.length) := by
  induction n generalizing s out with
  | zero =>
      cases s with
      | nil =>
          simp only [unescape,Option.some.injEq] at h
          simp [← h]
      | cons b s => simp [unescape] at h
  | succ n ih =>
      cases s with
      | nil =>
          simp only [unescape,Option.some.injEq] at h
          simp [← h]
      | cons b s =>
          by_cases hb : b = 92
          · subst hb
            have hlt : out.length < (92::s).length := by
              cases s with
              | nil => simp [unescape] at h
              | cons c t =>
                  have hshort : ∀ {x : UInt8} {o : Bytes}, (unescape n t).map (x::·) = some o →
                      o.length < (92::c::t).length := by
                    intro x o ho
                    obtain ⟨r,hr,rfl⟩ := Option.map_eq_some_iff.mp ho
                    have := (ih hr).1
                    simp only [List.length_cons]
                    omega
                  rw [unescape] at h
                  simp only [ne_eq,not_true_eq_false,if_false] at h
                  split_ifs at h
                  all_goals first | exact hshort h | skip
                  obtain ⟨u,hu,h⟩ := Option.bind_eq_some_iff.mp h
                  obtain ⟨r,hr,rfl⟩ := Option.map_eq_some_iff.mp h
                  obtain ⟨h₁,h₂⟩ := utf16_length hu
                  have h₃ := (ih hr).1
                  rw [List.length_drop] at h₃
                  rw [List.length_append]
                  omega
            exact ⟨hlt.le,fun _ => hlt⟩
          · rw [unescape_plain hb] at h
            obtain ⟨r,hr,rfl⟩ := Option.map_eq_some_iff.mp h
            obtain ⟨hle,hlt⟩ := ih hr
            simp only [List.length_cons,List.mem_cons]
            refine ⟨by omega,fun hm => ?_⟩
            rcases hm with hm | hm
            · exact absurd hm.symm hb
            · have := hlt hm
              omega

theorem scanString_raw {s : Bytes} (h₃₄ : 34 ∉ s) (h₉₂ : 92 ∉ s) (t : Bytes) :
    scanString (s++34::t) = some (s,t) := by
  induction s with
  | nil => exact scanString_quote t
  | cons b s ih =>
      rw [List.mem_cons,not_or] at h₃₄ h₉₂
      rw [List.cons_append,scanString_plain (Ne.symm h₃₄.1) (Ne.symm h₉₂.1),ih h₃₄.2 h₉₂.2]
      rfl

theorem unescape_raw {s : Bytes} (h : 92 ∉ s) : unescape s.length s = some s := by
  induction s with
  | nil => rfl
  | cons b s ih =>
      rw [List.mem_cons,not_or] at h
      rw [List.length_cons,unescape_plain (Ne.symm h.1),ih h.2]
      rfl

theorem parseString_raw {s : Bytes} (h₃₄ : 34 ∉ s) (h₉₂ : 92 ∉ s) (h₀ : 0 ∉ s) (t : Bytes) :
    parseString (34::(s++34::t)) = some (s,t) := by
  have hw := takeWhile_nul h₀
  simp only [parseString,ne_eq,not_true_eq_false,if_false,scanString_raw h₃₄ h₉₂ t,
    Option.bind_eq_bind,Option.bind_some,unescape_raw h₉₂]
  rw [hw]

/-- Where a parsed string ends, and what it says about the raw text. -/
theorem parseString_split {s k rest : Bytes} (h : parseString (34::s) = some (k,rest)) :
    ∃ raw, scanString s = some (raw,rest) ∧ k.length ≤ raw.length ∧
      (k.length = raw.length → 92 ∉ raw ∧ 34 ∉ raw) := by
  rw [parseString,if_neg fun hn => hn rfl] at h
  obtain ⟨r,hr,h⟩ := Option.bind_eq_some_iff.mp h
  obtain ⟨out,hout,h⟩ := Option.bind_eq_some_iff.mp h
  cases h
  obtain ⟨hle,hlt⟩ := unescape_length hout
  have hw := (takeWhile_nul_length out).1
  refine ⟨r.1,hr,hw.trans hle,fun he => ?_⟩
  have h₉₂ : 92 ∉ r.1 := by
    intro hm
    have := hlt hm
    omega
  exact ⟨h₉₂,(scanString_split (show scanString s = some (r.1,r.2) from hr)).2 h₉₂⟩

/-! ## The room a string needs -/

theorem length_escape_clean {s : Bytes} (h : Clean s) :
    (escape s).length = s.length+s.countP fun b => b = 34 || b = 92 || b < 32 := by
  induction s with
  | nil => rfl
  | cons b s ih =>
      have hb := h b (by simp)
      have hlen : (escapeByte b).length = 1+if b = 34 || b = 92 || b < 32 then 1 else 0 := by
        obtain ⟨he,hs⟩ | ⟨he,c,hs,-⟩ := escapeByte_clean hb
        · rw [he,hs]
          rfl
        · rw [he,hs]
          rfl
      rw [escape_cons,List.length_append,ih fun c hc => h c (List.mem_cons_of_mem b hc),hlen,
        List.countP_cons,List.length_cons]
      omega

theorem length_stringText_clean {s : Bytes} (h : Clean s) :
    (stringText s).length = outputLength s+2 := by
  unfold stringText outputLength
  rw [takeWhile_nul h.nul_notMem]
  simp [length_escape_clean h]

end Filly.CJson
