import Filly.CJsonPrint

/-!
# Numbers through the printer and the reader

The text of a finite number is a sign, digits, perhaps a fraction and perhaps an
exponent, in which `strtod` finds its parts again. An integer in the range of an
`int` comes back as itself. Any other number comes back as the double nearest to
its value rounded to fifteen digits.
-/
namespace Filly.CJson
open Numerals

/-! ## Digit strings -/

theorem isDigit_digitByte {d : ℕ} (h : d < 10) : isDigit (digitByte d) = true := by
  interval_cases d <;> rfl

theorem digitByte_toNat {d : ℕ} (h : d < 10) : (digitByte d).toNat-48 = d := by
  interval_cases d <;> rfl

def AllDigits (ds : Bytes) : Prop := ∀ b ∈ ds, isDigit b = true

theorem allDigits_fixedNumeral (w n : ℕ) : AllDigits (fixedNumeral 10 w n) := by
  intro b hb
  obtain ⟨d,hd,rfl⟩ := mem_fixedNumeral (by norm_num) hb
  exact isDigit_digitByte hd

theorem allDigits_numeral (n : ℕ) : AllDigits (numeral 10 n) := by
  intro b hb
  obtain ⟨d,hd,rfl⟩ := mem_numeral (by norm_num) hb
  exact isDigit_digitByte hd

theorem foldl_digits (ds : Bytes) (n : ℕ) :
    ds.foldl (fun n b => n*10+(b.toNat-48)) n = n*10^ds.length+digitsValue ds := by
  unfold digitsValue
  induction ds generalizing n with
  | nil => simp
  | cons b ds ih =>
      simp only [List.foldl_cons,List.length_cons]
      rw [ih,ih (0*10+(b.toNat-48))]
      ring

theorem digitsValue_append (ds es : Bytes) :
    digitsValue (ds++es) = digitsValue ds*10^es.length+digitsValue es := by
  rw [digitsValue,List.foldl_append,foldl_digits]
  rfl

theorem digitsValue_fixedNumeral (w n : ℕ) : digitsValue (fixedNumeral 10 w n) = n % 10^w := by
  induction w generalizing n with
  | zero => simp [fixedNumeral,digitsValue,Nat.mod_one]
  | succ w ih =>
      have hd := digitByte_toNat (Nat.mod_lt n (show 0 < 10 by norm_num))
      rw [fixedNumeral,digitsValue_append,ih,pow_succ',Nat.mod_mul]
      simp only [digitsValue,List.foldl_cons,List.foldl_nil,List.length_singleton,hd]
      ring

theorem digitsValue_digits (ds : List ℕ) (h : ∀ d ∈ ds, d < 10) :
    digitsValue (ds.reverse.map digitByte) = Nat.ofDigits 10 ds := by
  induction ds with
  | nil => rfl
  | cons d ds ih =>
      have hd := digitByte_toNat (h d (by simp))
      rw [List.reverse_cons,List.map_append,digitsValue_append,
        ih fun e he => h e (List.mem_cons_of_mem d he),Nat.ofDigits_cons]
      simp only [digitsValue,List.map_cons,List.map_nil,List.foldl_cons,List.foldl_nil,
        List.length_singleton,hd]
      push_cast
      ring

theorem digitsValue_numeral (n : ℕ) : digitsValue (numeral 10 n) = n := by
  unfold numeral
  split_ifs with h
  · rw [h]
    rfl
  · rw [digitsValue_digits _ fun d hd => Nat.digits_lt_base (by norm_num) hd,Nat.ofDigits_digits]

theorem takeWhile_digits {ds t : Bytes} (h : AllDigits ds)
    (ht : ∀ b, t.head? = some b → isDigit b = false) : (ds++t).takeWhile isDigit = ds := by
  rw [List.takeWhile_append_of_pos h]
  cases t with
  | nil => simp
  | cons b t => simp [ht b rfl]

theorem stripZeros_spec (ds : Bytes) :
    ∃ z, ds = stripZeros ds++List.replicate z 48 ∧ (stripZeros ds).length+z = ds.length := by
  unfold stripZeros
  have hs : ds = ds.rdropWhile (· = 48)++ds.rtakeWhile (· = 48) := by
    simp [List.rdropWhile,List.rtakeWhile,← List.reverse_append]
  have hz : ds.rtakeWhile (· = 48) = List.replicate (ds.rtakeWhile (· = 48)).length 48 := by
    apply List.eq_replicate_of_mem
    intro b hb
    simpa using List.mem_rtakeWhile_imp hb
  refine ⟨(ds.rtakeWhile (· = 48)).length,?_,?_⟩
  · rw [← hz]
    exact hs
  · rw [← List.length_append,← hs]

/-! ## What `strtod` reads -/

theorem digit_ne {b : UInt8} (h : isDigit b = true) : b ≠ 45 ∧ b ≠ 43 ∧ b ≠ 46 := by
  refine ⟨?_,?_,?_⟩ <;> rintro rfl <;> revert h <;> decide

def leadingSign : Bytes → Bool × ℕ
  | 45::_ => (true,1)
  | 43::_ => (false,1)
  | _ => (false,0)

def fractionDigits : Bytes → Bytes
  | 46::t => t.takeWhile isDigit
  | _ => []

def pointLength : Bytes → ℕ
  | 46::_ => 1
  | _ => 0

theorem strtod_eq (s : Bytes) : strtod s =
    let g := leadingSign s
    let body := s.drop g.2
    let whole := body.takeWhile isDigit
    let after := body.drop whole.length
    let frac := fractionDigits after
    let e := strtodExponent (after.drop (pointLength after+frac.length))
    if whole = [] ∧ frac = [] then none else
      some (⟨g.1,digitsValue (whole++frac),e.1-frac.length⟩,
        g.2+whole.length+pointLength after+frac.length+e.2) := rfl

theorem leadingSign_sign {t : Bytes} (h : ∃ b, t.head? = some b ∧ isDigit b = true) (neg : Bool) :
    leadingSign (sign neg++t) = (neg,(sign neg).length) := by
  obtain ⟨b,hb,hd⟩ := h
  obtain ⟨h₁,h₂,-⟩ := digit_ne hd
  cases neg with
  | true => rfl
  | false =>
      cases t with
      | nil => cases hb
      | cons c t =>
          cases hb
          simp only [sign,Bool.false_eq_true,if_false,List.nil_append,List.length_nil]
          unfold leadingSign
          split
          · exact absurd (List.cons.inj ‹_›).1 h₁
          · exact absurd (List.cons.inj ‹_›).1 h₂
          · rfl

/-- A tail that starts neither with a digit nor with a point. -/
def EndsDigits (ex : Bytes) : Prop := ∀ b, ex.head? = some b → isDigit b = false ∧ b ≠ 46

theorem fraction_split {frac ex : Bytes} (hf : AllDigits frac) (hh : EndsDigits ex) :
    fractionDigits (fraction frac++ex) = frac ∧
      pointLength (fraction frac++ex) = (fraction frac).length-frac.length ∧
      (fraction frac++ex).drop ((fraction frac).length) = ex := by
  refine ⟨?_,?_,List.drop_left⟩
  · unfold fraction
    split_ifs with h0
    · subst h0
      unfold fractionDigits
      split
      · rename_i heq
        exact absurd rfl (hh 46 (by rw [← List.nil_append ex,heq]; rfl)).2
      · rfl
    · exact takeWhile_digits hf fun b hb => (hh b hb).1
  · unfold fraction
    split_ifs with h0
    · subst h0
      unfold pointLength
      split
      · rename_i heq
        exact absurd rfl (hh 46 (by rw [← List.nil_append ex,heq]; rfl)).2
      · rfl
    · simp [pointLength]

theorem length_le_fraction (frac : Bytes) : frac.length ≤ (fraction frac).length := by
  unfold fraction
  split_ifs with h
  · simp [h]
  · simp

theorem strtod_parts {whole frac ex : Bytes} {e : ℤ} (hw : AllDigits whole) (hne : whole ≠ [])
    (hf : AllDigits frac) (hex : strtodExponent ex = (e,ex.length)) (hh : EndsDigits ex)
    (neg : Bool) :
    strtod (sign neg++(whole++(fraction frac++ex))) =
      some (⟨neg,digitsValue (whole++frac),e-frac.length⟩,
        (sign neg++(whole++(fraction frac++ex))).length) := by
  obtain ⟨hdigits,hpoint,hdrop⟩ := fraction_split hf hh
  have hle := length_le_fraction frac
  have hsign : leadingSign (sign neg++(whole++(fraction frac++ex))) = (neg,(sign neg).length) := by
    apply leadingSign_sign
    obtain ⟨d,ds,rfl⟩ := List.exists_cons_of_ne_nil hne
    exact ⟨d,rfl,hw d (by simp)⟩
  have hwhole : (whole++(fraction frac++ex)).takeWhile isDigit = whole := by
    apply takeWhile_digits hw
    intro b hb
    unfold fraction at hb
    split_ifs at hb with h0
    · exact (hh b hb).1
    · cases hb
      rfl
  have hoff : (fraction frac).length-frac.length+frac.length = (fraction frac).length := by omega
  rw [strtod_eq]
  simp only [hsign,List.drop_left,hwhole,hdigits,hpoint,hoff,hdrop,hex,hne,false_and,if_false]
  congr 2
  simp only [List.length_append]
  omega

theorem strtodExponent_exponent (x : ℤ) : strtodExponent (exponent x) = (x,(exponent x).length) := by
  generalize hds : (if x.natAbs < 100 then fixedNumeral 10 2 x.natAbs else numeral 10 x.natAbs) = ds
  have hall : AllDigits ds := by
    rw [← hds]
    split_ifs
    · exact allDigits_fixedNumeral 2 x.natAbs
    · exact allDigits_numeral x.natAbs
  have hval : digitsValue ds = x.natAbs := by
    rw [← hds]
    split_ifs with h
    · rw [digitsValue_fixedNumeral,Nat.mod_eq_of_lt (by omega)]
    · exact digitsValue_numeral x.natAbs
  have hne : ds ≠ [] := by
    rw [← hds]
    split_ifs
    · simp [fixedNumeral]
    · exact numeral_ne_nil 10 x.natAbs
  have htake : ds.takeWhile isDigit = ds := by
    simpa using takeWhile_digits hall (t := []) (by simp)
  unfold exponent
  rw [hds]
  by_cases hx : x < 0
  · simp only [hx,if_true,strtodExponent,decide_true,Bool.true_or,List.drop_succ_cons,
      List.drop_zero,htake,hne,if_false,hval,List.length_cons]
    exact Prod.ext (show -(x.natAbs : ℤ) = x by omega) (show 1+1+ds.length = ds.length+1+1 by omega)
  · simp only [hx,if_false,strtodExponent,decide_true,Bool.true_or,if_true,List.drop_succ_cons,
      List.drop_zero,htake,hne,Bool.false_eq_true,hval,List.length_cons]
    exact Prod.ext (show (x.natAbs : ℤ) = x by omega) (show 1+1+ds.length = ds.length+1+1 by omega)

/-! ## Fifteen digits -/

/-- A positive number rounded to fifteen significant digits. -/
def rounded15 (v : ℚ) : ℚ := (significant 15 v).1*10^((significant 15 v).2-14)

theorem digitsValue_zeros (z : ℕ) : digitsValue (List.replicate z 48) = 0 := by
  induction z with
  | zero => rfl
  | succ z ih =>
      rw [List.replicate_succ,← List.singleton_append,digitsValue_append,ih]
      simp [digitsValue]

theorem digitsValue_stripZeros (whole full : Bytes) (e : ℤ) :
    (digitsValue (whole++stripZeros full) : ℚ)*10^(e-(stripZeros full).length) =
      digitsValue (whole++full)*10^(e-full.length) := by
  obtain ⟨z,hz,hlen⟩ := stripZeros_spec full
  have hfull : digitsValue (whole++full) = digitsValue (whole++stripZeros full)*10^z := by
    conv_lhs => rw [hz,← List.append_assoc,digitsValue_append,digitsValue_zeros,
      List.length_replicate]
    rfl
  have he : (e-(stripZeros full).length : ℤ) = z+(e-full.length) := by omega
  rw [hfull,he,zpow_add₀ (by norm_num),zpow_natCast]
  push_cast
  ring

theorem AllDigits.append {ds es : Bytes} (h : AllDigits ds) (h' : AllDigits es) :
    AllDigits (ds++es) := by
  intro b hb
  rcases List.mem_append.mp hb with hb | hb
  · exact h b hb
  · exact h' b hb

theorem AllDigits.strip {ds : Bytes} (h : AllDigits ds) : AllDigits (stripZeros ds) :=
  fun b hb => h b ((List.rdropWhile_prefix _ ds).subset hb)

theorem allDigits_zeros (z : ℕ) : AllDigits (List.replicate z 48) := by
  intro b hb
  rw [List.eq_of_mem_replicate hb]
  rfl

/-- The digits around the point and the exponent stand for the rounded number. -/
theorem partsG_spec (v : ℚ) : AllDigits (partsG v).1 ∧ (partsG v).1 ≠ [] ∧
    AllDigits (partsG v).2.1 ∧
    (digitsValue ((partsG v).1++(partsG v).2.1) : ℚ)*10^((partsG v).2.2-(partsG v).2.1.length) =
      rounded15 v := by
  have hlt := significant_lt 14 v
  generalize hr : significant 15 v = r at hlt
  have hds := allDigits_fixedNumeral 15 r.1
  have hlen := length_fixedNumeral 10 15 r.1
  have hval : digitsValue (fixedNumeral 10 15 r.1) = r.1 := by
    rw [digitsValue_fixedNumeral,Nat.mod_eq_of_lt hlt]
  generalize hD : fixedNumeral 10 15 r.1 = ds at hds hlen hval
  have htake : ∀ n, AllDigits (ds.take n) :=
    fun n b hb => hds b (List.mem_of_mem_take hb)
  have hdrop : ∀ n, AllDigits (ds.drop n) :=
    fun n b hb => hds b (List.mem_of_mem_drop hb)
  have hne : ∀ n, ds.take (n+1) ≠ [] := by
    intro n h
    have := congrArg List.length h
    simp [hlen] at this
  unfold partsG rounded15
  simp only [hr,hD]
  split_ifs with h₁ h₂
  · refine ⟨htake 1,hne 0,(hdrop 1).strip,?_⟩
    rw [digitsValue_stripZeros,List.take_append_drop,hval,List.length_drop,hlen]
    norm_num
  · refine ⟨?_,by simp,AllDigits.strip ((allDigits_zeros _).append hds),?_⟩
    · exact allDigits_zeros 1
    · rw [digitsValue_stripZeros,← List.append_assoc,digitsValue_append,hval]
      have hz : digitsValue ([48]++List.replicate (-r.2-1).toNat 48) = 0 :=
        digitsValue_zeros ((-r.2-1).toNat+1)
      have he : (0 : ℤ)-(List.replicate (-r.2-1).toNat (48 : UInt8)++ds).length =
          r.2-14 := by
        simp only [List.length_append,List.length_replicate,hlen]
        omega
      rw [hz,he]
      simp
  · refine ⟨htake _,hne _,(hdrop _).strip,?_⟩
    rw [digitsValue_stripZeros,List.take_append_drop,hval,List.length_drop,hlen]
    have he : (0 : ℤ)-((15-(r.2.toNat+1) : ℕ) : ℤ) = r.2-14 := by omega
    rw [he]

/-! ## Reading a printed number -/

/-- The decimal the reader finds in the text of a finite number. -/
def rereadDecimal (d : Decimal) (v : ℚ) : Decimal :=
  if v = d.valueint then ⟨d.valueint < 0,d.valueint.natAbs,0⟩
  else
    let p := partsG |v|
    ⟨v < 0,digitsValue (p.1++p.2.1),p.2.2-p.2.1.length⟩

/-- A tail that ends a number. -/
def EndsNumber (t : Bytes) : Prop := ∀ b, t.head? = some b → isNumberChar b = false

theorem isNumberChar_of_digit {b : UInt8} (h : isDigit b = true) : isNumberChar b = true := by
  simp [isNumberChar,h]

def AllNumberChars (s : Bytes) : Prop := ∀ b ∈ s, isNumberChar b = true

theorem AllDigits.numberChars {ds : Bytes} (h : AllDigits ds) : AllNumberChars ds :=
  fun b hb => isNumberChar_of_digit (h b hb)

theorem AllNumberChars.append {s t : Bytes} (h : AllNumberChars s) (h' : AllNumberChars t) :
    AllNumberChars (s++t) := by
  intro b hb
  rcases List.mem_append.mp hb with hb | hb
  · exact h b hb
  · exact h' b hb

theorem numberChars_sign (neg : Bool) : AllNumberChars (sign neg) := by
  cases neg <;> simp [sign,AllNumberChars,isNumberChar]

theorem numberChars_fraction {ds : Bytes} (h : AllDigits ds) : AllNumberChars (fraction ds) := by
  unfold fraction
  split_ifs
  · simp [AllNumberChars]
  · intro b hb
    rcases List.mem_cons.mp hb with rfl | hb
    · rfl
    · exact h.numberChars b hb

theorem numberChars_exponent (x : ℤ) : AllNumberChars (exponent x) := by
  unfold exponent
  intro b hb
  rcases List.mem_cons.mp hb with rfl | hb
  · rfl
  · rcases List.mem_cons.mp hb with rfl | hb
    · split_ifs <;> rfl
    · split_ifs at hb
      · exact (allDigits_fixedNumeral 2 x.natAbs).numberChars b hb
      · exact (allDigits_numeral x.natAbs).numberChars b hb

theorem formatInt_eq (n : ℤ) :
    formatInt n = sign (n < 0)++(numeral 10 n.natAbs++(fraction []++[])) := by
  simp [formatInt,fraction]

theorem strtod_formatInt (n : ℤ) :
    strtod (formatInt n) = some (⟨n < 0,n.natAbs,0⟩,(formatInt n).length) := by
  rw [formatInt_eq,strtod_parts (e := 0) (allDigits_numeral n.natAbs) (numeral_ne_nil 10 n.natAbs)
    (by simp [AllDigits]) rfl (by simp [EndsDigits]),List.append_nil,digitsValue_numeral]
  rfl

theorem strtod_formatG (v : ℚ) :
    strtod (formatG v) = some (⟨v < 0,digitsValue ((partsG |v|).1++(partsG |v|).2.1),
      (partsG |v|).2.2-(partsG |v|).2.1.length⟩,(formatG v).length) := by
  obtain ⟨hw,hne,hf,-⟩ := partsG_spec |v|
  unfold formatG
  simp only [List.append_assoc]
  split_ifs with he
  · rw [he]
    exact strtod_parts hw hne hf rfl (by simp [EndsDigits]) _
  · apply strtod_parts hw hne hf (strtodExponent_exponent _)
    intro b hb
    cases hb
    exact ⟨rfl,by decide⟩

theorem numberChars_formatG (v : ℚ) : AllNumberChars (formatG v) := by
  obtain ⟨hw,-,hf,-⟩ := partsG_spec |v|
  unfold formatG
  apply AllNumberChars.append
  · exact ((numberChars_sign _).append hw.numberChars).append (numberChars_fraction hf)
  · split_ifs
    · simp [AllNumberChars]
    · exact numberChars_exponent _

theorem takeWhile_number {s t : Bytes} (h : AllNumberChars s) (ht : EndsNumber t) :
    (s++t).takeWhile isNumberChar = s := by
  rw [List.takeWhile_append_of_pos h]
  cases t with
  | nil => simp
  | cons b t => simp [ht b rfl]

theorem parseNumber_append {s t : Bytes} {d : Decimal} (h : AllNumberChars s) (ht : EndsNumber t)
    (hs : strtod s = some (d,s.length)) : parseNumber (s++t) = some (.number d,t) := by
  unfold parseNumber
  rw [takeWhile_number h ht,hs]
  simp

theorem parseNumber_printNumber {d : Decimal} {v : ℚ} (hv : d.valuedouble = some v) {t : Bytes}
    (ht : EndsNumber t) : parseNumber (printNumber d++t) = some (.number (rereadDecimal d v),t) := by
  unfold printNumber rereadDecimal
  rw [hv]
  simp only
  split_ifs with h
  · apply parseNumber_append _ ht (strtod_formatInt d.valueint)
    exact (numberChars_sign _).append (allDigits_numeral _).numberChars
  · exact parseNumber_append (numberChars_formatG v) ht (strtod_formatG v)

/-! ## Integers -/

theorem value_intCast (n : ℤ) : Decimal.value ⟨n < 0,n.natAbs,0⟩ = n := by
  simp only [Decimal.value,zpow_zero,mul_one,decide_eq_true_eq]
  split_ifs with hn
  · have : -(n.natAbs : ℤ) = n := by omega
    exact_mod_cast this
  · have : (n.natAbs : ℤ) = n := by omega
    rw [← Int.cast_natCast,this]

/-- The double of an integer below `2^53` has the integer itself as its part. -/
theorem magnitude_natCast {m : ℕ} (hm : m < 2^53) (neg : Bool) :
    Decimal.magnitude ⟨neg,m,0⟩ = m := by
  unfold Decimal.magnitude
  split_ifs with h0
  · exact h0.symm
  · have h0 : m ≠ 0 := h0
    have hlog : Nat.log2 m ≤ 52 := by
      rw [Nat.log2_eq_log_two]
      exact Nat.lt_succ_iff.mp (Nat.log_lt_of_lt_pow h0 hm)
    have hs : (52 : ℤ)-((Nat.log2 m : ℤ)-Nat.log2 1) = ((52-Nat.log2 m : ℕ) : ℤ) := by
      have : Nat.log2 1 = 0 := by decide
      rw [this]
      omega
    -- the shift makes 53 bits of the mantissa, and nothing is rounded
    have hge : ¬ m*2^(52-Nat.log2 m) < 2^52 := by
      have h := Nat.mul_le_mul_right (2^(52-Nat.log2 m)) (Nat.log2_self_le h0)
      rw [← pow_add,Nat.add_sub_cancel' hlog] at h
      omega
    simp only [nearest,Int.toNat_zero,pow_zero,mul_one,neg_zero,hs,Int.toNat_natCast,
      Int.toNat_neg_natCast,one_mul,hge,if_false,scaled,Nat.div_one,Nat.mod_one,neg_neg]
    simp

theorem valueint_intCast {n : ℤ} (h : -2^31 ≤ n ∧ n < 2^31) :
    Decimal.valueint ⟨n < 0,n.natAbs,0⟩ = n := by
  unfold Decimal.valueint
  rw [magnitude_natCast (by omega)]
  simp only [decide_eq_true_eq]
  split_ifs <;> omega

theorem valuedouble_intCast {n : ℤ} (h : -2^31 ≤ n ∧ n < 2^31) :
    Decimal.valuedouble ⟨n < 0,n.natAbs,0⟩ = some (n : ℚ) := by
  rw [Decimal.valuedouble,value_intCast,binary64_intCast]
  rw [abs_lt]
  omega

/-- The double a number comes back as. -/
theorem rereadDecimal_valuedouble (d : Decimal) (v : ℚ) :
    (rereadDecimal d v).valuedouble =
      if v = d.valueint then some v
      else binary64 (if v < 0 then -rounded15 |v| else rounded15 |v|) := by
  unfold rereadDecimal
  split_ifs with h hneg
  · have hvi : |d.valueint| ≤ 2^31 := by
      unfold Decimal.valueint
      simp only
      split_ifs <;> rw [abs_le] <;> constructor <;> omega
    rw [Decimal.valuedouble,value_intCast,binary64_intCast _ (by omega),h]
  all_goals
    obtain ⟨-,-,-,hspec⟩ := partsG_spec |v|
    rw [Decimal.valuedouble,Decimal.value]
    simp only [hneg,decide_true,decide_false,if_true,Bool.false_eq_true,if_false,neg_mul,hspec]

/-! ## The length of a number -/

theorem length_sign (neg : Bool) : (sign neg).length ≤ 1 := by
  cases neg <;> simp [sign]

theorem length_fraction (ds : Bytes) : (fraction ds).length ≤ ds.length+1 := by
  unfold fraction
  split_ifs with h
  · simp
  · simp

theorem length_stripZeros (ds : Bytes) : (stripZeros ds).length ≤ ds.length := by
  obtain ⟨z,-,h⟩ := stripZeros_spec ds
  omega

theorem length_exponent {x : ℤ} (h : x.natAbs < 10^4) : (exponent x).length ≤ 6 := by
  have hn := length_numeral_le (show 1 < 10 by norm_num) (by norm_num) h
  unfold exponent
  simp only [List.length_cons]
  split_ifs
  · simp
  · omega

theorem length_partsG (v : ℚ) :
    (partsG v).1.length+(partsG v).2.1.length ≤ if (partsG v).2.2 = 0 then 19 else 15 := by
  unfold partsG
  simp only
  generalize significant 15 v = r
  have hlen := length_fixedNumeral 10 15 r.1
  by_cases h₁ : r.2 < -4 ∨ 15 ≤ r.2
  · have h₀ : r.2 ≠ 0 := by omega
    have hs := length_stripZeros ((fixedNumeral 10 15 r.1).drop 1)
    simp only [if_pos h₁,if_neg h₀,List.length_take,List.length_drop,hlen] at hs ⊢
    omega
  · by_cases h₂ : r.2 < 0
    · have hs := length_stripZeros (List.replicate (-r.2-1).toNat 48++fixedNumeral 10 15 r.1)
      simp only [if_neg h₁,if_pos h₂,if_true,List.length_append,List.length_replicate,
        List.length_singleton,hlen] at hs ⊢
      omega
    · have hs := length_stripZeros ((fixedNumeral 10 15 r.1).drop (r.2.toNat+1))
      simp only [if_neg h₁,if_neg h₂,if_true,List.length_take,List.length_drop,hlen] at hs ⊢
      omega

theorem exponent_partsG {v : ℚ} (hlo : v = 0 ∨ (2 : ℚ)^(-1074 : ℤ) ≤ |v|) (hhi : |v| < 2^1024) :
    (partsG |v|).2.2.natAbs < 10^4 := by
  have hr : -1074 ≤ (significant 15 |v|).2 ∧ (significant 15 |v|).2 ≤ 1024 := by
    rcases hlo with rfl | hlo
    · unfold significant
      simp only [abs_zero,Int.log_of_right_le_zero 10 le_rfl]
      split_ifs <;> simp
    · have hpos : 0 < |v| := lt_of_lt_of_le (by positivity) hlo
      apply significant_exponent hpos
      · refine le_trans ?_ hlo
        rw [zpow_neg,zpow_neg]
        apply inv_anti₀ (by positivity)
        exact zpow_le_zpow_left₀ (by norm_num) (by norm_num) (by norm_num)
      · calc |v| < 2^1024 := hhi
          _ ≤ 10^1024 := pow_le_pow_left₀ (by norm_num) (by norm_num) 1024
          _ = 10^(1024 : ℤ) := (zpow_natCast 10 1024).symm
  unfold partsG
  simp only
  split_ifs <;> simp only <;> omega

theorem length_formatG {v : ℚ} (h : (partsG |v|).2.2.natAbs < 10^4) : (formatG v).length ≤ 25 := by
  have hsign := length_sign (v < 0)
  have hparts := length_partsG |v|
  have hfrac := length_fraction (partsG |v|).2.1
  have hexp := length_exponent h
  unfold formatG
  simp only [List.length_append]
  split_ifs at hparts ⊢ with he
  · simp only [List.length_nil]
    omega
  · omega

/-- `number_buffer` has room for 25 characters and a NUL. -/
theorem length_printNumber (d : Decimal) : (printNumber d).length ≤ 25 := by
  unfold printNumber
  cases hv : d.valuedouble with
  | none => simp [bytes]
  | some v =>
      simp only
      split_ifs with h
      · have hvi : d.valueint.natAbs < 10^10 := by
          unfold Decimal.valueint
          simp only
          split_ifs <;> omega
        have := length_numeral_le (show 1 < 10 by norm_num) (by norm_num) hvi
        have := length_sign (d.valueint < 0)
        rw [formatInt,List.length_append]
        omega
      · obtain ⟨hhi,hlo⟩ := binary64_range hv
        apply length_formatG
        apply exponent_partsG _ hhi
        by_cases h0 : v = 0
        · exact Or.inl h0
        · exact Or.inr (hlo h0)

end Filly.CJson
