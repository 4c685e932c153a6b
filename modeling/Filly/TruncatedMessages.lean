import Filly.MsgPackRoundTrip

/-!
# Truncated messages

Past the end of its buffer the reader takes zero bytes, and it believes the length or the number
of elements that a header gives. The writer drops what does not fit.
-/
namespace Filly.MsgPack
open BigEndian

/-! ## Headers -/

/-- How a header gives a number: in the low bits of a tag whose other bits are fixed, or in the
bytes behind a tag. -/
structure LengthPrefix where
  mask : UInt8
  fix : UInt8
  low : UInt8
  wide : UInt8 → Option ℕ

def strPrefix : LengthPrefix :=
  ⟨0xe0,0xa0,0x1f,fun tag =>
    if tag = 0xd9 then some 1 else if tag = 0xda then some 2 else if tag = 0xdb then some 4
    else none⟩

def countPrefix (fix tag16 tag32 : UInt8) : LengthPrefix :=
  ⟨0xf0,fix,0xf,fun tag =>
    if tag = tag16 then some 2 else if tag = tag32 then some 4 else none⟩

def arrayPrefix : LengthPrefix := countPrefix 0x90 0xdc 0xdd
def mapPrefix : LengthPrefix := countPrefix 0x80 0xde 0xdf

/-- A complete header and its number. -/
inductive Header (f : LengthPrefix) : List UInt8 → ℕ → Prop
  | short {tag} (fixed : tag &&& f.mask = f.fix) : Header f [tag] (tag &&& f.low).toNat
  | long {tag word} (free : tag &&& f.mask ≠ f.fix) (bytes : f.wide tag = some word.length) :
      Header f (tag::word) (accumulate 0 word)

/-- Behind a complete header there are `per` bytes for each of its elements, and in a header that
is cut off there are only zeros. -/
structure Fits (f : LengthPrefix) (per : ℕ) (rest : List UInt8) : Prop where
  complete : ∀ header n t, rest = header++t → Header f header n → per*n ≤ t.length
  cut : ∀ tag word k, rest = tag::word → tag &&& f.mask ≠ f.fix → f.wide tag = some k →
    word.length < k → ∀ b ∈ word, b = 0

/-! ## What the claim is about -/

/-- A value that a writer writes, `nil` among them. -/
def writeNext (w : MsgPackWriter) : Option Item → MsgPackWriter
  | none => msgpackWriteNil w
  | some i => writeItem w i

def encodeNext : Option Item → List UInt8
  | none => [0xc0]
  | some i => encode i

/-- The string is made of bytes that stand behind its length, and the headers do not give more
elements than there are bytes for them, one for an element of an array and two for an entry of a
map. What a writer has written is a beginning of all that it was to write. -/
structure Honest (r : MsgPackReader) (w : MsgPackWriter) (vs : List (Option Item)) : Prop where
  strLength : (msgpackReadStr r).1.length ≤ r.rest.length
  strBytes : (msgpackReadStr r).1 <+: (readLength r).2.rest
  array : (msgpackReadArray r).1 ≤ (msgpackReadArray r).2.rest.length
  map : 2*(msgpackReadMap r).1 ≤ (msgpackReadMap r).2.rest.length
  writer : (vs.foldl writeNext w).written = (w.written++vs.flatMap encodeNext).take w.size
  pos : (vs.foldl writeNext w).pos ≤ (vs.foldl writeNext w).size

/-! ## Bytes with zeros behind them -/

/-- The next `n` bytes, zeros where there are none. -/
def padded : ℕ → List UInt8 → List UInt8
  | 0, _ => []
  | n+1, bs => bs.headD 0::padded n bs.tail

theorem padded_succ (n : ℕ) (bs : List UInt8) :
    padded (n+1) bs = bs.headD 0::padded n bs.tail := rfl

theorem padded_length (n : ℕ) (bs : List UInt8) : (padded n bs).length = n := by
  induction n generalizing bs with
  | zero => rfl
  | succ n ih => rw [padded_succ,List.length_cons,ih]

theorem padded_of_le {n : ℕ} {bs : List UInt8} (h : n ≤ bs.length) : padded n bs = bs.take n := by
  induction n generalizing bs with
  | zero => rfl
  | succ n ih =>
      cases bs with
      | nil => exact absurd h (Nat.not_succ_le_zero n)
      | cons b bs =>
          rw [padded_succ,List.take_succ_cons,List.tail_cons,ih (Nat.le_of_succ_le_succ h)]
          rfl

theorem padded_nil (n : ℕ) : padded n [] = List.replicate n 0 := by
  induction n with
  | zero => rfl
  | succ n ih =>
      rw [padded_succ,List.tail_nil,ih]
      rfl

theorem mem_padded_of_lt {n : ℕ} {bs : List UInt8} (h : bs.length < n) :
    (∀ b ∈ padded n bs, b = 0) ↔ ∀ b ∈ bs, b = 0 := by
  induction n generalizing bs with
  | zero => exact absurd h (Nat.not_lt_zero _)
  | succ n ih =>
      cases bs with
      | nil =>
          rw [padded_nil]
          exact iff_of_true (fun b hb => List.eq_of_mem_replicate hb)
            fun b hb => absurd hb List.not_mem_nil
      | cons b bs =>
          rw [padded_succ,List.forall_mem_cons,List.forall_mem_cons,List.tail_cons,
            ih (Nat.lt_of_succ_lt_succ h)]
          rfl

theorem accumulate_eq_zero (acc : ℕ) (bs : List UInt8) :
    accumulate acc bs = 0 ↔ acc = 0 ∧ ∀ b ∈ bs, b = 0 := by
  induction bs generalizing acc with
  | nil => simp [accumulate]
  | cons b bs ih =>
      change accumulate (shiftIn acc b) bs = 0 ↔ _
      rw [ih,shiftIn_eq,List.forall_mem_cons,← and_assoc]
      refine and_congr_left fun _ => ?_
      rw [← UInt8.toNat_inj]
      change _ ↔ acc = 0 ∧ b.toNat = 0
      omega

/-! ## What the readers take -/

theorem readByte_rest (r : MsgPackReader) :
    (readByte r).1 = r.rest.headD 0 ∧ (readByte r).2.rest = r.rest.tail := by
  rw [readByte]
  split_ifs with hlt
  · have hrest : r.rest = r.buf.get ⟨r.pos,hlt⟩::r.buf.drop (r.pos+1) :=
      List.drop_eq_getElem_cons hlt
    rw [hrest]
    exact ⟨rfl,rfl⟩
  · have hrest : r.rest = [] := List.drop_eq_nil_of_le (Nat.le_of_not_lt hlt)
    rw [hrest]
    exact ⟨rfl,rfl⟩

theorem readBytes_rest (l : ℕ) (r : MsgPackReader) : (readBytes l r).1 = padded l r.rest := by
  induction l generalizing r with
  | zero => rfl
  | succ l ih =>
      obtain ⟨hbyte,hrest⟩ := readByte_rest r
      rw [readBytes,padded,← hbyte,← hrest,← ih]

theorem readPair_rest (r : MsgPackReader) :
    (readPair r).1 = accumulate 0 (padded 2 r.rest) ∧ (readPair r).2.rest = r.rest.drop 2 := by
  obtain ⟨hb,hrest⟩ := readByte_rest r
  obtain ⟨hc,hrest'⟩ := readByte_rest (readByte r).2
  rw [hrest] at hc hrest'
  constructor
  · have hzero : shiftIn 0 (readByte r).1 = (readByte r).1.toNat := by rw [shiftIn_eq,zero_mul,zero_add]
    rw [readPair,padded,padded,padded,← hb,← hc,← hzero]
    rfl
  · change (readByte (readByte r).2).2.rest = r.rest.drop 2
    rw [hrest',← List.drop_one,← List.drop_one,List.drop_drop]

theorem readWord_rest (bits n : ℕ) : ∀ (v : ℕ) (r : MsgPackReader), v < 2^(bits-8*n) →
    8*n ≤ bits → (readWord bits n v r).1 = accumulate v (padded n r.rest) ∧
      (readWord bits n v r).2.rest = r.rest.drop n := by
  induction n with
  | zero => exact fun v r _ _ => ⟨rfl,rfl⟩
  | succ n ih =>
      intro v r hv hbits
      obtain ⟨hb,hrest⟩ := readByte_rest r
      have hbyte := (readByte r).1.toNat_lt
      have hpow : 2^(bits-8*n) = 2^(bits-8*(n+1))*256 := by
        rw [show (256 : ℕ) = 2^8 by rfl,← pow_add]
        congr 1
        omega
      have hnext : shiftIn v (readByte r).1 < 2^(bits-8*n) := by
        rw [shiftIn_eq,hpow]
        omega
      have hmod : shiftIn v (readByte r).1 % 2^bits = shiftIn v (readByte r).1 :=
        Nat.mod_eq_of_lt (hnext.trans_le (Nat.pow_le_pow_right (by decide) (Nat.sub_le _ _)))
      obtain ⟨hvalue,hleft⟩ := ih (shiftIn v (readByte r).1) (readByte r).2 hnext (by omega)
      rw [readWord,hmod,hvalue,hleft,hrest,padded,← hb,List.drop_tail]
      exact ⟨rfl,rfl⟩

/-- The number that a header gives, with zeros for what is cut off, and what stands behind it. -/
def LengthPrefix.claim (f : LengthPrefix) (bytes : List UInt8) : ℕ × List UInt8 :=
  let tag := bytes.headD 0
  if tag &&& f.mask = f.fix then ((tag &&& f.low).toNat,bytes.tail)
  else
    match f.wide tag with
    | some k => (accumulate 0 (padded k bytes.tail),bytes.tail.drop k)
    | none => (0,bytes.tail)

section
variable (f : LengthPrefix) (bytes : List UInt8)

theorem claim_short (h : bytes.headD 0 &&& f.mask = f.fix) :
    f.claim bytes = ((bytes.headD 0 &&& f.low).toNat,bytes.tail) := by
  rw [LengthPrefix.claim]
  exact if_pos h

theorem claim_long (h : bytes.headD 0 &&& f.mask ≠ f.fix) {k : ℕ}
    (hwide : f.wide (bytes.headD 0) = some k) :
    f.claim bytes = (accumulate 0 (padded k bytes.tail),bytes.tail.drop k) := by
  rw [LengthPrefix.claim,if_neg h,hwide]

theorem claim_none (h : bytes.headD 0 &&& f.mask ≠ f.fix)
    (hwide : f.wide (bytes.headD 0) = none) : f.claim bytes = (0,bytes.tail) := by
  rw [LengthPrefix.claim,if_neg h,hwide]

end

theorem readLength_claim (r : MsgPackReader) :
    (readLength r).1 = (strPrefix.claim r.rest).1 ∧
      (readLength r).2.rest = (strPrefix.claim r.rest).2 := by
  obtain ⟨hb,hrest⟩ := readByte_rest r
  obtain ⟨hc,hrest'⟩ := readByte_rest (readByte r).2
  have hpair := readPair_rest (readByte r).2
  have hword := readWord_rest 64 4 0 (readByte r).2 (by decide) (by decide)
  rw [hrest] at hc hrest' hpair hword
  unfold readLength
  dsimp only
  rw [hb]
  split_ifs with hfix h8 h16 h32
  · rw [claim_short strPrefix r.rest hfix]
    exact ⟨rfl,hrest⟩
  · rw [claim_long strPrefix r.rest hfix (k := 1) (by rw [h8]; rfl),padded,← hc,List.drop_one]
    refine ⟨?_,hrest'⟩
    change _ = shiftIn 0 _
    rw [shiftIn_eq,zero_mul,zero_add]
  · rw [claim_long strPrefix r.rest hfix (k := 2) (by rw [h16]; rfl)]
    exact hpair
  · rw [claim_long strPrefix r.rest hfix (k := 4) (by rw [h32]; rfl)]
    exact hword
  · rw [claim_none strPrefix r.rest hfix]
    · exact ⟨rfl,hrest⟩
    · simp only [strPrefix,if_neg h8,if_neg h16,if_neg h32]

theorem readHeader_claim (fix tag16 tag32 : UInt8) (r : MsgPackReader) :
    (readHeader fix tag16 tag32 r).1 = ((countPrefix fix tag16 tag32).claim r.rest).1 ∧
      (readHeader fix tag16 tag32 r).2.rest =
        ((countPrefix fix tag16 tag32).claim r.rest).2 := by
  obtain ⟨hb,hrest⟩ := readByte_rest r
  have hpair := readPair_rest (readByte r).2
  have hword := readWord_rest 64 4 0 (readByte r).2 (by decide) (by decide)
  rw [hrest] at hpair hword
  unfold readHeader
  dsimp only
  rw [hb]
  split_ifs with hfix h16 h32
  · rw [claim_short (countPrefix fix tag16 tag32) r.rest hfix]
    exact ⟨rfl,hrest⟩
  · rw [claim_long (countPrefix fix tag16 tag32) r.rest hfix (k := 2) (if_pos h16)]
    exact hpair
  · rw [claim_long (countPrefix fix tag16 tag32) r.rest hfix (k := 4)
      ((if_neg h16).trans (if_pos h32))]
    exact hword
  · rw [claim_none (countPrefix fix tag16 tag32) r.rest hfix
      ((if_neg h16).trans (if_neg h32))]
    exact ⟨rfl,hrest⟩

/-! ## When the readers are honest -/

theorem Header.ne_nil {f : LengthPrefix} {header : List UInt8} {n : ℕ} (h : Header f header n) :
    header ≠ [] := by
  cases h <;> exact List.cons_ne_nil _ _

theorem fits_nil (f : LengthPrefix) (per : ℕ) : Fits f per [] := by
  refine ⟨fun header n t hrest hheader => ?_,fun tag word k hrest => ?_⟩
  · exact absurd (List.append_eq_nil_iff.1 hrest.symm).1 hheader.ne_nil
  · cases hrest

theorem claim_nil (f : LengthPrefix) : (f.claim []).1 = 0 := by
  by_cases hfix : ([] : List UInt8).headD 0 &&& f.mask = f.fix
  · rw [claim_short f [] hfix,List.headD_nil,UInt8.zero_and]
    rfl
  · cases hwide : f.wide (([] : List UInt8).headD 0) with
    | none => rw [claim_none f [] hfix hwide]
    | some k =>
        rw [claim_long f [] hfix hwide,List.tail_nil,padded_nil]
        exact (accumulate_eq_zero 0 _).2 ⟨rfl,fun b hb => List.eq_of_mem_replicate hb⟩

/-- A number in the low bits of its tag. -/
theorem fits_short {f : LengthPrefix} {tag : UInt8} (hfix : tag &&& f.mask = f.fix) (per : ℕ)
    (t : List UInt8) : Fits f per (tag::t) ↔ per*(tag &&& f.low).toNat ≤ t.length := by
  constructor
  · exact fun h => h.complete [tag] _ t rfl (.short hfix)
  · intro h
    refine ⟨fun header n t' hrest hheader => ?_,fun tag' word k hrest hfree => ?_⟩
    · cases hheader with
      | short =>
          cases hrest
          exact h
      | long hfree =>
          cases hrest
          exact absurd hfix hfree
    · cases hrest
      exact absurd hfix hfree

/-- A number in the `k` bytes behind its tag. -/
theorem fits_long {f : LengthPrefix} {tag : UInt8} (hfree : tag &&& f.mask ≠ f.fix) {k : ℕ}
    (hwide : f.wide tag = some k) (per : ℕ) (t : List UInt8) :
    Fits f per (tag::t) ↔
      (k ≤ t.length → per*accumulate 0 (t.take k) ≤ (t.drop k).length) ∧
        (t.length < k → ∀ b ∈ t, b = 0) := by
  constructor
  · intro h
    refine ⟨fun hk => ?_,fun hk => h.cut tag t k rfl hfree hwide hk⟩
    have hlength : (t.take k).length = k := by rw [List.length_take,min_eq_left hk]
    refine h.complete (tag::t.take k) _ _ ?_ (.long hfree (by rw [hlength,hwide]))
    rw [List.cons_append,List.take_append_drop]
  · intro ⟨hcomplete,hcut⟩
    refine ⟨fun header n t' hrest hheader => ?_,fun tag' word k' hrest _ hwide' hlt => ?_⟩
    · cases hheader with
      | short hfix =>
          cases hrest
          exact absurd hfix hfree
      | @long tag' word _ hbytes =>
          obtain ⟨rfl,rfl⟩ : tag = tag' ∧ t = word++t' := List.cons.inj hrest
          rw [hwide] at hbytes
          obtain rfl := Option.some.inj hbytes
          rw [List.take_left,List.drop_left,List.length_append] at hcomplete
          exact hcomplete (Nat.le_add_right _ _)
    · cases hrest
      rw [hwide] at hwide'
      obtain rfl := Option.some.inj hwide'
      exact hcut hlt

theorem fits_none {f : LengthPrefix} {tag : UInt8} (hfree : tag &&& f.mask ≠ f.fix)
    (hwide : f.wide tag = none) (per : ℕ) (t : List UInt8) : Fits f per (tag::t) := by
  refine ⟨fun header n t' hrest hheader => ?_,fun tag' word k hrest _ hwide' => ?_⟩
  · cases hheader with
    | short hfix =>
        cases hrest
        exact absurd hfix hfree
    | long _ hbytes =>
        cases hrest
        rw [hwide] at hbytes
        cases hbytes
  · cases hrest
    rw [hwide] at hwide'
    cases hwide'

/-- There are bytes for what a header gives if and only if they fit. -/
theorem claim_fits {f : LengthPrefix} {per : ℕ} (hper : 0 < per) (bytes : List UInt8) :
    per*(f.claim bytes).1 ≤ (f.claim bytes).2.length ↔ Fits f per bytes := by
  cases bytes with
  | nil =>
      rw [claim_nil,mul_zero]
      exact iff_of_true (Nat.zero_le _) (fits_nil f per)
  | cons tag t =>
      by_cases hfix : tag &&& f.mask = f.fix
      · rw [claim_short f (tag::t) hfix,fits_short hfix]
        rfl
      · cases hwide : f.wide tag with
        | none =>
            rw [claim_none f (tag::t) hfix hwide]
            exact iff_of_true (Nat.zero_le _) (fits_none hfix hwide per t)
        | some k =>
            rw [claim_long f (tag::t) hfix hwide,fits_long hfix hwide,List.tail_cons]
            dsimp only
            obtain hk | hk := le_or_gt k t.length
            · rw [padded_of_le hk]
              exact ⟨fun h => ⟨fun _ => h,fun hlt => absurd hk (not_le.2 hlt)⟩,fun h => h.1 hk⟩
            · -- nothing is left, so the number has to be zero
              rw [List.drop_eq_nil_of_le hk.le,List.length_nil,Nat.le_zero,mul_eq_zero,
                accumulate_eq_zero,mem_padded_of_lt hk]
              constructor
              · intro h
                refine ⟨fun hle => absurd hk (not_lt.2 hle),fun _ => ?_⟩
                exact (h.resolve_left hper.ne').2
              · exact fun h => .inr ⟨rfl,h.2 hk⟩

/-- A string is taken from the buffer if and only if it is not longer than what is left. -/
theorem padded_prefix_iff (l : ℕ) (bytes : List UInt8) :
    padded l bytes <+: bytes ↔ l ≤ bytes.length := by
  constructor
  · intro h
    have hlength := h.length_le
    rwa [padded_length] at hlength
  · intro h
    rw [padded_of_le h]
    exact List.take_prefix l bytes

theorem foldl_writeNext (w : MsgPackWriter) (vs : List (Option Item)) :
    vs.foldl writeNext w = writeBytes w (vs.flatMap encodeNext) := by
  induction vs generalizing w with
  | nil => rfl
  | cons v vs ih =>
      have hone : writeNext w v = writeBytes w (encodeNext v) := by
        cases v with
        | none => rfl
        | some i => exact writeItem_eq w i
      rw [List.foldl_cons,ih,hone,List.flatMap_cons,writeBytes_append]

theorem claim_suffix (f : LengthPrefix) (bytes : List UInt8) : (f.claim bytes).2 <:+ bytes := by
  have htail := List.tail_suffix bytes
  by_cases hfix : bytes.headD 0 &&& f.mask = f.fix
  · rw [claim_short f bytes hfix]
    exact htail
  · cases hwide : f.wide (bytes.headD 0) with
    | none =>
        rw [claim_none f bytes hfix hwide]
        exact htail
    | some k =>
        rw [claim_long f bytes hfix hwide]
        exact (List.drop_suffix k _).trans htail

/-- A reader is honest exactly where every header is followed by what it gives; a writer always
is. -/
theorem honest_iff (r : MsgPackReader) (w : MsgPackWriter) (vs : List (Option Item)) :
    Honest r w vs ↔
      Fits strPrefix 1 r.rest ∧ Fits arrayPrefix 1 r.rest ∧ Fits mapPrefix 2 r.rest := by
  obtain ⟨hlength,hbehind⟩ := readLength_claim r
  have hstr : (msgpackReadStr r).1 = padded (strPrefix.claim r.rest).1 (strPrefix.claim r.rest).2 := by
    rw [msgpackReadStr_eq,readBytes_rest,hlength,hbehind]
  obtain ⟨harray,harray'⟩ := readHeader_claim 0x90 0xdc 0xdd r
  obtain ⟨hmap,hmap'⟩ := readHeader_claim 0x80 0xde 0xdf r
  have hArray : (msgpackReadArray r).1 ≤ (msgpackReadArray r).2.rest.length ↔
      Fits arrayPrefix 1 r.rest := by
    rw [← claim_fits one_pos,one_mul,msgpackReadArray,harray,harray']
    rfl
  have hMap : 2*(msgpackReadMap r).1 ≤ (msgpackReadMap r).2.rest.length ↔
      Fits mapPrefix 2 r.rest := by
    rw [← claim_fits two_pos,msgpackReadMap,hmap,hmap']
    rfl
  have hStr : (msgpackReadStr r).1 <+: (readLength r).2.rest ↔ Fits strPrefix 1 r.rest := by
    rw [← claim_fits one_pos,one_mul,hstr,hbehind,padded_prefix_iff]
  constructor
  · exact fun h => ⟨hStr.1 h.strBytes,hArray.1 h.array,hMap.1 h.map⟩
  · intro ⟨hfitsStr,hfitsArray,hfitsMap⟩
    have hbegin := hStr.2 hfitsStr
    refine ⟨?_,hbegin,hArray.2 hfitsArray,hMap.2 hfitsMap,?_,(vs.foldl writeNext w).pos_le⟩
    · rw [hbehind] at hbegin
      exact hbegin.length_le.trans (claim_suffix strPrefix r.rest).length_le
    · rw [foldl_writeNext,written_writeBytes]

/-- A string of five bytes and an array of 2^32-1 elements, each of them at the end of its
buffer. -/
theorem promised_but_not_there :
    msgpackReadStr ⟨[0xa5],0⟩ = ([0,0,0,0,0],⟨[0xa5],1⟩) ∧
    msgpackReadArray ⟨[0xdd,255,255,255,255],0⟩ = (4294967295,⟨[0xdd,255,255,255,255],5⟩) ∧
    ∀ w vs, ¬Honest ⟨[0xa5],0⟩ w vs ∧ ¬Honest ⟨[0xdd,255,255,255,255],0⟩ w vs := by
  have hstr : msgpackReadStr ⟨[0xa5],0⟩ = ([0,0,0,0,0],⟨[0xa5],1⟩) := by decide +kernel
  have harray : msgpackReadArray ⟨[0xdd,255,255,255,255],0⟩ =
      (4294967295,⟨[0xdd,255,255,255,255],5⟩) := by decide +kernel
  refine ⟨hstr,harray,fun w vs => ⟨fun h => ?_,fun h => ?_⟩⟩
  · have hlength := h.strLength
    rw [hstr] at hlength
    exact absurd hlength (by decide +kernel)
  · have hcount := h.array
    rw [harray] at hcount
    exact absurd hcount (by decide +kernel)

end Filly.MsgPack
