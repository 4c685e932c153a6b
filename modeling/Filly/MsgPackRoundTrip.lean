import Filly.MsgPack

/-!
# Reading back what the MessagePack writer wrote

Each writer is the plain concatenation of an explicit byte list, and each
reader consumes exactly the list its writer produced, whatever follows it. A
whole sequence of values then round trips by induction on the sequence, with
the reader stopping where the writer stopped.
-/
namespace Filly.MsgPack
open BigEndian

/-- The values that have both a writer and a reader; `nil` has no reader. -/
inductive Item where
  | bool (val : Bool)
  | int (val : ℤ)
  | float (bits : UInt64)
  | str (bytes : List UInt8)
  | array (count : ℕ)
  | map (count : ℕ)
  deriving DecidableEq, Repr

/-- Range of each argument: `int64_t`, and lengths and counts below `2^32`. -/
def Item.Valid : Item → Prop
  | .int v => -2^63 ≤ v ∧ v < 2^63
  | .str s => s.length < 2^32
  | .array n | .map n => n < 2^32
  | _ => True

instance : DecidablePred Item.Valid := fun i => by
  cases i <;> unfold Item.Valid <;> infer_instance

/-- A value together with its range, so that only writable values are listed. -/
structure WireValue where
  item : Item
  valid : item.Valid

def writeItem (w : MsgPackWriter) : Item → MsgPackWriter
  | .bool b => msgpackWriteBool w b
  | .int v => msgpackWriteInt w v
  | .float b => msgpackWriteFloat w b
  | .str s => msgpackWriteStr w s
  | .array n => msgpackWriteArrayHeader w n
  | .map n => msgpackWriteMapHeader w n

def writeItems (w : MsgPackWriter) (vs : List Item) : MsgPackWriter := vs.foldl writeItem w

inductive Kind where
  | bool | int | float | str | array | map
  deriving DecidableEq, Repr

def Item.kind : Item → Kind
  | .bool _ => .bool
  | .int _ => .int
  | .float _ => .float
  | .str _ => .str
  | .array _ => .array
  | .map _ => .map

/-- The reader that corresponds to a writer. -/
def readItem : Kind → MsgPackReader → Item × MsgPackReader
  | .bool, r => (msgpackReadBool r).map .bool id
  | .int, r => (msgpackReadInt r).map .int id
  | .float, r => (msgpackReadFloat r).map .float id
  | .str, r => (msgpackReadStr r).map .str id
  | .array, r => (msgpackReadArray r).map .array id
  | .map, r => (msgpackReadMap r).map .map id

def readItems : List Kind → MsgPackReader → List Item × MsgPackReader
  | [], r => ([],r)
  | k::ks, r =>
      let v := readItem k r
      let t := readItems ks v.2
      (v.1::t.1,t.2)

/-! ## The writers as byte lists -/

def encodeInt (v : ℤ) : List UInt8 :=
  if 0 ≤ v then
    if v ≤ 127 then [lowByte v]
    else if v ≤ 255 then [0xcc,lowByte v]
    else if v ≤ 65535 then 0xcd::word v 2
    else if v ≤ 0xFFFFFFFF then 0xce::word v 4
    else 0xcf::word v 8
  else
    if -32 ≤ v then [0xe0 ||| lowByte (v % 32)]
    else if -128 ≤ v then [0xd0,lowByte v]
    else if -32768 ≤ v then 0xd1::word v 2
    else if -0x80000000 ≤ v then 0xd2::word v 4
    else 0xd3::word v 8

def encodeLength (len : ℕ) : List UInt8 :=
  if (len : ℤ) ≤ 31 then [0xa0 ||| lowByte len]
  else if (len : ℤ) ≤ 255 then [0xd9,lowByte len]
  else if (len : ℤ) ≤ 65535 then 0xda::word len 2
  else 0xdb::word len 4

def encodeHeader (fix tag16 tag32 : UInt8) (count : ℕ) : List UInt8 :=
  if (count : ℤ) ≤ 15 then [fix ||| lowByte count]
  else if (count : ℤ) ≤ 65535 then tag16::word count 2
  else tag32::word count 4

def encode : Item → List UInt8
  | .bool b => [if b then 0xc3 else 0xc2]
  | .int v => encodeInt v
  | .float b => 0xcb::word b.toNat 8
  | .str s => encodeLength s.length++s
  | .array n => encodeHeader 0x90 0xdc 0xdd n
  | .map n => encodeHeader 0x80 0xde 0xdf n

theorem word_two (v : ℤ) : word v 2 = [lowByte (v >>> (8 : ℕ)),lowByte v] := by
  simp [word]

@[simp] theorem writeBytes_nil (w : MsgPackWriter) : writeBytes w [] = w := rfl

@[simp] theorem writeBytes_cons (w : MsgPackWriter) (b : UInt8) (bs : List UInt8) :
    writeBytes w (b::bs) = writeBytes (writeByte w b) bs := rfl

@[simp] theorem writeShifted_eq (w : MsgPackWriter) (v : ℤ) (n : ℕ) :
    writeShifted w v n = writeBytes w (word v n) := by
  induction n generalizing w with
  | zero => rfl
  | succ n ih => exact ih _

theorem writeBytes_append (w : MsgPackWriter) (xs ys : List UInt8) :
    writeBytes w (xs++ys) = writeBytes (writeBytes w xs) ys := List.foldl_append

theorem msgpackWriteInt_eq (w : MsgPackWriter) (v : ℤ) :
    msgpackWriteInt w v = writeBytes w (encodeInt v) := by
  unfold msgpackWriteInt encodeInt
  split_ifs <;> simp [word_two]

theorem msgpackWriteStr_eq (w : MsgPackWriter) (s : List UInt8) :
    msgpackWriteStr w s = writeBytes w (encodeLength s.length++s) := by
  rw [writeBytes_append]
  unfold msgpackWriteStr encodeLength
  dsimp only
  split_ifs <;> simp [word_two]

theorem writeHeader_eq (fix tag16 tag32 : UInt8) (w : MsgPackWriter) (n : ℕ) :
    writeHeader fix tag16 tag32 w n = writeBytes w (encodeHeader fix tag16 tag32 n) := by
  unfold writeHeader encodeHeader
  split_ifs <;> simp [word_two]

theorem writeItem_eq (w : MsgPackWriter) (i : Item) :
    writeItem w i = writeBytes w (encode i) := by
  cases i with
  | bool b => rfl
  | int v => exact msgpackWriteInt_eq w v
  | float b =>
      rw [writeItem,msgpackWriteFloat,writeShifted_eq,encode,writeBytes_cons]
  | str s => exact msgpackWriteStr_eq w s
  | array n => exact writeHeader_eq _ _ _ w n
  | map n => exact writeHeader_eq _ _ _ w n

theorem writeItems_eq (w : MsgPackWriter) (vs : List Item) :
    writeItems w vs = writeBytes w (vs.flatMap encode) := by
  induction vs generalizing w with
  | nil => rfl
  | cons v vs ih =>
      change writeItems (writeItem w v) vs = _
      rw [ih,writeItem_eq,List.flatMap_cons,writeBytes_append]

/-! ## Bytes that fit are appended -/

theorem writeByte_of_lt (w : MsgPackWriter) (b : UInt8) (h : w.pos < w.size) :
    (writeByte w b).written = w.written++[b] ∧ (writeByte w b).pos = w.pos+1 ∧
      (writeByte w b).size = w.size := by
  have h' : w.pos < w.buf.length := h
  rw [writeByte,dif_pos h]
  simp only [MsgPackWriter.written,MsgPackWriter.size,List.length_set,and_true]
  rw [List.take_succ_eq_append_getElem (by simpa using h'),List.getElem_set_self,
    List.take_set_of_le (Nat.le_refl _)]

theorem writeBytes_of_le (w : MsgPackWriter) (bs : List UInt8)
    (h : w.pos+bs.length ≤ w.size) :
    (writeBytes w bs).written = w.written++bs ∧ (writeBytes w bs).pos = w.pos+bs.length := by
  induction bs generalizing w with
  | nil => simp [writeBytes]
  | cons b bs ih =>
      rw [List.length_cons] at h
      obtain ⟨hw,hp,hs⟩ := writeByte_of_lt w b (by omega)
      obtain ⟨h₁,h₂⟩ := ih (writeByte w b) (by omega)
      rw [writeBytes_cons]
      refine ⟨?_,?_⟩
      · rw [h₁,hw,List.append_assoc,List.singleton_append]
      · rw [List.length_cons]
        omega

/-- What does not fit is dropped. -/
theorem written_writeBytes (w : MsgPackWriter) (bs : List UInt8) :
    (writeBytes w bs).written = (w.written++bs).take w.size := by
  have hlen : ∀ u : MsgPackWriter, u.written.length = u.pos := fun u => by
    rw [MsgPackWriter.written,List.length_take,Nat.min_eq_left u.pos_le]
  induction bs generalizing w with
  | nil =>
      have hle : w.written.length ≤ w.size := (hlen w).trans_le w.pos_le
      rw [writeBytes_nil,List.append_nil,List.take_of_length_le hle]
  | cons b bs ih =>
      rw [writeBytes_cons,ih]
      by_cases h : w.pos < w.size
      · obtain ⟨hw,-,hs⟩ := writeByte_of_lt w b h
        rw [hw,hs,List.append_assoc,List.singleton_append]
      · have hfull : w.size ≤ w.written.length := by
          rw [hlen]
          exact Nat.le_of_not_lt h
        rw [writeByte,dif_neg h,List.take_append_of_le_length hfull,
          List.take_append_of_le_length hfull]

/-! ## The readers consume exactly what was written -/

def MsgPackReader.rest (r : MsgPackReader) : List UInt8 := r.buf.drop r.pos

def MsgPackReader.advance (r : MsgPackReader) (n : ℕ) : MsgPackReader := {r with pos := r.pos+n}

@[simp] theorem advance_zero (r : MsgPackReader) : r.advance 0 = r := rfl

@[simp] theorem advance_advance (r : MsgPackReader) (m n : ℕ) :
    (r.advance m).advance n = r.advance (m+n) := by
  simp only [MsgPackReader.advance,Nat.add_assoc]

theorem rest_advance {r : MsgPackReader} {bs t : List UInt8} (h : r.rest = bs++t) :
    (r.advance bs.length).rest = t := by
  change r.buf.drop (r.pos+bs.length) = t
  rw [← List.drop_drop]
  change r.rest.drop bs.length = t
  rw [h,List.drop_left]

/-- `f` turns the bytes `bs` into `v` and stops right after them. -/
def Reads {α : Type} (f : MsgPackReader → α × MsgPackReader) (bs : List UInt8) (v : α) : Prop :=
  ∀ (r : MsgPackReader) (t : List UInt8), r.rest = bs++t → f r = (v,r.advance bs.length)

theorem reads_byte (b : UInt8) : Reads readByte [b] b := by
  intro r t h
  have hlt : r.pos < r.buf.length := by
    by_contra hn
    rw [MsgPackReader.rest,List.drop_eq_nil_of_le (by omega)] at h
    simp at h
  have hg : r.buf[r.pos] = b := by
    have hc := List.drop_eq_getElem_cons hlt
    rw [MsgPackReader.rest,hc] at h
    simpa using (List.cons.inj h).1
  rw [readByte,dif_pos (show r.pos < r.size from hlt)]
  simp [MsgPackReader.advance,hg]

/-- Sequencing: a reader that first takes a byte and then hands over. -/
theorem reads_cons {α : Type} {f : MsgPackReader → α × MsgPackReader} {b : UInt8}
    {g : MsgPackReader → α × MsgPackReader} {bs : List UInt8} {v : α}
    (hf : ∀ r, (readByte r).1 = b → f r = g (readByte r).2) (hg : Reads g bs v) :
    Reads f (b::bs) v := by
  intro r t h
  have hb := reads_byte b r (bs++t) h
  rw [hf r (by rw [hb]),hb,hg _ t (@rest_advance r [b] _ h)]
  simp [Nat.add_comm]

theorem reads_pure {α : Type} {f : MsgPackReader → α × MsgPackReader} {b : UInt8} {v : α}
    (hf : ∀ r, (readByte r).1 = b → f r = (v,(readByte r).2)) : Reads f [b] v :=
  reads_cons (g := fun r => (v,r)) hf (fun r _ _ => by simp)

theorem reads_map {α β : Type} {f : MsgPackReader → α × MsgPackReader} {bs : List UInt8}
    {v : α} (k : α → β) (h : Reads f bs v) : Reads (fun r => (f r).map k id) bs (k v) := by
  intro r t hr
  simp only [h r t hr,Prod.map_apply,id_eq]

theorem reads_bytes (bs : List UInt8) : Reads (readBytes bs.length) bs bs := by
  induction bs with
  | nil => exact fun r _ _ => rfl
  | cons b bs ih =>
      apply reads_cons (g := fun r => ((readBytes bs.length r).map (b::·) id)) _ (reads_map _ ih)
      intro r hb
      simp only [List.length_cons,readBytes,hb,Prod.map,id_eq]

theorem reads_pair (b c : UInt8) : Reads readPair [b,c] (accumulate 0 [b,c]) := by
  apply reads_cons (g := fun r => (readByte r).map (fun c => accumulate 0 [b,c]) id)
    _ (reads_map _ (reads_byte c))
  intro r hb
  simp [readPair,hb,accumulate,shiftIn_eq,Prod.map]

/-- The word loop never loses a bit when its accumulator is wide enough. -/
theorem reads_word {acc bits : ℕ} (bs : List UInt8) (h : acc < 2^(bits-8*bs.length))
    (hb : 8*bs.length ≤ bits) : Reads (readWord bits bs.length acc) bs (accumulate acc bs) := by
  induction bs generalizing acc with
  | nil => exact fun r _ _ => rfl
  | cons b bs ih =>
      rw [List.length_cons] at h hb
      have hlt : shiftIn acc b < 2^(bits-8*bs.length) := by
        rw [shiftIn_eq,show bits-8*bs.length = bits-8*(bs.length+1)+8 by omega,pow_add]
        have hb := b.toNat_lt
        omega
      have hm : shiftIn acc b % 2^bits = shiftIn acc b := by
        apply Nat.mod_eq_of_lt (hlt.trans_le _)
        exact Nat.pow_le_pow_right (by norm_num) (by omega)
      apply reads_cons (g := readWord bits bs.length (shiftIn acc b)) _ (ih hlt (by omega))
      intro r hr
      rw [List.length_cons,readWord,hr,hm]

/-- The word loop on the bytes of a word of `n` bytes, starting from zero. -/
theorem reads_word_zero (bits n : ℕ) (v : ℤ) (hb : 8*n ≤ bits) :
    Reads (readWord bits n 0) (word v n) (accumulate 0 (word v n)) := by
  have h := @reads_word 0 bits (word v n) (by positivity)
    (by rw [word_length]; exact hb)
  rwa [word_length] at h

theorem reads_pair_word (v : ℤ) : Reads readPair (word v 2) (accumulate 0 (word v 2)) := by
  rw [word_two]
  exact reads_pair _ _

/-! ## One value -/

theorem fixByte_int (k : ℕ) (h : k < 128) : UInt8.ofNat k ≤ 0x7f ∧ (UInt8.ofNat k).toNat = k := by
  revert k
  decide

theorem fixByte_negative (k : ℕ) (h : k < 32) :
    ¬(0xe0 ||| UInt8.ofNat k) ≤ 0x7f ∧ (0xe0 ||| UInt8.ofNat k) &&& 0xe0 = 0xe0 ∧
      signed 1 (0xe0 ||| UInt8.ofNat k).toNat = (k : ℤ)-32 := by
  revert k
  decide

theorem fixByte_str (k : ℕ) (h : k < 32) :
    (0xa0 ||| UInt8.ofNat k) &&& 0xe0 = 0xa0 ∧ ((0xa0 ||| UInt8.ofNat k) &&& 0x1f).toNat = k := by
  revert k
  decide

theorem lowByte_natCast (n : ℕ) (h : n < 256) : lowByte n = UInt8.ofNat n := by
  rw [lowByte]
  congr 1
  omega

theorem lowByte_toNat_of_lt (n : ℕ) (h : n < 256) : (lowByte n).toNat = n := by
  have hl := lowByte_toNat n
  omega

theorem signed_lowByte (v : ℤ) (lo : -128 ≤ v) (hi : v < 128) :
    signed 1 (lowByte v).toNat = v := by
  have h := signed_accumulate_word v 1 (by norm_num; omega) (by norm_num; omega)
  simpa [word,accumulate,shiftIn_eq] using h

theorem accumulate_word_nonneg (v : ℤ) (n : ℕ) (lo : 0 ≤ v) (hi : v < 256^n) :
    (accumulate 0 (word v n) : ℤ) = v := by
  rw [accumulate_word,Int.emod_eq_of_lt lo hi]
  simp

/-- A tag byte selects a payload reader, whose result is then converted. -/
theorem reads_tag {α β : Type} {f : MsgPackReader → β × MsgPackReader} {b : UInt8}
    {g : MsgPackReader → α × MsgPackReader} {k : α → β} {bs : List UInt8} {a : α} {v : β}
    (hf : ∀ r, (readByte r).1 = b → f r = (g (readByte r).2).map k id)
    (hg : Reads g bs a) (hv : k a = v) : Reads f (b::bs) v :=
  hv ▸ reads_cons hf (reads_map k hg)

theorem reads_int (v : ℤ) (lo : -2^63 ≤ v) (hi : v < 2^63) :
    Reads msgpackReadInt (encodeInt v) v := by
  unfold encodeInt
  split_ifs with h₀ h₁ h₂ h₃ h₄ h₁ h₂ h₃ h₄
  · obtain ⟨n,rfl⟩ := Int.eq_ofNat_of_zero_le h₀
    rw [lowByte_natCast n (by omega)]
    obtain ⟨hb,hn⟩ := fixByte_int n (by omega)
    exact reads_pure fun r hr => by simp [msgpackReadInt,hr,hb,hn]
  · obtain ⟨n,rfl⟩ := Int.eq_ofNat_of_zero_le h₀
    refine reads_tag (k := fun c => (c.toNat : ℤ)) ?_ (reads_byte _) ?_
    · intro r hr
      simp (disch := decide) only [msgpackReadInt,hr,if_neg,if_pos,Prod.map,id_eq]
    · rw [lowByte_toNat_of_lt n (by omega)]
  · refine reads_tag (k := Nat.cast) ?_ (reads_pair_word v) ?_
    · intro r hr
      simp (disch := decide) only [msgpackReadInt,hr,if_neg,if_pos,Prod.map,id_eq]
    · exact accumulate_word_nonneg v 2 h₀ (by norm_num; omega)
  · refine reads_tag (k := Nat.cast) ?_ (reads_word_zero 32 4 v (by norm_num)) ?_
    · intro r hr
      simp (disch := decide) only [msgpackReadInt,hr,if_neg,if_pos,Prod.map,id_eq]
    · exact accumulate_word_nonneg v 4 h₀ (by norm_num; omega)
  · refine reads_tag (k := signed 8) ?_ (reads_word_zero 64 8 v (by norm_num)) ?_
    · intro r hr
      simp (disch := decide) only [msgpackReadInt,hr,if_neg,if_pos,Prod.map,id_eq]
    · exact signed_accumulate_word v 8 (by norm_num; omega) (by norm_num; omega)
  · obtain ⟨n,hn⟩ := Int.eq_ofNat_of_zero_le (show 0 ≤ v+32 by omega)
    have hm : v % 32 = n := by omega
    rw [hm,lowByte_natCast n (by omega)]
    obtain ⟨hb,he,hs⟩ := fixByte_negative n (by omega)
    refine reads_pure fun r hr => ?_
    simp only [msgpackReadInt,hr,hb,he,hs,if_false,if_true]
    rw [show (n : ℤ)-32 = v by omega]
  · refine reads_tag (k := fun c => signed 1 c.toNat) ?_ (reads_byte _) ?_
    · intro r hr
      simp (disch := decide) only [msgpackReadInt,hr,if_neg,if_pos,Prod.map,id_eq]
    · exact signed_lowByte v h₂ (by omega)
  · refine reads_tag (k := signed 2) ?_ (reads_pair_word v) ?_
    · intro r hr
      simp (disch := decide) only [msgpackReadInt,hr,if_neg,if_pos,Prod.map,id_eq]
    · exact signed_accumulate_word v 2 (by norm_num; omega) (by norm_num; omega)
  · refine reads_tag (k := signed 4) ?_ (reads_word_zero 32 4 v (by norm_num)) ?_
    · intro r hr
      simp (disch := decide) only [msgpackReadInt,hr,if_neg,if_pos,Prod.map,id_eq]
    · exact signed_accumulate_word v 4 (by norm_num; omega) (by norm_num; omega)
  · refine reads_tag (k := signed 8) ?_ (reads_word_zero 64 8 v (by norm_num)) ?_
    · intro r hr
      simp (disch := decide) only [msgpackReadInt,hr,if_neg,if_pos,Prod.map,id_eq]
    · exact signed_accumulate_word v 8 (by norm_num; omega) (by norm_num; omega)

theorem reads_bool (b : Bool) : Reads msgpackReadBool [if b then 0xc3 else 0xc2] b := by
  refine reads_pure fun r hr => ?_
  rw [msgpackReadBool,hr]
  cases b <;> rfl

theorem reads_float (b : UInt64) : Reads msgpackReadFloat (0xcb::word b.toNat 8) b := by
  refine reads_tag (k := UInt64.ofNat) ?_ (reads_word_zero 64 8 _ (by norm_num)) ?_
  · intro r hr
    simp (disch := decide) only [msgpackReadFloat,hr,if_neg,Prod.map,id_eq]
  · have hb := b.toNat_lt
    rw [accumulate_word_of_lt b.toNat 8 (by norm_num; exact hb),UInt64.ofNat_toNat]

/-- The length prefix of a string, as the first half of `msgpack_read_str`. -/
def readLength (r : MsgPackReader) : ℕ × MsgPackReader :=
  let b := readByte r
  if b.1 &&& 0xe0 = 0xa0 then ((b.1 &&& 0x1f).toNat,b.2)
  else if b.1 = 0xd9 then let c := readByte b.2; (c.1.toNat,c.2)
  else if b.1 = 0xda then readPair b.2
  else if b.1 = 0xdb then readWord 64 4 0 b.2
  else (0,b.2)

theorem msgpackReadStr_eq (r : MsgPackReader) :
    msgpackReadStr r = readBytes (readLength r).1 (readLength r).2 := rfl

theorem reads_length (n : ℕ) (h : n < 2^32) : Reads readLength (encodeLength n) n := by
  unfold encodeLength
  split_ifs with h₁ h₂ h₃
  · rw [lowByte_natCast n (by omega)]
    obtain ⟨he,hn⟩ := fixByte_str n (by omega)
    exact reads_pure fun r hr => by simp only [readLength,hr,he,hn,if_true]
  · refine reads_tag (k := UInt8.toNat) ?_ (reads_byte _) (lowByte_toNat_of_lt n (by omega))
    intro r hr
    simp (disch := decide) only [readLength,hr,if_neg,if_pos,Prod.map,id_eq]
  · refine reads_tag (k := id) ?_ (reads_pair_word n) (accumulate_word_of_lt n 2 (by norm_num; omega))
    intro r hr
    simp (disch := decide) only [readLength,hr,if_neg,if_pos,Prod.map,id_eq]
  · refine reads_tag (k := id) ?_ (reads_word_zero 64 4 n (by norm_num))
      (accumulate_word_of_lt n 4 (by norm_num; omega))
    intro r hr
    simp (disch := decide) only [readLength,hr,if_neg,if_pos,Prod.map,id_eq]

theorem reads_str (s : List UInt8) (h : s.length < 2^32) :
    Reads msgpackReadStr (encodeLength s.length++s) s := by
  intro r t hr
  rw [List.append_assoc] at hr
  rw [msgpackReadStr_eq,reads_length s.length h r (s++t) hr,
    reads_bytes s _ t (rest_advance hr),advance_advance,List.length_append]

/-- The tags of a header family are told apart by the header's reader. -/
structure HeaderTags (fix tag16 tag32 : UInt8) : Prop where
  fixed : ∀ k < 16, (fix ||| UInt8.ofNat k) &&& 0xf0 = fix ∧
    ((fix ||| UInt8.ofNat k) &&& 0xf).toNat = k
  pair : tag16 &&& 0xf0 ≠ fix
  quad : tag32 &&& 0xf0 ≠ fix
  distinct : tag32 ≠ tag16

theorem arrayTags : HeaderTags 0x90 0xdc 0xdd :=
  ⟨by decide,by decide,by decide,by decide⟩

theorem mapTags : HeaderTags 0x80 0xde 0xdf :=
  ⟨by decide,by decide,by decide,by decide⟩

theorem reads_header {fix tag16 tag32 : UInt8} (T : HeaderTags fix tag16 tag32) (n : ℕ)
    (h : n < 2^32) : Reads (readHeader fix tag16 tag32) (encodeHeader fix tag16 tag32 n) n := by
  unfold encodeHeader
  split_ifs with h₁ h₂
  · rw [lowByte_natCast n (by omega)]
    obtain ⟨he,hn⟩ := T.fixed n (by omega)
    exact reads_pure fun r hr => by simp only [readHeader,hr,he,hn,if_true]
  · refine reads_tag (k := id) ?_ (reads_pair_word n) (accumulate_word_of_lt n 2 (by norm_num; omega))
    intro r hr
    simp only [readHeader,hr,if_neg T.pair,if_true,Prod.map,id_eq]
  · refine reads_tag (k := id) ?_ (reads_word_zero 64 4 n (by norm_num))
      (accumulate_word_of_lt n 4 (by norm_num; omega))
    intro r hr
    simp only [readHeader,hr,if_neg T.quad,if_neg T.distinct,if_true,Prod.map,id_eq]

theorem reads_item (i : Item) (h : i.Valid) : Reads (readItem i.kind) (encode i) i := by
  cases i with
  | bool b => exact reads_map Item.bool (reads_bool b)
  | int v => exact reads_map Item.int (reads_int v h.1 h.2)
  | float b => exact reads_map Item.float (reads_float b)
  | str s => exact reads_map Item.str (reads_str s h)
  | array n => exact reads_map Item.array (reads_header arrayTags n h)
  | map n => exact reads_map Item.map (reads_header mapTags n h)

/-! ## Whole sequences -/

theorem reads_items (vs : List Item) (h : ∀ v ∈ vs, v.Valid) :
    Reads (readItems (vs.map Item.kind)) (vs.flatMap encode) vs := by
  induction vs with
  | nil => exact fun r _ _ => rfl
  | cons v vs ih =>
      intro r t hr
      rw [List.flatMap_cons,List.append_assoc] at hr
      have hv := reads_item v (h v (by simp)) r _ hr
      have ht := ih (fun u hu => h u (by simp [hu])) _ t (rest_advance hr)
      simp only [List.map_cons,readItems,hv,ht,advance_advance,List.flatMap_cons,
        List.length_append]

/-- Reading a written sequence back gives the same values and stops where the
writer stopped. The reader may see the whole buffer or any part of it that
contains what was written. -/
theorem readItems_writeItems (vs : List WireValue) (buf : List UInt8) (size : ℕ)
    (fits : (vs.flatMap fun v => encode v.item).length ≤ buf.length) :
    let w := writeItems (msgpackWriterInit buf) (vs.map WireValue.item)
    w.pos ≤ size → readItems (vs.map fun v => v.item.kind) (msgpackReaderInit (w.buf.take size)) =
      (vs.map WireValue.item,⟨w.buf.take size,w.pos⟩) := by
  intro w hsize
  have he : (vs.map WireValue.item).flatMap encode = vs.flatMap fun v => encode v.item := by
    rw [List.flatMap_map]
  have hw : w = writeBytes (msgpackWriterInit buf) ((vs.map WireValue.item).flatMap encode) :=
    writeItems_eq _ _
  obtain ⟨hb,hp⟩ := writeBytes_of_le (msgpackWriterInit buf) ((vs.map WireValue.item).flatMap encode)
    (by rw [he]; simpa [msgpackWriterInit,MsgPackWriter.size] using fits)
  rw [← hw] at hb hp
  have hr : (msgpackReaderInit (w.buf.take size)).rest =
      (vs.map WireValue.item).flatMap encode++(w.buf.take size).drop w.pos := by
    have hs : (w.buf.take size).take w.pos = w.written := by
      rw [List.take_take,Nat.min_eq_left hsize,MsgPackWriter.written]
    have hz : (msgpackReaderInit (w.buf.take size)).rest = w.buf.take size := List.drop_zero
    conv_lhs => rw [hz,← List.take_append_drop w.pos (w.buf.take size),hs,hb]
    rfl
  have hv : ∀ v ∈ vs.map WireValue.item, v.Valid := by
    intro v hv
    obtain ⟨u,-,rfl⟩ := List.mem_map.mp hv
    exact u.valid
  have hk := reads_items (vs.map WireValue.item) hv _ _ hr
  rw [List.map_map] at hk
  rw [show (vs.map fun v => v.item.kind) = vs.map (Item.kind ∘ WireValue.item) from rfl,hk]
  simp only [MsgPackReader.advance,msgpackReaderInit,hp,msgpackWriterInit]

theorem readItems_writeItems_mixed :
    let vs : List WireValue := [⟨.int (-33),by decide⟩,⟨.str [0x61,0x00],by decide⟩,
      ⟨.array 16,by decide⟩,⟨.bool true,trivial⟩]
    let w := writeItems (msgpackWriterInit (List.replicate 12 0)) (vs.map WireValue.item)
    w.pos = 9 ∧ readItems [.int,.str,.array,.bool] (msgpackReaderInit (w.buf.take 9)) =
      ([.int (-33),.str [0x61,0x00],.array 16,.bool true],⟨w.buf.take 9,w.pos⟩) :=
  ⟨by decide,readItems_writeItems [⟨.int (-33),by decide⟩,⟨.str [0x61,0x00],by decide⟩,
    ⟨.array 16,by decide⟩,⟨.bool true,trivial⟩] (List.replicate 12 0) 9 (by decide) (by decide)⟩

end Filly.MsgPack
