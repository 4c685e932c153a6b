import Filly.Base64
import Filly.CBuffers
import Filly.Calendar
import Filly.ScriptBuffer

/-!
# The clipboard of the terminal

`term_copy_to_clipboard` of `backend/terminal/terminal.c` sends a text in base64, written to a
block whose size is computed in `int`. For a text that has such a block the indices of the
encoder stay in `int` as well.
-/
namespace Filly.Clipboard
open Base64 CBuffers CJson Calendar ScriptBuffer

def b64Table : Bytes := bytes "ABCDEFGHIJKLMNOPQRSTUVWXYZabcdefghijklmnopqrstuvwxyz0123456789+/"

/-- `b64_table[(v >> shift) & 0x3F]` -/
def tableAt (v shift : UInt64) : Option UInt8 := b64Table[((v >>> shift) &&& 0x3F).toNat]?

/-- `(unsigned long)src[i]` -/
def srcAt (src : List UInt8) (i : ℤ) : Option UInt64 :=
  (readAt src i 1).bind fun bs => bs.head?.map UInt8.toUInt64

/-- `if (i < len) v |= (unsigned long)src[i] << shift` -/
def orAt (src : List UInt8) (len i : ℤ) (shift v : UInt64) : Option UInt64 :=
  if i < len then (srcAt src i).map fun b => v ||| b <<< shift else some v

/-- The character of a digit that bytes up to `i` have a part in. -/
def charAt (len i : ℤ) (v shift : UInt64) : Option UInt8 :=
  if i < len then tableAt v shift else some pad

/-- The four characters of a turn. -/
def quad (src : List UInt8) (len i : ℤ) : Option (List UInt8) := do
  let b ← srcAt src i
  let v ← orAt src len (i+1) 8 (b <<< 16)
  let v ← orAt src len (i+2) 0 v
  let c₀ ← tableAt v 18
  let c₁ ← tableAt v 12
  let c₂ ← charAt len (i+1) v 6
  let c₃ ← charAt len (i+2) v 0
  some [c₀,c₁,c₂,c₃]

def encodeLoop (src : List UInt8) (len i j : ℤ) (dst : List UInt8) : Option (ℤ × List UInt8) :=
  if i < len then
    (quad src len i).bind fun chars => (writeAt dst j chars).bind fun dst =>
      encodeLoop src len (i+3) (j+4) dst
  else some (j,dst)
termination_by (len-i).toNat

def base64Encode (src : List UInt8) (len : ℤ) (dst : List UInt8) : Option (List UInt8) := do
  let (j,dst) ← encodeLoop src len 0 0 dst
  writeAt dst j [0]

/-- `len * 2 + 16` -/
def blockSize (len : ℤ) : Option ℤ := do
  let twice ← checkedInt (len*2)
  checkedInt (twice+16)

/-- What is sent to the terminal. -/
def termCopyToClipboard (fresh : UInt8) : Option Bytes → Option Bytes
  | none => some []
  | some text =>
      if text = [] then some []
      else do
        let len := lengthInt text
        let size ← blockSize len
        let b64 ← base64Encode text len (List.replicate size.toNat fresh)
        let chars ← textAt b64 0
        some (27::bytes "]52;c;"++chars++[7])

/-! ## One turn -/

theorem b64Table_getElem? {n : ℕ} (h : n < 64) : b64Table[n]? = some (digit n) := by
  have hall : ∀ m : Fin 64, b64Table[(m:ℕ)]? = some (digit m) := by decide +kernel
  exact hall ⟨n,h⟩

theorem tableAt_eq (v : UInt64) {shift : UInt64} (h : shift.toNat < 64) :
    tableAt v shift = some (digit (v.toNat/2^shift.toNat%64)) := by
  have hdigit : ((v >>> shift) &&& 0x3F).toNat = v.toNat/2^shift.toNat%64 := by
    rw [UInt64.toNat_and,UInt64.toNat_shiftRight,Nat.mod_eq_of_lt h,Nat.shiftRight_eq_div_pow]
    exact Nat.and_two_pow_sub_one_eq_mod _ 6
  rw [tableAt,hdigit]
  exact b64Table_getElem? (Nat.mod_lt _ (by decide))

/-- The characters of a number of three bytes. -/
theorem tableAt_digits {v : UInt64} {n : ℕ} (h : v.toNat = n) :
    tableAt v 18 = some (digit (n/2^18%64)) ∧ tableAt v 12 = some (digit (n/2^12%64)) ∧
      tableAt v 6 = some (digit (n/2^6%64)) ∧ tableAt v 0 = some (digit (n%64)) := by
  subst h
  have hlast := tableAt_eq v (by decide : (0:UInt64).toNat < 64)
  rw [show (0:UInt64).toNat = 0 from rfl,pow_zero,Nat.div_one] at hlast
  exact ⟨tableAt_eq v (by decide),tableAt_eq v (by decide),tableAt_eq v (by decide),hlast⟩

theorem srcAt_append (p s : List UInt8) (a : UInt8) :
    srcAt (p++a::s) p.length = some a.toUInt64 := by
  have hread := readAt_append p [a] s
  rw [List.append_assoc] at hread
  rw [srcAt]
  exact congrArg (Option.bind · _) hread

theorem toNat_first (a : UInt8) : (a.toUInt64 <<< 16).toNat = a.toNat <<< 16 := by
  have ha := a.toNat_lt
  rw [UInt64.toNat_shiftLeft,UInt8.toNat_toUInt64]
  apply Nat.mod_eq_of_lt
  rw [show (16:UInt64).toNat % 64 = 16 from rfl,Nat.shiftLeft_eq]
  omega

theorem toNat_second (a b : UInt8) :
    (a.toUInt64 <<< 16 ||| b.toUInt64 <<< 8).toNat = (a.toNat*256+b.toNat) <<< 8 := by
  have hb := b.toNat_lt
  have hlow : (b.toUInt64 <<< 8).toNat = b.toNat*256 := by
    rw [UInt64.toNat_shiftLeft,UInt8.toNat_toUInt64,show (8:UInt64).toNat % 64 = 8 from rfl,
      Nat.shiftLeft_eq]
    exact Nat.mod_eq_of_lt (by omega)
  rw [UInt64.toNat_or,toNat_first,hlow,← Nat.shiftLeft_add_eq_or_of_lt (by omega),
    Nat.shiftLeft_eq,Nat.shiftLeft_eq]
  omega

theorem toNat_third (a b c : UInt8) :
    (a.toUInt64 <<< 16 ||| b.toUInt64 <<< 8 ||| c.toUInt64 <<< 0).toNat =
      a.toNat*65536+b.toNat*256+c.toNat := by
  have hlow : (c.toUInt64 <<< 0).toNat = c.toNat := by
    rw [UInt64.shiftLeft_zero,UInt8.toNat_toUInt64]
  rw [UInt64.toNat_or,toNat_second,hlow,← Nat.shiftLeft_add_eq_or_of_lt c.toNat_lt,
    Nat.shiftLeft_eq]
  omega

section
variable (p s : List UInt8) (a b c : UInt8)

theorem srcAt_second : srcAt (p++a::b::s) (p.length+1) = some b.toUInt64 := by
  have h := srcAt_append (p++[a]) s b
  rwa [List.append_assoc,List.length_append,Nat.cast_add] at h

theorem srcAt_third : srcAt (p++a::b::c::s) (p.length+2) = some c.toUInt64 := by
  have h := srcAt_append (p++[a,b]) s c
  rwa [List.append_assoc,List.length_append,Nat.cast_add] at h

/-- The characters of three bytes. -/
theorem quad_three : quad (p++a::b::c::s) (p++a::b::c::s).length p.length =
    some [digit (a.toNat/4),digit (a.toNat%4*16+b.toNat/16),digit (b.toNat%16*4+c.toNat/64),
      digit (c.toNat%64)] := by
  have ha := a.toNat_lt
  have hb := b.toNat_lt
  have hc := c.toNat_lt
  have hsecond : (p.length:ℤ)+1 < (p++a::b::c::s).length := by simp; omega
  have hthird : (p.length:ℤ)+2 < (p++a::b::c::s).length := by simp; omega
  obtain ⟨h₀,h₁,h₂,h₃⟩ := tableAt_digits (toNat_third a b c)
  simp only [quad,orAt,charAt,if_pos hsecond,if_pos hthird,srcAt_append,srcAt_second,srcAt_third,
    Option.map_some,Option.bind_eq_bind,Option.bind_some,h₀,h₁,h₂,h₃]
  have e₀ : (a.toNat*65536+b.toNat*256+c.toNat)/2^18%64 = a.toNat/4 := by omega
  have e₁ : (a.toNat*65536+b.toNat*256+c.toNat)/2^12%64 = a.toNat%4*16+b.toNat/16 := by omega
  have e₂ : (a.toNat*65536+b.toNat*256+c.toNat)/2^6%64 = b.toNat%16*4+c.toNat/64 := by omega
  have e₃ : (a.toNat*65536+b.toNat*256+c.toNat)%64 = c.toNat%64 := by omega
  rw [e₀,e₁,e₂,e₃]

theorem quad_two : quad (p++[a,b]) (p++[a,b]).length p.length = some (encode [a,b]) := by
  have ha := a.toNat_lt
  have hb := b.toNat_lt
  have hsecond : (p.length:ℤ)+1 < (p++[a,b]).length := by simp
  have hthird : ¬(p.length:ℤ)+2 < (p++[a,b]).length := by simp
  obtain ⟨h₀,h₁,h₂,-⟩ := tableAt_digits (toNat_second a b)
  simp only [quad,orAt,charAt,if_pos hsecond,if_neg hthird,srcAt_append,srcAt_second,
    Option.map_some,Option.bind_eq_bind,Option.bind_some,h₀,h₁,h₂]
  rw [Nat.shiftLeft_eq]
  have e₀ : (a.toNat*256+b.toNat)*2^8/2^18%64 = a.toNat/4 := by omega
  have e₁ : (a.toNat*256+b.toNat)*2^8/2^12%64 = a.toNat%4*16+b.toNat/16 := by omega
  have e₂ : (a.toNat*256+b.toNat)*2^8/2^6%64 = b.toNat%16*4 := by omega
  rw [e₀,e₁,e₂]
  rfl

theorem quad_one : quad (p++[a]) (p++[a]).length p.length = some (encode [a]) := by
  have ha := a.toNat_lt
  have hsecond : ¬(p.length:ℤ)+1 < (p++[a]).length := by simp
  have hthird : ¬(p.length:ℤ)+2 < (p++[a]).length := by simp
  obtain ⟨h₀,h₁,-,-⟩ := tableAt_digits (toNat_first a)
  simp only [quad,orAt,charAt,if_neg hsecond,if_neg hthird,srcAt_append,Option.bind_eq_bind,
    Option.bind_some,h₀,h₁]
  rw [Nat.shiftLeft_eq]
  have e₀ : a.toNat*2^16/2^18%64 = a.toNat/4 := by omega
  have e₁ : a.toNat*2^16/2^12%64 = a.toNat%4*16 := by omega
  rw [e₀,e₁]
  rfl

end

/-! ## The loop -/

/-- The loop ends behind the last turn. -/
theorem encodeLoop_end (src dst : List UInt8) {i j : ℤ} (h : (src.length:ℤ) ≤ i) :
    encodeLoop src src.length i j dst = some (j,dst) := by
  rw [encodeLoop,if_neg (not_lt.2 h)]

theorem encodeLoop_turn {src chars dst dst' : List UInt8} {len i j : ℤ} (h : i < len)
    (hquad : quad src len i = some chars) (hwrite : writeAt dst j chars = some dst') :
    encodeLoop src len i j dst = encodeLoop src len (i+3) (j+4) dst' := by
  rw [encodeLoop,if_pos h,hquad,Option.bind_some,hwrite,Option.bind_some]

/-- The last one or two bytes. -/
theorem encodeLoop_last {p t a b : List UInt8} (hpos : 0 < t.length) (hlast : t.length < 3)
    (h : (encode t).length ≤ b.length)
    (hquad : quad (p++t) (p++t).length p.length = some (encode t)) :
    encodeLoop (p++t) (p++t).length p.length a.length (a++b) =
      some (((a++encode t).length:ℤ),a++encode t++b.drop (encode t).length) := by
  have hfour : (encode t).length = 4 := by
    rw [length_encode]
    omega
  have hbefore : (p.length:ℤ) < (p++t).length := by rw [List.length_append]; omega
  have hbehind : ((p++t).length:ℤ) ≤ p.length+3 := by rw [List.length_append]; omega
  have hcount : ((a++encode t).length:ℤ) = a.length+4 := by
    rw [List.length_append,hfour,Nat.cast_add]
    rfl
  rw [encodeLoop_turn hbefore hquad (writeAt_room a b _ h),encodeLoop_end _ _ hbehind,hcount]

/-- Three bytes, and the loop again. -/
theorem encodeLoop_more {p t s q a b : List UInt8} (ht : t.length = 3) (hq : q.length = 4)
    (h : (q++encode s).length ≤ b.length)
    (hquad : quad (p++(t++s)) (p++(t++s)).length p.length = some q)
    (hrest : encodeLoop (p++t++s) (p++t++s).length (p++t).length (a++q).length
        (a++q++b.drop q.length) =
      some (((a++q++encode s).length:ℤ),a++q++encode s++(b.drop q.length).drop (encode s).length)) :
    encodeLoop (p++(t++s)) (p++(t++s)).length p.length a.length (a++b) =
      some (((a++(q++encode s)).length:ℤ),a++(q++encode s)++b.drop (q++encode s).length) := by
  have hbefore : (p.length:ℤ) < (p++(t++s)).length := by
    rw [List.length_append,List.length_append]
    omega
  have hi : ((p++t).length:ℤ) = p.length+3 := by rw [List.length_append,ht,Nat.cast_add]; rfl
  have hj : ((a++q).length:ℤ) = a.length+4 := by rw [List.length_append,hq,Nat.cast_add]; rfl
  have hroom : q.length ≤ b.length := by
    rw [List.length_append] at h
    omega
  have hdrop : (b.drop q.length).drop (encode s).length = b.drop (q++encode s).length := by
    rw [List.drop_drop,List.length_append]
  rw [encodeLoop_turn hbefore hquad (writeAt_room a b q hroom),← hi,← hj,← List.append_assoc,
    hrest,hdrop,List.append_assoc a q]

/-- From the bytes that are left on, the loop writes their characters. -/
theorem encodeLoop_eq (p s a b : List UInt8) (h : (encode s).length ≤ b.length) :
    encodeLoop (p++s) (p++s).length p.length a.length (a++b) =
      some (((a++encode s).length:ℤ),a++encode s++b.drop (encode s).length) := by
  induction s using encode.induct generalizing p a b with
  | case1 =>
      rw [List.append_nil,encodeLoop_end _ _ le_rfl,encode,List.append_nil]
      rfl
  | case2 x => exact encodeLoop_last Nat.one_pos (by decide : 1 < 3) h (quad_one p x)
  | case3 x y => exact encodeLoop_last Nat.two_pos (by decide : 2 < 3) h (quad_two p x y)
  | case4 x y z s ih =>
      refine encodeLoop_more (t := [x,y,z]) rfl rfl h (quad_three p s x y z) (ih _ _ _ ?_)
      rw [encode] at h
      rw [List.length_drop]
      exact Nat.le_sub_of_add_le h

/-! ## The block -/

/-- The encoder writes the characters and a null byte, and nothing behind it. -/
theorem base64Encode_eq (s dst : List UInt8) (h : (encode s).length < dst.length) :
    base64Encode s s.length dst = some (encode s++0::dst.drop ((encode s).length+1)) := by
  have hloop := encodeLoop_eq [] s [] dst h.le
  have hroom : [(0:UInt8)].length ≤ (dst.drop (encode s).length).length := by
    rw [List.length_drop,List.length_singleton]
    omega
  have hwrite := writeAt_room (encode s) (dst.drop (encode s).length) [0] hroom
  simp only [List.nil_append,List.length_nil,Nat.cast_zero] at hloop
  rw [List.append_assoc,List.drop_drop,List.length_singleton,List.singleton_append] at hwrite
  simp only [base64Encode,hloop,Option.bind_eq_bind,Option.bind_some]
  exact hwrite

/-- In a fresh block of that size the encoder leaves the characters, which stand for the text,
and a null byte. -/
def EncodesInto (fresh : UInt8) (s : Bytes) (size : ℕ) : Prop :=
  ∃ chars, chars.length = 4*((s.length+2)/3) ∧ chars.length+1 ≤ size ∧
    base64Encode s s.length (List.replicate size fresh) =
      some (chars++0::List.replicate (size-(chars.length+1)) fresh) ∧
    decode chars = some s

/-- The block that is allocated has the size that is meant, and the text is encoded in it. -/
def Copies (fresh : UInt8) (s : Bytes) : Prop :=
  blockSize (lengthInt s) = some ((s.length:ℤ)*2+16) ∧ EncodesInto fresh s (s.length*2+16)

theorem encodesInto_of_lt (fresh : UInt8) {s : Bytes} {size : ℕ}
    (h : 4*((s.length+2)/3) < size) : EncodesInto fresh s size := by
  rw [← length_encode] at h
  refine ⟨encode s,length_encode s,h,?_,decode_encode s⟩
  rw [base64Encode_eq s _ (by rwa [List.length_replicate]),List.drop_replicate]

theorem blockSize_eq_iff {n : ℕ} (h : n < 2^30) :
    blockSize n = some ((n:ℤ)*2+16) ↔ n+8 < 2^30 := by
  have htwice : checkedInt (n*2) = some ((n:ℤ)*2) := checkedInt_eq (by omega)
  rw [blockSize,htwice,Option.bind_eq_bind,Option.bind_some,checkedInt]
  split_ifs with hsum
  · exact iff_of_true rfl (by omega)
  · exact iff_of_false (fun hnone => by cases hnone) (by omega)

theorem copies_iff (fresh : UInt8) {s : Bytes} (h : s.length < 2^30) :
    Copies fresh s ↔ s.length+8 < 2^30 := by
  rw [Copies,lengthInt_eq (by omega),blockSize_eq_iff h]
  exact and_iff_left (encodesInto_of_lt fresh (by omega))

/-- A text that is not empty is sent in base64 between the ends of the sequence. -/
theorem termCopyToClipboard_eq (fresh : UInt8) {text : Bytes} (hne : text ≠ [])
    (h : text.length+8 < 2^30) :
    termCopyToClipboard fresh (some text) = some (27::bytes "]52;c;"++encode text++[7]) := by
  have hsize := (blockSize_eq_iff (by omega)).2 h
  have hroom : (encode text).length < (List.replicate (text.length*2+16) fresh).length := by
    rw [length_encode,List.length_replicate]
    omega
  have hnat : ((text.length:ℤ)*2+16).toNat = text.length*2+16 := by omega
  simp only [termCopyToClipboard,if_neg hne,lengthInt_eq (show text.length < 2^31 by omega),hsize,
    hnat,base64Encode_eq _ _ hroom,textAt_start (zero_notMem_encode _),Option.bind_eq_bind,
    Option.bind_some]

/-- Every text of that length is encoded in a block of twice its size and 16 bytes, but the
block is allocated exactly when its size is an `int`. -/
theorem clipboard_encodes_iff (fresh : UInt8) {s : Bytes} (h : s.length < 2^30) :
    EncodesInto fresh s (s.length*2+16) ∧ (Copies fresh s ↔ s.length+8 < 2^30) :=
  ⟨encodesInto_of_lt fresh (by omega),copies_iff fresh h⟩

theorem short_text_is_encoded :
    EncodesInto 0 (bytes "Hi") 20 ∧ (Copies 0 (bytes "Hi") ↔ 2+8 < 2^30) :=
  clipboard_encodes_iff 0 (s := bytes "Hi") (by decide)

/-- There is no block for eight bytes less than 2^30. -/
theorem no_block_for_long_text : ¬Copies 0 (List.replicate (2^30-8) 65) := by
  have hlength : (List.replicate (2^30-8) (65:UInt8)).length = 2^30-8 := List.length_replicate
  rw [copies_iff 0 (by rw [hlength]; omega),hlength]
  omega

end Filly.Clipboard
