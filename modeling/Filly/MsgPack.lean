import Filly.BigEndian

/-!
# The MessagePack writer and reader

This is the code of `protocol/msgpack.c`. A writer owns a buffer of a fixed
size and a position in it; a byte that does not fit is dropped without notice,
and the reader hands out zero bytes past the end of its buffer. Integers are
64-bit values and lengths are sizes, both kept as unbounded numbers here; the
narrowing conversions of the source are explicit. A double is its 64-bit
pattern, which is what the source copies in and out.

Two byte reads inside one C expression are taken from left to right.
-/
namespace Filly.MsgPack
open BigEndian

/-- `MsgPackWriter`: the buffer is its whole allocation of `size` bytes. -/
structure MsgPackWriter where
  buf : List UInt8
  pos : ℕ
  pos_le : pos ≤ buf.length

def MsgPackWriter.size (w : MsgPackWriter) : ℕ := w.buf.length

/-- The bytes produced so far. -/
def MsgPackWriter.written (w : MsgPackWriter) : List UInt8 := w.buf.take w.pos

def msgpackWriterInit (buf : List UInt8) : MsgPackWriter := ⟨buf,0,Nat.zero_le _⟩

def writeByte (w : MsgPackWriter) (b : UInt8) : MsgPackWriter :=
  if h : w.pos < w.size then
    ⟨w.buf.set w.pos b,w.pos+1,by rw [List.length_set]; exact h⟩
  else w

/-- The source stops its loop at the end of the buffer; so does every byte. -/
def writeBytes (w : MsgPackWriter) (data : List UInt8) : MsgPackWriter :=
  data.foldl writeByte w

/-- `for (int i = n-1; i >= 0; i--) write_byte(w, (uint8_t)(val >> (8*i)))`. -/
def writeShifted (w : MsgPackWriter) (val : ℤ) : ℕ → MsgPackWriter
  | 0 => w
  | i+1 => writeShifted (writeByte w (lowByte (val >>> (8*i)))) val i

def msgpackWriteNil (w : MsgPackWriter) : MsgPackWriter := writeByte w 0xc0

def msgpackWriteBool (w : MsgPackWriter) (val : Bool) : MsgPackWriter :=
  writeByte w (if val then 0xc3 else 0xc2)

def msgpackWriteInt (w : MsgPackWriter) (val : ℤ) : MsgPackWriter :=
  if 0 ≤ val then
    if val ≤ 127 then writeByte w (lowByte val)
    else if val ≤ 255 then writeByte (writeByte w 0xcc) (lowByte val)
    else if val ≤ 65535 then
      writeByte (writeByte (writeByte w 0xcd) (lowByte (val >>> (8 : ℕ)))) (lowByte val)
    else if val ≤ 0xFFFFFFFF then writeShifted (writeByte w 0xce) val 4
    else writeShifted (writeByte w 0xcf) val 8
  else
    if -32 ≤ val then writeByte w (0xe0 ||| lowByte (val % 32))
    else if -128 ≤ val then writeByte (writeByte w 0xd0) (lowByte val)
    else if -32768 ≤ val then
      writeByte (writeByte (writeByte w 0xd1) (lowByte (val >>> (8 : ℕ)))) (lowByte val)
    else if -0x80000000 ≤ val then writeShifted (writeByte w 0xd2) val 4
    else writeShifted (writeByte w 0xd3) val 8

def msgpackWriteFloat (w : MsgPackWriter) (bits : UInt64) : MsgPackWriter :=
  writeShifted (writeByte w 0xcb) bits.toNat 8

def msgpackWriteStr (w : MsgPackWriter) (str : List UInt8) : MsgPackWriter :=
  let len : ℤ := str.length
  let h :=
    if len ≤ 31 then writeByte w (0xa0 ||| lowByte len)
    else if len ≤ 255 then writeByte (writeByte w 0xd9) (lowByte len)
    else if len ≤ 65535 then
      writeByte (writeByte (writeByte w 0xda) (lowByte (len >>> (8 : ℕ)))) (lowByte len)
    else writeShifted (writeByte w 0xdb) len 4
  writeBytes h str

/-- Array and map headers share one shape and differ in their three tags. -/
def writeHeader (fix tag16 tag32 : UInt8) (w : MsgPackWriter) (count : ℕ) : MsgPackWriter :=
  if (count : ℤ) ≤ 15 then writeByte w (fix ||| lowByte count)
  else if (count : ℤ) ≤ 65535 then
    writeByte (writeByte (writeByte w tag16) (lowByte ((count : ℤ) >>> (8 : ℕ)))) (lowByte count)
  else writeShifted (writeByte w tag32) count 4

def msgpackWriteArrayHeader : MsgPackWriter → ℕ → MsgPackWriter := writeHeader 0x90 0xdc 0xdd
def msgpackWriteMapHeader : MsgPackWriter → ℕ → MsgPackWriter := writeHeader 0x80 0xde 0xdf

structure MsgPackReader where
  buf : List UInt8
  pos : ℕ
  deriving DecidableEq, Repr

def MsgPackReader.size (r : MsgPackReader) : ℕ := r.buf.length

def msgpackReaderInit (buf : List UInt8) : MsgPackReader := ⟨buf,0⟩

def readByte (r : MsgPackReader) : UInt8 × MsgPackReader :=
  if h : r.pos < r.size then (r.buf.get ⟨r.pos,h⟩,{r with pos := r.pos+1}) else (0,r)

def msgpackReadType (r : MsgPackReader) : ℤ :=
  if h : r.pos < r.size then (r.buf.get ⟨r.pos,h⟩).toNat else -1

/-- `for (i = 0; i < n; i++) v = (v << 8) | read_byte(r)` in a `bits`-bit word. -/
def readWord (bits : ℕ) : ℕ → ℕ → MsgPackReader → ℕ × MsgPackReader
  | 0, v, r => (v,r)
  | n+1, v, r =>
      let b := readByte r
      readWord bits n (shiftIn v b.1 % 2^bits) b.2

/-- `(read_byte(r) << 8) | read_byte(r)`, an `int` expression. -/
def readPair (r : MsgPackReader) : ℕ × MsgPackReader :=
  let b := readByte r
  let c := readByte b.2
  (shiftIn b.1.toNat c.1,c.2)

def msgpackReadBool (r : MsgPackReader) : Bool × MsgPackReader :=
  let b := readByte r
  (b.1 == 0xc3,b.2)

def msgpackReadInt (r : MsgPackReader) : ℤ × MsgPackReader :=
  let b := readByte r
  if b.1 ≤ 0x7f then (b.1.toNat,b.2)
  else if b.1 &&& 0xe0 = 0xe0 then (signed 1 b.1.toNat,b.2)
  else if b.1 = 0xcc then let c := readByte b.2; (c.1.toNat,c.2)
  else if b.1 = 0xcd then let c := readPair b.2; (c.1,c.2)
  else if b.1 = 0xce then let c := readWord 32 4 0 b.2; (c.1,c.2)
  else if b.1 = 0xcf then let c := readWord 64 8 0 b.2; (signed 8 c.1,c.2)
  else if b.1 = 0xd0 then let c := readByte b.2; (signed 1 c.1.toNat,c.2)
  else if b.1 = 0xd1 then let c := readPair b.2; (signed 2 c.1,c.2)
  else if b.1 = 0xd2 then let c := readWord 32 4 0 b.2; (signed 4 c.1,c.2)
  else if b.1 = 0xd3 then let c := readWord 64 8 0 b.2; (signed 8 c.1,c.2)
  else (0,b.2)

/-- The bit pattern of the returned double; a wrong tag gives `0.0`. -/
def msgpackReadFloat (r : MsgPackReader) : UInt64 × MsgPackReader :=
  let b := readByte r
  if b.1 ≠ 0xcb then (0,b.2)
  else let c := readWord 64 8 0 b.2; (UInt64.ofNat c.1,c.2)

/-- `for (i = 0; i < l; i++) s[i] = read_byte(r)`. -/
def readBytes : ℕ → MsgPackReader → List UInt8 × MsgPackReader
  | 0, r => ([],r)
  | l+1, r =>
      let b := readByte r
      let t := readBytes l b.2
      (b.1::t.1,t.2)

def msgpackReadStr (r : MsgPackReader) : List UInt8 × MsgPackReader :=
  let b := readByte r
  let l : ℕ × MsgPackReader :=
    if b.1 &&& 0xe0 = 0xa0 then ((b.1 &&& 0x1f).toNat,b.2)
    else if b.1 = 0xd9 then let c := readByte b.2; (c.1.toNat,c.2)
    else if b.1 = 0xda then readPair b.2
    else if b.1 = 0xdb then readWord 64 4 0 b.2
    else (0,b.2)
  readBytes l.1 l.2

def readHeader (fix tag16 tag32 : UInt8) (r : MsgPackReader) : ℕ × MsgPackReader :=
  let b := readByte r
  if b.1 &&& 0xf0 = fix then ((b.1 &&& 0xf).toNat,b.2)
  else if b.1 = tag16 then readPair b.2
  else if b.1 = tag32 then readWord 64 4 0 b.2
  else (0,b.2)

def msgpackReadArray : MsgPackReader → ℕ × MsgPackReader := readHeader 0x90 0xdc 0xdd
def msgpackReadMap : MsgPackReader → ℕ × MsgPackReader := readHeader 0x80 0xde 0xdf

end Filly.MsgPack
