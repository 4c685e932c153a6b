import Filly.CJson
import Filly.WhileLoops

/-!
# SVG paths

The text of a path is read command by command. A letter sets the command, and what follows
without a letter is read with the command that was set last. The vertices of all subpaths stand
in one array, and the contours are lengths of stretches of it.

What is computed in floating point is left open. How much of a text is a number is not: that
decides where the reader goes on.
-/
namespace Filly.SvgPath
open CJson WhileLoops

/-! ## Numbers in C -/

def isspace (c : UInt8) : Bool := c = 32 || (9 ≤ c && c ≤ 13)

def isHexDigit (c : UInt8) : Bool := isDigit c || (97 ≤ c && c ≤ 102) || (65 ≤ c && c ≤ 70)

def toLower (c : UInt8) : UInt8 := if 65 ≤ c && c ≤ 90 then c+32 else c

/-- The text begins with the word in either case. -/
def beginsWith (word : String) (s : Bytes) : Bool := (bytes word).isPrefixOf (s.map toLower)

/-- `nan`, with the text in parentheses that may follow it. -/
def nanLength (s : Bytes) : ℕ :=
  let tag := (s.drop 4).takeWhile fun c => isDigit c || isLetter c || c = 95
  if s[3]? = some 40 ∧ (s.drop (4+tag.length)).head? = some 41 then 5+tag.length else 3
where
  isLetter (c : UInt8) : Bool := (97 ≤ c && c ≤ 122) || (65 ≤ c && c ≤ 90)

/-- The digits after `0x` with a binary exponent. -/
def hexLength (s : Bytes) : ℕ :=
  let whole := (s.takeWhile isHexDigit).length
  let point := if (s.drop whole).head? = some 46 then 1 else 0
  let frac := if point = 1 then ((s.drop (whole+1)).takeWhile isHexDigit).length else 0
  if whole+frac = 0 then 0
  else
    let tail := s.drop (whole+point+frac)
    let sign := if tail[1]? = some 43 ∨ tail[1]? = some 45 then 1 else 0
    let power := ((tail.drop (1+sign)).takeWhile isDigit).length
    whole+point+frac+if (tail.head? = some 112 ∨ tail.head? = some 80) ∧ power ≠ 0 then
      1+sign+power else 0

/-- How many characters `strtof` takes; none if there is no number. -/
def strtofLength (s : Bytes) : ℕ :=
  let blanks := (s.takeWhile isspace).length
  let t := s.drop blanks
  let sign := if t.head? = some 43 ∨ t.head? = some 45 then 1 else 0
  let word := t.drop sign
  if beginsWith "infinity" word then blanks+sign+8
  else if beginsWith "inf" word then blanks+sign+3
  else if beginsWith "nan" word then blanks+sign+nanLength word
  else if beginsWith "0x" word ∧ hexLength (word.drop 2) ≠ 0 then
    blanks+sign+2+hexLength (word.drop 2)
  else
    match strtod t with
    | some (_,n) => blanks+n
    | none => 0

/-! ## The path builder -/

/-- What is computed in floating point, with the scale that is given. -/
structure PathArithmetic (F : Type) where
  zero : F
  /-- The value of the characters that are taken as a number. -/
  strtof : Bytes → F
  scaled : F → F
  add : F → F → F
  reflect : F → F → F
  toShort : F → Int16

inductive VertexType where
  | move
  | line
  | curve
  | cubic
  deriving DecidableEq

structure Vertex where
  type : VertexType
  x : Int16
  y : Int16
  cx : Int16
  cy : Int16
  cx1 : Int16
  cy1 : Int16

structure PathBuilder (F : Type) where
  pos : F × F
  start : F × F
  started : Bool
  verts : List Vertex
  contours : List ℤ

section
variable {F : Type} (ar : PathArithmetic F)

def pbInit : PathBuilder F := ⟨(ar.zero,ar.zero),(ar.zero,ar.zero),false,[],[]⟩

def pbAddVertex (pb : PathBuilder F) (type : VertexType) (p c : F × F) : PathBuilder F :=
  { pb with
    verts := pb.verts++
      [⟨type,ar.toShort p.1,ar.toShort p.2,ar.toShort c.1,ar.toShort c.2,0,0⟩] }

def pbAddCubic (pb : PathBuilder F) (type : VertexType) (p c c1 : F × F) : PathBuilder F :=
  { pb with
    verts := pb.verts++
      [⟨type,ar.toShort p.1,ar.toShort p.2,ar.toShort c.1,ar.toShort c.2,ar.toShort c1.1,
        ar.toShort c1.2⟩] }

/-- What is taken off the count is the length stored last. -/
def pbEndContour (pb : PathBuilder F) : PathBuilder F :=
  if !pb.started then pb
  else
    let pb := pbAddVertex ar pb .line pb.start (ar.zero,ar.zero)
    let prevTotal := pb.contours.getLast?.getD 0
    { pb with started := false, contours := pb.contours++[pb.verts.length-prevTotal] }

def pbMoveTo (pb : PathBuilder F) (p : F × F) : PathBuilder F :=
  let pb := if pb.started then pbEndContour ar pb else pb
  { pbAddVertex ar pb .move p (ar.zero,ar.zero) with start := p, pos := p, started := true }

def pbLineTo (pb : PathBuilder F) (p : F × F) : PathBuilder F :=
  { pbAddVertex ar pb .line p (ar.zero,ar.zero) with pos := p }

def pbQuadTo (pb : PathBuilder F) (c p : F × F) : PathBuilder F :=
  { pbAddVertex ar pb .curve p c with pos := p }

def pbCubicTo (pb : PathBuilder F) (c1 c2 p : F × F) : PathBuilder F :=
  { pbAddCubic ar pb .cubic p c1 c2 with pos := p }

/-! ## The reader -/

def isSeparator (c : UInt8) : Bool := c = 32 || c = 44 || c = 9 || c = 10 || c = 13

def isLetter (c : UInt8) : Bool := (65 ≤ c && c ≤ 90) || (97 ≤ c && c ≤ 122)

def skipSeparators (d : Bytes) : Bytes := d.dropWhile isSeparator

/-- Where the reader goes on after a number. -/
def afterNumber (d : Bytes) : Bytes := (skipSeparators d).drop (strtofLength (skipSeparators d))

def svgParseNumber (d : Bytes) : F × Bytes :=
  (ar.strtof ((skipSeparators d).take (strtofLength (skipSeparators d))),afterNumber d)

/-- A number that is scaled, and relative to a coordinate if the command is in lower case. -/
def readCoordinate (relative : Bool) (pos : F) (d : Bytes) : F × Bytes :=
  let v := svgParseNumber ar d
  (if relative then ar.add (ar.scaled v.1) pos else ar.scaled v.1,v.2)

def readPoint (relative : Bool) (pos : F × F) (d : Bytes) : (F × F) × Bytes :=
  let x := readCoordinate ar relative pos.1 d
  let y := readCoordinate ar relative pos.2 x.2
  ((x.1,y.1),y.2)

inductive PathCommand where
  | moveTo
  | lineTo
  | horizontal
  | vertical
  | quad
  | smoothQuad
  | cubic
  | smoothCubic
  | close
  deriving DecidableEq

/-- The cases of the switch, in upper and lower case. -/
def commandOf (cmd : UInt8) : Option PathCommand :=
  if cmd = 77 ∨ cmd = 109 then some .moveTo
  else if cmd = 76 ∨ cmd = 108 then some .lineTo
  else if cmd = 72 ∨ cmd = 104 then some .horizontal
  else if cmd = 86 ∨ cmd = 118 then some .vertical
  else if cmd = 81 ∨ cmd = 113 then some .quad
  else if cmd = 84 ∨ cmd = 116 then some .smoothQuad
  else if cmd = 67 ∨ cmd = 99 then some .cubic
  else if cmd = 83 ∨ cmd = 115 then some .smoothCubic
  else if cmd = 90 ∨ cmd = 122 then some .close
  else none

structure SvgParser (F : Type) where
  pb : PathBuilder F
  prevControl : F × F
  startPoint : F × F
  cmd : UInt8
  d : Bytes

def SvgParser.relative (s : SvgParser F) : Bool := 97 ≤ s.cmd && s.cmd ≤ 122

/-- The control point before the last one, seen from the other side. -/
def SvgParser.reflected (s : SvgParser F) : F × F :=
  (ar.reflect s.prevControl.1 s.pb.pos.1,ar.reflect s.prevControl.2 s.pb.pos.2)

def SvgParser.execute (s : SvgParser F) : PathCommand → SvgParser F
  | .moveTo =>
      let p := readPoint ar s.relative s.pb.pos s.d
      { s with
        pb := pbMoveTo ar s.pb p.1
        startPoint := p.1
        cmd := if s.cmd = 77 then 76 else 108
        d := p.2 }
  | .lineTo =>
      let p := readPoint ar s.relative s.pb.pos s.d
      { s with pb := pbLineTo ar s.pb p.1, d := p.2 }
  | .horizontal =>
      let x := readCoordinate ar s.relative s.pb.pos.1 s.d
      { s with pb := pbLineTo ar s.pb (x.1,s.pb.pos.2), d := x.2 }
  | .vertical =>
      let y := readCoordinate ar s.relative s.pb.pos.2 s.d
      { s with pb := pbLineTo ar s.pb (s.pb.pos.1,y.1), d := y.2 }
  | .quad =>
      let c := readPoint ar s.relative s.pb.pos s.d
      let p := readPoint ar s.relative s.pb.pos c.2
      { s with pb := pbQuadTo ar s.pb c.1 p.1, prevControl := c.1, d := p.2 }
  | .smoothQuad =>
      let p := readPoint ar s.relative s.pb.pos s.d
      { s with pb := pbQuadTo ar s.pb (s.reflected ar) p.1, prevControl := s.reflected ar, d := p.2 }
  | .cubic =>
      let c1 := readPoint ar s.relative s.pb.pos s.d
      let c2 := readPoint ar s.relative s.pb.pos c1.2
      let p := readPoint ar s.relative s.pb.pos c2.2
      { s with pb := pbCubicTo ar s.pb c1.1 c2.1 p.1, prevControl := c2.1, d := p.2 }
  | .smoothCubic =>
      let c2 := readPoint ar s.relative s.pb.pos s.d
      let p := readPoint ar s.relative s.pb.pos c2.2
      { s with pb := pbCubicTo ar s.pb (s.reflected ar) c2.1 p.1, prevControl := c2.1, d := p.2 }
  | .close => { s with pb := { pbLineTo ar s.pb s.startPoint with pos := s.startPoint } }

/-- One turn of the loop over the text. Without a command it is left; the step over a character
that an unknown letter makes may lead out of the string. -/
def pathTurn (s : SvgParser F) : Turn (SvgParser F) (Option (SvgParser F)) :=
  match skipSeparators s.d with
  | [] => .returned (some { s with d := [] })
  | c::t =>
      let s := if isLetter c then { s with cmd := c, d := t.dropWhile (· = 32) }
        else { s with d := c::t }
      if s.cmd = 0 then .returned (some s)
      else
        match commandOf s.cmd with
        | some command => .next (s.execute ar command)
        | none =>
            match s.d with
            | [] => .returned none
            | _::rest => .next { s with d := rest }

/-- The state before the loop; the text ends before its first null character. -/
def pathStart (d : Bytes) : SvgParser F where
  pb := pbInit ar
  prevControl := (ar.zero,ar.zero)
  startPoint := (ar.zero,ar.zero)
  cmd := 0
  d := d.takeWhile (· ≠ 0)

structure VectorPath where
  vertices : List (Int16 × Int16)
  contourLengths : List ℤ
  minX : ℤ
  minY : ℤ
  maxX : ℤ
  maxY : ℤ

/-- The contours when the loop is over. -/
def pbFinish (pb : PathBuilder F) : PathBuilder F :=
  let pb := if pb.started then pbEndContour ar pb else pb
  if pb.contours = [] ∧ pb.verts ≠ [] then { pb with contours := [pb.verts.length] } else pb

/-- What the function returns after the loop. -/
def pathOf (pb : PathBuilder F) : Option VectorPath :=
  let pb := pbFinish ar pb
  if pb.verts = [] then none
  else some {
    vertices := pb.verts.map fun v => (v.x,v.y)
    contourLengths := pb.contours
    minX := pb.verts.foldl (fun m v => min m v.x.toInt) (10^9)
    minY := pb.verts.foldl (fun m v => min m v.y.toInt) (10^9)
    maxX := pb.verts.foldl (fun m v => max m v.x.toInt) (-10^9)
    maxY := pb.verts.foldl (fun m v => max m v.y.toInt) (-10^9) }

end

end Filly.SvgPath
