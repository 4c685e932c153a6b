import Filly.Calendar
import Filly.Rectangles
import Filly.ThemeStyle

/-!
# Interpolation of styles

`anim_lerp_style` of `animation.c` goes from one style to another, field by field. A style
with fewer shadows or stops than the other one lends its last one for those it lacks. The
arithmetic of the floats is a function that rounds: to a single in the program, and not at
all where a statement is about exact time. A result that is none is undefined, by an `int`
that overflows or by an access beside an array.
-/
namespace Filly.Animation
open Calendar Numerals Rectangles Themes

/-- A style with the fields that no theme sets. -/
structure NodeStyle extends WidgetStyle where
  scaleX : Amount
  scaleY : Amount
  rotation : Amount
  translateX : Amount
  translateY : Amount
  deriving DecidableEq

/-- The style that a theme gives, with the defaults of the other fields. -/
def ofTheme (s : WidgetStyle) : NodeStyle where
  toWidgetStyle := s
  scaleX := float 1
  scaleY := float 1
  rotation := float 0
  translateX := float 0
  translateY := float 0

def maxShadows : ℕ := 4
def maxGradientStops : ℕ := 8

/-! ## Layers and stops -/

/-- `l[i]`, which is undefined outside the list. -/
def element {α : Type} (l : List α) (i : ℤ) : Option α := if 0 ≤ i then l[i.toNat]? else none

/-- The element with the index, or the last one. -/
def elementOrLast {α : Type} (l : List α) (i : ℕ) : Option α :=
  if i < l.length then element l i else element l ((l.length : ℤ)-1)

/-- One element after the other, as many as the longer list has. -/
def lerpLists {α : Type} (lerp : α → α → Option α) (a b : List α) : Option (List α) :=
  (List.range (max a.length b.length)).mapM fun i => do
    let x ← elementOrLast a i
    let y ← elementOrLast b i
    lerp x y

/-- The elements written into an array. -/
def intoArray {α : Type} (size : ℕ) (l : List α) : Option (List α) :=
  if l.length ≤ size then some l else none

/-! ## Numbers -/

section
variable (rnd : ℚ → Option ℚ)

/-- `(int)(d * t)`. -/
def portion (d : ℤ) (t : ℚ) : ℤ :=
  toInt (do
    let m ← rnd d
    rnd (m*t))

def animLerpColor (a b : UInt32) (t : ℚ) : UInt32 :=
  if t ≤ 0 then a
  else if 1 ≤ t then b
  else
    let channel (x y : UInt32) : UInt32 := word (x.toNat+portion rnd (y.toNat-x.toNat) t)
    pack (channel (alpha a) (alpha b)) (channel (red a) (red b)) (channel (green a) (green b))
      (channel (blue a) (blue b))

def animLerpInt (a b : ℤ) (t : ℚ) : Option ℤ :=
  if t ≤ 0 then some a
  else if 1 ≤ t then some b
  else do
    let d ← checkedInt (b-a)
    checkedInt (a+portion rnd d t)

/-- A float that has been rounded. -/
def rounded (v : ℚ) : Amount :=
  match rnd v with
  | some q => .finite q
  | none => .infinite (v < 0)

def negated : Amount → Amount
  | .finite q => .finite (-q)
  | .infinite negative => .infinite !negative
  | .nan => .nan

def sumOf : Amount → Amount → Amount
  | .finite a, .finite b => rounded rnd (a+b)
  | .infinite s, .finite _ => .infinite s
  | .finite _, .infinite s => .infinite s
  | .infinite s, .infinite s' => if s = s' then .infinite s else .nan
  | _, _ => .nan

/-- The product with a positive number. -/
def timesPositive (t : ℚ) : Amount → Amount
  | .finite q => rounded rnd (q*t)
  | a => a

def animLerpFloat (a b : Amount) (t : ℚ) : Amount :=
  if t ≤ 0 then a
  else if 1 ≤ t then b
  else sumOf rnd a (timesPositive rnd t (sumOf rnd b (negated a)))

def animLerpRect (a b : Rect) (t : ℚ) : Option Rect := do
  let x ← animLerpInt rnd a.x b.x t
  let y ← animLerpInt rnd a.y b.y t
  let w ← animLerpInt rnd a.w b.w t
  let h ← animLerpInt rnd a.h b.h t
  return ⟨x,y,w,h⟩

/-! ## Styles -/

def lerpShadow (t : ℚ) (a b : ShadowLayer) : Option ShadowLayer := do
  let offsetX ← animLerpInt rnd a.offsetX b.offsetX t
  let offsetY ← animLerpInt rnd a.offsetY b.offsetY t
  let blur ← animLerpInt rnd a.blur b.blur t
  let spread ← animLerpInt rnd a.spread b.spread t
  return ⟨offsetX,offsetY,blur,spread,animLerpColor rnd a.color b.color t⟩

def lerpStop (t : ℚ) (a b : GradientStop) : Option GradientStop :=
  some ⟨animLerpFloat rnd a.offset b.offset t,animLerpColor rnd a.color b.color t⟩

/-- Without a gradient on one of the sides the first one stays. -/
def lerpGradient (a b : Gradient) (t : ℚ) : Option Gradient :=
  if a.type ≠ .none ∧ b.type ≠ .none then do
    let stops ← lerpLists (lerpStop rnd t) a.stops b.stops
    return {
      type := b.type
      angle := animLerpFloat rnd a.angle b.angle t
      centerX := animLerpFloat rnd a.centerX b.centerX t
      centerY := animLerpFloat rnd a.centerY b.centerY t
      stops := stops }
  else some a

def lerpInsets (a b : Insets) (t : ℚ) : Option Insets := do
  let first ← animLerpInt rnd a.first b.first t
  let second ← animLerpInt rnd a.second b.second t
  let third ← animLerpInt rnd a.third b.third t
  let fourth ← animLerpInt rnd a.fourth b.fourth t
  return ⟨first,second,third,fourth⟩

def animLerpStyle (a b : NodeStyle) (t : ℚ) : Option NodeStyle :=
  if t ≤ 0 then some a
  else if 1 ≤ t then some b
  else do
    let borderWidth ← animLerpInt rnd a.borderWidth b.borderWidth t
    let borderRadius ← animLerpInt rnd a.borderRadius b.borderRadius t
    let fontSize ← animLerpInt rnd a.fontSize b.fontSize t
    let fontWeight ← animLerpInt rnd a.fontWeight b.fontWeight t
    let backdropBlur ← animLerpInt rnd a.backdropBlur b.backdropBlur t
    let layers ← lerpLists (lerpShadow rnd t) a.shadows b.shadows
    let shadows ← intoArray maxShadows layers
    let gradient ← lerpGradient rnd a.gradient b.gradient t
    let padding ← lerpInsets rnd a.padding b.padding t
    let margin ← lerpInsets rnd a.margin b.margin t
    return { a with
      fgColor := animLerpColor rnd a.fgColor b.fgColor t
      bgColor := animLerpColor rnd a.bgColor b.bgColor t
      borderColor := animLerpColor rnd a.borderColor b.borderColor t
      accentColor := animLerpColor rnd a.accentColor b.accentColor t
      borderWidth := borderWidth
      borderRadius := borderRadius
      fontSize := fontSize
      fontWeight := fontWeight
      opacity := animLerpFloat rnd a.opacity b.opacity t
      scaleX := animLerpFloat rnd a.scaleX b.scaleX t
      scaleY := animLerpFloat rnd a.scaleY b.scaleY t
      rotation := animLerpFloat rnd a.rotation b.rotation t
      translateX := animLerpFloat rnd a.translateX b.translateX t
      translateY := animLerpFloat rnd a.translateY b.translateY t
      backdropBlur := backdropBlur
      shadows := shadows
      gradient := gradient
      padding := padding
      margin := margin }

end

end Filly.Animation
