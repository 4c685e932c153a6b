import Filly.CJsonPrint
import Filly.Rectangles

/-!
# Render trees as the backends draw them

The fields of `RenderTree` that `render_node` of the terminal and of the graphical
backend read. A node that is neither an input nor one of those that hold other nodes has
contents of a type `κ`; what is drawn for them is a function of the backend. So is what
becomes of the animations, of a type `τ`, which both compute with floating point.
-/
namespace Filly.Rendering
open CJson Rectangles

inductive BorderStyle where
  | none | single | double | rounded | solid | dashed | dotted
  deriving DecidableEq, Repr

inductive Orientation where
  | horizontal | vertical
  deriving DecidableEq, Repr

/-- Insets and margins in the order of the arrays `padding` and `margin`. -/
structure EdgeInsets where
  top : ℤ := 0
  right : ℤ := 0
  bottom : ℤ := 0
  left : ℤ := 0
  deriving DecidableEq, Repr

structure BorderSide where
  width : ℤ := 0
  color : UInt32 := 0
  style : BorderStyle := .none
  deriving DecidableEq, Repr

structure ShadowLayer where
  offsetX : ℤ
  offsetY : ℤ
  blur : ℤ
  spread : ℤ
  color : UInt32
  deriving DecidableEq, Repr

/-- A style with a gradient of a type `γ`. `veil` is the alpha of the white that an
opacity below 1 puts over the node. -/
structure WidgetStyle (γ : Type) where
  fgColor : UInt32 := 0
  bgColor : UInt32 := 0
  borderColor : UInt32 := 0
  accentColor : UInt32 := 0
  borderWidth : ℤ := 0
  borderRadius : ℤ := 0
  borderTop : BorderSide := {}
  borderBottom : BorderSide := {}
  borderLeft : BorderSide := {}
  borderRight : BorderSide := {}
  padding : EdgeInsets := {}
  margin : EdgeInsets := {}
  fontSize : ℤ := 0
  fontWeight : ℤ := 0
  fontItalic : Bool := false
  shadows : List ShadowLayer := []
  gradient : Option γ := none
  veil : Option UInt8 := none
  deriving DecidableEq, Repr

structure Node (γ τ : Type) where
  rect : Rect
  dirty : Bool
  resolvedStyle : WidgetStyle γ
  styleClass : Option Bytes
  tooltip : Option Bytes
  activeAnimations : τ

inductive Content (κ α : Type) where
  | container (border : BorderStyle) (padding : EdgeInsets) (children : List α)
  | flex (children : List α)
  | grid (children : List α)
  | input (text placeholder : Option Bytes) (cursor : ℤ) (masked : Bool)
  | tabs (tabLabels : List Bytes) (active : ℤ) (child : Option α)
  | splitPanes (orientation : Orientation) (splitPosition : ℤ) (first second third : Option α)
  | other (contents : κ)

inductive RenderTree (κ γ τ : Type) where
  | mk (node : Node γ τ) (u : Content κ (RenderTree κ γ τ))

variable {κ γ τ : Type}

/-- `text && strlen(text) ? text : (placeholder ? placeholder : "")`. -/
def shownText (text placeholder : Option Bytes) : Bytes :=
  if text.getD [] ≠ [] then text.getD [] else placeholder.getD []

/-- The width or height of the first pane. -/
def splitAt (orientation : Orientation) (splitPosition w h : ℤ) : ℤ :=
  if splitPosition > 0 then splitPosition
  else if orientation = .horizontal then w.tdiv 2 else h.tdiv 2

/-! ## Hidden texts -/

mutual
/-- The tree with stars for each character of a masked text. -/
def hide : RenderTree κ γ τ → RenderTree κ γ τ
  | .mk node u => .mk node (hideBelow u)

def hideBelow : Content κ (RenderTree κ γ τ) → Content κ (RenderTree κ γ τ)
  | .container border padding children => .container border padding (hideList children)
  | .flex children => .flex (hideList children)
  | .grid children => .grid (hideList children)
  | .input text placeholder cursor masked =>
      .input (if masked then some (List.replicate (text.getD []).length 42) else text)
        placeholder cursor masked
  | .tabs labels active child => .tabs labels active (hideOption child)
  | .splitPanes orientation position first second third =>
      .splitPanes orientation position (hideOption first) (hideOption second) (hideOption third)
  | .other contents => .other contents

def hideList : List (RenderTree κ γ τ) → List (RenderTree κ γ τ)
  | [] => []
  | c::cs => hide c::hideList cs

def hideOption : Option (RenderTree κ γ τ) → Option (RenderTree κ γ τ)
  | none => none
  | some c => some (hide c)
end

/-- The trees differ in the texts of masked inputs only, and these are as long as each
other. -/
def SameButMasked (t t' : RenderTree κ γ τ) : Prop := hide t = hide t'

end Filly.Rendering
