import Filly.ThemeColors

/-!
# Styles and rules of `theme.c`

`parse_widget_style` starts from the default style and fills in what a rule of a
theme file gives; `merge_style` copies each property whose value differs from the
one it takes for "not given". The rules of a file are kept in reverse order, and
`theme_resolve` merges those that match, first to last in the list.

An array with its count is the list of the elements in use. The fields that no
theme sets (scale, rotation and translation) are left out.
-/
namespace Filly.Themes
open CJson Numerals

/-! ## Styles -/

inductive Alignment where
  | left | center | right
  deriving DecidableEq, Repr

inductive BorderStyle where
  | none | single | double | rounded | solid | dashed | dotted
  deriving DecidableEq, Repr

inductive CursorStyle where
  | default | pointer | text | move
  | resizeN | resizeS | resizeE | resizeW | resizeNE | resizeNW | resizeSE | resizeSW
  | notAllowed
  deriving DecidableEq, Repr

inductive GradientType where
  | none | linear | radial
  deriving DecidableEq, Repr

structure ShadowLayer where
  offsetX : ℤ
  offsetY : ℤ
  blur : ℤ
  spread : ℤ
  color : UInt32
  deriving DecidableEq, Repr

structure GradientStop where
  offset : Amount
  color : UInt32
  deriving DecidableEq, Repr

structure Gradient where
  type : GradientType
  angle : Amount
  centerX : Amount
  centerY : Amount
  stops : List GradientStop
  deriving DecidableEq, Repr

inductive Side where
  | top | bottom | left | right
  deriving DecidableEq, Repr

/-- The four fields `border_top_…`, `border_bottom_…`, `border_left_…` and
`border_right_…`. -/
structure Sides (α : Type) where
  top : α
  bottom : α
  left : α
  right : α
  deriving DecidableEq, Repr

def Sides.get {α : Type} (s : Sides α) : Side → α
  | .top => s.top
  | .bottom => s.bottom
  | .left => s.left
  | .right => s.right

def Sides.of {α : Type} (f : Side → α) : Sides α := ⟨f .top,f .bottom,f .left,f .right⟩

@[simp] theorem Sides.get_of {α : Type} (f : Side → α) (side : Side) :
    (Sides.of f).get side = f side := by
  cases side <;> rfl

/-- `int[4]`. -/
structure Insets where
  first : ℤ
  second : ℤ
  third : ℤ
  fourth : ℤ
  deriving DecidableEq, Repr

structure WidgetStyle where
  fgColor : UInt32
  bgColor : UInt32
  borderColor : UInt32
  accentColor : UInt32
  borderWidth : ℤ
  borderRadius : ℤ
  sideWidth : Sides ℤ
  sideColor : Sides UInt32
  sideStyle : Sides BorderStyle
  padding : Insets
  margin : Insets
  minWidth : ℤ
  minHeight : ℤ
  maxWidth : ℤ
  maxHeight : ℤ
  fontFamily : Option Bytes
  fontSize : ℤ
  fontWeight : ℤ
  fontItalic : Bool
  textAlign : Alignment
  opacity : Amount
  shadows : List ShadowLayer
  gradient : Gradient
  backdropBlur : ℤ
  letterSpacing : Amount
  lineHeight : Amount
  textTransform : ℤ
  transitionMs : ℤ
  cursorStyle : CursorStyle
  deriving DecidableEq, Repr

/-- A float literal. -/
def float (v : ℚ) : Amount :=
  match binary32 v with
  | some q => .finite q
  | none => .infinite (v < 0)

def rgba (r g b a : UInt32) : UInt32 := pack a r g b

def noGradient : Gradient := ⟨.none,float 0,float 0,float 0,[]⟩

/-- `widgetstyle_default`: a field that it does not set is zero. -/
def widgetstyleDefault : WidgetStyle where
  fgColor := rgba 0xd0 0xd0 0xd0 255
  bgColor := rgba 0x1a 0x1a 0x2e 255
  borderColor := rgba 0x2a 0x2a 0x4a 255
  accentColor := rgba 0xe9 0x45 0x60 255
  borderWidth := 1
  borderRadius := 4
  sideWidth := .of fun _ => 0
  sideColor := .of fun _ => 0
  sideStyle := .of fun _ => .solid
  padding := ⟨8,12,8,12⟩
  margin := ⟨0,0,0,0⟩
  minWidth := 0
  minHeight := 0
  maxWidth := 0
  maxHeight := 0
  fontFamily := none
  fontSize := 14
  fontWeight := 400
  fontItalic := false
  textAlign := .left
  opacity := float 1
  shadows := []
  gradient := noGradient
  backdropBlur := 0
  letterSpacing := float 0
  lineHeight := float (6/5)
  textTransform := 0
  transitionMs := 150
  cursorStyle := .default

/-! ## Members of a rule -/

def intMember (o : Json) (key : Bytes) : Option ℤ :=
  match o.getObjectItem key with
  | some (.number d) => some d.valueint
  | _ => none

def floatMember (o : Json) (key : Bytes) : Option Amount :=
  match o.getObjectItem key with
  | some (.number d) => some (toSingle d.neg d.value)
  | _ => none

def boolMember (o : Json) (key : Bytes) : Option Bool :=
  match o.getObjectItem key with
  | some (.bool b) => some b
  | _ => none

def textMember (o : Json) (key : Bytes) : Option Bytes := (o.getObjectItem key).bind Json.valuestring

def colorMember (vars : List Variable) (o : Json) (key : Bytes) : Option UInt32 :=
  (textMember o key).map (colorOf vars)

def parseInt (o : Json) (key : Bytes) (default : ℤ) : ℤ := (intMember o key).getD default
def parseFloat (o : Json) (key : Bytes) (default : Amount) : Amount := (floatMember o key).getD default
def parseBool (o : Json) (key : Bytes) (default : Bool) : Bool := (boolMember o key).getD default

def parseAlign (s : Bytes) : Alignment :=
  if s = bytes "center" then .center else if s = bytes "right" then .right else .left

def parseBorderStyle (s : Bytes) : BorderStyle :=
  if s = bytes "none" then .none
  else if s = bytes "solid" then .solid
  else if s = bytes "dashed" then .dashed
  else if s = bytes "dotted" then .dotted
  else if s = bytes "double" then .double
  else if s = bytes "rounded" then .rounded
  else .solid

def parseCursorStyle (s : Bytes) : CursorStyle :=
  if s = bytes "default" then .default
  else if s = bytes "pointer" then .pointer
  else if s = bytes "text" then .text
  else if s = bytes "move" then .move
  else if s = bytes "not-allowed" then .notAllowed
  else .default

/-- The layers that a rule gives: those of the array, or one layer when the older
members give a blur or a colour. -/
def shadowMember (vars : List Variable) (o : Json) : Option (List ShadowLayer) :=
  match o.getObjectItem (bytes "shadow") with
  | some (.array items) => some ((items.take 4).map fun sh =>
      { offsetX := parseInt sh (bytes "offset_x") 0
        offsetY := parseInt sh (bytes "offset_y") 2
        blur := parseInt sh (bytes "blur") 4
        spread := parseInt sh (bytes "spread") 0
        color := (colorMember vars sh (bytes "color")).getD (rgba 0 0 0 80) })
  | _ =>
      let blur := parseInt o (bytes "shadow_blur") 0
      let color := colorMember vars o (bytes "shadow_color")
      if 0 < blur ∨ color.isSome then
        some [{ offsetX := parseInt o (bytes "shadow_offset_x") 0
                offsetY := parseInt o (bytes "shadow_offset_y") 0
                blur := blur
                spread := parseInt o (bytes "shadow_spread") 0
                color := color.getD 0 }]
      else none

/-- The gradient that a rule gives: an object, or a truth value for two stops that
start from the background. -/
def gradientMember (vars : List Variable) (o : Json) (bgColor : UInt32) : Option Gradient :=
  match o.getObjectItem (bytes "bg_gradient") with
  | some (.object members) =>
      let grad := Json.object members
      let stops := ((grad.getObjectItem (bytes "stops")).map Json.elements).getD []
      some { type := if textMember grad (bytes "type") = some (bytes "radial") then .radial else .linear
             angle := parseFloat grad (bytes "angle") (float 180)
             centerX := parseFloat grad (bytes "center_x") (float (1/2))
             centerY := parseFloat grad (bytes "center_y") (float (1/2))
             stops := (stops.take 8).map fun st =>
               ⟨parseFloat st (bytes "offset") (float 0),(colorMember vars st (bytes "color")).getD 0⟩ }
  | some (.bool true) => some
      { type := .linear
        angle := parseFloat o (bytes "bg_gradient_direction") (float 180)
        centerX := float 0
        centerY := float 0
        stops := [⟨float 0,bgColor⟩,
          ⟨float 1,(colorMember vars o (bytes "bg_gradient_to")).getD 0⟩] }
  | some (.bool false) => some noGradient
  | _ => none

/-- `padding` and `margin`: four numbers, or one for all. -/
def insetsMember (o : Json) (key : Bytes) : Option Insets :=
  match o.getObjectItem key with
  | some (.array (a::b::c::d::_)) => some ⟨a.valueint,b.valueint,c.valueint,d.valueint⟩
  | some (.number d) => some ⟨d.valueint,d.valueint,d.valueint,d.valueint⟩
  | _ => none

def Side.widthKey : Side → Bytes
  | .top => bytes "border_top_width"
  | .bottom => bytes "border_bottom_width"
  | .left => bytes "border_left_width"
  | .right => bytes "border_right_width"

def Side.colorKey : Side → Bytes
  | .top => bytes "border_top_color"
  | .bottom => bytes "border_bottom_color"
  | .left => bytes "border_left_color"
  | .right => bytes "border_right_color"

def Side.styleKey : Side → Bytes
  | .top => bytes "border_top_style"
  | .bottom => bytes "border_bottom_style"
  | .left => bytes "border_left_style"
  | .right => bytes "border_right_style"

def parseWidgetStyle (vars : List Variable) (obj : Json) : WidgetStyle :=
  let s := widgetstyleDefault
  let bgColor := (colorMember vars obj (bytes "bg_color")).getD s.bgColor
  let borderColor := (colorMember vars obj (bytes "border_color")).getD s.borderColor
  { fgColor := (colorMember vars obj (bytes "fg_color")).getD s.fgColor
    bgColor := bgColor
    borderColor := borderColor
    accentColor := (colorMember vars obj (bytes "accent_color")).getD s.accentColor
    borderWidth := parseInt obj (bytes "border_width") s.borderWidth
    borderRadius := parseInt obj (bytes "border_radius") s.borderRadius
    sideWidth := .of fun side => parseInt obj side.widthKey (parseInt obj (bytes "border_width") 1)
    sideColor := .of fun side => (colorMember vars obj side.colorKey).getD borderColor
    sideStyle := .of fun side => ((textMember obj side.styleKey).map parseBorderStyle).getD .solid
    shadows := (shadowMember vars obj).getD s.shadows
    gradient := (gradientMember vars obj bgColor).getD s.gradient
    backdropBlur := parseInt obj (bytes "backdrop_blur") 0
    letterSpacing := parseFloat obj (bytes "letter_spacing") (float 0)
    lineHeight := parseFloat obj (bytes "line_height") (float (6/5))
    textTransform := parseInt obj (bytes "text_transform") 0
    padding := (insetsMember obj (bytes "padding")).getD s.padding
    margin := (insetsMember obj (bytes "margin")).getD s.margin
    minWidth := parseInt obj (bytes "min_width") s.minWidth
    minHeight := parseInt obj (bytes "min_height") s.minHeight
    maxWidth := parseInt obj (bytes "max_width") s.maxWidth
    maxHeight := parseInt obj (bytes "max_height") s.maxHeight
    fontFamily := some (((textMember obj (bytes "font_family")).map (resolveVar vars)).getD
      (bytes "sans"))
    fontSize := parseInt obj (bytes "font_size") s.fontSize
    fontWeight := parseInt obj (bytes "font_weight") s.fontWeight
    fontItalic := parseBool obj (bytes "font_italic") s.fontItalic
    textAlign := ((textMember obj (bytes "text_align")).map parseAlign).getD s.textAlign
    opacity := parseFloat obj (bytes "opacity") s.opacity
    transitionMs := parseInt obj (bytes "transition_ms") s.transitionMs
    cursorStyle := ((textMember obj (bytes "cursor")).map parseCursorStyle).getD s.cursorStyle }

/-! ## Merging -/

def mergeStyle (dst src : WidgetStyle) : WidgetStyle where
  fgColor := if src.fgColor ≠ 0xFF000000 then src.fgColor else dst.fgColor
  bgColor := if src.bgColor ≠ 0 then src.bgColor else dst.bgColor
  borderColor := src.borderColor
  accentColor := src.accentColor
  borderWidth := if src.borderWidth ≠ 1 then src.borderWidth else dst.borderWidth
  borderRadius := if src.borderRadius ≠ 4 then src.borderRadius else dst.borderRadius
  sideWidth := .of fun side =>
    if src.sideWidth.get side ≠ 1 then src.sideWidth.get side else dst.sideWidth.get side
  sideColor := .of fun side =>
    if src.sideColor.get side ≠ 0 then src.sideColor.get side else dst.sideColor.get side
  sideStyle := .of fun side =>
    if src.sideStyle.get side ≠ .solid then src.sideStyle.get side else dst.sideStyle.get side
  padding := if src.padding ≠ ⟨8,12,8,12⟩ then src.padding else dst.padding
  margin := if src.margin ≠ ⟨0,0,0,0⟩ then src.margin else dst.margin
  minWidth := if src.minWidth ≠ 0 then src.minWidth else dst.minWidth
  minHeight := if src.minHeight ≠ 0 then src.minHeight else dst.minHeight
  maxWidth := if src.maxWidth ≠ 99999 then src.maxWidth else dst.maxWidth
  maxHeight := if src.maxHeight ≠ 99999 then src.maxHeight else dst.maxHeight
  fontFamily := if src.fontFamily ≠ none then src.fontFamily else dst.fontFamily
  fontSize := if src.fontSize ≠ 14 then src.fontSize else dst.fontSize
  fontWeight := if src.fontWeight ≠ 400 then src.fontWeight else dst.fontWeight
  fontItalic := if src.fontItalic ≠ false then src.fontItalic else dst.fontItalic
  textAlign := if src.textAlign ≠ .left then src.textAlign else dst.textAlign
  opacity := if src.opacity ≠ float 1 then src.opacity else dst.opacity
  shadows := if src.shadows ≠ [] then src.shadows else dst.shadows
  gradient := if src.gradient.type ≠ .none then src.gradient else dst.gradient
  backdropBlur := if src.backdropBlur ≠ 0 then src.backdropBlur else dst.backdropBlur
  letterSpacing := if src.letterSpacing ≠ float 0 then src.letterSpacing else dst.letterSpacing
  lineHeight := if src.lineHeight ≠ float (6/5) then src.lineHeight else dst.lineHeight
  textTransform := if src.textTransform ≠ 0 then src.textTransform else dst.textTransform
  transitionMs := if src.transitionMs ≠ 150 then src.transitionMs else dst.transitionMs
  cursorStyle := if src.cursorStyle ≠ .default then src.cursorStyle else dst.cursorStyle

/-! ## Rules -/

/-- A class or state that is not given matches everything. -/
structure StyleRule where
  widgetClass : Option Bytes
  childClass : Option Bytes
  state : Option Bytes
  style : WidgetStyle
  deriving DecidableEq, Repr

/-- `class child:state`; the state starts at the first colon. -/
def parseSelector (selector : Bytes) (style : WidgetStyle) : StyleRule :=
  let (widget,state) := match splitAt 58 selector with
    | some p => (p.1,some p.2)
    | none => (selector,none)
  match splitAt 32 widget with
  | some p => ⟨some p.1,some p.2,state,style⟩
  | none => ⟨some widget,none,state,style⟩

/-- The rule of one member of `widgets`. -/
def parseRule (vars : List Variable) (member : Bytes × Json) : StyleRule :=
  parseSelector member.1 (parseWidgetStyle vars member.2)

/-- Each rule is put in front of the ones before it. -/
def parseStyleRules (vars : List Variable) : Json → List StyleRule
  | .object members => members.foldl (fun head member => parseRule vars member::head) []
  | _ => []

def StyleRule.Matches (rule : StyleRule) (widgetClass : Bytes) (childClass state : Option Bytes) : Prop :=
  (rule.widgetClass = none ∨ rule.widgetClass = some widgetClass) ∧
    (rule.childClass = none ∨ rule.childClass = childClass) ∧
    (rule.state = none ∨ rule.state = state)

instance (rule : StyleRule) (widgetClass : Bytes) (childClass state : Option Bytes) :
    Decidable (rule.Matches widgetClass childClass state) :=
  inferInstanceAs (Decidable (_ ∧ _ ∧ _))

def themeResolve (rules : List StyleRule) (widgetClass : Bytes) (childClass state : Option Bytes) :
    WidgetStyle :=
  rules.foldl (fun result rule =>
    if rule.Matches widgetClass childClass state then mergeStyle result rule.style else result)
    widgetstyleDefault

/-! ## One file -/

structure Theme where
  name : Bytes
  vars : List Variable
  rules : List StyleRule
  deriving DecidableEq, Repr

/-- The variables of a file; one that is no text is empty. -/
def fileVars (root : Json) : List Variable :=
  match root.getObjectItem (bytes "variables") with
  | some (.object members) => members.map fun m => ⟨m.1,m.2.valuestring.getD []⟩
  | _ => []

/-- The members of `widgets`, in the order of the file. -/
def fileWidgets (root : Json) : List (Bytes × Json) :=
  match root.getObjectItem (bytes "widgets") with
  | some (.object members) => members
  | _ => []

/-- What `theme_load` reads from a file itself. -/
def fileTheme (root : Json) : Theme where
  name := (textMember root (bytes "name")).getD (bytes "unnamed")
  vars := fileVars root
  rules := ((root.getObjectItem (bytes "widgets")).map (parseStyleRules (fileVars root))).getD []

end Filly.Themes
