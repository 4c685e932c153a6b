import Filly.ThemeStyle

/-!
# The cascade of a theme file

Each property of a style is looked at on its own. A rule specifies a property when
it has a member for it (a side of the border also takes the member for the whole
border). A rule tells a property when the value it was parsed to, given or not, is
not the one that `merge_style` takes for "not given". Since the rules are kept in
reverse, the first rule of the file that tells a property decides it, and not the
last one that specifies it.
-/
namespace Filly.Themes
open CJson

/-! ## Overlaying values -/

section Overlay
variable {α : Type*} (tells : α → Bool)

/-- The values are laid over each other; one that does not tell is passed over. -/
def overlay (v : α) (vs : List α) : α := vs.foldl (fun v w => if tells w then w else v) v

theorem overlay_append (v : α) (vs ws : List α) :
    overlay tells v (vs++ws) = overlay tells (overlay tells v vs) ws :=
  List.foldl_append

/-- The last value that tells is on top. -/
theorem overlay_eq (v : α) (vs : List α) : overlay tells v vs = (vs.reverse.find? tells).getD v := by
  induction vs generalizing v with
  | nil => rfl
  | cons w vs ih =>
      rw [overlay,List.foldl_cons,← overlay,ih,List.reverse_cons,List.find?_append]
      cases vs.reverse.find? tells with
      | some u => rfl
      | none => cases h : tells w <;> simp [h]

end Overlay

/-! ## Properties -/

inductive Property where
  | fgColor | bgColor | borderColor | accentColor | borderWidth | borderRadius
  | sideWidth (side : Side) | sideColor (side : Side) | sideStyle (side : Side)
  | padding | margin | minWidth | minHeight | maxWidth | maxHeight
  | fontFamily | fontSize | fontWeight | fontItalic | textAlign | opacity
  | shadows | gradient | backdropBlur | letterSpacing | lineHeight | textTransform
  | transitionMs | cursorStyle
  deriving DecidableEq, Repr

abbrev Property.Value : Property → Type
  | .fgColor | .bgColor | .borderColor | .accentColor | .sideColor _ => UInt32
  | .borderWidth | .borderRadius | .sideWidth _ | .minWidth | .minHeight | .maxWidth | .maxHeight
  | .fontSize | .fontWeight | .backdropBlur | .textTransform | .transitionMs => ℤ
  | .sideStyle _ => BorderStyle
  | .padding | .margin => Insets
  | .fontFamily => Option Bytes
  | .fontItalic => Bool
  | .textAlign => Alignment
  | .opacity | .letterSpacing | .lineHeight => Amount
  | .shadows => List ShadowLayer
  | .gradient => Gradient
  | .cursorStyle => CursorStyle

def WidgetStyle.get (s : WidgetStyle) : (p : Property) → p.Value
  | .fgColor => s.fgColor
  | .bgColor => s.bgColor
  | .borderColor => s.borderColor
  | .accentColor => s.accentColor
  | .borderWidth => s.borderWidth
  | .borderRadius => s.borderRadius
  | .sideWidth side => s.sideWidth.get side
  | .sideColor side => s.sideColor.get side
  | .sideStyle side => s.sideStyle.get side
  | .padding => s.padding
  | .margin => s.margin
  | .minWidth => s.minWidth
  | .minHeight => s.minHeight
  | .maxWidth => s.maxWidth
  | .maxHeight => s.maxHeight
  | .fontFamily => s.fontFamily
  | .fontSize => s.fontSize
  | .fontWeight => s.fontWeight
  | .fontItalic => s.fontItalic
  | .textAlign => s.textAlign
  | .opacity => s.opacity
  | .shadows => s.shadows
  | .gradient => s.gradient
  | .backdropBlur => s.backdropBlur
  | .letterSpacing => s.letterSpacing
  | .lineHeight => s.lineHeight
  | .textTransform => s.textTransform
  | .transitionMs => s.transitionMs
  | .cursorStyle => s.cursorStyle

/-- A value that `merge_style` copies. -/
def tells : (p : Property) → p.Value → Bool
  | .fgColor, v => v ≠ (0xFF000000 : UInt32)
  | .bgColor, v => v ≠ (0 : UInt32)
  | .borderColor, _ => true
  | .accentColor, _ => true
  | .borderWidth, v => v ≠ (1 : ℤ)
  | .borderRadius, v => v ≠ (4 : ℤ)
  | .sideWidth _, v => v ≠ (1 : ℤ)
  | .sideColor _, v => v ≠ (0 : UInt32)
  | .sideStyle _, v => v ≠ BorderStyle.solid
  | .padding, v => v ≠ Insets.mk 8 12 8 12
  | .margin, v => v ≠ Insets.mk 0 0 0 0
  | .minWidth, v => v ≠ (0 : ℤ)
  | .minHeight, v => v ≠ (0 : ℤ)
  | .maxWidth, v => v ≠ (99999 : ℤ)
  | .maxHeight, v => v ≠ (99999 : ℤ)
  | .fontFamily, v => v ≠ (none : Option Bytes)
  | .fontSize, v => v ≠ (14 : ℤ)
  | .fontWeight, v => v ≠ (400 : ℤ)
  | .fontItalic, v => v ≠ false
  | .textAlign, v => v ≠ Alignment.left
  | .opacity, v => v ≠ float 1
  | .shadows, v => v ≠ ([] : List ShadowLayer)
  | .gradient, v => v.type ≠ .none
  | .backdropBlur, v => v ≠ (0 : ℤ)
  | .letterSpacing, v => v ≠ float 0
  | .lineHeight, v => v ≠ float (6/5)
  | .textTransform, v => v ≠ (0 : ℤ)
  | .transitionMs, v => v ≠ (150 : ℤ)
  | .cursorStyle, v => v ≠ CursorStyle.default

theorem ite_decide {α : Type*} (P : Prop) [Decidable P] (x y : α) :
    (if P then x else y) = if decide P = true then x else y := by
  by_cases h : P <;> simp [h]

theorem get_mergeStyle (dst src : WidgetStyle) (p : Property) :
    (mergeStyle dst src).get p = if tells p (src.get p) then src.get p else dst.get p := by
  cases p with
  | borderColor => rfl
  | accentColor => rfl
  | sideWidth side => exact (Sides.get_of _ side).trans (ite_decide _ _ _)
  | sideColor side => exact (Sides.get_of _ side).trans (ite_decide _ _ _)
  | sideStyle side => exact (Sides.get_of _ side).trans (ite_decide _ _ _)
  | _ => exact ite_decide _ _ _

/-! ## What a rule specifies -/

/-- The value that the rule of a file gives for a property. -/
def specified (vars : List Variable) (obj : Json) : (p : Property) → Option p.Value
  | .fgColor => colorMember vars obj (bytes "fg_color")
  | .bgColor => colorMember vars obj (bytes "bg_color")
  | .borderColor => colorMember vars obj (bytes "border_color")
  | .accentColor => colorMember vars obj (bytes "accent_color")
  | .borderWidth => intMember obj (bytes "border_width")
  | .borderRadius => intMember obj (bytes "border_radius")
  | .sideWidth side => (intMember obj side.widthKey).or (intMember obj (bytes "border_width"))
  | .sideColor side =>
      (colorMember vars obj side.colorKey).or (colorMember vars obj (bytes "border_color"))
  | .sideStyle side => (textMember obj side.styleKey).map parseBorderStyle
  | .padding => insetsMember obj (bytes "padding")
  | .margin => insetsMember obj (bytes "margin")
  | .minWidth => intMember obj (bytes "min_width")
  | .minHeight => intMember obj (bytes "min_height")
  | .maxWidth => intMember obj (bytes "max_width")
  | .maxHeight => intMember obj (bytes "max_height")
  | .fontFamily => (textMember obj (bytes "font_family")).map fun v => some (resolveVar vars v)
  | .fontSize => intMember obj (bytes "font_size")
  | .fontWeight => intMember obj (bytes "font_weight")
  | .fontItalic => boolMember obj (bytes "font_italic")
  | .textAlign => (textMember obj (bytes "text_align")).map parseAlign
  | .opacity => floatMember obj (bytes "opacity")
  | .shadows => shadowMember vars obj
  | .gradient => gradientMember vars obj
      ((colorMember vars obj (bytes "bg_color")).getD widgetstyleDefault.bgColor)
  | .backdropBlur => intMember obj (bytes "backdrop_blur")
  | .letterSpacing => floatMember obj (bytes "letter_spacing")
  | .lineHeight => floatMember obj (bytes "line_height")
  | .textTransform => intMember obj (bytes "text_transform")
  | .transitionMs => intMember obj (bytes "transition_ms")
  | .cursorStyle => (textMember obj (bytes "cursor")).map parseCursorStyle

/-- The value a property is parsed to when a rule does not give it. -/
def assumed : (p : Property) → p.Value
  | .sideWidth _ => (1 : ℤ)
  | .sideColor _ => widgetstyleDefault.borderColor
  | .fontFamily => some (bytes "sans")
  | p => widgetstyleDefault.get p

theorem get_parseWidgetStyle (vars : List Variable) (obj : Json) (p : Property) :
    (parseWidgetStyle vars obj).get p = (specified vars obj p).getD (assumed p) := by
  cases p with
  | sideWidth side =>
      refine (Sides.get_of _ side).trans ?_
      simp only [parseInt,specified,assumed]
      cases intMember obj side.widthKey <;> rfl
  | sideColor side =>
      refine (Sides.get_of _ side).trans ?_
      simp only [specified,assumed]
      cases colorMember vars obj side.colorKey <;> rfl
  | sideStyle side => 
      refine (Sides.get_of _ side).trans ?_
      cases side <;> rfl
  | fontFamily =>
      simp only [specified,assumed,parseWidgetStyle,WidgetStyle.get]
      cases textMember obj (bytes "font_family") <;> rfl
  | _ => rfl

/-! ## Resolving a property -/

/-- The rules that match, in the order of the list. -/
def matching (rules : List StyleRule) (widgetClass : Bytes) (childClass state : Option Bytes) :
    List StyleRule :=
  rules.filter fun rule => decide (rule.Matches widgetClass childClass state)

theorem get_themeResolve (rules : List StyleRule) (widgetClass : Bytes)
    (childClass state : Option Bytes) (p : Property) :
    (themeResolve rules widgetClass childClass state).get p =
      overlay (tells p) (widgetstyleDefault.get p)
        ((matching rules widgetClass childClass state).map (·.style.get p)) := by
  unfold themeResolve
  generalize widgetstyleDefault = s
  induction rules generalizing s with
  | nil => rfl
  | cons rule rules ih =>
      rw [List.foldl_cons,ih]
      by_cases h : rule.Matches widgetClass childClass state
      · simp [matching,h,overlay,get_mergeStyle]
      · simp [matching,h]

theorem style_parseSelector (selector : Bytes) (style : WidgetStyle) :
    (parseSelector selector style).style = style := by
  unfold parseSelector
  split
  split <;> rfl

theorem rules_fileTheme (root : Json) :
    (fileTheme root).rules = ((fileWidgets root).map (parseRule (fileVars root))).reverse := by
  unfold fileTheme fileWidgets
  cases root.getObjectItem (bytes "widgets") with
  | none => rfl
  | some widgets =>
      cases widgets with
      | object members => simp [parseStyleRules]
      | _ => rfl

/-- What the rules of a file that match say about a property, in the order of the
file. -/
def given (root : Json) (widgetClass : Bytes) (childClass state : Option Bytes) (p : Property) :
    List (Option p.Value) :=
  ((fileWidgets root).filter fun m =>
      decide ((parseRule (fileVars root) m).Matches widgetClass childClass state)).map
    fun m => specified (fileVars root) m.2 p

theorem get_resolve_fileTheme (root : Json) (widgetClass : Bytes) (childClass state : Option Bytes)
    (p : Property) :
    (themeResolve (fileTheme root).rules widgetClass childClass state).get p =
      (((given root widgetClass childClass state p).map (·.getD (assumed p))).find?
        (tells p)).getD (widgetstyleDefault.get p) := by
  have hstyle (m : Bytes × Json) : (parseRule (fileVars root) m).style.get p =
      (specified (fileVars root) m.2 p).getD (assumed p) := by
    rw [← get_parseWidgetStyle,parseRule,style_parseSelector]
  have hlist : (matching (fileTheme root).rules widgetClass childClass state).map (·.style.get p) =
      ((given root widgetClass childClass state p).map (·.getD (assumed p))).reverse := by
    rw [rules_fileTheme,matching,List.filter_reverse,List.map_reverse,List.filter_map,List.map_map,
      given,List.map_map]
    congr 1
    apply List.map_congr_left
    intro m _
    exact hstyle m
  rw [get_themeResolve,overlay_eq,hlist,List.reverse_reverse]

/-- The first rule that tells the property has the value of the last one that
specifies it; where there is no such rule, the default stands for it. -/
def FirstIsLast (p : Property) (vs : List (Option p.Value)) : Prop :=
  match (vs.map (·.getD (assumed p))).find? (tells p), vs.reduceOption.getLast? with
  | some first, some last => first = last
  | some first, none => first = widgetstyleDefault.get p
  | none, some last => last = widgetstyleDefault.get p
  | none, none => True

/-- A property has the value of the last rule that matches and specifies it exactly
when the first rule that tells it has that value. -/
theorem resolve_last_iff (root : Json) (widgetClass : Bytes) (childClass state : Option Bytes)
    (p : Property) :
    (themeResolve (fileTheme root).rules widgetClass childClass state).get p =
        ((given root widgetClass childClass state p).reduceOption.getLast?).getD
          (widgetstyleDefault.get p) ↔
      FirstIsLast p (given root widgetClass childClass state p) := by
  rw [get_resolve_fileTheme,FirstIsLast]
  cases ((given root widgetClass childClass state p).map (·.getD (assumed p))).find? (tells p) with
  | none =>
      cases (given root widgetClass childClass state p).reduceOption.getLast? with
      | none => simp
      | some last => exact eq_comm
  | some first =>
      cases (given root widgetClass childClass state p).reduceOption.getLast? with
      | none => exact Iff.rfl
      | some last => exact Iff.rfl

/-- A file whose second rule is for buttons under the pointer. -/
def hoverFile : Json :=
  .object [(bytes "widgets",.object [
    (bytes "button",.object [(bytes "font_size",.ofInt 20)]),
    (bytes "button:hover",.object [(bytes "font_size",.ofInt 30)])])]

theorem earlier_rule_wins :
    ¬∀ (root : Json) (widgetClass : Bytes) (childClass state : Option Bytes) (p : Property),
      (themeResolve (fileTheme root).rules widgetClass childClass state).get p =
        ((given root widgetClass childClass state p).reduceOption.getLast?).getD
          (widgetstyleDefault.get p) := by
  intro h
  have hcode : (themeResolve (fileTheme hoverFile).rules (bytes "button") none
      (some (bytes "hover"))).fontSize = 20 := by decide +kernel
  have hlast : ((given hoverFile (bytes "button") none (some (bytes "hover"))
      .fontSize).reduceOption.getLast?).getD widgetstyleDefault.fontSize = (30 : ℤ) := by
    decide +kernel
  have hsize := h hoverFile (bytes "button") none (some (bytes "hover")) .fontSize
  exact absurd ((hcode.symm.trans hsize).trans hlast) (by decide)

end Filly.Themes
