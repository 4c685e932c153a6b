import Filly.FilLexer
import Filly.Runs
import Filly.ThemeVariables

/-!
# Layers over a theme

Overrides for an application, a user or an accessibility profile are appended to
the rules of the base theme, FIL styles are put in front of them, and the themes of
plugins are chained behind the base where `theme_resolve` does not look. Loading a
theme fills the shared registry of animations and freeing one clears it.

`base` and `applied` record what the base theme and each layer define. The source
does not keep them.
-/
namespace Filly.Themes
open CJson Fil Runs

/-! ## FIL styles -/

/-- A style that was only cleared. -/
def zeroStyle : WidgetStyle where
  fgColor := 0
  bgColor := 0
  borderColor := 0
  accentColor := 0
  borderWidth := 0
  borderRadius := 0
  sideWidth := .of fun _ => 0
  sideColor := .of fun _ => 0
  sideStyle := .of fun _ => .none
  padding := ⟨0,0,0,0⟩
  margin := ⟨0,0,0,0⟩
  minWidth := 0
  minHeight := 0
  maxWidth := 0
  maxHeight := 0
  fontFamily := none
  fontSize := 0
  fontWeight := 0
  fontItalic := false
  textAlign := .left
  opacity := float 0
  shadows := []
  gradient := noGradient
  backdropBlur := 0
  letterSpacing := float 0
  lineHeight := float 0
  textTransform := 0
  transitionMs := 0
  cursorStyle := .default

def filStyle (prop value : Bytes) : WidgetStyle :=
  let s := widgetstyleDefault
  if prop = bytes "bg" then { s with bgColor := parseColor (some value) }
  else if prop = bytes "fg" then { s with fgColor := parseColor (some value) }
  else if prop = bytes "accent" then { s with accentColor := parseColor (some value) }
  else if prop = bytes "border-radius" then { s with borderRadius := atoi value }
  else if prop = bytes "font-size" then { s with fontSize := atoi value }
  else s

/-- A rule, and the style it would have if it set nothing. -/
structure LayerRule where
  rule : StyleRule
  plain : WidgetStyle
  deriving DecidableEq, Repr

/-- An entry `widget|child|property|value`; with fewer bars the rest of the rule is
left cleared. -/
def filRule (entry : Bytes) : LayerRule :=
  match splitAt 124 entry with
  | none => ⟨⟨none,none,none,zeroStyle⟩,zeroStyle⟩
  | some w => match splitAt 124 w.2 with
    | none => ⟨⟨some w.1,none,none,zeroStyle⟩,zeroStyle⟩
    | some c =>
        let child := if c.1 = [] then none else some c.1
        match splitAt 124 c.2 with
        | none => ⟨⟨some w.1,child,none,zeroStyle⟩,zeroStyle⟩
        | some p => ⟨⟨some w.1,child,none,filStyle p.1 p.2⟩,widgetstyleDefault⟩

/-- Each entry is put in front. -/
def themeApplyFilStyles (t : Theme) (styles : List Bytes) : Theme :=
  { t with rules := styles.foldl (fun rules entry => (filRule entry).rule::rules) t.rules }

/-! ## Files -/

def isThemeName (name : Bytes) : Bool := 5 < name.length && (bytes ".json").isSuffixOf name

/-- `theme_load_directory`: the themes of a directory, in the order in which its
entries are read. -/
def themeLoadDirectory (files : Files) (bound : ℕ) (dir : Bytes) (entries : List Bytes)
    (registry : Registry) : Option (List Theme × Registry) :=
  (entries.filter isThemeName).foldlM (fun s name =>
    (themeLoad files bound ((dir++47::name).take 2047) s.2).map fun r => (s.1++r.1.toList,r.2))
    ([],registry)

def userOverridePath (home : Bytes) : Bytes :=
  (home++bytes "/.config/filly/theme-override.json").take 1023

def accessibilityPath (profile : Bytes) : Bytes :=
  (bytes "themes/"++profile++bytes ".json").take 1023

/-! ## Steps -/

/-- What a layer brings: its rules in the order in which they are merged, and its
animations. -/
structure Layer where
  rules : List LayerRule
  animations : Registry
  deriving DecidableEq, Repr

structure Layered where
  theme : Theme
  plugins : List Theme
  registry : Registry
  base : Registry
  applied : List Layer
  deriving DecidableEq, Repr

inductive LayerOp where
  | app (path : Option Bytes)
  | user (home : Option Bytes)
  | accessibility (profile : Option Bytes)
  | plugins (dir : Bytes) (entries : List Bytes)
  | fil (styles : List Bytes)
  deriving DecidableEq, Repr

/-- The rules of a file set what differs from a rule without members. -/
def fileLayer (rules : List StyleRule) (animations : Registry) : Layer :=
  ⟨rules.map fun rule => ⟨rule,parseWidgetStyle [] (.object [])⟩,animations⟩

/-- The layer of an override that can be loaded. -/
def overrideLayer (files : Files) (bound : ℕ) (registry : Registry) (path : Bytes) : Option Layer :=
  (themeLoad files bound path registry).bind fun r =>
    r.1.map fun t => fileLayer t.rules (r.2.drop registry.length)

def pluginLayer (files : Files) (bound : ℕ) (registry : Registry) (dir : Bytes)
    (entries : List Bytes) : Option Layer :=
  (themeLoadDirectory files bound dir entries registry).map fun r =>
    fileLayer (r.1.flatMap Theme.rules) (r.2.drop registry.length)

def filLayer (styles : List Bytes) : Layer := ⟨(styles.map filRule).reverse,[]⟩

/-- A load that does not end within the bound leaves everything as it was. -/
def Layered.override (files : Files) (bound : ℕ) (s : Layered) (path : Bytes) : Layered :=
  match mergeOverride files bound (s.theme,s.registry) path with
  | none => s
  | some r => { s with
      theme := r.1
      registry := r.2
      applied := s.applied++(overrideLayer files bound s.registry path).toList }

/-- `theme_add_plugin_overrides`. -/
def Layered.addPlugins (files : Files) (bound : ℕ) (s : Layered) (dir : Bytes)
    (entries : List Bytes) : Layered :=
  match themeLoadDirectory files bound dir entries s.registry with
  | none => s
  | some r => { s with
      plugins := s.plugins++r.1
      registry := r.2
      applied := s.applied++(pluginLayer files bound s.registry dir entries).toList }

/-- The file of an override; a null argument or an unset home does nothing. -/
def LayerOp.file : LayerOp → Option Bytes
  | .app path => path
  | .user home => home.map userOverridePath
  | .accessibility profile => profile.map accessibilityPath
  | _ => none

def layerStep (files : Files) (bound : ℕ) (s : Layered) : LayerOp → Layered
  | .plugins dir entries => s.addPlugins files bound dir entries
  | .fil styles => { s with
      theme := themeApplyFilStyles s.theme styles
      applied := s.applied++[filLayer styles] }
  | op => match op.file with
    | none => s
    | some path => s.override files bound path

def layeredStart (theme : Theme) (registry : Registry) : Layered := ⟨theme,[],registry,registry,[]⟩

/-! ## What layers set -/

instance Property.decidableEqValue : (p : Property) → DecidableEq p.Value
  | .fgColor | .bgColor | .borderColor | .accentColor | .sideColor _ =>
      inferInstanceAs (DecidableEq UInt32)
  | .borderWidth | .borderRadius | .sideWidth _ | .minWidth | .minHeight | .maxWidth | .maxHeight
  | .fontSize | .fontWeight | .backdropBlur | .textTransform | .transitionMs =>
      inferInstanceAs (DecidableEq ℤ)
  | .sideStyle _ => inferInstanceAs (DecidableEq BorderStyle)
  | .padding | .margin => inferInstanceAs (DecidableEq Insets)
  | .fontFamily => inferInstanceAs (DecidableEq (Option Bytes))
  | .fontItalic => inferInstanceAs (DecidableEq Bool)
  | .textAlign => inferInstanceAs (DecidableEq Alignment)
  | .opacity | .letterSpacing | .lineHeight => inferInstanceAs (DecidableEq Amount)
  | .shadows => inferInstanceAs (DecidableEq (List ShadowLayer))
  | .gradient => inferInstanceAs (DecidableEq Gradient)
  | .cursorStyle => inferInstanceAs (DecidableEq CursorStyle)

/-- A property of a widget, and the name of an animation. -/
structure Query where
  widgetClass : Bytes
  childClass : Option Bytes
  state : Option Bytes
  property : Property
  animation : Bytes
  deriving DecidableEq, Repr

variable (q : Query)

def Query.matching (rules : List StyleRule) : List StyleRule :=
  Themes.matching rules q.widgetClass q.childClass q.state

def Query.resolve (t : Theme) : q.property.Value :=
  (themeResolve t.rules q.widgetClass q.childClass q.state).get q.property

/-- The rules of a layer that match. -/
def Layer.matching (l : Layer) : List LayerRule :=
  l.rules.filter fun r => decide (r.rule.Matches q.widgetClass q.childClass q.state)

/-- The value a layer sets the property to: that of the last rule, in the order of
merging, which differs from a rule that sets nothing. -/
def Layer.value (l : Layer) : Option q.property.Value :=
  ((l.matching q).reverse.find? fun r =>
    decide (r.rule.style.get q.property ≠ r.plain.get q.property)).map
      (·.rule.style.get q.property)

/-- The value that merging the rules of a layer leaves, if it changes the property. -/
def Layer.told (l : Layer) : Option q.property.Value :=
  ((l.matching q).map (·.rule.style.get q.property)).reverse.find? (tells q.property)

/-- The value set by the last layer that sets the property. -/
def Layered.wanted (s : Layered) : Option q.property.Value :=
  s.applied.reverse.findSome? (·.value q)

/-- The definition of the last layer, or else of the base, that has the animation. -/
def Layered.wantedAnimation (s : Layered) : Option AnimationDef :=
  (s.applied.reverse.findSome? fun l => animationRegistryLookup l.animations q.animation).or
    (animationRegistryLookup s.base q.animation)

/-- The theme gives what the layers set, and the registry what they define. -/
def Right (s : Layered) : Prop :=
  (∀ v ∈ s.wanted q, q.resolve s.theme = v) ∧
    ∀ d ∈ s.wantedAnimation q, animationRegistryLookup s.registry q.animation = some d

/-- The layer of an override sets what it tells, and there is no such animation to be
lost. -/
def PlainOverride (registry : Registry) (l : Layer) : Prop :=
  l.told q = l.value q ∧ animationRegistryLookup l.animations q.animation = none ∧
    animationRegistryLookup registry q.animation = none

/-- The layer of plugins does not set the property, and only one of the layer and the
registry has the animation. -/
def PlainPlugins (registry : Registry) (l : Layer) : Prop :=
  l.value q = none ∧ (animationRegistryLookup l.animations q.animation = none ∨
    animationRegistryLookup registry q.animation = none)

/-- FIL styles set the property only where no rule of the theme tells it. -/
def PlainFil (t : Theme) (l : Layer) : Prop :=
  if ((q.matching t.rules).map (·.style.get q.property)).any (tells q.property) then
    l.value q = none
  else (l.told q).getD (widgetstyleDefault.get q.property) =
    (l.value q).getD (widgetstyleDefault.get q.property)

/-- The condition on the next layer. A file that cannot be loaded is no layer. -/
def Undisturbed (files : Files) (bound : ℕ) (s : Layered) : LayerOp → Prop
  | .plugins dir entries =>
      ∀ l ∈ pluginLayer files bound s.registry dir entries, PlainPlugins q s.registry l
  | .fil styles => PlainFil q s.theme (filLayer styles)
  | op => ∀ path ∈ op.file, ∀ l ∈ overrideLayer files bound s.registry path,
      PlainOverride q s.registry l

instance (registry : Registry) (l : Layer) : Decidable (PlainOverride q registry l) :=
  inferInstanceAs (Decidable (_ ∧ _ ∧ _))

instance (registry : Registry) (l : Layer) : Decidable (PlainPlugins q registry l) :=
  inferInstanceAs (Decidable (_ ∧ (_ ∨ _)))

instance (t : Theme) (l : Layer) : Decidable (PlainFil q t l) :=
  inferInstanceAs (Decidable (if ((q.matching t.rules).map (·.style.get q.property)).any
      (tells q.property) then l.value q = none
    else (l.told q).getD (widgetstyleDefault.get q.property) =
      (l.value q).getD (widgetstyleDefault.get q.property)))

instance (files : Files) (bound : ℕ) (s : Layered) :
    (op : LayerOp) → Decidable (Undisturbed q files bound s op)
  | .plugins dir entries => inferInstanceAs (Decidable
      (∀ l ∈ pluginLayer files bound s.registry dir entries, PlainPlugins q s.registry l))
  | .fil styles => inferInstanceAs (Decidable (PlainFil q s.theme (filLayer styles)))
  | .app path => inferInstanceAs (Decidable (∀ p ∈ (LayerOp.app path).file,
      ∀ l ∈ overrideLayer files bound s.registry p, PlainOverride q s.registry l))
  | .user home => inferInstanceAs (Decidable (∀ p ∈ (LayerOp.user home).file,
      ∀ l ∈ overrideLayer files bound s.registry p, PlainOverride q s.registry l))
  | .accessibility profile => inferInstanceAs (Decidable (∀ p ∈ (LayerOp.accessibility profile).file,
      ∀ l ∈ overrideLayer files bound s.registry p, PlainOverride q s.registry l))

variable {q}

/-! ## The registry -/

/-- A load only adds to the registry. -/
theorem prefix_themeLoad {files : Files} {bound : ℕ} {path : Bytes} {registry : Registry}
    {r : Option Theme × Registry} (h : themeLoad files bound path registry = some r) :
    registry <+: r.2 := by
  have hown (registry : Registry) (defs : List AnimationDef) :
      defs.foldl animationRegistryRegister registry = registry++defs := by
    induction defs generalizing registry with
    | nil => simp
    | cons d defs ih => rw [List.foldl_cons,ih,animationRegistryRegister]; simp
  induction bound generalizing path registry r with
  | zero => cases h
  | succ bound ih =>
      rw [themeLoad] at h
      cases hroot : fileRoot files path with
      | none =>
          rw [hroot] at h
          cases h
          exact List.prefix_rfl
      | some root =>
          rw [hroot] at h
          obtain ⟨s,hs,rfl⟩ := Option.map_eq_some_iff.mp h
          have hloop (bases : List Bytes) (s s' : Theme × Registry)
              (hs : bases.foldlM (loadBase (themeLoad files bound)) s = some s') : s.2 <+: s'.2 := by
            induction bases generalizing s with
            | nil => cases hs; exact List.prefix_rfl
            | cons base bases ihb =>
                rw [List.foldlM_cons] at hs
                obtain ⟨s₁,hs₁,hs⟩ := Option.bind_eq_some_iff.mp hs
                obtain ⟨b,hb,rfl⟩ := Option.map_eq_some_iff.mp hs₁
                exact (ih hb).trans (ihb _ hs)
          refine List.IsPrefix.trans ?_ (hloop _ _ s hs)
          rw [animationRegistryLoadFromTheme,hown]
          exact List.prefix_append _ _

theorem prefix_themeLoadDirectory {files : Files} {bound : ℕ} {dir : Bytes} {entries : List Bytes}
    {registry : Registry} {r : List Theme × Registry}
    (h : themeLoadDirectory files bound dir entries registry = some r) : registry <+: r.2 := by
  unfold themeLoadDirectory at h
  generalize entries.filter isThemeName = names at h
  generalize ([] : List Theme) = themes at h
  induction names generalizing themes registry with
  | nil => cases h; exact List.prefix_rfl
  | cons name names ih =>
      rw [List.foldlM_cons] at h
      obtain ⟨s₁,hs₁,h⟩ := Option.bind_eq_some_iff.mp h
      obtain ⟨b,hb,rfl⟩ := Option.map_eq_some_iff.mp hs₁
      exact (prefix_themeLoad hb).trans (ih _ h)

theorem lookup_of_isPrefix {registry whole : Registry} (h : registry <+: whole) (name : Bytes) :
    animationRegistryLookup whole name = (animationRegistryLookup registry name).or
      (animationRegistryLookup (whole.drop registry.length) name) := by
  obtain ⟨rest,rfl⟩ := h
  rw [List.drop_left]
  exact List.find?_append

/-! ## Steps -/

theorem findSome_concat {β : Type} (f : Layer → Option β) (layers : List Layer) (l : Layer) :
    (layers++[l]).reverse.findSome? f = (f l).or (layers.reverse.findSome? f) := by
  rw [List.reverse_append,List.reverse_singleton,List.singleton_append,List.findSome?_cons]
  cases f l <;> rfl

theorem Query.resolve_eq (t : Theme) : q.resolve t =
    overlay (tells q.property) (widgetstyleDefault.get q.property)
      ((q.matching t.rules).map (·.style.get q.property)) :=
  get_themeResolve _ _ _ _ _

/-- Rules behind those of a theme decide what they tell. -/
theorem resolve_append (t : Theme) (rules : List StyleRule) (animations : Registry) (t' : Theme)
    (h : t'.rules = t.rules++rules) :
    q.resolve t' = ((fileLayer rules animations).told q).getD (q.resolve t) := by
  have hvalues : ((fileLayer rules animations).matching q).map (·.rule.style.get q.property) =
      (q.matching rules).map (·.style.get q.property) := by
    rw [Layer.matching,fileLayer,List.filter_map,List.map_map]
    rfl
  rw [Query.resolve_eq,Query.resolve_eq,h,Query.matching,matching,List.filter_append,
    List.map_append,overlay_append,overlay_eq,Layer.told,hvalues]
  rfl

theorem right_override (files : Files) (bound : ℕ) {s : Layered} {path : Bytes} (h : Right q s)
    (hplain : ∀ l ∈ overrideLayer files bound s.registry path, PlainOverride q s.registry l) :
    Right q (s.override files bound path) := by
  unfold Layered.override mergeOverride
  unfold overrideLayer at hplain ⊢
  cases hload : themeLoad files bound path s.registry with
  | none => exact h
  | some r =>
      obtain ⟨theme,registry⟩ := r
      have hprefix : s.registry <+: registry := prefix_themeLoad hload
      cases theme with
      | none =>
          -- Nothing was loaded, so nothing was registered that could hide a definition.
          simp only [Option.map_some,Option.bind_some,Option.map_none,Option.toList_none,
            List.append_nil]
          refine ⟨h.1,fun d hd => ?_⟩
          have hd := h.2 d hd
          rw [lookup_of_isPrefix hprefix,hd]
          rfl
      | some t =>
          rw [hload] at hplain
          obtain ⟨htold,hnone,hreg⟩ := hplain _ rfl
          simp only [Option.map_some,Option.bind_some,Option.toList_some]
          constructor
          · intro v hv
            rw [Layered.wanted,findSome_concat,← htold] at hv
            rw [resolve_append s.theme t.rules (registry.drop s.registry.length) _ rfl]
            cases hvalue : (fileLayer t.rules (registry.drop s.registry.length)).told q with
            | some w =>
                rw [hvalue] at hv
                exact Option.some.inj hv
            | none =>
                rw [hvalue] at hv
                exact h.1 v hv
          · intro d hd
            rw [Layered.wantedAnimation,findSome_concat,hnone,Option.none_or] at hd
            have hd := h.2 d hd
            rw [hreg] at hd
            cases hd

theorem right_addPlugins (files : Files) (bound : ℕ) {s : Layered} {dir : Bytes}
    {entries : List Bytes} (h : Right q s)
    (hplain : ∀ l ∈ pluginLayer files bound s.registry dir entries, PlainPlugins q s.registry l) :
    Right q (s.addPlugins files bound dir entries) := by
  unfold Layered.addPlugins
  unfold pluginLayer at hplain ⊢
  cases hload : themeLoadDirectory files bound dir entries s.registry with
  | none => exact h
  | some r =>
      rw [hload] at hplain
      obtain ⟨hvalue,hanim⟩ := hplain _ rfl
      simp only [Option.map_some,Option.toList_some]
      constructor
      · intro v hv
        rw [Layered.wanted,findSome_concat,hvalue] at hv
        exact h.1 v hv
      · intro d hd
        rw [Layered.wantedAnimation,findSome_concat,Option.or_assoc] at hd
        simp only
        rw [lookup_of_isPrefix (prefix_themeLoadDirectory hload)]
        obtain hnone | hreg := hanim
        · rw [hnone,Option.none_or] at hd
          rw [h.2 d hd]
          rfl
        · have hold : s.wantedAnimation q = none := by
            refine Option.eq_none_iff_forall_not_mem.mpr fun e he => ?_
            have := h.2 e he
            rw [hreg] at this
            cases this
          rw [show (s.applied.reverse.findSome? fun l =>
              animationRegistryLookup l.animations q.animation).or
                (animationRegistryLookup s.base q.animation) = none from hold,Option.or_none] at hd
          rw [hreg,Option.none_or]
          exact hd

theorem rules_themeApplyFilStyles (t : Theme) (styles : List Bytes) :
    (themeApplyFilStyles t styles).rules = (filLayer styles).rules.map LayerRule.rule++t.rules := by
  unfold themeApplyFilStyles filLayer
  simp only
  generalize t.rules = rules
  induction styles generalizing rules with
  | nil => rfl
  | cons entry styles ih =>
      rw [List.foldl_cons,ih]
      simp

/-- Rules in front of those of a theme decide only what the theme does not tell. -/
theorem resolve_filStyles (t : Theme) (styles : List Bytes)
    (hplain : PlainFil q t (filLayer styles)) :
    q.resolve (themeApplyFilStyles t styles) =
      ((filLayer styles).value q).getD (q.resolve t) := by
  have hvalues : (q.matching ((filLayer styles).rules.map LayerRule.rule)).map
      (·.style.get q.property) =
        ((filLayer styles).matching q).map (·.rule.style.get q.property) := by
    rw [Layer.matching,Query.matching,matching,List.filter_map,List.map_map]
    rfl
  have hnew : q.resolve (themeApplyFilStyles t styles) =
      overlay (tells q.property)
        (((filLayer styles).told q).getD (widgetstyleDefault.get q.property))
        ((q.matching t.rules).map (·.style.get q.property)) := by
    rw [Query.resolve_eq,rules_themeApplyFilStyles,Query.matching,matching,List.filter_append,
      List.map_append,overlay_append,overlay_eq (tells q.property) (widgetstyleDefault.get _),
      Layer.told,← hvalues]
    rfl
  rw [hnew,Query.resolve_eq]
  unfold PlainFil at hplain
  generalize (q.matching t.rules).map (·.style.get q.property) = values at *
  rw [overlay_eq,overlay_eq]
  split_ifs at hplain with hany
  · -- The theme tells the property, so the last rule that tells it is on top.
    obtain ⟨w,hw,htells⟩ := List.any_eq_true.mp hany
    obtain ⟨u,hu⟩ : ∃ u, values.reverse.find? (tells q.property) = some u :=
      Option.isSome_iff_exists.mp (List.find?_isSome.mpr ⟨w,List.mem_reverse.mpr hw,htells⟩)
    rw [hu,hplain]
    rfl
  · have hnone : values.reverse.find? (tells q.property) = none := by
      refine List.find?_eq_none.mpr fun w hw htells => hany ?_
      exact List.any_eq_true.mpr ⟨w,List.mem_reverse.mp hw,htells⟩
    rw [hnone]
    exact hplain

theorem right_layerStep (files : Files) (bound : ℕ) (s : Layered) (op : LayerOp) (h : Right q s)
    (hop : Undisturbed q files bound s op) : Right q (layerStep files bound s op) := by
  have hfile (op : LayerOp) (hop : ∀ path ∈ op.file, ∀ l ∈ overrideLayer files bound s.registry path,
      PlainOverride q s.registry l) : Right q (match op.file with
        | none => s
        | some path => s.override files bound path) := by
    cases hpath : op.file with
    | none => exact h
    | some path => exact right_override files bound h (hop path hpath)
  cases op with
  | app path => exact hfile (.app path) hop
  | user home => exact hfile (.user home) hop
  | accessibility profile => exact hfile (.accessibility profile) hop
  | plugins dir entries => exact right_addPlugins files bound h hop
  | fil styles =>
      constructor
      · intro v hv
        rw [Layered.wanted,layerStep,findSome_concat] at hv
        rw [layerStep,resolve_filStyles s.theme styles hop]
        cases hvalue : (filLayer styles).value q with
        | some w =>
            rw [hvalue] at hv
            exact Option.some.inj hv
        | none =>
            rw [hvalue] at hv
            exact h.1 v hv
      · intro d hd
        rw [Layered.wantedAnimation,layerStep,findSome_concat,Option.or_assoc] at hd
        exact h.2 d hd

/-- As long as each layer meets the condition for a property and an animation, the
theme gives what the last layer set and the registry what the last layer defined. -/
theorem right_of_undisturbed (files : Files) (bound : ℕ) (theme : Theme) (registry : Registry)
    (ops : List LayerOp)
    (h : Guarded (layerStep files bound) (Undisturbed q files bound) (layeredStart theme registry)
      ops) :
    Always (layerStep files bound) (Right q) (layeredStart theme registry) ops := by
  refine h.always (right_layerStep files bound) ⟨fun v hv => ?_,fun d hd => ?_⟩
  · cases hv
  · exact hd

/-- A theme for buttons, as an override and in the directory of a plugin. -/
def buttonOverride : Files := fun path =>
  if path = bytes "o.json" ∨ path = bytes "p/o.json" then
    some (bytes "\x7b\"widgets\": \x7b\"button\": \x7b\"font_size\": 18\x7d\x7d\x7d")
  else none

abbrev buttonQuery : Query := ⟨bytes "button",none,none,.fontSize,bytes "spin"⟩

def emptyTheme : Theme := ⟨bytes "base",[],[]⟩

theorem right_buttonOverride :
    Guarded (layerStep buttonOverride 1) (Undisturbed buttonQuery buttonOverride 1)
        (layeredStart emptyTheme [])
        [.fil [bytes "button||font-size|20"],.app (some (bytes "o.json"))] ∧
      Always (layerStep buttonOverride 1) (Right buttonQuery) (layeredStart emptyTheme [])
        [.fil [bytes "button||font-size|20"],.app (some (bytes "o.json"))] := by
  have h : Guarded (layerStep buttonOverride 1) (Undisturbed buttonQuery buttonOverride 1)
      (layeredStart emptyTheme [])
      [.fil [bytes "button||font-size|20"],.app (some (bytes "o.json"))] := by decide +kernel
  exact ⟨h,right_of_undisturbed buttonOverride 1 emptyTheme [] _ h⟩

def spin : AnimationDef := ⟨bytes "spin",[],300,false,1,false,none,none,.none⟩

/-- An override loses the animations of the base, and the rule of a plugin's theme is
not looked at. -/
theorem override_loses_animations :
    ¬Always (layerStep buttonOverride 1) (Right buttonQuery) (layeredStart emptyTheme [spin])
        [.app (some (bytes "o.json"))] ∧
      ¬Always (layerStep buttonOverride 1) (Right buttonQuery) (layeredStart emptyTheme [])
        [.plugins (bytes "p") [bytes "o.json"]] := by
  constructor
  · intro h
    have hspin := h.finish.2 spin (by decide +kernel)
    revert hspin
    decide +kernel
  · intro h
    have hsize := h.finish.1 (18 : ℤ) (by decide +kernel)
    revert hsize
    decide +kernel

end Filly.Themes
