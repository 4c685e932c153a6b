import Filly.ThemeStyle
import Filly.Visits

/-!
# Loading theme files

`theme_load` reads a file, enters its animations in a registry that is shared by
all themes, and loads the files named by `extends` from the same directory. The
rules of a base come before those of the file, and its variables before those the
file does not define itself. Nothing remembers which files are being loaded.

`extends` is read as it was in the file. The source reads it after it has freed
the parsed text.

A file system is a function from path texts. The load is given a bound on the
depth of its calls; it ends when it has a result for some bound.
-/
namespace Filly.Themes
open CJson Numerals Visits

/-! ## Animations -/

inductive EasingFunction where
  | linear | easeIn | easeOut | easeInOut | easeInCubic | easeOutCubic | easeInOutCubic
  | bounce | elastic
  deriving DecidableEq, Repr

inductive TuiAnimType where
  | none | slideIn | fade | typewriter
  deriving DecidableEq, Repr

/-- A field with its `has_` flag is an optional value; scale, translation and
rectangle share a flag between their parts. -/
structure AnimKeyframe where
  timeOffset : Amount
  easing : EasingFunction
  fgColor : Option UInt32
  bgColor : Option UInt32
  borderColor : Option UInt32
  accentColor : Option UInt32
  borderWidth : Option ℤ
  borderRadius : Option ℤ
  fontSize : Option ℤ
  fontWeight : Option ℤ
  opacity : Option Amount
  scaleX : Option Amount
  scaleY : Option Amount
  rotation : Option Amount
  translateX : Option Amount
  translateY : Option Amount
  rectX : Option ℤ
  rectY : Option ℤ
  rectW : Option ℤ
  rectH : Option ℤ
  deriving DecidableEq, Repr

structure AnimationDef where
  name : Bytes
  keyframes : List AnimKeyframe
  durationMs : ℤ
  loop : Bool
  repeatCount : ℤ
  autoReverse : Bool
  triggerOnComplete : Option Bytes
  filOnComplete : Option Bytes
  tuiType : TuiAnimType
  deriving DecidableEq, Repr

def parseEasing (s : Bytes) : EasingFunction :=
  if s = bytes "ease-in" then .easeIn
  else if s = bytes "ease-out" then .easeOut
  else if s = bytes "ease-in-out" then .easeInOut
  else if s = bytes "ease-in-cubic" then .easeInCubic
  else if s = bytes "ease-out-cubic" then .easeOutCubic
  else if s = bytes "ease-in-out-cubic" then .easeInOutCubic
  else if s = bytes "bounce" then .bounce
  else if s = bytes "elastic" then .elastic
  else .linear

def parseTuiType (s : Bytes) : TuiAnimType :=
  if s = bytes "slide-in" then .slideIn
  else if s = bytes "fade" then .fade
  else if s = bytes "typewriter" then .typewriter
  else .none

/-- `(float)item->valuedouble`, zero for an item that is no number. -/
def single : Json → Amount
  | .number d => toSingle d.neg d.value
  | _ => .finite 0

def isTrue : Json → Bool
  | .bool b => b
  | _ => false

/-- The colours of a keyframe are not looked up among the variables. -/
def parseKeyframe (kf : Json) : AnimKeyframe :=
  let color (key : String) := (textMember kf (bytes key)).map fun s => parseColor (some s)
  let int (key : String) := (kf.getObjectItem (bytes key)).map Json.valueint
  let number (key : String) := (kf.getObjectItem (bytes key)).map single
  { timeOffset := (number "time").getD (.finite 0)
    easing := ((textMember kf (bytes "easing")).map parseEasing).getD .linear
    fgColor := color "fg_color"
    bgColor := color "bg_color"
    borderColor := color "border_color"
    accentColor := color "accent_color"
    borderWidth := int "border_width"
    borderRadius := int "border_radius"
    fontSize := int "font_size"
    fontWeight := int "font_weight"
    opacity := number "opacity"
    scaleX := number "scale_x"
    scaleY := number "scale_y"
    rotation := number "rotation"
    translateX := number "translate_x"
    translateY := number "translate_y"
    rectX := int "x"
    rectY := int "y"
    rectW := int "w"
    rectH := int "h" }

/-- The animation of one member, unless it has no array of keyframes. -/
def parseAnimation (member : Bytes × Json) : Option AnimationDef :=
  match member.2.getObjectItem (bytes "keyframes") with
  | some (.array keyframes) => some
      { name := member.1
        keyframes := keyframes.map parseKeyframe
        durationMs := ((member.2.getObjectItem (bytes "duration")).map Json.valueint).getD 300
        loop := ((member.2.getObjectItem (bytes "loop")).map isTrue).getD false
        repeatCount := ((member.2.getObjectItem (bytes "repeat")).map Json.valueint).getD 1
        autoReverse := ((member.2.getObjectItem (bytes "auto_reverse")).map isTrue).getD false
        triggerOnComplete := textMember member.2 (bytes "on_complete")
        filOnComplete := textMember member.2 (bytes "fil_on_complete")
        tuiType := ((textMember member.2 (bytes "tui")).map parseTuiType).getD .none }
  | _ => none

abbrev Registry := List AnimationDef

def animationRegistryRegister (registry : Registry) (d : AnimationDef) : Registry := registry++[d]

def animationRegistryLookup (registry : Registry) (name : Bytes) : Option AnimationDef :=
  registry.find? (·.name = name)

def animationRegistryClear : Registry := []

/-- The animations of a file, in its order. -/
def fileAnimations (root : Json) : List AnimationDef :=
  match root.getObjectItem (bytes "animations") with
  | some (.object members) => members.filterMap parseAnimation
  | _ => []

def animationRegistryLoadFromTheme (registry : Registry) (root : Json) : Registry :=
  (fileAnimations root).foldl animationRegistryRegister registry

/-! ## Bases -/

/-- The directory of the path, the name and `.json`, in a buffer of 4096 bytes. -/
def basePath (path name : Bytes) : Bytes :=
  let dir := if 47 ∈ path then (path.reverse.dropWhile (· ≠ 47)).reverse else []
  (dir++name++bytes ".json").take 4095

/-- The paths that a file extends. -/
def basePaths (path : Bytes) (root : Json) : List Bytes :=
  match root.getObjectItem (bytes "extends") with
  | some (.array items) => (items.filterMap Json.valuestring).map (basePath path)
  | some (.string name) => [basePath path name]
  | _ => []

/-- A base is put under what was read so far. -/
def inherit (t base : Theme) : Theme :=
  { t with
    rules := base.rules++t.rules
    vars := (base.vars.filter fun v => t.vars.all fun w => w.name ≠ v.name)++t.vars }

abbrev Files := Bytes → Option Bytes

/-- The value of a file's text, which is read up to a NUL. -/
def fileRoot (files : Files) (path : Bytes) : Option Json :=
  (files path).bind fun text => cJSONParse (text.takeWhile (· ≠ 0))

/-- One turn of the loop over the bases; a base that cannot be loaded is passed
over. -/
def loadBase (load : Bytes → Registry → Option (Option Theme × Registry)) (s : Theme × Registry)
    (base : Bytes) : Option (Theme × Registry) :=
  (load base s.2).map fun b => ((b.1.map (inherit s.1)).getD s.1,b.2)

/-- The theme of a path, if there is one, and the registry; `none` when the bound is
used up. -/
def themeLoad (files : Files) : ℕ → Bytes → Registry → Option (Option Theme × Registry)
  | 0, _, _ => none
  | n+1, path, registry => match fileRoot files path with
    | none => some (none,registry)
    | some root =>
        ((basePaths path root).foldlM (loadBase (themeLoad files n))
          (fileTheme root,animationRegistryLoadFromTheme registry root)).map fun r => (some r.1,r.2)

/-- The load of a path comes to an end. -/
def Terminates (files : Files) (path : Bytes) (registry : Registry) : Prop :=
  ∃ n, (themeLoad files n path registry).isSome

/-! ## Ending -/

/-- The paths that the file at a path extends. -/
def extendsPaths (files : Files) (path : Bytes) : List Bytes :=
  ((fileRoot files path).map (basePaths path)).getD []

theorem length_basePath (path name : Bytes) : (basePath path name).length ≤ 4095 := by
  rw [basePath,List.length_take]
  exact min_le_left _ _

theorem length_of_mem_extendsPaths {files : Files} {path base : Bytes}
    (h : base ∈ extendsPaths files path) : base.length ≤ 4095 := by
  unfold extendsPaths at h
  cases hr : fileRoot files path with
  | none => rw [hr] at h; cases h
  | some root =>
      rw [hr] at h
      simp only [Option.map_some,Option.getD_some,basePaths] at h
      split at h
      · obtain ⟨name,-,rfl⟩ := List.mem_map.mp h
        exact length_basePath path name
      · rw [List.mem_singleton.mp h]
        exact length_basePath path _
      · cases h

/-- Every path below the first one fits the buffer. -/
theorem finite_reached (files : Files) (path : Bytes) :
    {q | Relation.ReflTransGen (Links (extendsPaths files)) path q}.Finite := by
  have hbytes : Finite UInt8 := Finite.of_injective UInt8.toFin fun _ _ h => UInt8.toFin_inj.mp h
  refine ((List.finite_length_le UInt8 4095).union (Set.finite_singleton path)).subset ?_
  intro q hq
  cases hq with
  | refl => exact Or.inr rfl
  | tail _ h => exact Or.inl (length_of_mem_extendsPaths h)

theorem foldlM_none {β : Type} {g : β → Bytes → Option β} {bases : List Bytes} {base : Bytes}
    (hmem : base ∈ bases) (h : ∀ s, g s base = none) (s : β) : bases.foldlM g s = none := by
  induction bases generalizing s with
  | nil => cases hmem
  | cons b bases ih =>
      rw [List.foldlM_cons]
      obtain rfl | hmem := List.mem_cons.mp hmem
      · rw [h s]
        rfl
      · cases g s b with
        | none => rfl
        | some s => exact ih hmem s

theorem foldlM_isSome {β : Type} {g : β → Bytes → Option β} {bases : List Bytes}
    (h : ∀ base ∈ bases, ∀ s, (g s base).isSome) (s : β) : (bases.foldlM g s).isSome := by
  induction bases generalizing s with
  | nil => rfl
  | cons b bases ih =>
      obtain ⟨s',hs⟩ := Option.isSome_iff_exists.mp (h b List.mem_cons_self s)
      rw [List.foldlM_cons,hs]
      exact ih (fun base hb => h base (List.mem_cons_of_mem b hb)) s'

/-- The load calls itself for each base. -/
theorem visiting_themeLoad (files : Files) : Visiting (extendsPaths files) (themeLoad files) where
  zero := fun _ _ => rfl
  strict := fun n path base hmem h registry => by
    unfold extendsPaths at hmem
    cases hr : fileRoot files path with
    | none => rw [hr] at hmem; cases hmem
    | some root =>
        rw [hr,Option.map_some,Option.getD_some] at hmem
        have hnone (s : Theme × Registry) : loadBase (themeLoad files n) s base = none := by
          rw [loadBase,h,Option.map_none]
        simp only [themeLoad,hr,foldlM_none hmem hnone,Option.map_none]
  total := fun n path h registry => by
    unfold extendsPaths at h
    cases hr : fileRoot files path with
    | none => simp only [themeLoad,hr,Option.isSome_some]
    | some root =>
        rw [hr,Option.map_some,Option.getD_some] at h
        have hsome (base : Bytes) (hb : base ∈ basePaths path root) (s : Theme × Registry) :
            (loadBase (themeLoad files n) s base).isSome := by
          rw [loadBase,Option.isSome_map]
          exact h base hb s.2
        simp only [themeLoad,hr,Option.isSome_map]
        exact foldlM_isSome hsome _

/-- A load ends exactly when no file that it comes to extends itself, directly or
through other files. -/
theorem terminates_iff (files : Files) (path : Bytes) (registry : Registry) :
    Terminates files path registry ↔ ¬Loops (extendsPaths files) path :=
  (visiting_themeLoad files).ends_iff (finite_reached files path) registry

/-- One file, which extends itself. -/
def selfExtending : Files := fun path =>
  if path = bytes "t/a.json" then some (bytes "\x7b\"extends\": \"a\"\x7d") else none

theorem self_extending_theme_does_not_load : ¬Terminates selfExtending (bytes "t/a.json") [] := by
  have hlink : extendsPaths selfExtending (bytes "t/a.json") = [bytes "t/a.json"] := by
    decide +kernel
  have hloop : Loops (extendsPaths selfExtending) (bytes "t/a.json") := by
    refine ⟨bytes "t/a.json",.refl,.single ?_⟩
    rw [Links,hlink]
    exact List.mem_cons_self
  rintro ⟨n,hn⟩
  rw [(visiting_themeLoad selfExtending).none_of_loops n hloop] at hn
  cases hn

end Filly.Themes
