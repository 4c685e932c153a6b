import Filly.ThemeCascade
import Filly.ThemeFiles
import Filly.KeyedList

/-!
# Variables of theme files

The rules of a file are turned into colours with the file's own variables while
the file is read. The tables of its bases and of overrides are merged afterwards,
and a variable is replaced by its text once. `Means` says what a text stands for
in a table when references are followed to the end, through variables and calls.
-/
namespace Filly.Themes
open CJson Visits KeyedList

/-! ## Overrides -/

/-- Each variable of the override replaces the first one of its name, or is added. -/
def mergeVars (vars override : List Variable) : List Variable :=
  override.foldl (fun vs v =>
    if (lookup Variable.name v.name vs).isSome then
      modify Variable.name v.name (fun w => { w with value := v.value }) vs
    else vs++[v]) vars

/-- The rules of the override come after those of the base. -/
def mergeTheme (base override : Theme) : Theme :=
  { base with rules := base.rules++override.rules, vars := mergeVars base.vars override.vars }

/-- The body that `theme_merge_app_override`, `theme_merge_user_override` and
`theme_merge_accessibility_profile` share. Freeing the override clears the
registry. -/
def mergeOverride (files : Files) (bound : ℕ) (s : Theme × Registry) (path : Bytes) :
    Option (Theme × Registry) :=
  (themeLoad files bound path s.2).map fun r => match r.1 with
    | none => (s.1,r.2)
    | some override => (mergeTheme s.1 override,animationRegistryClear)

/-- A theme file with its bases, and then the overrides one after another. -/
def buildTheme (files : Files) (bound : ℕ) (path : Bytes) (overrides : List Bytes)
    (registry : Registry) : Option (Theme × Registry) :=
  (themeLoad files bound path registry).bind fun r =>
    r.1.bind fun t => overrides.foldlM (mergeOverride files bound) (t,r.2)

/-! ## The table -/

theorem lookup_append (name : Bytes) (vs ws : List Variable) :
    lookup Variable.name name (vs++ws) =
      (lookup Variable.name name vs).or (lookup Variable.name name ws) :=
  List.find?_append

/-- Definitions of the file shadow those of its bases. -/
theorem lookup_inherit (t base : Theme) (name : Bytes) :
    lookup Variable.name name (inherit t base).vars =
      (lookup Variable.name name t.vars).or (lookup Variable.name name base.vars) := by
  rw [inherit,lookup_append]
  cases ht : lookup Variable.name name t.vars with
  | some v =>
      have hnone : lookup Variable.name name
          (base.vars.filter fun v => t.vars.all fun w => w.name ≠ v.name) = none := by
        refine List.find?_eq_none.mpr fun w hw hname => ?_
        have hkeep := List.all_eq_true.mp (List.mem_filter.mp hw).2 v (List.mem_of_find?_eq_some ht)
        simp [key_of_lookup ht,of_decide_eq_true hname] at hkeep
      rw [hnone]
      rfl
  | none =>
      have hsame : lookup Variable.name name
          (base.vars.filter fun v => t.vars.all fun w => w.name ≠ v.name) =
            lookup Variable.name name base.vars := by
        unfold lookup
        rw [List.find?_filter]
        congr 1
        funext v
        by_cases hv : v.name = name
        · have hall : ∀ w ∈ t.vars, w.name ≠ v.name := by
            intro w hw
            have := List.find?_eq_none.mp ht w hw
            simpa [hv] using this
          simpa using fun _ => hall
        · simp [hv]
      rw [hsame]
      exact Option.or_none

/-- Definitions of an override shadow those of the theme. -/
theorem value_mergeVars (vars override : List Variable) (name : Bytes) :
    (lookup Variable.name name (mergeVars vars override)).map Variable.value =
      ((lookup Variable.name name override.reverse).map Variable.value).or
        ((lookup Variable.name name vars).map Variable.value) := by
  induction override generalizing vars with
  | nil => rfl
  | cons v override ih =>
      rw [mergeVars,List.foldl_cons,← mergeVars,ih,List.reverse_cons,lookup_append,Option.map_or,
        Option.or_assoc]
      congr 1
      have hkey (w : Variable) : Variable.name { w with value := v.value } = w.name := rfl
      by_cases hname : v.name = name
      · subst hname
        split_ifs with hv
        · obtain ⟨w,hw⟩ := Option.isSome_iff_exists.mp hv
          rw [lookup_modify_self hkey,hw]
          simp [lookup_cons]
        · rw [lookup_append,Option.not_isSome_iff_eq_none.mp hv]
          simp [lookup_cons]
      · split_ifs with hv
        · rw [lookup_modify_ne hkey (Ne.symm hname)]
          simp [lookup_cons,hname]
        · rw [lookup_append]
          simp [lookup_cons,hname]

/-! ## What a text stands for -/

/-- A name of a variable is not the text of a call. -/
def IsName (name : Bytes) : Prop := functionCall name = none ∧ mixCall name = none

instance (name : Bytes) : Decidable (IsName name) := inferInstanceAs (Decidable (_ ∧ _))

/-- The text that `value` leads to when all references are followed. A name without
a definition, and definitions in a circle, lead to nothing. -/
inductive Means (vars : List Variable) : Bytes → Bytes → Prop
  | plain {value : Bytes} : value.head? ≠ some 36 → Means vars value value
  | name {name : Bytes} {v : Variable} {r : Bytes} : IsName name →
      lookup Variable.name name vars = some v → Means vars v.value r → Means vars (36::name) r
  | call {name arg a : Bytes} {f : ColorFunction} : functionCall name = some (f,arg) →
      Means vars arg a → Means vars (36::name) (colorToHex (f.compute (parseColor (some a))))
  | mix {name arg₁ arg₂ amount a₁ a₂ : Bytes} : functionCall name = none →
      mixCall name = some (arg₁,arg₂,amount) → Means vars arg₁ a₁ → Means vars arg₂ a₂ →
      Means vars (36::name)
        (colorToHex (colorMix (parseColor (some a₁)) (parseColor (some a₂)) (atof amount)))

/-- What a text leads to is no reference. -/
theorem Means.head_ne {vars : List Variable} {value r : Bytes} (h : Means vars value r) :
    r.head? ≠ some 36 := by
  induction h with
  | plain h => exact h
  | name _ _ _ ih => exact ih
  | call _ _ _ => exact fun h => absurd h (by rw [colorToHex,List.head?_cons]; decide)
  | mix _ _ _ _ _ _ => exact fun h => absurd h (by rw [colorToHex,List.head?_cons]; decide)

/-- A name is replaced by its text, once. -/
theorem resolveVar_name (vars : List Variable) {name : Bytes} (h : IsName name) :
    resolveVar vars (36::name) = ((lookup Variable.name name vars).map Variable.value).getD (36::name) := by
  rw [resolveVar]
  split
  · rename_i h'
    rw [h.1] at h'
    cases h'
  · split
    · rename_i h'
      rw [h.2] at h'
      cases h'
    · split
      · rename_i hv
        rw [lookup,hv]
        rfl
      · rename_i hv
        rw [lookup,hv]
        rfl

theorem resolveVar_eq_iff {own vars : List Variable} {name r : Bytes} (hname : IsName name)
    (h : Means vars (36::name) r) :
    resolveVar own (36::name) = r ↔ (lookup Variable.name name own).map Variable.value = some r := by
  rw [resolveVar_name own hname]
  cases lookup Variable.name name own with
  | some v => exact ⟨fun he => congrArg some he,fun he => Option.some.inj he⟩
  | none =>
      refine ⟨fun he => ?_,fun he => nomatch he⟩
      exact absurd (congrArg List.head? he.symm) h.head_ne

/-! ## Where rules come from -/

/-- A file that the load of a path comes to. -/
def Reached (files : Files) (path q : Bytes) : Prop :=
  Relation.ReflTransGen (Links (extendsPaths files)) path q

/-- The rule was read from such a file, with the variables of that file. -/
def ReadFrom (files : Files) (path : Bytes) (rule : StyleRule) : Prop :=
  ∃ q root, Reached files path q ∧ fileRoot files q = some root ∧
    ∃ m ∈ fileWidgets root, rule = parseRule (fileVars root) m

theorem mem_rules_fileTheme (root : Json) (rule : StyleRule) :
    rule ∈ (fileTheme root).rules ↔ ∃ m ∈ fileWidgets root, rule = parseRule (fileVars root) m := by
  rw [rules_fileTheme,List.mem_reverse,List.mem_map]
  constructor
  · rintro ⟨m,hm,rfl⟩
    exact ⟨m,hm,rfl⟩
  · rintro ⟨m,hm,rfl⟩
    exact ⟨m,hm,rfl⟩

/-- The file itself, or one of its bases. -/
theorem readFrom_iff {files : Files} {path : Bytes} {root : Json}
    (hroot : fileRoot files path = some root) (rule : StyleRule) :
    ReadFrom files path rule ↔ rule ∈ (fileTheme root).rules ∨
      ∃ base ∈ basePaths path root, ReadFrom files base rule := by
  have hlinks : extendsPaths files path = basePaths path root := by
    rw [extendsPaths,hroot,Option.map_some,Option.getD_some]
  constructor
  · rintro ⟨q,root',hq,hroot',hm⟩
    cases Relation.ReflTransGen.cases_head hq with
    | inl he =>
        subst he
        rw [hroot] at hroot'
        cases hroot'
        exact Or.inl ((mem_rules_fileTheme root rule).mpr hm)
    | inr hb =>
        obtain ⟨base,hbase,hq⟩ := hb
        rw [Links,hlinks] at hbase
        exact Or.inr ⟨base,hbase,q,root',hq,hroot',hm⟩
  · rintro (hrule | ⟨base,hbase,q,root',hq,hroot',hm⟩)
    · exact ⟨path,root,.refl,hroot,(mem_rules_fileTheme root rule).mp hrule⟩
    · exact ⟨q,root',.head (by rw [Links,hlinks]; exact hbase) hq,hroot',hm⟩

theorem not_readFrom {files : Files} {path : Bytes} (hroot : fileRoot files path = none)
    (rule : StyleRule) : ¬ReadFrom files path rule := by
  rintro ⟨q,root,hq,hq',-⟩
  cases Relation.ReflTransGen.cases_head hq with
  | inl he =>
      subst he
      rw [hroot] at hq'
      cases hq'
  | inr hb =>
      obtain ⟨base,hbase,-⟩ := hb
      rw [Links,extendsPaths,hroot] at hbase
      cases hbase

/-- A loop that adds the rules of a path in each turn. -/
theorem mem_rules_foldlM {files : Files} {turn : Theme × Registry → Bytes → Option (Theme × Registry)}
    (hturn : ∀ s path s', turn s path = some s' → ∀ rule,
      rule ∈ s'.1.rules ↔ rule ∈ s.1.rules ∨ ReadFrom files path rule)
    {paths : List Bytes} {s s' : Theme × Registry} (h : paths.foldlM turn s = some s')
    (rule : StyleRule) :
    rule ∈ s'.1.rules ↔ rule ∈ s.1.rules ∨ ∃ path ∈ paths, ReadFrom files path rule := by
  induction paths generalizing s with
  | nil =>
      cases h
      simp
  | cons path paths ih =>
      rw [List.foldlM_cons] at h
      obtain ⟨s₁,hs₁,h⟩ := Option.bind_eq_some_iff.mp h
      rw [ih h,hturn s path s₁ hs₁ rule,List.exists_mem_cons_iff,or_assoc]

theorem mem_rules_themeLoad {files : Files} {bound : ℕ} {path : Bytes} {registry : Registry}
    {r : Option Theme × Registry} (h : themeLoad files bound path registry = some r)
    (rule : StyleRule) : (∃ t ∈ r.1, rule ∈ t.rules) ↔ ReadFrom files path rule := by
  induction bound generalizing path registry r rule with
  | zero => cases h
  | succ bound ih =>
      rw [themeLoad] at h
      cases hroot : fileRoot files path with
      | none =>
          rw [hroot] at h
          cases h
          constructor
          · rintro ⟨t,ht,-⟩
            cases ht
          · exact fun h => absurd h (not_readFrom hroot rule)
      | some root =>
          rw [hroot] at h
          obtain ⟨s,hs,rfl⟩ := Option.map_eq_some_iff.mp h
          have hturn : ∀ s base s', loadBase (themeLoad files bound) s base = some s' → ∀ rule,
              rule ∈ s'.1.rules ↔ rule ∈ s.1.rules ∨ ReadFrom files base rule := by
            intro s base s' hs rule
            obtain ⟨b,hb,rfl⟩ := Option.map_eq_some_iff.mp hs
            rw [← ih hb rule]
            cases hbase : b.1 with
            | none => simp
            | some t => simp [inherit,or_comm]
          rw [readFrom_iff hroot,← mem_rules_foldlM hturn hs rule]
          simp

theorem mem_rules_buildTheme {files : Files} {bound : ℕ} {path : Bytes} {overrides : List Bytes}
    {registry : Registry} {s : Theme × Registry}
    (h : buildTheme files bound path overrides registry = some s) (rule : StyleRule) :
    rule ∈ s.1.rules ↔ ∃ start ∈ path::overrides, ReadFrom files start rule := by
  obtain ⟨r,hr,h⟩ := Option.bind_eq_some_iff.mp h
  obtain ⟨t,ht,h⟩ := Option.bind_eq_some_iff.mp h
  have hturn : ∀ s path s', mergeOverride files bound s path = some s' → ∀ rule,
      rule ∈ s'.1.rules ↔ rule ∈ s.1.rules ∨ ReadFrom files path rule := by
    intro s path s' hs rule
    obtain ⟨r,hr,rfl⟩ := Option.map_eq_some_iff.mp hs
    rw [← mem_rules_themeLoad hr rule]
    cases hover : r.1 with
    | none => simp
    | some override => simp [mergeTheme]
  rw [mem_rules_foldlM hturn h rule,List.exists_mem_cons_iff,← mem_rules_themeLoad hr rule,ht]
  simp

/-! ## References in rules -/

/-- One file that defines what it uses. -/
def ownColor : Files := fun path =>
  if path = bytes "a.json" then
    some (bytes "\x7b\"variables\": \x7b\"c\": \"#112233\"\x7d, "++
      bytes "\"widgets\": \x7b\"text\": \x7b\"fg_color\": \"$c\"\x7d\x7d\x7d")
  else none

/-- A file that uses a colour of its base. -/
def inheritedColor : Files := fun path =>
  if path = bytes "a.json" then
    some (bytes "\x7b\"extends\": \"b\", "++
      bytes "\"widgets\": \x7b\"text\": \x7b\"fg_color\": \"$c\"\x7d\x7d\x7d")
  else if path = bytes "b.json" then
    some (bytes "\x7b\"variables\": \x7b\"c\": \"#112233\"\x7d\x7d")
  else none

end Filly.Themes
