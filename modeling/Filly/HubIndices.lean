import Filly.CBuffers
import Filly.Fil
import Filly.HubAnswers
import Filly.RequestMembers

/-!
# The categories and the footer of a hub

A hub reads the category with the number `cat_idx` and builds its footer in 512 bytes. Here
a number that is none of a category and a footer that is too long have no outcome. With a
category there always is one; without any the hub only gets by while no key asks for an
item.
-/
namespace Filly.SessionLoop
open CJson Keys Protocol CBuffers Runs

/-! ## A hub from its parameters -/

def visibleIfOf (iv : Json) : List (Bytes × Bytes) :=
  match iv.getObjectItem (bytes "visible_if") with
  | some (.object members) =>
      members.map fun m => (m.1.takeWhile (· ≠ 0),(strdup m.2).getD [])
  | _ => []

def hubItemOf (iv : Json) : Option HubItem := do
  let choices ← (memberChildren iv "choices").mapM strdup
  return { id := (memberText iv "id").getD [], label := (memberText iv "label").getD [],
           value := (memberText iv "value").getD [],
           widget := (memberText iv "widget").getD (bytes "menu"), choices := choices,
           placeholder := (memberText iv "placeholder").getD [],
           message := (memberText iv "message").getD [], visibleIf := visibleIfOf iv }

/-- The items of each category of the request. -/
def hubCategories : Option Json → Option (List (List HubItem))
  | some (.array cs) => cs.mapM fun cv => (memberChildren cv "items").mapM hubItemOf
  | _ => some []

def hubActions : Option Json → Option (List Bytes)
  | some (.array as) => as.mapM strdup
  | _ => some []

/-- `hub_widget_new`, from what the request has. -/
def hubWidgetOf (categories actions : Option Json) : Option HubData := do
  return hubWidgetNew (← hubCategories categories) (← hubActions actions)

/-! ## Reads and writes that may leave memory -/

/-- `d->categories[d->cat_idx]`. -/
def hubCategory (d : HubData) : Option (List HubItem) :=
  if 0 ≤ d.catIdx then d.categories[d.catIdx.toNat]? else none

def hubGetItemAt (d : HubData) : Option (Option HubItem) :=
  (hubCategory d).map fun items => (items.filter (hubVisible d))[d.itemIdx]?

def hubVisibleCountAt (d : HubData) : Option ℕ :=
  (hubCategory d).map fun items => (items.filter (hubVisible d)).length

/-- The number of items that are drawn. -/
def hubShownCount (d : HubData) : Option ℕ :=
  if d.categories = [] then some 0 else hubVisibleCountAt d

/-- One action in the footer, as far as it fits into its 32 bytes. -/
def footerAction (i : ℕ) (action : Bytes) : Bytes :=
  (bytes "F"++Fil.intText (i+1)++bytes ":"++action++bytes "  ").take 31

def footerHelp : Bytes := bytes "Up/Down:items  Left/Right:categories  Enter:edit  Esc:quit"

def footerTexts (actions : List Bytes) : List Bytes :=
  actions.zipIdx.map (fun x => footerAction x.2 x.1)++[footerHelp]

def hubFooter (actions : List Bytes) : Option Bytes :=
  strcatAll (List.replicate 512 0) (footerTexts actions)

variable {α β : Type} (pr : Program α β)

/-- What `hub_render` reads and writes, and what it changes in the widget of the hub. -/
def hubRender (d : HubData) (sub : Option (Widget α)) : Option (Option (Widget α)) :=
  match d.mode, sub with
  | .editing, some w => some (some (renderUpdate pr w))
  | .confirmProceed, _ | .confirmQuit, _ => some sub
  | _, _ => do
      let _ ← hubShownCount d
      let _ ← hubFooter d.actions
      return sub

/-- The other keys read no category. -/
def hubBrowseAt (code : KeyCode) (d : HubData) :
    Option (EventResult × HubData × Option (Widget α)) :=
  match code with
  | .keyDown => do
      let count ← hubVisibleCountAt d
      return (.handled,{ d.touch with itemIdx :=
        if d.itemIdx+1 < count then d.itemIdx+1 else d.itemIdx },none)
  | .keyEnter => do
      match ← hubGetItemAt d with
      | none => return (.handled,d,none)
      | some item =>
          match pr.widgetRegistryCreate item.widget (hubParams d item) with
          | none => return (.handled,d,none)
          | some sub =>
              return (.handled,{ d with mode := .editing,
                                        base := { d.base.touch with acceptsTextInput := true } },
                some sub.1)
  | _ => some (hubBrowse pr code d)

def hubAcceptAt (d : HubData) (r : WidgetResponse) : Option HubData := do
  let d :=
    match ← hubGetItemAt d, r.result.bind hubText with
    | some item, some text => if r.cancelled then d else hubSet d item.id text
    | _, _ => d
  return { d with mode := .browsing, base := { d.base.touch with acceptsTextInput := false } }

def hubHandleEvent (ev : Event) (d : HubData) (sub : Option (Widget α)) (b : β) :
    Option (EventResult × HubData × Option (Widget α) × β) :=
  match ev with
  | .key code ch =>
      match d.mode, sub with
      | .editing, some w =>
          match handleEvent pr (.key code ch) w b with
          | (.response r,_,b) => do return (.handled,← hubAcceptAt d r,none,b)
          | (_,w,b) => some (.handled,d,some w,b)
      | .confirmQuit, _ | .confirmProceed, _ =>
          let (result,d,made) := hubKey pr code ch d
          some (result,d,made.or sub,b)
      | _, _ => do
          let (result,d,made) ← hubBrowseAt pr code d
          return (result,d,made.or sub,b)
  | _ => some (.unhandled,d,sub,b)

/-! ## With a category -/

theorem hubItems_eq {d : HubData} {items : List HubItem} (h : hubCategory d = some items) :
    hubItems d = items.filter (hubVisible d) := by
  unfold hubCategory at h
  split_ifs at h with hidx
  rw [hubItems,if_neg (by omega),List.getD_eq_getElem?_getD,h]
  rfl

theorem hubGetItemAt_eq {d : HubData} (h : (hubCategory d).isSome) :
    hubGetItemAt d = some (hubGetItem d) := by
  obtain ⟨items,hitems⟩ := Option.isSome_iff_exists.1 h
  rw [hubGetItemAt,hubGetItem,hubItems_eq hitems,hitems]
  rfl

theorem hubVisibleCountAt_eq {d : HubData} (h : (hubCategory d).isSome) :
    hubVisibleCountAt d = some (hubVisibleCount d) := by
  obtain ⟨items,hitems⟩ := Option.isSome_iff_exists.1 h
  rw [hubVisibleCountAt,hubVisibleCount,hubItems_eq hitems,hitems]
  rfl

theorem hubBrowseAt_eq (code : KeyCode) {d : HubData} (h : (hubCategory d).isSome) :
    hubBrowseAt pr code d = some (hubBrowse pr code d) := by
  unfold hubBrowseAt
  split
  · rw [hubVisibleCountAt_eq h]
    rfl
  · rw [hubGetItemAt_eq h]
    simp only [Option.bind_eq_bind,Option.bind_some,hubBrowse]
    cases hubGetItem d with
    | none => rfl
    | some item =>
        dsimp only
        cases pr.widgetRegistryCreate item.widget (hubParams d item) <;> rfl
  · rfl

theorem hubAcceptAt_eq {d : HubData} (h : (hubCategory d).isSome) (r : WidgetResponse) :
    hubAcceptAt d r = some (hubAccept d r) := by
  rw [hubAcceptAt,hubGetItemAt_eq h]
  rfl

theorem hubHandleEvent_none (code : KeyCode) (ch : UInt8) {d : HubData}
    (h : (hubCategory d).isSome) (b : β) :
    hubHandleEvent pr (.key code ch) d none b =
      some ((hubKey pr code ch d).1,(hubKey pr code ch d).2.1,(hubKey pr code ch d).2.2,b) := by
  have hread := hubBrowseAt_eq pr code h
  rcases hmode : d.mode with _ | _ | _ | _
  · have hkey : hubKey pr code ch d = hubBrowse pr code d := by simp only [hubKey,hmode]
    simp only [hubHandleEvent,hmode,hread,hkey]
    simp
  · have hkey : hubKey pr code ch d = hubBrowse pr code d := by simp only [hubKey,hmode]
    simp only [hubHandleEvent,hmode,hread,hkey]
    simp
  · simp [hubHandleEvent,hmode]
  · simp [hubHandleEvent,hmode]

/-- A hub that has the category is the one of a session. -/
theorem hubHandleEvent_eq (ev : Event) {d : HubData} (h : (hubCategory d).isSome)
    (sub : Option (Widget α)) (hsub : d.mode ≠ .editing → sub = none) (b : β) :
    (hubHandleEvent pr ev d sub b).map (fun x => (x.1,hubWith x.2.1 none x.2.2.1,x.2.2.2)) =
      some (handleEvent pr ev (hubWith d none sub) b) := by
  cases ev with
  | key code ch =>
      cases sub with
      | none =>
          rw [hubHandleEvent_none pr code ch h]
          simp only [Option.map_some,hubWith,Option.none_or,handleEvent,keysOnly,Option.or_none]
      | some w =>
          have hmode : d.mode = .editing := by
            by_contra hmode
            cases hsub hmode
          simp only [hubHandleEvent,hmode,hubWith,handleEvent,keysOnly,Option.none_or]
          generalize handleEvent pr (.key code ch) w b = r
          obtain ⟨result,w',b'⟩ := r
          cases result with
          | response r => simp [hubAcceptAt_eq h]
          | handled => rfl
          | unhandled => rfl
  | _ => cases sub <;> rfl

/-! ## The footer -/

/-- The actions fit into the footer together with the help behind them. -/
def FooterFits (actions : List Bytes) : Prop :=
  (actions.zipIdx.map fun x => min 31 (x.1.length+(Nat.toDigits 10 (x.2+1)).length+4)).sum+58 < 512

instance decidableFooterFits (actions : List Bytes) : Decidable (FooterFits actions) :=
  inferInstanceAs (Decidable (_ < 512))

theorem length_footerAction (i : ℕ) (action : Bytes) :
    (footerAction i action).length = min 31 (action.length+(Nat.toDigits 10 (i+1)).length+4) := by
  have hnumber : (Fil.intText ((i:ℤ)+1)).length = (Nat.toDigits 10 (i+1)).length := by
    rw [Fil.intText,if_neg (by omega),show ((i:ℤ)+1).natAbs = i+1 by omega]
    simp
  have hletter : (bytes "F").length = 1 := by decide
  have hcolon : (bytes ":").length = 1 := by decide
  have hspaces : (bytes "  ").length = 2 := by decide
  rw [footerAction,List.length_take]
  simp only [List.length_append,hnumber,hletter,hcolon,hspaces]
  congr 1
  omega

theorem nonzero_intText (v : ℤ) : 0 ∉ Fil.intText v := by
  rw [Fil.intText,List.mem_append,not_or]
  constructor
  · split_ifs <;> decide
  · rw [List.mem_map]
    rintro ⟨c,hc,hzero⟩
    have hdigit := Nat.isDigit_of_mem_toDigits (by decide) (by decide) hc
    rw [Char.isDigit,Bool.and_eq_true,decide_eq_true_eq,decide_eq_true_eq] at hdigit
    obtain ⟨hlow,hhigh⟩ := hdigit
    have hlow' : 48 ≤ c.toNat := hlow
    have hhigh' : c.toNat ≤ 57 := hhigh
    have hnat := congrArg UInt8.toNat hzero
    rw [UInt8.toNat_ofNat'] at hnat
    simp only [UInt8.toNat_zero] at hnat
    omega

theorem nonzero_footerAction (i : ℕ) {action : Bytes} (h : 0 ∉ action) :
    0 ∉ footerAction i action := by
  intro hmem
  have hmem := List.mem_of_mem_take hmem
  simp only [List.mem_append] at hmem
  rcases hmem with (((hmem | hmem) | hmem) | hmem) | hmem
  · exact absurd hmem (by decide)
  · exact nonzero_intText _ hmem
  · exact absurd hmem (by decide)
  · exact h hmem
  · exact absurd hmem (by decide)

theorem hubFooter_isSome_iff {actions : List Bytes} (h : ∀ action ∈ actions, 0 ∉ action) :
    (hubFooter actions).isSome ↔ FooterFits actions := by
  have hnonzero : ∀ text ∈ footerTexts actions, 0 ∉ text := by
    intro text htext
    rw [footerTexts,List.mem_append,List.mem_map,List.mem_singleton] at htext
    rcases htext with ⟨⟨action,i⟩,hmem,rfl⟩ | rfl
    · exact nonzero_footerAction i (h action (List.fst_mem_of_mem_zipIdx hmem))
    · decide
  have hlength : (footerTexts actions).flatten.length =
      (actions.zipIdx.map fun x =>
        min 31 (x.1.length+(Nat.toDigits 10 (x.2+1)).length+4)).sum+58 := by
    have hhelp : footerHelp.length = 58 := by decide
    rw [footerTexts,List.flatten_append,List.length_append,List.length_flatten,List.map_map,
      List.flatten_singleton,hhelp]
    simp only [Function.comp_def,length_footerAction]
  have hroom := strcatAll_eq hnonzero (a := []) List.not_mem_nil (List.replicate 511 0)
  have hblock : List.replicate 512 (0:UInt8) = []++0::List.replicate 511 0 := rfl
  rw [hubFooter,hblock,hroom,hlength,List.length_replicate,FooterFits]
  split_ifs with hle
  · exact iff_of_true rfl (by omega)
  · exact iff_of_false (by simp) (by omega)

/-! ## Runs -/

/-- A hub whose memory was left, one that has responded, and one that goes on. -/
inductive HubStage (α β : Type) where
  | left
  | ended
  | live (d : HubData) (sub : Option (Widget α)) (b : β)

/-- The session draws the hub or hands an event to it. -/
inductive HubAct where
  | drawn
  | event (ev : Event)

def hubTake (s : HubStage α β) (act : HubAct) : HubStage α β :=
  match s with
  | .left => .left
  | .ended => .ended
  | .live d sub b =>
      match act with
      | .drawn =>
          match hubRender pr d sub with
          | none => .left
          | some sub => .live d sub b
      | .event ev =>
          match hubHandleEvent pr ev d sub b with
          | none => .left
          | some (.response _,_,_,_) => .ended
          | some (_,d,sub,b) => .live d sub b

/-- A hub is drawn before it gets an event. -/
def hubStart (d : HubData) (b : β) : HubStage α β := hubTake pr (.live d none b) .drawn

/-- A hub that shows its items is asked for the next or the present one. -/
def AsksForItem (s : HubStage α β) (act : HubAct) : Prop :=
  match s, act with
  | .live d _ _, .event (.key code _) => d.mode = .browsing ∧ (code = .keyDown ∨ code = .keyEnter)
  | _, _ => False

variable {pr} {categories : List (List HubItem)} {actions : List Bytes}

theorem hubCategory_isSome_iff (d : HubData) :
    (hubCategory d).isSome ↔ 0 ≤ d.catIdx ∧ d.catIdx < d.categories.length := by
  rw [hubCategory]
  split_ifs with h
  · rw [isSome_getElem?]
    omega
  · exact iff_of_false (by simp) fun hidx => h hidx.1

/-- The hub has the categories and actions it was made with, and the number of a category
if it has any. -/
structure Indexed (cs : List (List HubItem)) (as : List Bytes) (d : HubData) : Prop where
  categories : d.categories = cs
  actions : d.actions = as
  category : cs ≠ [] → (hubCategory d).isSome
  mode : cs = [] → d.mode ≠ .editing

/-- Another state of the hub with a number that is as good. -/
theorem Indexed.of_same {d d' : HubData} (hd : Indexed categories actions d)
    (hcategories : d'.categories = d.categories) (hactions : d'.actions = d.actions)
    (hidx : d'.catIdx = d.catIdx) (hmode : d'.mode = .editing → categories ≠ []) :
    Indexed categories actions d' := by
  refine ⟨hcategories.trans hd.categories,hactions.trans hd.actions,fun h => ?_,
    fun h hedit => hmode hedit h⟩
  have hcategory := hd.category h
  rw [hubCategory_isSome_iff] at hcategory ⊢
  rw [hidx,hcategories]
  exact hcategory

theorem Indexed.turn {d : HubData} (hd : Indexed categories actions d) {i : ℤ}
    (hi : d.categories ≠ [] → 0 ≤ i ∧ i < d.categories.length) :
    Indexed categories actions { d.touch with itemIdx := 0, catIdx := i } := by
  refine ⟨hd.categories,hd.actions,fun h => ?_,hd.mode⟩
  rw [hubCategory_isSome_iff]
  exact hi (hd.categories ▸ h)

/-- The number of the category lies in the list, unless there is none. -/
theorem Indexed.bounds {d : HubData} (hd : Indexed categories actions d)
    (h : d.categories ≠ []) : 0 ≤ d.catIdx ∧ d.catIdx < d.categories.length := by
  have hcategory := hd.category (hd.categories ▸ h)
  rw [hubCategory_isSome_iff] at hcategory
  exact hcategory

theorem indexed_hubBrowse (code : KeyCode) {d : HubData} (hd : Indexed categories actions d)
    (hask : categories = [] → code ≠ .keyEnter) :
    Indexed categories actions (hubBrowse pr code d).2.1 := by
  have hstay : d.mode = .editing → categories ≠ [] := fun h hnil => hd.mode hnil h
  unfold hubBrowse
  split
  case h_7 =>
    have hsome : categories ≠ [] := fun h => hask h rfl
    split
    · exact hd
    · split
      · exact hd
      · exact hd.of_same rfl rfl rfl fun _ => hsome
  case h_8 =>
    split
    · exact hd
    · split_ifs
      · exact hd.of_same rfl rfl rfl (by simp)
      · exact hd
  case h_1 => exact hd.of_same rfl rfl rfl (by simp)
  case h_2 => exact hd.of_same rfl rfl rfl hstay
  case h_3 => exact hd.of_same rfl rfl rfl hstay
  all_goals
    refine hd.turn fun h => ?_
    have hpos := List.length_pos_of_ne_nil h
    have hbounds := hd.bounds h
    split_ifs
    all_goals omega

theorem indexed_hubAccept {d : HubData} (hd : Indexed categories actions d)
    (r : WidgetResponse) : Indexed categories actions (hubAccept d r) := by
  unfold hubAccept
  dsimp only
  split
  · split_ifs
    · exact hd.of_same rfl rfl rfl (by simp)
    · exact hd.of_same rfl rfl rfl (by simp)
  · exact hd.of_same rfl rfl rfl (by simp)

/-- The memory of the hub was not left. -/
def HubStage.Inside (categories : List (List HubItem)) (actions : List Bytes) :
    HubStage α β → Prop
  | .left => False
  | .ended => True
  | .live d _ _ => Indexed categories actions d

theorem HubStage.Inside.ne_left {s : HubStage α β} (h : s.Inside categories actions) :
    s ≠ .left := by
  rintro rfl
  exact h

theorem hubTake_drawn (hfits : (hubFooter actions).isSome) {d : HubData}
    (hd : Indexed categories actions d) (sub : Option (Widget α)) (b : β) :
    ∃ sub', hubTake pr (.live d sub b) .drawn = .live d sub' b := by
  obtain ⟨footer,hfooter⟩ : ∃ footer, hubFooter d.actions = some footer := by
    rw [hd.actions]
    exact Option.isSome_iff_exists.1 hfits
  obtain ⟨n,hcount⟩ : ∃ n, hubShownCount d = some n := by
    unfold hubShownCount
    split_ifs with h
    · exact ⟨0,rfl⟩
    · exact ⟨_,hubVisibleCountAt_eq (hd.category (hd.categories ▸ h))⟩
  obtain ⟨sub',hrender⟩ : ∃ sub', hubRender pr d sub = some sub' := by
    unfold hubRender
    split
    · exact ⟨_,rfl⟩
    · exact ⟨_,rfl⟩
    · exact ⟨_,rfl⟩
    · exact ⟨_,by rw [hcount,hfooter]; rfl⟩
  exact ⟨sub',by simp only [hubTake,hrender]⟩

theorem inside_drawn (hfits : (hubFooter actions).isSome) {d : HubData}
    (hd : Indexed categories actions d) (sub : Option (Widget α)) (b : β) :
    (hubTake pr (.live d sub b) .drawn).Inside categories actions := by
  obtain ⟨sub',hdrawn⟩ : ∃ sub', hubTake pr (.live d sub b) .drawn = .live d sub' b :=
    hubTake_drawn hfits hd sub b
  rw [hdrawn]
  exact hd

theorem indexed_hubKey (code : KeyCode) (ch : UInt8) {d : HubData}
    (hd : Indexed categories actions d) (hmode : d.mode = .confirmQuit ∨ d.mode = .confirmProceed) :
    Indexed categories actions (hubKey pr code ch d).2.1 := by
  rcases hmode with hmode | hmode
  all_goals
    unfold hubKey
    simp only [hmode]
    split_ifs
    · exact hd.of_same rfl rfl rfl (by simp)
    · exact hd.of_same rfl rfl rfl (by simp)

/-- Without a category, keys that ask for no item read none. -/
theorem hubBrowseAt_of_not_asks {code : KeyCode} (d : HubData) (hdown : code ≠ .keyDown)
    (henter : code ≠ .keyEnter) : hubBrowseAt pr code d = some (hubBrowse pr code d) := by
  unfold hubBrowseAt
  split
  · exact absurd rfl hdown
  · exact absurd rfl henter
  · rfl

theorem inside_of_handled {ev : Event} {d : HubData} {sub : Option (Widget α)} {b : β}
    {r : EventResult × HubData × Option (Widget α) × β}
    (h : hubHandleEvent pr ev d sub b = some r) (hr : Indexed categories actions r.2.1) :
    (hubTake pr (.live d sub b) (.event ev)).Inside categories actions := by
  obtain ⟨result,d',sub',b'⟩ := r
  simp only [hubTake,h]
  cases result with
  | response r => trivial
  | handled => exact hr
  | unhandled => exact hr

theorem inside_event (ev : Event) {d : HubData} {sub : Option (Widget α)} {b : β}
    (hd : Indexed categories actions d)
    (hask : categories ≠ [] ∨ ¬AsksForItem (.live d sub b) (.event ev)) :
    (hubTake pr (.live d sub b) (.event ev)).Inside categories actions := by
  cases ev with
  | key code ch =>
      have hbrowse : d.mode = .browsing ∨ categories ≠ [] →
          hubBrowseAt pr code d = some (hubBrowse pr code d) ∧
            Indexed categories actions (hubBrowse pr code d).2.1 := by
        intro hmode
        by_cases hnil : categories = []
        · have hasks := hask.resolve_left (not_not_intro hnil)
          have hbrowsing := hmode.resolve_right (not_not_intro hnil)
          have hcode : ¬(code = .keyDown ∨ code = .keyEnter) := fun h => hasks ⟨hbrowsing,h⟩
          rw [not_or] at hcode
          exact ⟨hubBrowseAt_of_not_asks d hcode.1 hcode.2,
            indexed_hubBrowse code hd fun _ => hcode.2⟩
        · exact ⟨hubBrowseAt_eq pr code (hd.category hnil),
            indexed_hubBrowse code hd fun h => absurd h hnil⟩
      rcases hmode : d.mode with _ | _ | _ | _
      · obtain ⟨hread,hindexed⟩ := hbrowse (Or.inl hmode)
        have hevent : hubHandleEvent pr (.key code ch) d sub b =
            some ((hubBrowse pr code d).1,(hubBrowse pr code d).2.1,
              (hubBrowse pr code d).2.2.or sub,b) := by
          simp only [hubHandleEvent,hmode,hread]
          rfl
        exact inside_of_handled hevent hindexed
      · have hnil : categories ≠ [] := fun h => hd.mode h hmode
        cases sub with
        | none =>
            obtain ⟨hread,hindexed⟩ := hbrowse (Or.inr hnil)
            have hevent : hubHandleEvent pr (.key code ch) d none b =
                some ((hubBrowse pr code d).1,(hubBrowse pr code d).2.1,
                  (hubBrowse pr code d).2.2.or none,b) := by
              simp only [hubHandleEvent,hmode,hread]
              rfl
            exact inside_of_handled hevent hindexed
        | some w =>
            have haccept := hubAcceptAt_eq (hd.category hnil)
            have hevent : hubHandleEvent pr (.key code ch) d (some w) b =
                match handleEvent pr (.key code ch) w b with
                | (.response r,_,b) => some (.handled,hubAccept d r,none,b)
                | (_,w,b) => some (.handled,d,some w,b) := by
              simp only [hubHandleEvent,hmode,haccept]
              rfl
            generalize handleEvent pr (.key code ch) w b = r at hevent
            obtain ⟨result,w',b'⟩ := r
            cases result with
            | response r => exact inside_of_handled hevent (indexed_hubAccept hd r)
            | handled => exact inside_of_handled hevent hd
            | unhandled => exact inside_of_handled hevent hd
      · have hevent : hubHandleEvent pr (.key code ch) d sub b =
            some ((hubKey pr code ch d).1,(hubKey pr code ch d).2.1,
              (hubKey pr code ch d).2.2.or sub,b) := by
          simp only [hubHandleEvent,hmode]
        exact inside_of_handled hevent (indexed_hubKey code ch hd (Or.inr hmode))
      · have hevent : hubHandleEvent pr (.key code ch) d sub b =
            some ((hubKey pr code ch d).1,(hubKey pr code ch d).2.1,
              (hubKey pr code ch d).2.2.or sub,b) := by
          simp only [hubHandleEvent,hmode]
        exact inside_of_handled hevent (indexed_hubKey code ch hd (Or.inl hmode))
  | _ => exact inside_of_handled (r := (.unhandled,d,sub,b)) rfl hd

/-- Without a category, a key that asks for an item leaves the memory. -/
theorem left_of_asks {s : HubStage α β} {act : HubAct} (hs : s.Inside [] actions)
    (hask : AsksForItem s act) : hubTake pr s act = .left := by
  cases s with
  | left => exact hask.elim
  | ended => exact hask.elim
  | live d sub b =>
      cases act with
      | drawn => exact hask.elim
      | event ev =>
          cases ev with
          | key code ch =>
              obtain ⟨hmode,hcode⟩ := hask
              have hnone : hubCategory d = none := by
                have hnil : d.categories = [] := hs.categories
                rw [hubCategory,hnil]
                split_ifs
                · rfl
                · rfl
              have hbrowse : hubBrowseAt pr code d = none := by
                rcases hcode with rfl | rfl
                · simp [hubBrowseAt,hubVisibleCountAt,hnone]
                · simp [hubBrowseAt,hubGetItemAt,hnone]
              simp [hubTake,hubHandleEvent,hmode,hbrowse]
          | _ => exact hask.elim

theorem inside_take (hfits : (hubFooter actions).isSome) {s : HubStage α β} {act : HubAct}
    (hs : s.Inside categories actions) (hask : categories ≠ [] ∨ ¬AsksForItem s act) :
    (hubTake pr s act).Inside categories actions := by
  cases s with
  | left => exact hs
  | ended => trivial
  | live d sub b =>
      cases act with
      | drawn => exact inside_drawn hfits hs sub b
      | event ev => exact inside_event ev hs hask

theorem foldl_hubSet (items : List HubItem) (d : HubData) :
    items.foldl (fun d item => hubSet d item.id item.value) d =
      { d with values :=
          (items.foldl (fun d item => hubSet d item.id item.value) d).values } := by
  induction items generalizing d with
  | nil => rfl
  | cons item items ih =>
      rw [List.foldl_cons,ih]
      rfl

theorem indexed_new (categories : List (List HubItem)) (actions : List Bytes) :
    Indexed categories actions (hubWidgetNew categories actions) := by
  rw [hubWidgetNew,foldl_hubSet]
  refine ⟨rfl,rfl,fun h => ?_,fun _ => HubMode.noConfusion⟩
  have hpos : (0:ℤ) < categories.length := by exact_mod_cast List.length_pos_of_ne_nil h
  rw [hubCategory_isSome_iff]
  exact ⟨le_rfl,hpos⟩

theorem nonzero_of_strdup {as : List Json} {actions : List Bytes}
    (h : as.mapM strdup = some actions) : ∀ action ∈ actions, 0 ∉ action := by
  induction as generalizing actions with
  | nil =>
      obtain rfl : [] = actions := Option.some.inj h
      simp
  | cons a as ih =>
      rw [List.mapM_cons,Option.bind_eq_bind,Option.bind_eq_some_iff] at h
      obtain ⟨action,haction,h⟩ := h
      rw [Option.bind_eq_bind,Option.bind_eq_some_iff] at h
      obtain ⟨rest,hrest,hactions⟩ := h
      obtain rfl : action::rest = actions := Option.some.inj hactions
      obtain ⟨s,-,rfl⟩ := Option.map_eq_some_iff.1 haction
      rw [List.forall_mem_cons]
      exact ⟨nul_notMem_takeWhile s,ih hrest⟩

theorem hubWidgetOf_eq {categories actions : Option Json} {d : HubData}
    (h : hubWidgetOf categories actions = some d) :
    Indexed d.categories d.actions d ∧ d.mode = .browsing ∧ ∀ action ∈ d.actions, 0 ∉ action := by
  rw [hubWidgetOf,Option.bind_eq_bind,Option.bind_eq_some_iff] at h
  obtain ⟨cs,-,h⟩ := h
  rw [Option.bind_eq_bind,Option.bind_eq_some_iff] at h
  obtain ⟨as,hactions,hd⟩ := h
  obtain rfl := Option.some.inj hd
  have hnew := indexed_new cs as
  rw [hnew.categories,hnew.actions]
  refine ⟨hnew,mode_foldl _ _,?_⟩
  unfold hubActions at hactions
  split at hactions
  · exact nonzero_of_strdup hactions
  · rw [← Option.some.inj hactions]
    simp

/-- No category is read that is not there, and no footer is too long, exactly if the footer
fits and there is a category or no key asks for an item. -/
theorem indices_safe_iff (pr : Program α β) {categories actions : Option Json}
    {d : HubData} (hd : hubWidgetOf categories actions = some d) (b : β)
    (acts : List HubAct) :
    Always (hubTake pr) (· ≠ .left) (hubStart pr d b) acts ↔
      FooterFits d.actions ∧
        (d.categories ≠ [] ∨
          Guarded (hubTake pr) (fun s act => ¬AsksForItem s act) (hubStart pr d b) acts) := by
  obtain ⟨hindexed,hmode,hnonzero⟩ := hubWidgetOf_eq hd
  rw [← hubFooter_isSome_iff hnonzero]
  by_cases hfits : (hubFooter d.actions).isSome
  · have hstart := @inside_drawn _ _ pr _ _ hfits _ hindexed none b
    rw [and_iff_right hfits]
    by_cases hnil : d.categories = []
    · rw [or_iff_right (not_not_intro hnil)]
      refine always_iff_guarded (I := HubStage.Inside d.categories d.actions)
        (fun s hs => hs.ne_left) (fun s act hs hask => inside_take hfits hs (Or.inr hask))
        (fun s act hs hask => ?_) hstart acts
      rw [hnil] at hs
      exact not_not_intro (left_of_asks hs (not_not.1 hask))
    · refine iff_of_true ?_ (Or.inl hnil)
      exact (always_of_invariant (I := HubStage.Inside d.categories d.actions)
        (fun s act hs => inside_take hfits hs (Or.inl hnil)) _ acts hstart).imp
          fun s hs => hs.ne_left
  · refine iff_of_false (fun h => h.start ?_) fun h => hfits h.1
    have hfooter : hubFooter d.actions = none := Option.not_isSome_iff_eq_none.1 hfits
    have hrender : hubRender pr d (none : Option (Widget α)) = none := by
      simp [hubRender,hmode,hfooter]
    simp only [hubStart,hubTake,hrender]

/-- A category without items, with keys that ask for them. -/
theorem empty_category_is_safe :
    Always (hubTake sliderProgram) (· ≠ .left) (hubStart sliderProgram (hubWidgetNew [[]] []) ())
      [.event (.key .keyDown 0),.event (.key .keyLeft 0),.drawn,.event (.key .keyEnter 0)] :=
  (@indices_safe_iff _ _ sliderProgram (some (.array [.object []])) none (hubWidgetNew [[]] [])
    rfl () _).2 ⟨by decide,Or.inl (by decide)⟩

/-- Without categories the first Down reads one, and twenty actions of 22 letters fill the
footer. -/
theorem no_category_is_read :
    hubWidgetOf (some (.array [])) none = some (hubWidgetNew [] []) ∧
      (¬Always (hubTake sliderProgram) (· ≠ .left)
        (hubStart sliderProgram (hubWidgetNew [] []) ()) [.event (.key .keyDown 0)]) ∧
      hubFooter (List.replicate 20 (bytes "Rebuild everything now")) = none := by
  refine ⟨rfl,fun h => ?_,?_⟩
  · have hfits : (hubFooter []).isSome := (hubFooter_isSome_iff (by simp)).2 (by decide)
    obtain ⟨sub,hstart⟩ := @hubTake_drawn _ _ sliderProgram _ _ hfits _ (indexed_new [] []) none ()
    rw [hubStart,hstart] at h
    have hinside : HubStage.Inside [] [] (.live (hubWidgetNew [] []) sub ()) := indexed_new [] []
    exact h.2.start (left_of_asks hinside ⟨rfl,Or.inl rfl⟩)
  · have hlong : ¬FooterFits (List.replicate 20 (bytes "Rebuild everything now")) := by
      decide +kernel
    have hnonzero : ∀ action ∈ List.replicate 20 (bytes "Rebuild everything now"), 0 ∉ action := by
      intro action h
      rw [List.eq_of_mem_replicate h]
      decide
    generalize List.replicate 20 (bytes "Rebuild everything now") = actions at hlong hnonzero
    rwa [← hubFooter_isSome_iff hnonzero,Option.not_isSome_iff_eq_none] at hlong

end Filly.SessionLoop
