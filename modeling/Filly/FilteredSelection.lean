import Filly.Runs
import Filly.TextWidgets

/-!
# Choices found by a query

A filter and a multiselect number their choices twice: by position among all choices and
by position in the list that is shown. The shown list is made anew at each rendering, so
a step here is an event and the rendering after it.
-/
namespace Filly.FilteredSelection
open CJson Protocol SessionLoop Runs
open Keys hiding Event

variable {choices : List Bytes}

/-- The choice has the query in it, without regard to case. -/
def Matches (query choice : Bytes) : Prop :=
  query.map Fil.toLower <:+: choice.map Fil.toLower

/-- The numbers, in order, of all choices that the query is found in. -/
structure Shown (choices : List Bytes) (query : Bytes) (filtered : List ℕ) : Prop where
  ascending : filtered.Pairwise (· < ·)
  mem_iff : ∀ i, i ∈ filtered ↔ ∃ choice, choices[i]? = some choice ∧ Matches query choice

theorem shown_matching (choices : List Bytes) (query : Bytes) :
    Shown choices query (matching choices query) := by
  constructor
  · exact List.Pairwise.filter _ List.pairwise_lt_range
  · intro i
    rw [matching,List.mem_filter,List.mem_range,decide_eq_true_iff]
    have hquery : (query = [] ∨ query.map Fil.toLower <:+: (choices.getD i []).map Fil.toLower) ↔
        Matches query (choices.getD i []) := by
      refine or_iff_right_of_imp fun h => ?_
      subst h
      exact List.nil_infix
    rw [hquery,List.getD_eq_getElem?_getD]
    constructor
    · rintro ⟨hi,hmatch⟩
      rw [List.getElem?_eq_getElem hi] at hmatch ⊢
      exact ⟨_,rfl,hmatch⟩
    · rintro ⟨choice,hchoice,hmatch⟩
      rw [hchoice]
      exact ⟨(List.getElem?_eq_some_iff.1 hchoice).1,hmatch⟩

/-- The place of the cursor in a list that is made anew. -/
theorem cursor_lt {n k : ℕ} (hn : 0 < n) : (if n ≤ k then n-1 else k) < n := by
  split_ifs
  all_goals omega

/-! ## The filter -/

/-- The event and the rendering after it. -/
def filterStep (d : FilterData) : Event → FilterData
  | .key code ch => filterUpdate (filterHandleEvent code ch d).2
  | _ => filterUpdate d

def filterStart (choices : List Bytes) : FilterData := filterUpdate (filterWidgetNew choices)

/-- Enter answers with the highlighted choice, if one is shown. -/
structure FilterSound (choices : List Bytes) (d : FilterData) : Prop where
  shown : Shown choices d.query d.filtered
  enter : ∀ ch,
    (d.filtered = [] ∧ (filterHandleEvent .keyEnter ch d).1 = .handled) ∨
      ∃ i choice, d.filtered[d.selected]? = some i ∧ choices[i]? = some choice ∧
        Matches d.query choice ∧
        (filterHandleEvent .keyEnter ch d).1 = answered (.string choice)

theorem filterHandleEvent_choices (code : KeyCode) (ch : UInt8) (d : FilterData) :
    (filterHandleEvent code ch d).2.choices = d.choices := by
  unfold filterHandleEvent
  split
  case h_4 => split <;> rfl
  all_goals
    try split_ifs
    all_goals rfl

theorem filterSound_update {d : FilterData} (hd : d.choices = choices) :
    FilterSound choices (filterUpdate d) := by
  have hshown : Shown choices (filterUpdate d).query (filterUpdate d).filtered := by
    rw [← hd]
    exact shown_matching d.choices d.query
  refine ⟨hshown,fun ch => ?_⟩
  rcases List.eq_nil_or_concat (filterUpdate d).filtered with hnil | ⟨_,_,hcons⟩
  · refine Or.inl ⟨hnil,?_⟩
    rw [filterHandleEvent,hnil]
    rfl
  · have hpos : 0 < (filterUpdate d).filtered.length := by
      rw [hcons]
      simp
    have hcursor : (filterUpdate d).selected < (filterUpdate d).filtered.length := cursor_lt hpos
    obtain ⟨i,hi⟩ : ∃ i, (filterUpdate d).filtered[(filterUpdate d).selected]? = some i :=
      ⟨_,List.getElem?_eq_getElem hcursor⟩
    obtain ⟨choice,hchoice,hmatch⟩ := (hshown.mem_iff i).1 (List.mem_of_getElem? hi)
    refine Or.inr ⟨i,choice,hi,hchoice,hmatch,?_⟩
    rw [filterHandleEvent,hi]
    have hget : (filterUpdate d).choices.getD i [] = choice := by
      rw [show (filterUpdate d).choices = choices from hd,List.getD_eq_getElem?_getD,hchoice]
      rfl
    rw [← hget]

theorem filterStep_choices {d : FilterData} (hd : d.choices = choices) (ev : Event) :
    (filterStep d ev).choices = choices := by
  cases ev with
  | key code ch => exact (filterHandleEvent_choices code ch d).trans hd
  | _ => exact hd

theorem filterSound_step {d : FilterData} (hd : d.choices = choices) (ev : Event) :
    FilterSound choices (filterStep d ev) := by
  cases ev with
  | key code ch => exact filterSound_update ((filterHandleEvent_choices code ch d).trans hd)
  | _ => exact filterSound_update hd

/-! ## The multiselect -/

def msStep (d : MultiselectData) : Event → MultiselectData
  | .key code ch => msUpdate (multiselectHandleEvent code ch d).2
  | _ => msUpdate d

def msStart (choices : List Bytes) (minSel maxSel : ℤ) : MultiselectData :=
  msUpdate (multiselectWidgetNew choices minSel maxSel)

/-- The largest number of choices that may be selected. -/
def upperBound (choices : List Bytes) (maxSel : ℤ) : ℤ :=
  if 0 < maxSel then maxSel else choices.length

/-- What no event changes. -/
structure Settings (choices : List Bytes) (minSel maxSel : ℤ) (d : MultiselectData) : Prop where
  all : d.choices = choices
  lower : d.minSel = minSel
  upper : d.maxSel = upperBound choices maxSel
  each : d.selected.length = choices.length

/-- The numbers of the selected choices, in order. -/
def selection (d : MultiselectData) : List ℕ :=
  (List.range d.selected.length).filter fun i => d.selected.getD i false

/-- Enter answers with the selected choices in their order, if their number is within the
bounds, and with nothing else. -/
structure MultiselectSound (choices : List Bytes) (minSel maxSel : ℤ) (d : MultiselectData) :
    Prop where
  shown : Shown choices d.query d.filtered
  enter : ∀ ch, ∃ numbers : List ℕ, numbers.Pairwise (· < ·) ∧
    (∀ i, i ∈ numbers ↔ d.selected[i]? = some true) ∧ (∀ i ∈ numbers, i < choices.length) ∧
    (multiselectHandleEvent .keyEnter ch d).1 =
      if minSel ≤ numbers.length ∧ numbers.length ≤ upperBound choices maxSel then
        answered (.array (numbers.map fun i => .string (choices.getD i [])))
      else .handled

/-- A step toggles the highlighted choice, or it leaves all choices as they are. -/
def TogglesOnly (d : MultiselectData) (ev : Event) : Prop :=
  (msStep d ev).selected = d.selected ∨
    ev = .key .keyChar 32 ∧ ∃ i, d.filtered[d.cursor]? = some i ∧ i < d.selected.length ∧
      (msStep d ev).selected = d.selected.set i !(d.selected.getD i false)

theorem zip_filter_eq (choices : List Bytes) (selected : List Bool)
    (h : selected.length = choices.length) :
    ((choices.zip selected).filter Prod.snd).map Prod.fst =
      ((List.range selected.length).filter fun i => selected.getD i false).map
        fun i => choices.getD i [] := by
  induction choices generalizing selected with
  | nil =>
      rw [List.length_nil,List.length_eq_zero_iff] at h
      rw [h]
      rfl
  | cons choice choices ih =>
      cases selected with
      | nil => cases h
      | cons now selected =>
          have hnext := ih selected (Nat.succ.inj h)
          rw [List.length_cons,List.range_succ_eq_map,List.zip_cons_cons]
          cases now
          all_goals simp [List.filter_map,Function.comp_def,hnext]

/-- The places of the marks, in order. -/
def places (marks : List Bool) : List ℕ :=
  (List.range marks.length).filter fun i => marks.getD i false

theorem pairwise_places (marks : List Bool) : (places marks).Pairwise (· < ·) :=
  List.Pairwise.filter _ List.pairwise_lt_range

theorem length_places (marks : List Bool) : (places marks).length = marks.count true := by
  unfold places
  induction marks with
  | nil => rfl
  | cons now marks ih =>
      rw [List.length_cons,List.range_succ_eq_map]
      cases now
      all_goals simp [List.filter_map,Function.comp_def] at ih ⊢
      all_goals omega

theorem mem_places {marks : List Bool} {i : ℕ} : i ∈ places marks ↔ marks[i]? = some true := by
  rw [places,List.mem_filter,List.mem_range,List.getD_eq_getElem?_getD]
  constructor
  · rintro ⟨hi,htrue⟩
    rw [List.getElem?_eq_getElem hi] at htrue ⊢
    exact congrArg some htrue
  · intro h
    exact ⟨(List.getElem?_eq_some_iff.1 h).1,by rw [h]; rfl⟩

theorem length_selection (d : MultiselectData) : ((selection d).length:ℤ) = d.count :=
  congrArg Nat.cast (length_places d.selected)

theorem mem_selection {d : MultiselectData} {i : ℕ} :
    i ∈ selection d ↔ d.selected[i]? = some true := mem_places

theorem multiselect_enter {minSel maxSel : ℤ} {d : MultiselectData}
    (hd : Settings choices minSel maxSel d) (ch : UInt8) :
    (multiselectHandleEvent .keyEnter ch d).1 =
      if minSel ≤ (selection d).length ∧ (selection d).length ≤ upperBound choices maxSel then
        answered (.array ((selection d).map fun i => .string (choices.getD i [])))
      else .handled := by
  have hanswer : ((d.choices.zip d.selected).filter Prod.snd).map (fun x => Json.string x.1) =
      (selection d).map fun i => .string (choices.getD i []) := by
    have hzip := congrArg (List.map Json.string)
      (zip_filter_eq d.choices d.selected (hd.each.trans (congrArg _ hd.all.symm)))
    rw [List.map_map,List.map_map] at hzip
    rw [hd.all] at hzip ⊢
    exact hzip
  rw [multiselectHandleEvent,hanswer,length_selection,hd.lower,hd.upper]
  split_ifs
  all_goals rfl

theorem multiselectSound {minSel maxSel : ℤ} {d : MultiselectData}
    (hd : Settings choices minSel maxSel d) (hshown : Shown choices d.query d.filtered) :
    MultiselectSound choices minSel maxSel d := by
  refine ⟨hshown,fun ch => ⟨selection d,?_,fun i => mem_selection,fun i hi => ?_,?_⟩⟩
  · exact List.Pairwise.filter _ List.pairwise_lt_range
  · rw [← hd.each]
    exact (List.getElem?_eq_some_iff.1 (mem_selection.1 hi)).1
  · exact multiselect_enter hd ch

/-- Only a space with a highlighted choice selects, and it selects that choice. -/
theorem toggle_selected (d : MultiselectData) :
    d.toggle.selected = d.selected ∨ ∃ i, d.filtered[d.cursor]? = some i ∧
      d.toggle.selected = d.selected.set i !(d.selected.getD i false) := by
  unfold MultiselectData.toggle
  cases hi : d.filtered[d.cursor]? with
  | none => exact Or.inl rfl
  | some i =>
      have hsame : d.selected.set i (d.selected.getD i false) = d.selected := by
        apply List.ext_getElem?
        intro j
        rw [List.getElem?_set,List.getD_eq_getElem?_getD]
        split_ifs with hij hlen
        · rw [← hij,List.getElem?_eq_getElem hlen]
          rfl
        · rw [← hij,List.getElem?_eq_none (Nat.le_of_not_lt hlen)]
        · rfl
      dsimp only
      cases hnow : d.selected.getD i false with
      | false =>
          rw [hnow] at hsame
          by_cases hroom : d.count < d.maxSel
          · exact Or.inr ⟨i,rfl,by rw [hnow]; simp [hroom]⟩
          · exact Or.inl (by simp [hroom,hsame])
      | true =>
          rw [hnow] at hsame
          by_cases hroom : d.minSel < d.count
          · exact Or.inr ⟨i,rfl,by rw [hnow]; simp [hroom]⟩
          · exact Or.inl (by simp [hroom,hsame])

/-- An event that selects nothing has no effect but on the query and the cursor. -/
theorem multiselectHandleEvent_selected (code : KeyCode) (ch : UInt8) (d : MultiselectData) :
    (multiselectHandleEvent code ch d).2.selected =
      if code = .keyChar ∧ ch = 32 then d.toggle.selected else d.selected := by
  by_cases hspace : code = .keyChar ∧ ch = 32
  · rw [if_pos hspace,hspace.1,hspace.2]
    rfl
  · rw [if_neg hspace]
    unfold multiselectHandleEvent
    split
    case h_4 =>
      rw [if_neg fun hch => hspace ⟨rfl,hch⟩]
    all_goals
      try split_ifs
      all_goals rfl

theorem settings_toggle {minSel maxSel : ℤ} {d : MultiselectData}
    (hd : Settings choices minSel maxSel d) : Settings choices minSel maxSel d.toggle := by
  unfold MultiselectData.toggle
  split
  · exact hd
  · exact ⟨hd.all,hd.lower,hd.upper,(List.length_set ..).trans hd.each⟩

theorem settings_handleEvent {minSel maxSel : ℤ} {d : MultiselectData}
    (hd : Settings choices minSel maxSel d) (code : KeyCode) (ch : UInt8) :
    Settings choices minSel maxSel (multiselectHandleEvent code ch d).2 := by
  obtain ⟨hall,hlower,hupper,heach⟩ := hd
  unfold multiselectHandleEvent
  split
  case h_4 =>
    split_ifs
    · exact settings_toggle ⟨hall,hlower,hupper,heach⟩
    · exact ⟨hall,hlower,hupper,heach⟩
  all_goals
    try split_ifs
    all_goals exact ⟨hall,hlower,hupper,heach⟩

theorem settings_update {minSel maxSel : ℤ} {d : MultiselectData}
    (hd : Settings choices minSel maxSel d) : Settings choices minSel maxSel (msUpdate d) :=
  ⟨hd.all,hd.lower,hd.upper,hd.each⟩

theorem settings_step {minSel maxSel : ℤ} {d : MultiselectData}
    (hd : Settings choices minSel maxSel d) (ev : Event) :
    Settings choices minSel maxSel (msStep d ev) := by
  cases ev with
  | key code ch => exact settings_update (settings_handleEvent hd code ch)
  | _ => exact settings_update hd

theorem shown_update {d : MultiselectData} (hd : d.choices = choices) :
    Shown choices (msUpdate d).query (msUpdate d).filtered := by
  rw [← hd]
  exact shown_matching d.choices d.query

theorem shown_step {minSel maxSel : ℤ} {d : MultiselectData}
    (hd : Settings choices minSel maxSel d) (ev : Event) :
    Shown choices (msStep d ev).query (msStep d ev).filtered := by
  cases ev with
  | key code ch => exact shown_update (settings_handleEvent hd code ch).all
  | _ => exact shown_update hd.all

theorem togglesOnly {minSel maxSel : ℤ} {d : MultiselectData}
    (hd : Settings choices minSel maxSel d) (hshown : Shown choices d.query d.filtered)
    (ev : Event) : TogglesOnly d ev := by
  cases ev with
  | key code ch =>
      have hselected : (msStep d (.key code ch)).selected = _ :=
        multiselectHandleEvent_selected code ch d
      unfold TogglesOnly
      rw [hselected]
      by_cases hspace : code = .keyChar ∧ ch = 32
      · rw [if_pos hspace]
        refine (toggle_selected d).imp_right ?_
        rintro ⟨i,hi,htoggle⟩
        obtain ⟨choice,hchoice,-⟩ := (hshown.mem_iff i).1 (List.mem_of_getElem? hi)
        refine ⟨by rw [hspace.1,hspace.2],i,hi,?_,htoggle⟩
        rw [hd.each]
        exact (List.getElem?_eq_some_iff.1 hchoice).1
      · rw [if_neg hspace]
        exact Or.inl rfl
  | _ => exact Or.inl rfl

theorem settings_start (choices : List Bytes) (minSel maxSel : ℤ) :
    Settings choices minSel maxSel (msStart choices minSel maxSel) :=
  ⟨rfl,rfl,rfl,List.length_replicate⟩

/-- Both widgets show what the query finds and answer with what is highlighted or selected,
in every state of every run, and only a toggle of the highlighted choice selects. -/
theorem selection_sound (choices : List Bytes) (minSel maxSel : ℤ) (evs : List Event) :
    Always filterStep (FilterSound choices) (filterStart choices) evs ∧
      Always msStep (MultiselectSound choices minSel maxSel) (msStart choices minSel maxSel) evs ∧
      Guarded msStep TogglesOnly (msStart choices minSel maxSel) evs := by
  have hfilter : Always filterStep
      (fun d => d.choices = choices ∧ FilterSound choices d) (filterStart choices) evs :=
    always_of_invariant
      (fun d ev hd => ⟨filterStep_choices hd.1 ev,filterSound_step hd.1 ev⟩) _ evs
      ⟨rfl,filterSound_update rfl⟩
  have hmulti : Always msStep (fun d => Settings choices minSel maxSel d ∧
      Shown choices d.query d.filtered) (msStart choices minSel maxSel) evs :=
    always_of_invariant (fun d ev hd => ⟨settings_step hd.1 ev,shown_step hd.1 ev⟩) _ evs
      ⟨settings_start choices minSel maxSel,shown_update rfl⟩
  refine ⟨hfilter.imp fun d hd => hd.2,hmulti.imp fun d hd => multiselectSound hd.1 hd.2,?_⟩
  exact hmulti.guarded fun d ev hd _ => togglesOnly hd.1 hd.2 ev

end Filly.FilteredSelection
