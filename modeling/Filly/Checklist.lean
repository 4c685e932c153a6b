import Filly.FilteredSelection

/-!
# The checklist

Space checks the choice under the cursor or takes its mark back, and Enter answers with
the checked choices. There is one mark for each choice; a handler that reads a mark
outside of them has no result here.
-/
namespace Filly.Checklist
open CJson Protocol SessionLoop Runs FilteredSelection
open Keys hiding Event

structure ChecklistData where
  base : WidgetBase
  choices : List Bytes
  selected : ℕ
  minSel : ℤ
  maxSel : ℤ
  checked : List Bool

def checklistWidgetNew (choices : List Bytes) (minSel maxSel : ℤ) (defaultChoices : List Bytes) :
    ChecklistData where
  base := {}
  choices := choices
  selected := 0
  minSel := minSel
  maxSel := if 0 < maxSel then maxSel else choices.length
  checked := choices.map fun choice => decide (choice ∈ defaultChoices)

/-- The number of checked choices. -/
def ChecklistData.count (d : ChecklistData) : ℤ := d.checked.count true

/-- A space changes the mark at the cursor, within the bounds. -/
def ChecklistData.toggle (d : ChecklistData) : Option ChecklistData :=
  d.checked[d.selected]?.map fun now =>
    let next := if now then !(d.minSel < d.count : Bool) else (d.count < d.maxSel : Bool)
    { d with checked := d.checked.set d.selected next, base := d.base.touch }

def checklistHandleEvent (ev : Event) (d : ChecklistData) : Option (EventResult × ChecklistData) :=
  match ev with
  | .key .keyEsc _ => some (cancelled,d)
  | .key .keyUp _ =>
      if 0 < d.selected then
        some (.handled,{ d with selected := d.selected-1, base := d.base.touch })
      else some (.handled,d)
  | .key .keyDown _ =>
      if d.selected+1 < d.choices.length then
        some (.handled,{ d with selected := d.selected+1, base := d.base.touch })
      else some (.handled,d)
  | .key .keyChar ch =>
      if ch = 32 then d.toggle.map fun d' => (.handled,d') else some (.handled,d)
  | .key .keyEnter _ =>
      if d.minSel ≤ d.count ∧ d.count ≤ d.maxSel then
        some (answered (.array (((d.choices.zip d.checked).filter Prod.snd).map
          fun x => .string x.1)),d)
      else some (.handled,d)
  | _ => some (.unhandled,d)

def take (s : Option ChecklistData) (ev : Event) : Option ChecklistData :=
  s.bind fun d => (checklistHandleEvent ev d).map Prod.snd

variable {choices : List Bytes} {minSel maxSel : ℤ}

/-- The number of marks is within the bounds. -/
def Within (choices : List Bytes) (minSel maxSel : ℤ) (checked : List Bool) : Prop :=
  minSel ≤ checked.count true ∧ (checked.count true:ℤ) ≤ upperBound choices maxSel

/-- No event leaves the bounds, and Enter answers with the checked choices in their
order, if their number is within the bounds, and with nothing else. -/
structure ChecklistSound (choices : List Bytes) (minSel maxSel : ℤ) (d : ChecklistData) :
    Prop where
  toggle : ∀ ev r d', checklistHandleEvent ev d = some (r,d') →
    Within choices minSel maxSel d.checked → Within choices minSel maxSel d'.checked
  enter : ∀ ch, ∃ numbers : List ℕ, numbers.Pairwise (· < ·) ∧
    (∀ i, i ∈ numbers ↔ d.checked[i]? = some true) ∧ (∀ i ∈ numbers, i < choices.length) ∧
    checklistHandleEvent (.key .keyEnter ch) d =
      some (if minSel ≤ numbers.length ∧ numbers.length ≤ upperBound choices maxSel then
        answered (.array (numbers.map fun i => .string (choices.getD i []))) else .handled,d)

/-- Nothing outside of the choices has been read. -/
def Sound (choices : List Bytes) (minSel maxSel : ℤ) (s : Option ChecklistData) : Prop :=
  ∃ d, s = some d ∧ ChecklistSound choices minSel maxSel d

/-- What the events do not change, and a cursor on a choice if there are any. -/
structure Settled (choices : List Bytes) (minSel maxSel : ℤ) (d : ChecklistData) : Prop where
  all : d.choices = choices
  lower : d.minSel = minSel
  upper : d.maxSel = upperBound choices maxSel
  each : d.checked.length = choices.length
  cursor : choices ≠ [] → d.selected < choices.length

theorem settled_new (choices : List Bytes) (minSel maxSel : ℤ) (defaultChoices : List Bytes) :
    Settled choices minSel maxSel (checklistWidgetNew choices minSel maxSel defaultChoices) :=
  ⟨rfl,rfl,rfl,List.length_map _,List.length_pos_of_ne_nil⟩

theorem Settled.enter {d : ChecklistData} (hd : Settled choices minSel maxSel d) (ch : UInt8) :
    checklistHandleEvent (.key .keyEnter ch) d =
      some (if minSel ≤ (places d.checked).length ∧
          (places d.checked).length ≤ upperBound choices maxSel then
        answered (.array ((places d.checked).map fun i => .string (choices.getD i [])))
      else .handled,d) := by
  have hanswer : ((d.choices.zip d.checked).filter Prod.snd).map (fun x => Json.string x.1) =
      (places d.checked).map fun i => .string (choices.getD i []) := by
    have hzip := congrArg (List.map Json.string)
      (zip_filter_eq d.choices d.checked (hd.each.trans (congrArg _ hd.all.symm)))
    rw [List.map_map,List.map_map] at hzip
    rw [hd.all] at hzip ⊢
    exact hzip
  rw [checklistHandleEvent,hanswer,length_places,hd.lower,hd.upper,ChecklistData.count]
  split_ifs
  all_goals rfl

/-- One mark more or less. -/
theorem count_set {marks : List Bool} {i : ℕ} {now : Bool} (h : marks[i]? = some now)
    (next : Bool) : (marks.set i next).count true+now.toNat = marks.count true+next.toNat := by
  obtain ⟨hi,hnow⟩ := List.getElem?_eq_some_iff.1 h
  have hpos : now = true → 0 < marks.count true := by
    intro htrue
    exact List.count_pos_iff.2 (htrue ▸ hnow ▸ List.getElem_mem hi)
  rw [List.count_set hi,hnow]
  cases now
  · cases next <;> simp
  · have := hpos rfl
    cases next <;> simp <;> omega

theorem toggle_within {d d' : ChecklistData} (hd : Settled choices minSel maxSel d)
    (htoggle : d.toggle = some d') (h : Within choices minSel maxSel d.checked) :
    Within choices minSel maxSel d'.checked := by
  obtain ⟨now,hnow,rfl⟩ := Option.map_eq_some_iff.1 htoggle
  obtain ⟨hmin,hmax⟩ := h
  have hcount := count_set hnow
    (if now then !(d.minSel < d.count : Bool) else (d.count < d.maxSel : Bool))
  rw [hd.lower,hd.upper,ChecklistData.count] at hcount
  unfold Within
  dsimp only
  rw [hd.lower,hd.upper,ChecklistData.count]
  generalize upperBound choices maxSel = most at *
  cases now
  · by_cases hroom : (d.checked.count true:ℤ) < most
    all_goals simp [hroom] at hcount ⊢
    all_goals omega
  · by_cases hroom : minSel < (d.checked.count true:ℤ)
    all_goals simp [hroom] at hcount ⊢
    all_goals omega

theorem Settled.toggle {d d' : ChecklistData} (hd : Settled choices minSel maxSel d)
    (htoggle : d.toggle = some d') : Settled choices minSel maxSel d' := by
  obtain ⟨now,-,rfl⟩ := Option.map_eq_some_iff.1 htoggle
  exact ⟨hd.all,hd.lower,hd.upper,(List.length_set ..).trans hd.each,hd.cursor⟩

/-- An event keeps the marks, or it is a space and changes them as `toggle` does. -/
theorem checklistHandleEvent_cases {ev : Event} {d d' : ChecklistData} {r : EventResult}
    (h : checklistHandleEvent ev d = some (r,d')) :
    d.toggle = some d' ∨ d'.choices = d.choices ∧ d'.minSel = d.minSel ∧ d'.maxSel = d.maxSel ∧
      d'.checked = d.checked ∧
      (d.selected < d.choices.length → d'.selected < d.choices.length) := by
  unfold checklistHandleEvent at h
  split at h
  case h_4 =>
    split_ifs at h
    · obtain ⟨e,he,heq⟩ := Option.map_eq_some_iff.1 h
      cases heq
      exact Or.inl he
    · cases h
      exact Or.inr ⟨rfl,rfl,rfl,rfl,id⟩
  case h_2 =>
    split_ifs at h
    all_goals cases h
    · exact Or.inr ⟨rfl,rfl,rfl,rfl,fun hlt => (Nat.sub_le _ _).trans_lt hlt⟩
    · exact Or.inr ⟨rfl,rfl,rfl,rfl,id⟩
  case h_3 =>
    split_ifs at h with hroom
    all_goals cases h
    · exact Or.inr ⟨rfl,rfl,rfl,rfl,fun _ => hroom⟩
    · exact Or.inr ⟨rfl,rfl,rfl,rfl,id⟩
  all_goals
    try split_ifs at h
    all_goals
      cases h
      exact Or.inr ⟨rfl,rfl,rfl,rfl,id⟩

theorem Settled.step {ev : Event} {d d' : ChecklistData} {r : EventResult}
    (hd : Settled choices minSel maxSel d) (h : checklistHandleEvent ev d = some (r,d')) :
    Settled choices minSel maxSel d' := by
  rcases checklistHandleEvent_cases h with htoggle | ⟨hall,hmin,hmax,hchecked,hcursor⟩
  · exact hd.toggle htoggle
  · refine ⟨hall.trans hd.all,hmin.trans hd.lower,hmax.trans hd.upper,?_,fun hne => ?_⟩
    · rw [hchecked,hd.each]
    · rw [hd.all] at hcursor
      exact hcursor (hd.cursor hne)

theorem Settled.sound {d : ChecklistData} (hd : Settled choices minSel maxSel d) :
    ChecklistSound choices minSel maxSel d := by
  constructor
  · intro ev r d' h hwithin
    rcases checklistHandleEvent_cases h with htoggle | ⟨-,-,-,hchecked,-⟩
    · exact toggle_within hd htoggle hwithin
    · rwa [hchecked]
  · intro ch
    refine ⟨places d.checked,pairwise_places d.checked,fun i => mem_places,fun i hi => ?_,
      hd.enter ch⟩
    rw [← hd.each]
    exact (List.getElem?_eq_some_iff.1 (mem_places.1 hi)).1

/-- Only a space without choices reads a mark that is not there. -/
theorem checklistHandleEvent_isSome_iff {d : ChecklistData}
    (hd : Settled choices minSel maxSel d) (ev : Event) :
    (checklistHandleEvent ev d).isSome ↔ choices ≠ [] ∨ ev ≠ .key .keyChar 32 := by
  have hread : d.checked[d.selected]?.isSome ↔ choices ≠ [] := by
    rw [Option.isSome_iff_ne_none,Ne,List.getElem?_eq_none_iff,not_le,hd.each]
    exact ⟨fun h => List.ne_nil_of_length_pos (Nat.zero_lt_of_lt h),hd.cursor⟩
  by_cases hspace : ev = .key .keyChar 32
  · rw [hspace,or_iff_left (not_not_intro rfl),← hread]
    simp [checklistHandleEvent,ChecklistData.toggle]
  · refine iff_of_true ?_ (Or.inr hspace)
    unfold checklistHandleEvent
    split
    case h_4 ch => rw [if_neg fun hch => hspace (by rw [hch])]; rfl
    all_goals
      try split_ifs
      all_goals rfl

/-- The checklist stays with its choices and their bounds, unless there is no choice and
a space asks for one. -/
theorem checklist_bounded_iff (choices : List Bytes) (minSel maxSel : ℤ)
    (defaultChoices : List Bytes) (evs : List Event) :
    Always take (Sound choices minSel maxSel)
      (some (checklistWidgetNew choices minSel maxSel defaultChoices)) evs ↔
      choices ≠ [] ∨ .key .keyChar 32 ∉ evs := by
  let I (s : Option ChecklistData) : Prop := ∃ d, s = some d ∧ Settled choices minSel maxSel d
  have hrun : Always take (Sound choices minSel maxSel)
      (some (checklistWidgetNew choices minSel maxSel defaultChoices)) evs ↔
      Guarded take (fun _ ev => choices ≠ [] ∨ ev ≠ .key .keyChar 32)
        (some (checklistWidgetNew choices minSel maxSel defaultChoices)) evs := by
    refine always_iff_guarded (I := I) ?_ ?_ ?_ ⟨_,rfl,settled_new ..⟩ evs
    · rintro _ ⟨d,rfl,hd⟩
      exact ⟨d,rfl,hd.sound⟩
    · rintro _ ev ⟨d,rfl,hd⟩ hev
      obtain ⟨⟨r,d'⟩,h⟩ := Option.isSome_iff_exists.1
        ((checklistHandleEvent_isSome_iff hd ev).2 hev)
      exact ⟨d',by rw [take,Option.bind_some,h]; rfl,hd.step h⟩
    · rintro _ ev ⟨d,rfl,hd⟩ hev ⟨d',h,-⟩
      rw [← checklistHandleEvent_isSome_iff hd ev,Option.not_isSome_iff_eq_none] at hev
      rw [take,Option.bind_some,hev] at h
      cases h
  rw [hrun,guarded_iff_forall]
  by_cases hne : choices = []
  · simp only [hne,ne_eq,not_true_eq_false,false_or]
    exact ⟨fun h hmem => h _ hmem rfl,fun h ev hev heq => h (heq ▸ hev)⟩
  · exact iff_of_true (fun _ _ => Or.inl hne) (Or.inl hne)

/-- Space in a checklist without choices reads the first mark. -/
theorem first_mark_is_read :
    ¬Always take (Sound [] 0 0) (some (checklistWidgetNew [] 0 0 [])) [.key .keyChar 32] := by
  rintro ⟨-,d,h,-⟩
  cases h

end Filly.Checklist
