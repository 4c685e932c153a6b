import Filly.Runs
import Filly.TypedText

/-!
# The answers that a hub keeps

A run of a hub carries what it should know: which item was opened, and the last value
of each id. The hub itself finds the item again by its number among the visible ones,
which cannot change while a widget is open, and converts the result by its type. A
number is of no type that it converts.
-/
namespace Filly.SessionLoop
open CJson Keys Protocol KeyedList Runs

def hubWidgetNew (categories : List (List HubItem)) (actions : List Bytes) : HubData :=
  categories.flatten.foldl (fun d item => hubSet d item.id item.value)
    { base := {}, categories := categories, actions := actions, catIdx := 0, itemIdx := 0,
      values := [], mode := .browsing }

/-- The text of a value that is none of the null values. -/
def valueText : Json → Option Bytes
  | .null => none
  | .bool true => some (bytes "yes")
  | .bool false => some (bytes "no")
  | .number d => some (printNumber d)
  | .string s => some s
  | .array items => some (Json.text (.array items))
  | .object members => some (Json.text (.object members))

/-- What is kept is the text of the value. -/
theorem hubText_eq {v : Json} {text : Bytes} (h : hubText v = some text) :
    valueText v = some text := by
  cases v with
  | null => cases h
  | bool b => cases b <;> exact h
  | number d => cases h
  | string s => exact h
  | array items => exact congrArg some (cJSONPrintUnformatted_text h).symm
  | object members => exact congrArg some (cJSONPrintUnformatted_text h).symm

/-- Values that are no numbers and that can be printed if they have parts. -/
def Storable : Json → Prop
  | .number _ => False
  | .array items => cJSONPrintUnformatted (.array items) ≠ none
  | .object members => cJSONPrintUnformatted (.object members) ≠ none
  | .null | .bool _ | .string _ => True

theorem storable_iff {v : Json} (hv : valueText v ≠ none) : Storable v ↔ hubText v ≠ none := by
  cases v with
  | null => exact (hv rfl).elim
  | bool b => cases b <;> exact iff_of_true trivial (Option.some_ne_none _)
  | number d => exact iff_of_false id fun h => h rfl
  | string s => exact iff_of_true trivial (Option.some_ne_none _)
  | array items => exact Iff.rfl
  | object members => exact Iff.rfl

variable {α β : Type} (pr : Program α β)

def Widget.hubData : Widget α → Option HubData
  | .hub d => some d
  | .hubOver d _ => some d
  | _ => none

/-- A hub with what it should know. -/
structure HubRun (α β : Type) where
  w : Widget α
  b : β
  opened : Option Bytes := none
  last : Bytes → Option Bytes
  proceeded : Option Json := none

/-- The value of a response of the widget in a hub that is not cancelled. -/
def answerOf (ev : Event) (b : β) : Widget α → Option Json
  | .hubOver d sub =>
      match ev, (handleEvent pr ev sub b).1 with
      | .key _ _, .response r => if d.mode = .editing ∧ ¬r.cancelled then r.result else none
      | _, _ => none
  | _ => none

/-- The value with which a hub returns on Proceed. -/
def objectOf (result : EventResult) : Widget α → Option Json
  | .hub d =>
      match result with
      | .response q => if d.mode = .confirmProceed then q.result else none
      | _ => none
  | _ => none

/-- One event. The last values are those of the answers, whatever the hub makes of them. -/
def HubRun.take (s : HubRun α β) (ev : Event) : HubRun α β :=
  let r := handleEvent pr ev s.w s.b
  { w := r.2.1
    b := r.2.2
    opened :=
      match s.w, r.2.1 with
      | .hub d, .hubOver _ _ => (hubGetItem d).map HubItem.id
      | _, _ => s.opened
    last :=
      match (answerOf pr ev s.b s.w).bind valueText, s.opened with
      | some text, some id => Function.update s.last id (some text)
      | _, _ => s.last
    proceeded := objectOf r.1 s.w }

/-- A new hub. The last value of an id is the one that the last item with that id has. -/
def HubRun.start (categories : List (List HubItem)) (actions : List Bytes) (b : β) :
    HubRun α β where
  w := .hub (hubWidgetNew categories actions)
  b := b
  last id := (categories.flatten.reverse.find? fun item => item.id = id).map HubItem.value

/-- The hub has the last value of every id, and an object that it has just returned on
Proceed has one for every item. -/
def Faithful (categories : List (List HubItem)) (s : HubRun α β) : Prop :=
  (∀ d, s.w.hubData = some d → ∀ id, hubGet d id = s.last id) ∧
    ∀ j, s.proceeded = some j → ∀ item ∈ categories.flatten,
      ∃ value, s.last item.id = some value ∧ j.getObjectItem item.id = some (.string value)

/-- The answer can be kept, or is the value that the item has. -/
def KeepsText (s : HubRun α β) (ev : Event) : Prop :=
  ∀ id v text, s.opened = some id → answerOf pr ev s.b s.w = some v → valueText v = some text →
    Storable v ∨ s.last id = some text

/-! ## The hub between events -/

theorem hubGet_hubSet (d : HubData) (id value : Bytes) :
    hubGet (hubSet d id value) = Function.update (hubGet d) id (some value) := by
  have hkey : ∀ x : Bytes × Bytes, ((x.1,value) : Bytes × Bytes).1 = x.1 := fun _ => rfl
  funext key
  unfold hubSet
  by_cases hid : id ∈ d.values.map Prod.fst
  · rw [if_pos hid]
    change (lookup Prod.fst key (modify Prod.fst id _ d.values)).map Prod.snd = _
    by_cases hk : key = id
    · subst hk
      obtain ⟨x,hx⟩ := Option.isSome_iff_exists.1 ((lookup_isSome_iff d.values).2 hid)
      rw [lookup_modify_self hkey,hx,Function.update_self]
      rfl
    · rw [lookup_modify_ne hkey hk,Function.update_of_ne hk]
      rfl
  · rw [if_neg hid]
    simp only [hubGet,List.find?_append]
    by_cases hk : key = id
    · subst hk
      have hnone : d.values.find? (fun x => x.1 = key) = none := by
        rw [← Option.not_isSome_iff_eq_none]
        exact fun h => hid ((lookup_isSome_iff d.values).1 h)
      rw [hnone,Function.update_self]
      simp
    · have hne : ¬id = key := fun h => hk h.symm
      rw [Function.update_of_ne hk]
      simp [hubGet,hne]

/-- Every item has a value. -/
def Keyed (categories : List (List HubItem)) (d : HubData) : Prop :=
  ∀ item ∈ categories.flatten, item.id ∈ d.values.map Prod.fst

theorem keyed_hubSet {categories : List (List HubItem)} {d : HubData} (hd : Keyed categories d)
    (id value : Bytes) : Keyed categories (hubSet d id value) := by
  intro item hitem
  have hmem := hd item hitem
  have hmodify : (modify Prod.fst id (fun x => (x.1,value)) d.values).map Prod.fst =
      d.values.map Prod.fst :=
    map_modify_of_comp (f := fun x : Bytes × Bytes => (x.1,value)) (fun _ => rfl) d.values
  unfold hubSet
  dsimp only
  split_ifs
  · rw [hmodify]
    exact hmem
  · rw [List.map_append]
    exact List.mem_append_left _ hmem

/-- What a hub that edits nothing does with a key. -/
structure Browsed (d : HubData) (r : EventResult × HubData × Option (Widget α)) : Prop where
  values : r.2.1.values = d.values
  opens : r.2.2 ≠ none → r.2.1.mode = .editing ∧ hubGetItem r.2.1 = hubGetItem d ∧
    hubGetItem d ≠ none
  stays : r.2.2 = none → r.2.1.mode ≠ .editing
  proceeds : ∀ q, r.1 = .response q → d.mode = .confirmProceed → ∀ j, q.result = some j →
    j = .object (d.values.map fun x => (x.1,.string x.2))

theorem browsed_hubBrowse (code : KeyCode) {d : HubData} (hd : d.mode = .browsing) :
    Browsed d (hubBrowse pr code d) := by
  have hstays : d.mode ≠ .editing := by simp [hd]
  unfold hubBrowse
  split
  case h_7 =>
    split
    · exact ⟨rfl,fun h => (h rfl).elim,fun _ => hstays,fun _ h => by cases h⟩
    · next item hitem =>
      split
      · exact ⟨rfl,fun h => (h rfl).elim,fun _ => hstays,fun _ h => by cases h⟩
      · exact ⟨rfl,fun _ => ⟨rfl,rfl,by simp [hitem]⟩,fun h => (by cases h),fun _ h => by cases h⟩
  case h_8 =>
    split
    · exact ⟨rfl,fun h => (h rfl).elim,fun _ => hstays,fun _ h => by cases h⟩
    · split_ifs
      · exact ⟨rfl,fun h => (h rfl).elim,fun _ => HubMode.noConfusion,fun _ h => by cases h⟩
      · exact ⟨rfl,fun h => (h rfl).elim,fun _ => hstays,fun _ _ h => by simp [hd] at h⟩
  case h_1 =>
    exact ⟨rfl,fun h => (h rfl).elim,fun _ => HubMode.noConfusion,fun _ h => by cases h⟩
  all_goals exact ⟨rfl,fun h => (h rfl).elim,fun _ => hstays,fun _ h => by cases h⟩

theorem browsed_hubKey (code : KeyCode) (ch : UInt8) {d : HubData} (hd : d.mode ≠ .editing) :
    Browsed d (hubKey pr code ch d) := by
  unfold hubKey
  dsimp only
  split
  case h_1 hmode =>
    split_ifs
    · exact ⟨rfl,fun h => (h rfl).elim,fun _ => hd,fun _ _ h => by simp [hmode] at h⟩
    · exact ⟨rfl,fun h => (h rfl).elim,fun _ => HubMode.noConfusion,fun _ h => by cases h⟩
  case h_2 hmode =>
    split_ifs
    · refine ⟨rfl,fun h => (h rfl).elim,fun _ => hd,?_⟩
      rintro _ h - j hj
      cases h
      exact (Option.some.inj hj).symm
    · exact ⟨rfl,fun h => (h rfl).elim,fun _ => HubMode.noConfusion,fun _ h => by cases h⟩
  case h_3 hmode => exact browsed_hubBrowse pr code hmode
  case h_4 hmode => exact (hd hmode).elim

/-! ## The run of a hub -/

/-- What is opened is the item that the hub will find again. -/
def HubRun.Coherent (categories : List (List HubItem)) (s : HubRun α β) : Prop :=
  match s.w with
  | .hub d => d.mode ≠ .editing ∧ Keyed categories d
  | .hubOver d _ =>
      d.mode = .editing ∧ Keyed categories d ∧
        ∃ item, hubGetItem d = some item ∧ s.opened = some item.id
  | _ => False

theorem getObjectItem_proceed {d : HubData} {id : Bytes} (hid : id ∈ d.values.map Prod.fst) :
    ∃ value, hubGet d id = some value ∧
      (Json.object (d.values.map fun x => (x.1,.string x.2))).getObjectItem id =
        some (.string value) := by
  obtain ⟨x,hx⟩ := Option.isSome_iff_exists.1 ((lookup_isSome_iff d.values).2 hid)
  refine ⟨x.2,?_,?_⟩
  · rw [hubGet,show d.values.find? _ = some x from hx]
    rfl
  · rw [Json.getObjectItem,List.find?_map]
    simp only [Function.comp_def]
    rw [show d.values.find? _ = some x from hx]
    rfl

variable {categories : List (List HubItem)} {actions : List Bytes}

/-- An event that is no key leaves everything as it is. -/
theorem take_of_not_key {s : HubRun α β} (hs : s.Coherent categories) {ev : Event}
    (hev : ∀ code ch, ev ≠ .key code ch) :
    (s.take pr ev).w = s.w ∧ (s.take pr ev).opened = s.opened ∧ (s.take pr ev).last = s.last ∧
      (s.take pr ev).proceeded = none ∧ answerOf pr ev s.b s.w = none := by
  obtain ⟨w,b,opened,last,proceeded⟩ := s
  cases w with
  | hub d =>
      cases ev with
      | key code ch => exact (hev code ch rfl).elim
      | _ => exact ⟨rfl,rfl,rfl,rfl,rfl⟩
  | hubOver d sub =>
      cases ev with
      | key code ch => exact (hev code ch rfl).elim
      | _ => exact ⟨rfl,rfl,rfl,rfl,rfl⟩
  | _ => exact hs.elim

theorem keyed_hubAccept {d : HubData} (hd : Keyed categories d) (r : WidgetResponse) :
    Keyed categories (hubAccept d r) := by
  unfold hubAccept
  dsimp only
  split
  · split_ifs
    · exact hd
    · exact keyed_hubSet hd _ _
  · exact hd

theorem HubRun.Coherent.take {s : HubRun α β} (hs : s.Coherent categories) (ev : Event) :
    (s.take pr ev).Coherent categories := by
  by_cases hev : ∀ code ch, ev ≠ .key code ch
  · obtain ⟨hw,hopened,-⟩ := take_of_not_key pr hs hev
    unfold HubRun.Coherent
    rw [hw,hopened]
    exact hs
  simp only [not_forall,not_not] at hev
  obtain ⟨code,ch,rfl⟩ := hev
  obtain ⟨w,b,opened,last,proceeded⟩ := s
  cases w with
  | hub d =>
      obtain ⟨hmode,hkeyed⟩ := hs
      have hbrowsed := browsed_hubKey pr code ch hmode
      simp only [HubRun.take,handleEvent,keysOnly]
      generalize hubKey pr code ch d = r at hbrowsed
      obtain ⟨result,d',made⟩ := r
      have hkeyed' : Keyed categories d' := fun item hitem => hbrowsed.values ▸ hkeyed item hitem
      cases made with
      | none => exact ⟨hbrowsed.stays rfl,hkeyed'⟩
      | some sub =>
          obtain ⟨hediting,hsame,hsome⟩ := hbrowsed.opens (Option.some_ne_none _)
          obtain ⟨item,hitem⟩ := Option.ne_none_iff_exists'.1 hsome
          exact ⟨hediting,hkeyed',item,hsame.trans hitem,congrArg (Option.map HubItem.id) hitem⟩
  | hubOver d sub =>
      obtain ⟨hmode,hkeyed,item,hitem,hopened⟩ := hs
      simp only [HubRun.take,handleEvent,keysOnly,if_pos hmode]
      generalize handleEvent pr (.key code ch) sub b = r
      obtain ⟨result,sub',b'⟩ := r
      cases result with
      | response r => exact ⟨HubMode.noConfusion,keyed_hubAccept hkeyed r⟩
      | handled => exact ⟨hmode,hkeyed,item,hitem,hopened⟩
      | unhandled => exact ⟨hmode,hkeyed,item,hitem,hopened⟩
  | _ => exact hs.elim

/-- A hub that edits nothing changes no value. -/
theorem faithful_take_hub {s : HubRun α β} {d : HubData} (hw : s.w = .hub d)
    (hs : s.Coherent categories) (hf : Faithful categories s) (code : KeyCode) (ch : UInt8) :
    Faithful categories (s.take pr (.key code ch)) := by
  obtain ⟨w,b,opened,last,proceeded⟩ := s
  subst hw
  obtain ⟨hmode,hkeyed⟩ := hs
  have hget : ∀ id, hubGet d id = last id := hf.1 d rfl
  have hbrowsed := browsed_hubKey pr code ch hmode
  simp only [HubRun.take,handleEvent,keysOnly,answerOf]
  generalize hubKey pr code ch d = r at hbrowsed
  obtain ⟨result,d',made⟩ := r
  have hget' : ∀ id, hubGet d' id = last id := fun id => by
    rw [← hget id,hubGet,hubGet,show d'.values = d.values from hbrowsed.values]
  constructor
  · cases made with
    | none =>
        rintro _ ⟨⟩
        exact hget'
    | some sub =>
        rintro _ ⟨⟩
        exact hget'
  · intro j hj item hitem
    cases result with
    | response q =>
        simp only [objectOf] at hj
        split_ifs at hj with hproceed
        rw [hbrowsed.proceeds q rfl hproceed j hj]
        obtain ⟨value,hvalue,hmember⟩ := getObjectItem_proceed (hkeyed item hitem)
        exact ⟨value,(hget _).symm.trans hvalue,hmember⟩
    | handled => cases hj
    | unhandled => cases hj

/-- What the hub makes of an answer. -/
theorem hubGet_hubAccept {d : HubData} {item : HubItem} (hitem : hubGetItem d = some item)
    (r : WidgetResponse) :
    hubGet (hubAccept d r) =
      match (if ¬r.cancelled then r.result else none).bind hubText with
      | some text => Function.update (hubGet d) item.id (some text)
      | none => hubGet d := by
  unfold hubAccept
  rw [hitem]
  by_cases hcancelled : r.cancelled = true
  · rw [if_neg (not_not_intro hcancelled)]
    cases r.result.bind hubText with
    | none => rfl
    | some text =>
        dsimp only
        rw [if_pos hcancelled]
        rfl
  · rw [if_pos hcancelled]
    cases r.result.bind hubText with
    | none => rfl
    | some text =>
        dsimp only
        rw [if_neg hcancelled]
        exact hubGet_hubSet d item.id text

/-- A widget in a hub may answer. -/
theorem faithful_take_hubOver {s : HubRun α β} {d : HubData} {sub : Widget α}
    (hw : s.w = .hubOver d sub) (hs : s.Coherent categories) (hf : Faithful categories s)
    (code : KeyCode) (ch : UInt8) :
    Faithful categories (s.take pr (.key code ch)) ↔ KeepsText pr s (.key code ch) := by
  obtain ⟨w,b,opened,last,proceeded⟩ := s
  subst hw
  obtain ⟨hmode,hkeyed,item,hitem,hopened⟩ := hs
  have hget : ∀ id, hubGet d id = last id := hf.1 d rfl
  dsimp only at hopened
  subst hopened
  unfold KeepsText
  simp only [HubRun.take,handleEvent,keysOnly,answerOf,hmode,true_and]
  generalize handleEvent pr (.key code ch) sub b = r
  obtain ⟨result,sub',b'⟩ := r
  cases result with
  | handled =>
      refine iff_of_true ⟨?_,fun _ h => by cases h⟩ ?_
      · rintro _ ⟨⟩
        exact hget
      · intro id v text _ hv
        cases hv
  | unhandled =>
      refine iff_of_true ⟨?_,fun _ h => by cases h⟩ ?_
      · rintro _ ⟨⟩
        exact hget
      · intro id v text _ hv
        cases hv
  | response r =>
      have haccept := hubGet_hubAccept hitem r
      rw [show hubGet d = last from funext hget] at haccept
      dsimp only
      generalize (if ¬r.cancelled = true then r.result else none) = answer at haccept
      generalize hubAccept d r = d' at haccept
      have hfaithful : ∀ last' : Bytes → Option Bytes, Faithful categories
          (⟨.hub d',b',some item.id,last',objectOf .handled (.hubOver d sub)⟩ : HubRun α β) ↔
            hubGet d' = last' := fun last' =>
        ⟨fun h => funext (h.1 d' rfl),fun h => ⟨fun _ hd => Option.some.inj hd ▸ congrFun h,
          fun _ hj => by cases hj⟩⟩
      refine (hfaithful _).trans ?_
      rw [haccept]
      cases answer with
      | none => exact iff_of_true rfl fun _ _ _ _ h => by cases h
      | some v =>
          simp only [Option.bind_some]
          cases hkept : hubText v with
          | some text =>
              rw [hubText_eq hkept]
              refine iff_of_true rfl fun _ v' text' _ hv htext => Or.inl ?_
              obtain rfl := Option.some.inj hv
              exact (storable_iff (by simp [htext])).2 (by simp [hkept])
          | none =>
              cases htext : valueText v with
              | none =>
                  refine iff_of_true rfl fun _ v' text' _ hv ht => ?_
                  rw [← Option.some.inj hv,htext] at ht
                  cases ht
              | some text =>
                  -- The hub keeps nothing, so only the old value can be the right one.
                  change last = Function.update last item.id (some text) ↔ _
                  constructor
                  · rintro hlast id v' text' ⟨⟩ ⟨⟩ htext'
                    rw [htext] at htext'
                    right
                    rw [hlast,Function.update_self,htext']
                  · intro h
                    have hlost : ¬Storable v := fun hv => (storable_iff (by simp [htext])).1 hv hkept
                    have hlast := (h item.id v text rfl rfl htext).resolve_left hlost
                    rw [← hlast,Function.update_eq_self]

theorem hubGet_foldl (items : List HubItem) {d : HubData} (hd : d.values = []) (id : Bytes) :
    hubGet (items.foldl (fun d item => hubSet d item.id item.value) d) id =
      (items.reverse.find? fun item => item.id = id).map HubItem.value := by
  induction items using List.reverseRecOn with
  | nil =>
      rw [List.foldl_nil,hubGet,hd]
      rfl
  | append_singleton items item ih =>
      rw [List.foldl_append,List.foldl_cons,List.foldl_nil,hubGet_hubSet,List.reverse_append,
        List.reverse_singleton,List.singleton_append,List.find?_cons]
      by_cases hid : item.id = id
      · rw [← hid,Function.update_self]
        simp
      · rw [Function.update_of_ne (Ne.symm hid),ih]
        simp [hid]

theorem mode_foldl (items : List HubItem) (d : HubData) :
    (items.foldl (fun d item => hubSet d item.id item.value) d).mode = d.mode := by
  induction items generalizing d with
  | nil => rfl
  | cons item items ih => exact ih _

theorem coherent_start (b : β) :
    (HubRun.start categories actions b : HubRun α β).Coherent categories := by
  constructor
  · rw [hubWidgetNew,mode_foldl]
    exact HubMode.noConfusion
  · intro item hitem
    refine (lookup_isSome_iff _).1 ?_
    rw [← Option.isSome_map (f := Prod.snd)]
    change (hubGet (hubWidgetNew categories actions) item.id).isSome
    rw [hubWidgetNew,hubGet_foldl categories.flatten rfl,Option.isSome_map,List.find?_isSome]
    exact ⟨item,List.mem_reverse.2 hitem,decide_eq_true rfl⟩

theorem faithful_start (b : β) :
    Faithful categories (HubRun.start categories actions b : HubRun α β) := by
  constructor
  · rintro _ ⟨⟩ id
    exact hubGet_foldl categories.flatten rfl id
  · intro j hj
    cases hj

theorem faithful_take {s : HubRun α β} (hs : s.Coherent categories) (ev : Event)
    (hf : Faithful categories s) : Faithful categories (s.take pr ev) ↔ KeepsText pr s ev := by
  by_cases hev : ∀ code ch, ev ≠ .key code ch
  · obtain ⟨hw,-,hlast,hproceeded,hanswer⟩ := take_of_not_key pr hs hev
    refine iff_of_true ⟨?_,?_⟩ ?_
    · rw [hw,hlast]
      exact hf.1
    · intro j hj
      rw [hproceeded] at hj
      cases hj
    · intro id v text _ hv
      rw [hanswer] at hv
      cases hv
  simp only [not_forall,not_not] at hev
  obtain ⟨code,ch,rfl⟩ := hev
  cases hw : s.w with
  | hub d =>
      refine iff_of_true (faithful_take_hub pr hw hs hf code ch) ?_
      intro id v text _ hv
      rw [hw] at hv
      cases hv
  | hubOver d sub => exact faithful_take_hubOver pr hw hs hf code ch
  | _ =>
      rw [HubRun.Coherent,hw] at hs
      exact hs.elim

/-- The hub has every last value as long as it keeps the text of every answer. -/
theorem answers_kept_iff (categories : List (List HubItem)) (actions : List Bytes) (b : β)
    (evs : List Event) :
    Always (HubRun.take pr) (Faithful categories) (HubRun.start categories actions b) evs ↔
      Guarded (HubRun.take pr) (KeepsText pr) (HubRun.start categories actions b) evs := by
  have hfree : Guarded (HubRun.take pr) (fun _ _ => True)
      (HubRun.start categories actions b) evs := Guarded.of_forall (fun _ _ => trivial) _ evs
  exact hfree.always_iff (I := HubRun.Coherent categories) (fun _ ev hs _ => hs.take pr ev)
    (fun _ ev hs _ hf => faithful_take pr hs ev hf) (coherent_start b) (faithful_start b)

/-! ## A hub with a slider -/

structure RangeSlider where
  min : ℤ
  max : ℤ
  value : ℤ

def rsHandleEvent (ev : Event) (d : RangeSlider) (b : Unit) : EventResult × RangeSlider × Unit :=
  match ev with
  | .key .keyEsc _ => (cancelled,d,b)
  | .key .keyLeft _ => (.handled,{ d with value := if d.min ≤ d.value-1 then d.value-1 else d.min },b)
  | .key .keyRight _ => (.handled,{ d with value := if d.value+1 ≤ d.max then d.value+1 else d.max },b)
  | .key .keyEnter _ => (answered (.number ⟨d.value < 0,d.value.natAbs,0⟩),d,b)
  | _ => (.unhandled,d,b)

/-- A program with sliders. A hub gives their numbers no values, so all are 0. -/
def sliderProgram : Program RangeSlider Unit where
  services :=
    { regexec := fun _ _ => true
      filAccepts := fun _ _ _ => true
      humanToBytes := fun _ => 0
      nineTenths := fun h => h*9/10
      writeFile := fun _ _ b => b }
  others :=
    { render := fun w => (.mk .container ⟨15,8,50,7⟩ [] 0 none [],w)
      handleEvent := rsHandleEvent
      isDirty := fun _ => true
      clearDirty := id
      markDirty := id
      setRenderArea := fun _ _ w => w
      acceptsTextInput := fun _ => false }
  widgetRegistryCreate := fun widget _ =>
    if widget = bytes "range_slider" then some ⟨.other ⟨0,0,0⟩,trivial⟩ else none
  picture := fun _ => .mk .container ⟨0,0,80,24⟩ [] 0 none []

/-- The answer 0 is dropped, and the item keeps its 7. -/
theorem number_is_dropped :
    ¬Always (HubRun.take sliderProgram)
      (Faithful [[⟨bytes "volume",[],bytes "7",bytes "range_slider",[],[],[],[]⟩]])
      (HubRun.start [[⟨bytes "volume",[],bytes "7",bytes "range_slider",[],[],[],[]⟩]] [] ())
      [.key .keyEnter 0,.key .keyEnter 0] := by
  intro h
  have hget := h.2.2.1 _ rfl (bytes "volume")
  revert hget
  decide +kernel

end Filly.SessionLoop
