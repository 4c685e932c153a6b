import Filly.KeyedList
import Filly.TextWidgets

/-!
# The hub and all widgets together

A hub shows its items by category and edits one of them in a widget of its own, which
it makes when the item is opened and drops when that widget responds. Any widget can
stand in a hub, so the widgets with a text, the hubs and all the others form one type.

Widgets that can be built and reached are `Valid`: cursors are within their texts, a
hub that edits has a widget, and the flag that turns the key table off is as the
source keeps it.
-/
namespace Filly.SessionLoop
open CJson Keys Protocol Rectangles KeyedList

structure HubItem where
  id : Bytes
  label : Bytes
  value : Bytes
  widget : Bytes
  choices : List Bytes
  placeholder : Bytes
  message : Bytes
  visibleIf : List (Bytes × Bytes)

inductive HubMode where
  | browsing | editing | confirmProceed | confirmQuit
  deriving DecidableEq, Repr

structure HubData where
  base : WidgetBase
  /-- The items of each category. -/
  categories : List (List HubItem)
  actions : List Bytes
  catIdx : ℤ
  itemIdx : ℕ
  values : List (Bytes × Bytes)
  mode : HubMode

def hubGet (d : HubData) (key : Bytes) : Option Bytes :=
  (d.values.find? fun x => x.1 = key).map Prod.snd

def hubSet (d : HubData) (key value : Bytes) : HubData :=
  { d with values :=
      if key ∈ d.values.map Prod.fst then modify Prod.fst key (fun x => (x.1,value)) d.values
      else d.values++[(key,value)] }

/-- The parts between commas, without empty ones and without spaces in front. -/
def conditionTokens (cond : Bytes) : List Bytes :=
  ((cond.splitOn 44).filter (· ≠ [])).map (List.dropWhile (· = 32))

def hubVisible (d : HubData) (item : HubItem) : Bool :=
  item.visibleIf.all fun x =>
    match hubGet d x.1 with
    | none => false
    | some v => (conditionTokens x.2).contains v

/-- The visible items of the category. A number that is none of a category has no items
here; the source reads past its array. -/
def hubItems (d : HubData) : List HubItem :=
  if d.catIdx < 0 then [] else (d.categories.getD d.catIdx.toNat []).filter (hubVisible d)

def hubGetItem (d : HubData) : Option HubItem := (hubItems d)[d.itemIdx]?

def hubVisibleCount (d : HubData) : ℕ := (hubItems d).length

/-- A member that is only there if its text is not empty. -/
def textMember (name : String) (text : Bytes) : List (Bytes × Json) :=
  if text = [] then [] else [(bytes name,.string text)]

/-- The parameters of the widget that edits an item. -/
def hubParams (d : HubData) (item : HubItem) : Json :=
  .object ((bytes "title",.string item.label)::
    (textMember "message" item.message++
      textMember "default" ((hubGet d item.id).getD item.value)++
      textMember "placeholder" item.placeholder++
      if item.choices = [] then []
      else [(bytes "choices",.array (item.choices.map .string))]))

/-- The text under which a result is kept, if it is of a kind that is kept. -/
def hubText : Json → Option Bytes
  | .string s => some s
  | .bool true => some (bytes "yes")
  | .bool false => some (bytes "no")
  | .array items => cJSONPrintUnformatted (.array items)
  | .object members => cJSONPrintUnformatted (.object members)
  | .null | .number _ => none

/-- The response of the widget in the hub is kept and the widget dropped. -/
def hubAccept (d : HubData) (r : WidgetResponse) : HubData :=
  let d :=
    match hubGetItem d, r.result.bind hubText with
    | some item, some text => if r.cancelled then d else hubSet d item.id text
    | _, _ => d
  { d with mode := .browsing, base := { d.base.touch with acceptsTextInput := false } }

def HubData.touch (d : HubData) : HubData := { d with base := d.base.touch }

/-- The number of a function key. -/
def functionKey (code : KeyCode) : Option ℕ :=
  if KeyCode.keyF1.code ≤ code.code ∧ code.code ≤ KeyCode.keyF12.code then
    some (code.code-KeyCode.keyF1.code).toNat
  else none

/-- Every widget of the program; `α` has those without a text of their own. A hub is
there with and without a widget in it. -/
inductive Widget (α : Type) where
  | input (d : InputData)
  | password (d : PasswordData)
  | filter (d : FilterData)
  | multiselect (d : MultiselectData)
  | form (d : FormData)
  | textEditor (d : TextEditorData)
  | disk (d : DiskData)
  | hub (d : HubData)
  | hubOver (d : HubData) (sub : Widget α)
  | other (a : α)

variable {α β : Type}

def Widget.Valid : Widget α → Prop
  | .input d => d.cursor ≤ d.text.length ∧ d.base.acceptsTextInput = true
  | .password d => d.base.acceptsTextInput = true
  | .filter d => d.base.acceptsTextInput = true
  | .multiselect d => d.base.acceptsTextInput = true
  | .form d => d.focused < d.fields.length → d.base.acceptsTextInput = true
  | .textEditor d =>
      d.row < d.lines.length ∧ d.col ≤ d.line.length ∧ d.base.acceptsTextInput = true
  | .disk d => d.base.acceptsTextInput = false
  | .hub d => d.mode ≠ .editing
  | .hubOver d sub => d.mode = .editing ∧ d.base.acceptsTextInput = true ∧ sub.Valid
  | .other _ => True

/-- The parts of the program around the widgets: the other widgets, the registry that
makes widgets by name, and the picture of a widget. -/
structure Program (α β : Type) where
  services : Services β
  others : WidgetVTable α β
  widgetRegistryCreate : Bytes → Json → Option { w : Widget α // w.Valid }
  picture : Widget α → RenderTree

/-- Keys of a hub that edits nothing, with the widget that an item is opened in. -/
def hubBrowse (pr : Program α β) (code : KeyCode) (d : HubData) :
    EventResult × HubData × Option (Widget α) :=
  match code with
  | .keyEsc => (.handled,{ d.touch with mode := .confirmQuit },none)
  | .keyUp => (.handled,{ d.touch with itemIdx := d.itemIdx-1 },none)
  | .keyDown =>
      (.handled,{ d.touch with itemIdx :=
          if d.itemIdx+1 < hubVisibleCount d then d.itemIdx+1 else d.itemIdx },none)
  | .keyLeft =>
      (.handled,{ d.touch with itemIdx := 0, catIdx :=
          if 0 < d.catIdx then d.catIdx-1 else d.categories.length-1 },none)
  | .keyRight | .keyTab =>
      (.handled,{ d.touch with itemIdx := 0, catIdx :=
          if d.catIdx+1 < d.categories.length then d.catIdx+1 else 0 },none)
  | .keyEnter =>
      match hubGetItem d with
      | none => (.handled,d,none)
      | some item =>
          match pr.widgetRegistryCreate item.widget (hubParams d item) with
          | none => (.handled,d,none)
          | some sub =>
              (.handled,{ d with mode := .editing,
                                 base := { d.base.touch with acceptsTextInput := true } },
                some sub.1)
  | _ =>
      match (functionKey code).bind (d.actions[·]?) with
      | none => (.unhandled,d,none)
      | some action =>
          if action = bytes "Proceed" then (.handled,{ d.touch with mode := .confirmProceed },none)
          else (answered (.string action),d,none)

def hubKey (pr : Program α β) (code : KeyCode) (ch : UInt8) (d : HubData) :
    EventResult × HubData × Option (Widget α) :=
  let yes := code = .keyChar ∧ (ch = 121 ∨ ch = 89)
  let off : HubData := { d with base := { d.base with acceptsTextInput := false } }
  match d.mode with
  | .confirmQuit =>
      if yes then (cancelled,off,none) else (.handled,{ d.touch with mode := .browsing },none)
  | .confirmProceed =>
      if yes then (answered (.object (d.values.map fun x => (x.1,.string x.2))),off,none)
      else (.handled,{ d.touch with mode := .browsing },none)
  | .browsing | .editing => hubBrowse pr code d

/-- A hub with the widget it just made, or else the one it had. -/
def hubWith (d : HubData) (made had : Option (Widget α)) : Widget α :=
  match made.or had with
  | none => .hub d
  | some sub => .hubOver d sub

/-- The widgets of the program leave every event alone that is no key. -/
def keysOnly (ev : Event) (w : Widget α) (b : β)
    (f : KeyCode → UInt8 → EventResult × Widget α × β) : EventResult × Widget α × β :=
  match ev with
  | .key code ch => f code ch
  | _ => (.unhandled,w,b)

def handleEvent (pr : Program α β) (ev : Event) : Widget α → β → EventResult × Widget α × β
  | .input d, b => keysOnly ev (.input d) b fun code ch =>
      let (result,d) := inputHandleEvent pr.services code ch d b
      (result,.input d,b)
  | .password d, b => keysOnly ev (.password d) b fun code ch =>
      let (result,d) := passwordHandleEvent code ch d
      (result,.password d,b)
  | .filter d, b => keysOnly ev (.filter d) b fun code ch =>
      let (result,d) := filterHandleEvent code ch d
      (result,.filter d,b)
  | .multiselect d, b => keysOnly ev (.multiselect d) b fun code ch =>
      let (result,d) := multiselectHandleEvent code ch d
      (result,.multiselect d,b)
  | .form d, b => keysOnly ev (.form d) b fun code ch =>
      let (result,d) := formHandleEvent code ch d
      (result,.form d,b)
  | .textEditor d, b => keysOnly ev (.textEditor d) b fun code ch =>
      let (result,d,b) := textEditorHandleEvent pr.services code ch d b
      (result,.textEditor d,b)
  | .disk d, b => keysOnly ev (.disk d) b fun code ch =>
      let (result,d) := diskHandleEvent pr.services code ch d
      (result,.disk d,b)
  | .hub d, b => keysOnly ev (.hub d) b fun code ch =>
      let (result,d,made) := hubKey pr code ch d
      (result,hubWith d made none,b)
  | .hubOver d sub, b => keysOnly ev (.hubOver d sub) b fun code ch =>
      if d.mode = .editing then
        match handleEvent pr ev sub b with
        | (.response r,_,b) => (.handled,.hub (hubAccept d r),b)
        | (_,sub,b) => (.handled,.hubOver d sub,b)
      else
        let (result,d,made) := hubKey pr code ch d
        (result,hubWith d made (some sub),b)
  | .other a, b =>
      let (result,a,b) := pr.others.handleEvent ev a b
      (result,.other a,b)

/-- What rendering changes in a widget. -/
def renderUpdate (pr : Program α β) : Widget α → Widget α
  | .filter d => .filter (filterUpdate d)
  | .multiselect d => .multiselect (msUpdate d)
  | .textEditor d => .textEditor (textEditorRender pr.services d)
  | .hubOver d sub => .hubOver d (if d.mode = .editing then renderUpdate pr sub else sub)
  | .other a => .other (pr.others.render a).2
  | .input d => .input d
  | .password d => .password d
  | .form d => .form d
  | .disk d => .disk d
  | .hub d => .hub d

/-- The record at the start of a widget. -/
def Widget.base : Widget α → WidgetBase ⊕ α
  | .input d => .inl d.base
  | .password d => .inl d.base
  | .filter d => .inl d.base
  | .multiselect d => .inl d.base
  | .form d => .inl d.base
  | .textEditor d => .inl d.base
  | .disk d => .inl d.base
  | .hub d => .inl d.base
  | .hubOver d _ => .inl d.base
  | .other a => .inr a

def Widget.mapBase (f : WidgetBase → WidgetBase) (g : α → α) : Widget α → Widget α
  | .input d => .input { d with base := f d.base }
  | .password d => .password { d with base := f d.base }
  | .filter d => .filter { d with base := f d.base }
  | .multiselect d => .multiselect { d with base := f d.base }
  | .form d => .form { d with base := f d.base }
  | .textEditor d => .textEditor { d with base := f d.base }
  | .disk d => .disk { d with base := f d.base }
  | .hub d => .hub { d with base := f d.base }
  | .hubOver d sub => .hubOver { d with base := f d.base } sub
  | .other a => .other (g a)

/-! ## Valid widgets stay valid -/

theorem insertAt_length {i : ℕ} {c : UInt8} {text : Bytes} :
    (insertAt i c text).length = text.length+1 := by
  simp only [insertAt,List.length_append,List.length_cons,List.length_take,List.length_drop]
  omega

theorem valid_mapBase (f : WidgetBase → WidgetBase) (g : α → α)
    (hf : ∀ base, (f base).acceptsTextInput = base.acceptsTextInput) {w : Widget α}
    (hw : w.Valid) : (w.mapBase f g).Valid := by
  cases w with
  | input d => exact ⟨hw.1,(hf _).trans hw.2⟩
  | password d => exact (hf _).trans hw
  | filter d => exact (hf _).trans hw
  | multiselect d => exact (hf _).trans hw
  | form d => exact fun h => (hf _).trans (hw h)
  | textEditor d => exact ⟨hw.1,hw.2.1,(hf _).trans hw.2.2⟩
  | disk d => exact (hf _).trans hw
  | hub d => exact hw
  | hubOver d sub => exact ⟨hw.1,(hf _).trans hw.2.1,hw.2.2⟩
  | other a => trivial

theorem valid_input (sv : Services β) (code : KeyCode) (ch : UInt8) (b : β) {d : InputData}
    (hd : (Widget.input d : Widget α).Valid) :
    (Widget.input (inputHandleEvent sv code ch d b).2 : Widget α).Valid := by
  obtain ⟨hcursor,hflag⟩ := hd
  unfold inputHandleEvent
  split
  case h_3 => exact ⟨by rw [insertAt_length]; exact Nat.succ_le_succ hcursor,hflag⟩
  case h_4 =>
    split_ifs with hpos
    · refine ⟨?_,hflag⟩
      rw [List.length_eraseIdx_of_lt (by omega)]
      exact Nat.sub_le_sub_right hcursor 1
    · exact ⟨hcursor,hflag⟩
  case h_5 =>
    split_ifs with hlt
    · refine ⟨?_,hflag⟩
      rw [List.length_eraseIdx_of_lt hlt]
      exact Nat.le_sub_one_of_lt hlt
    · exact ⟨hcursor,hflag⟩
  case h_6 => exact ⟨(Nat.sub_le _ _).trans hcursor,hflag⟩
  case h_7 =>
    dsimp only
    split_ifs with hlt
    · exact ⟨hlt,hflag⟩
    · exact ⟨hcursor,hflag⟩
  case h_8 => exact ⟨Nat.zero_le _,hflag⟩
  case h_9 => exact ⟨le_rfl,hflag⟩
  all_goals
    try split_ifs
    all_goals exact ⟨hcursor,hflag⟩

theorem valid_password (code : KeyCode) (ch : UInt8) {d : PasswordData}
    (hd : (Widget.password d : Widget α).Valid) :
    (Widget.password (passwordHandleEvent code ch d).2 : Widget α).Valid := by
  unfold passwordHandleEvent
  split
  all_goals
    try split_ifs
    all_goals exact hd

theorem valid_filter (code : KeyCode) (ch : UInt8) {d : FilterData}
    (hd : (Widget.filter d : Widget α).Valid) :
    (Widget.filter (filterHandleEvent code ch d).2 : Widget α).Valid := by
  unfold filterHandleEvent
  split
  case h_4 =>
    split
    all_goals exact hd
  all_goals
    try split_ifs
    all_goals exact hd

theorem toggle_base (d : MultiselectData) :
    d.toggle.base.acceptsTextInput = d.base.acceptsTextInput := by
  unfold MultiselectData.toggle
  split
  all_goals rfl

theorem valid_multiselect (code : KeyCode) (ch : UInt8) {d : MultiselectData}
    (hd : (Widget.multiselect d : Widget α).Valid) :
    (Widget.multiselect (multiselectHandleEvent code ch d).2 : Widget α).Valid := by
  unfold multiselectHandleEvent
  split
  case h_4 =>
    split_ifs
    · exact (toggle_base d).trans hd
    · exact hd
  all_goals
    try split_ifs
    all_goals exact hd

theorem valid_form (code : KeyCode) (ch : UInt8) {d : FormData}
    (hd : (Widget.form d : Widget α).Valid) :
    (Widget.form (formHandleEvent code ch d).2 : Widget α).Valid := by
  have hfocus : ∀ i, (Widget.form (d.focus i) : Widget α).Valid := fun i h => by
    simpa [FormData.focus] using h
  have hedit : ∀ f, (Widget.form (d.edit f) : Widget α).Valid := fun f h => by
    rw [FormData.edit,List.length_modify] at h
    exact hd h
  unfold formHandleEvent
  split
  case h_2 => exact hfocus _
  case h_3 => exact hfocus _
  case h_6 =>
    split
    · split_ifs
      · exact hedit _
      · exact hd
    · exact hd
  all_goals
    try split_ifs
    all_goals first | exact hd | exact hedit _

theorem commit_base (d : DiskData) (size : Bytes) : (d.commit size).base = d.base := by
  unfold DiskData.commit
  split_ifs
  all_goals rfl

/-- No key of a disk changes its flag, in any mode. -/
theorem valid_disk (sv : Services β) (code : KeyCode) (ch : UInt8) {d : DiskData}
    (hd : (Widget.disk d : Widget α).Valid) :
    (Widget.disk (diskHandleEvent sv code ch d).2 : Widget α).Valid := by
  have hinput : (Widget.disk (diskInput sv code ch d).2 : Widget α).Valid := by
    unfold diskInput
    split
    case h_2 =>
      split
      · exact hd
      · split_ifs
        · exact (congrArg WidgetBase.acceptsTextInput (commit_base d _)).trans hd
        · exact hd
    all_goals exact hd
  have hcommand : (Widget.disk (diskCommand ch d).2 : Widget α).Valid := by
    unfold diskCommand
    split_ifs
    all_goals exact hd
  unfold diskHandleEvent
  split
  · split_ifs
    all_goals exact hd
  · exact hinput
  · exact hinput
  · split
    case h_3 =>
      dsimp only
      split_ifs
      all_goals exact hd
    case h_4 =>
      split_ifs
      · exact hd
      · exact hcommand
    all_goals exact hd

/-- The cursor of an editor is within its lines. -/
def TextEditorData.Within (d : TextEditorData) : Prop :=
  d.row < d.lines.length ∧ d.col ≤ d.line.length

theorem within_teClampCursor (d : TextEditorData) : (teClampCursor d).Within := by
  unfold teClampCursor
  by_cases hlines : d.lines = []
  · rw [if_pos hlines]
    exact ⟨by simp,min_le_right _ _⟩
  · rw [if_neg hlines]
    have hpos := List.length_pos_of_ne_nil hlines
    exact ⟨by simp only; omega,min_le_right _ _⟩

/-- Rendering an editor moves its window only. -/
theorem teClampCursor_of_within {d : TextEditorData} (hd : d.Within) :
    teClampCursor d = { d with scroll := (teClampCursor d).scroll } := by
  obtain ⟨hrow,hcol⟩ := hd
  have hlines : d.lines ≠ [] := List.ne_nil_of_length_pos (by omega)
  have hmin : min d.row (d.lines.length-1) = d.row := min_eq_left (by omega)
  unfold teClampCursor
  simp only [if_neg hlines,hmin,min_eq_left hcol]

theorem within_setLine {d : TextEditorData} (hrow : d.row < d.lines.length) {line : Bytes} {col : ℕ}
    (hcol : col ≤ line.length) : ({ d.setLine line with col := col } : TextEditorData).Within := by
  refine ⟨by simpa [TextEditorData.setLine] using hrow,?_⟩
  simpa [TextEditorData.setLine,TextEditorData.line,List.getD_eq_getElem?_getD,hrow] using hcol

theorem within_joinNext {d : TextEditorData} (hd : d.Within) (hnext : d.row+1 < d.lines.length) :
    d.joinNext.Within := by
  obtain ⟨hrow,hcol⟩ := hd
  constructor
  · simp only [TextEditorData.joinNext]
    rw [List.length_eraseIdx_of_lt (by simpa using hnext),List.length_set]
    omega
  · have hline : d.joinNext.line = d.line++d.lines.getD (d.row+1) [] := by
      simp [TextEditorData.joinNext,TextEditorData.line,List.getD_eq_getElem?_getD,
        List.getElem?_eraseIdx,hrow]
    rw [hline,List.length_append]
    exact hcol.trans (Nat.le_add_right _ _)

theorem within_breakLine {d : TextEditorData} (hrow : d.row < d.lines.length) :
    d.breakLine.Within := by
  refine ⟨?_,Nat.zero_le _⟩
  simp only [TextEditorData.breakLine]
  rw [List.length_insertIdx_of_le_length (by simpa using hrow),List.length_set]
  omega

theorem within_removeLine {d : TextEditorData} (hrow : d.row < d.lines.length)
    (hlines : 1 < d.lines.length) : d.removeLine.Within := by
  refine ⟨?_,Nat.zero_le _⟩
  have hlength := List.length_eraseIdx_of_lt hrow
  simp only [TextEditorData.removeLine]
  split_ifs
  all_goals omega

theorem teClampCursor_base (d : TextEditorData) : (teClampCursor d).base = d.base := by
  unfold teClampCursor
  dsimp only
  split_ifs
  all_goals rfl

theorem valid_textEditor_iff (d : TextEditorData) : (Widget.textEditor d : Widget α).Valid ↔
    d.Within ∧ d.base.acceptsTextInput = true := by
  rw [Widget.Valid,TextEditorData.Within,and_assoc]

theorem valid_textEditor (sv : Services β) (code : KeyCode) (ch : UInt8) (b : β)
    {d : TextEditorData} (hd : (Widget.textEditor d : Widget α).Valid) :
    (Widget.textEditor (textEditorHandleEvent sv code ch d b).2.1 : Widget α).Valid := by
  rw [valid_textEditor_iff] at hd ⊢
  obtain ⟨hwithin,hflag⟩ := hd
  have hclamp : ∀ e : TextEditorData, e.base = d.base → (teClampCursor e).touch.Within ∧
      (teClampCursor e).touch.base.acceptsTextInput = true := by
    intro e he
    refine ⟨within_teClampCursor e,?_⟩
    rw [← hflag,← he,← teClampCursor_base e]
    rfl
  unfold textEditorHandleEvent
  split
  case h_2 => exact hclamp _ rfl
  case h_3 =>
    apply hclamp
    split_ifs
    all_goals rfl
  case h_4 =>
    apply hclamp
    split_ifs
    all_goals rfl
  case h_5 =>
    apply hclamp
    split_ifs
    all_goals rfl
  case h_6 => exact ⟨⟨hwithin.1,Nat.zero_le _⟩,hflag⟩
  case h_7 => exact ⟨⟨hwithin.1,le_rfl⟩,hflag⟩
  case h_8 => exact hclamp _ rfl
  case h_9 => exact hclamp _ rfl
  case h_10 =>
    split_ifs with hcol hrow
    · have hle : d.col ≤ (d.line.eraseIdx d.col).length := by
        rw [List.length_eraseIdx_of_lt hcol]
        exact Nat.le_sub_one_of_lt hcol
      exact ⟨within_setLine hwithin.1 hle,hflag⟩
    · exact ⟨within_joinNext hwithin hrow,hflag⟩
    · exact ⟨hwithin,hflag⟩
  case h_11 => exact ⟨within_breakLine hwithin.1,hflag⟩
  case h_12 =>
    have hcol := hwithin.2
    split_ifs with hpos hrow
    · refine ⟨within_setLine hwithin.1 ?_,hflag⟩
      rw [List.length_eraseIdx_of_lt (by omega)]
      exact Nat.sub_le_sub_right hcol 1
    · have hrow' := hwithin.1
      refine ⟨within_joinNext
        (d := { d with row := d.row-1, col := (d.lines.getD (d.row-1) []).length })
        ⟨?_,le_rfl⟩ ?_,hflag⟩
      · dsimp only
        omega
      · dsimp only
        omega
    · exact ⟨hwithin,hflag⟩
  case h_13 =>
    split_ifs with hsave hdelete hlines hchar
    · exact ⟨hwithin,hflag⟩
    · exact ⟨within_removeLine hwithin.1 hlines,hflag⟩
    · exact ⟨hwithin,hflag⟩
    · refine ⟨within_setLine hwithin.1 ?_,hflag⟩
      rw [insertAt_length]
      exact Nat.succ_le_succ hwithin.2
    · exact ⟨hwithin,hflag⟩
  all_goals exact ⟨hwithin,hflag⟩

theorem hubBrowse_made {pr : Program α β} {code : KeyCode} {d : HubData} (hd : d.mode ≠ .editing) :
    (hubWith (hubBrowse pr code d).2.1 (hubBrowse pr code d).2.2 none).Valid := by
  unfold hubBrowse
  split
  case h_7 =>
    split
    · exact hd
    · split
      · exact hd
      · next sub _ => exact ⟨rfl,rfl,sub.2⟩
  case h_8 =>
    split
    · exact hd
    · split_ifs
      · exact HubMode.noConfusion
      · exact hd
  case h_1 => exact HubMode.noConfusion
  all_goals exact hd

/-- A hub that edits nothing opens valid widgets only. -/
theorem valid_hub (pr : Program α β) (code : KeyCode) (ch : UInt8) {d : HubData}
    (hd : d.mode ≠ .editing) :
    (hubWith (hubKey pr code ch d).2.1 (hubKey pr code ch d).2.2 none).Valid := by
  unfold hubKey
  dsimp only
  split
  · split_ifs
    · exact hd
    · exact HubMode.noConfusion
  · split_ifs
    · exact hd
    · exact HubMode.noConfusion
  · exact hubBrowse_made hd
  · exact hubBrowse_made hd

theorem valid_handleEvent (pr : Program α β) (ev : Event) {w : Widget α} (b : β) (hw : w.Valid) :
    (handleEvent pr ev w b).2.1.Valid := by
  have hkeys : ∀ (w : Widget α) (b : β) (f : KeyCode → UInt8 → EventResult × Widget α × β),
      w.Valid → (∀ code ch, ev = .key code ch → (f code ch).2.1.Valid) →
        (keysOnly ev w b f).2.1.Valid := by
    intro w b f hw hf
    cases ev with
    | key code ch => exact hf code ch rfl
    | _ => exact hw
  induction w generalizing b with
  | input d => exact hkeys _ _ _ hw fun code ch _ => valid_input pr.services code ch b hw
  | password d => exact hkeys _ _ _ hw fun code ch _ => valid_password code ch hw
  | filter d => exact hkeys _ _ _ hw fun code ch _ => valid_filter code ch hw
  | multiselect d => exact hkeys _ _ _ hw fun code ch _ => valid_multiselect code ch hw
  | form d => exact hkeys _ _ _ hw fun code ch _ => valid_form code ch hw
  | textEditor d => exact hkeys _ _ _ hw fun code ch _ => valid_textEditor pr.services code ch b hw
  | disk d => exact hkeys _ _ _ hw fun code ch _ => valid_disk pr.services code ch hw
  | hub d => exact hkeys _ _ _ hw fun code ch _ => valid_hub pr code ch hw
  | hubOver d sub ih =>
      obtain ⟨hmode,hflag,hsub⟩ := hw
      refine hkeys (.hubOver d sub) _ _ ⟨hmode,hflag,hsub⟩ fun code ch _ => ?_
      have hnext := ih b hsub
      rw [if_pos hmode]
      generalize handleEvent pr ev sub b = r at hnext
      obtain ⟨result,sub',b'⟩ := r
      cases result with
      | response r => exact HubMode.noConfusion
      | handled => exact ⟨hmode,hflag,hnext⟩
      | unhandled => exact ⟨hmode,hflag,hnext⟩
  | other a => trivial

theorem valid_renderUpdate (pr : Program α β) {w : Widget α} (hw : w.Valid) :
    (renderUpdate pr w).Valid := by
  induction w with
  | textEditor d =>
      rw [valid_textEditor_iff] at hw
      rw [renderUpdate,valid_textEditor_iff]
      refine ⟨within_teClampCursor _,?_⟩
      rw [textEditorRender,teClampCursor_base]
      exact hw.2
  | hubOver d sub ih =>
      obtain ⟨hmode,hflag,hsub⟩ := hw
      rw [renderUpdate,if_pos hmode]
      exact ⟨hmode,hflag,ih hsub⟩
  | other a => trivial
  | _ => exact hw

/-- The functions of a widget as the session calls them. -/
def widgetVTable (pr : Program α β) : WidgetVTable { w : Widget α // w.Valid } β where
  render w := (pr.picture w.1,⟨renderUpdate pr w.1,valid_renderUpdate pr w.2⟩)
  handleEvent ev w b :=
    let r := handleEvent pr ev w.1 b
    (r.1,⟨r.2.1,valid_handleEvent pr ev b w.2⟩,r.2.2)
  isDirty w :=
    match w.1.base with
    | .inl base => base.dirty
    | .inr a => pr.others.isDirty a
  clearDirty w :=
    ⟨w.1.mapBase WidgetBase.clear pr.others.clearDirty,
      valid_mapBase WidgetBase.clear _ (fun _ => rfl) w.2⟩
  markDirty w :=
    ⟨w.1.mapBase WidgetBase.touch pr.others.markDirty,
      valid_mapBase WidgetBase.touch _ (fun _ => rfl) w.2⟩
  setRenderArea termW termH w :=
    ⟨w.1.mapBase (WidgetBase.resize termW termH) (pr.others.setRenderArea termW termH),
      valid_mapBase (WidgetBase.resize termW termH) _ (fun _ => rfl) w.2⟩
  acceptsTextInput w :=
    match w.1.base with
    | .inl base => base.acceptsTextInput
    | .inr a => pr.others.acceptsTextInput a

end Filly.SessionLoop
