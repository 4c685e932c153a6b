import Filly.RequestMembers
import Filly.TreeRows

/-!
# Requests and the widgets made for them

The parameters of a request are taken out of its JSON by a table and put in an array of
untyped slots, from which the constructor of a widget takes what it expects. A text is
a C string there, so it ends before a null character.

The numbers of a plot are the one slot that is taken for what it is not: the array of
doubles is the JSON value itself. What a constructor or a key reads beyond the arrays it
has is no value here.
-/
namespace Filly.WidgetFactories
open CJson SessionLoop TreeRows
open Keys hiding Event

/-! ## The argument array -/

/-- A slot, with the type of the pointer or number in it. -/
inductive Arg where
  | str (s : Option Bytes)
  | int (n : ℤ)
  | json (j : Option Json)
  | strs (a : Option (List Bytes))

def Arg.asStr : Arg → Option Bytes
  | .str s => s
  | _ => none

def Arg.asInt : Arg → ℤ
  | .int n => n
  | _ => 0

def Arg.asJson : Arg → Option Json
  | .json j => j
  | _ => none

def Arg.asStrs : Arg → Option (List Bytes)
  | .strs a => a
  | _ => none

inductive ParamType where
  | str | int | bool | json | strs

structure ParamDesc where
  name : String
  type : ParamType
  defStr : Option String := none
  defInt : ℤ := 0

/-- The text of a value, or an empty one. -/
def textOf (j : Json) : Bytes := (strdup j).getD []

def extractParam (params : Json) (p : ParamDesc) : Arg :=
  let v := params.getObjectItem (bytes p.name)
  match p.type with
  | .str => .str ((v.bind strdup).or (p.defStr.map bytes))
  | .int | .bool => .int ((v.map Json.valueint).getD p.defInt)
  | .json => .json v
  | .strs => .strs (v.map fun v => v.children.map textOf)

def genericFactory {W : Type} (ctor : (ℕ → Arg) → W) (table : List ParamDesc) (params : Json) : W :=
  ctor fun i => (table.map (extractParam params)).getD i (.str none)

/-! ## `menu.c`, `radio_group.c` and `context_menu.c` -/

structure SelectData where
  base : WidgetBase := {}
  title : Option Bytes := none
  message : Option Bytes := none
  choices : List Bytes
  selected : ℕ

/-- The number of a choice, or else the first one. -/
def defaultIndex (choices : List Bytes) (d : ℤ) : ℕ :=
  if 0 ≤ d ∧ d < choices.length then d.toNat else 0

def menuWidgetNew (title message : Option Bytes) (choices : List Bytes) (d : ℤ) : SelectData where
  title := title
  message := message
  choices := choices
  selected := defaultIndex choices d

def radioGroupWidgetNew (title message : Option Bytes) (choices : List Bytes) (d : ℤ) :
    SelectData where
  title := title
  message := message
  choices := choices
  selected := defaultIndex choices d

def contextMenuWidgetNew (items : List Bytes) : SelectData where
  choices := items
  selected := 0

/-- The keys of all three. Enter takes the choice without looking how many there are. -/
def selectHandleEvent (ev : Event) (d : SelectData) : Option (EventResult × SelectData) :=
  match ev with
  | .key .keyEsc _ => some (cancelled,d)
  | .key .keyUp _ =>
      some (.handled,
        if 0 < d.selected then { d with selected := d.selected-1, base := d.base.touch } else d)
  | .key .keyDown _ =>
      some (.handled,
        if d.selected+1 < d.choices.length then
          { d with selected := d.selected+1, base := d.base.touch } else d)
  | .key .keyEnter _ => (d.choices[d.selected]?).map fun c => (answered (.string c),d)
  | _ => some (.unhandled,d)

def menuHandleEvent : Event → SelectData → Option (EventResult × SelectData) := selectHandleEvent

def radioGroupHandleEvent : Event → SelectData → Option (EventResult × SelectData) :=
  selectHandleEvent

def cmHandleEvent : Event → SelectData → Option (EventResult × SelectData) := selectHandleEvent

def menuCtor (a : ℕ → Arg) : Option SelectData :=
  let choices := (a 2).asStrs.getD []
  let index : ℤ :=
    match (a 4).asStr with
    | none => 0
    | some text => if text ∈ choices then choices.idxOf text else 0
  some (menuWidgetNew (a 0).asStr (a 1).asStr choices index)

def menuParams : List ParamDesc :=
  [⟨"title",.str,some "",0⟩,⟨"message",.str,some "",0⟩,⟨"choices",.strs,none,0⟩,
    ⟨"count",.int,none,0⟩,⟨"default",.str,some "",0⟩]

def radioGroupCtor (a : ℕ → Arg) : Option SelectData :=
  some (radioGroupWidgetNew (a 0).asStr (a 1).asStr ((a 2).asStrs.getD []) (a 4).asInt)

def radioGroupParams : List ParamDesc :=
  [⟨"title",.str,some "",0⟩,⟨"message",.str,some "",0⟩,⟨"choices",.strs,none,0⟩,
    ⟨"count",.int,none,0⟩,⟨"default",.int,none,0⟩]

def contextMenuCtor (a : ℕ → Arg) : Option SelectData :=
  some (contextMenuWidgetNew ((a 0).asStrs.getD []))

def contextMenuParams : List ParamDesc := [⟨"items",.strs,none,0⟩,⟨"count",.int,none,0⟩]

/-! ## `table.c` -/

structure TableData where
  base : WidgetBase := {}
  title : Bytes
  headers : List Bytes
  rows : List (List Bytes)
  selectedRow : ℕ := 0
  selectedCol : ℕ := 0

def tableHandleEvent (ev : Event) (d : TableData) : Option (EventResult × TableData) :=
  match ev with
  | .key .keyEsc _ => some (cancelled,d)
  | .key .keyUp _ => some (.handled,{ d with selectedRow := d.selectedRow-1, base := d.base.touch })
  | .key .keyDown _ =>
      some (.handled,{ d with
        selectedRow := if d.selectedRow+1 < d.rows.length then d.selectedRow+1 else d.selectedRow
        base := d.base.touch })
  | .key .keyLeft _ =>
      some (.handled,{ d with selectedCol := d.selectedCol-1, base := d.base.touch })
  | .key .keyRight _ =>
      some (.handled,{ d with
        selectedCol := if d.selectedCol+1 < d.headers.length then d.selectedCol+1 else d.selectedCol
        base := d.base.touch })
  | .key .keyEnter _ =>
      if d.selectedRow < d.rows.length ∧ d.selectedCol < d.headers.length then do
        let row ← d.rows[d.selectedRow]?
        let cell ← row[d.selectedCol]?
        return (answered (.string cell),d)
      else some (.handled,d)
  | _ => some (.unhandled,d)

/-- Each row gets as many cells as there are headers. -/
def tableCtor (a : ℕ → Arg) : Option TableData :=
  let headers := (a 1).asStrs.getD []
  let rows := ((a 3).asJson.map Json.children).getD []
  some { title := (a 0).asStr.getD [], headers := headers
         rows := rows.map fun row => (List.range headers.length).map fun j =>
          ((row.children[j]?).map textOf).getD [] }

def tableParams : List ParamDesc :=
  [⟨"title",.str,some "",0⟩,⟨"headers",.strs,none,0⟩,⟨"header_count",.int,none,0⟩,
    ⟨"rows",.json,none,0⟩,⟨"row_count",.int,none,0⟩]

/-! ## `tree.c` -/

/-- The nodes have no children. -/
def treeCtor (a : ℕ → Arg) : Option TreeData :=
  let nodes := ((a 1).asJson.map Json.children).getD []
  some { base := {}, flatIndices := [], cursor := 0
         nodes := nodes.map fun n =>
          .mk ((memberText n "label").getD [])
            (((n.getObjectItem (bytes "expanded")).map Json.valueint).getD 0 ≠ 0) [] }

def treeParams : List ParamDesc :=
  [⟨"title",.str,some "",0⟩,⟨"nodes",.json,none,0⟩,⟨"node_count",.int,none,0⟩]

/-- An event and the picture after it. -/
def treeTake (ev : Event) (d : TreeData) : Option (EventResult × TreeData) :=
  some ((treeHandleEvent ev d).1,treeStep d ev)

/-! ## `form.c` -/

/-- The form of the session with the texts that only its picture uses. -/
structure FormWidget where
  title : Bytes
  submitLabel : Bytes
  widgetTypes : List Bytes
  placeholders : List Bytes
  form : FormData

def formCtor (a : ℕ → Arg) : Option FormWidget :=
  let fields := ((a 1).asJson.map Json.children).getD []
  some { title := (a 0).asStr.getD [], submitLabel := (a 3).asStr.getD []
         widgetTypes := fields.map fun f => (memberText f "widget_type").getD (bytes "input")
         placeholders := fields.map fun f => (memberText f "placeholder").getD []
         form := formWidgetNew (fields.map fun f =>
          ⟨(memberText f "label").getD [],(memberText f "value").getD []⟩) }

def formParams : List ParamDesc :=
  [⟨"title",.str,some "",0⟩,⟨"fields",.json,none,0⟩,⟨"field_count",.int,none,0⟩,
    ⟨"submit_label",.str,some "Submit",0⟩]

def formTake (ev : Event) (d : FormWidget) : Option (EventResult × FormWidget) :=
  match ev with
  | .key code ch =>
      let (result,form) := formHandleEvent code ch d.form
      some (result,{ d with form := form })
  | _ => some (.unhandled,d)

/-! ## `plot.c` -/

structure PlotData where
  base : WidgetBase := {}
  type : Bytes
  data : List Decimal
  labels : List Bytes

/-- `memcpy` of doubles from a slot. The JSON value in it is no array of doubles, and a
negative number is a size that no memory has. -/
def copyDoubles (a : Arg) (n : ℤ) : Option (List Decimal) :=
  match a with
  | .json _ => if n = 0 then some [] else none
  | _ => none

/-- As many labels as the request says. The array ends with a null pointer. -/
def copyLabels (labels : Option (List Bytes)) (n : ℤ) : Option (List Bytes) :=
  (List.range n.toNat).mapM fun i =>
    match labels with
    | none => some []
    | some a => a[i]?

def plotCtor (a : ℕ → Arg) : Option PlotData := do
  let data ← copyDoubles (a 1) (a 2).asInt
  let labels ← copyLabels (a 3).asStrs (a 4).asInt
  return { type := (a 0).asStr.getD (bytes "line"), data := data, labels := labels }

def plotParams : List ParamDesc :=
  [⟨"type",.str,some "line",0⟩,⟨"data",.json,none,0⟩,⟨"data_count",.int,none,0⟩,
    ⟨"labels",.strs,none,0⟩,⟨"label_count",.int,none,0⟩]

def plotHandleEvent (ev : Event) (d : PlotData) : Option (EventResult × PlotData) :=
  match ev with
  | .key _ _ => some (.response ⟨none,false,none⟩,d)
  | _ => some (.unhandled,d)

/-! ## What a request supplies -/

/-- The whole text of a value; one of another type stands for an empty text. -/
def suppliedText (j : Json) : Bytes := j.valuestring.getD []

/-- The whole text of a member, or the text that stands for one that is not there. -/
def suppliedMember (j : Json) (name : String) (otherwise : Bytes) : Bytes :=
  ((j.getObjectItem (bytes name)).bind Json.valuestring).getD otherwise

def suppliedInt (j : Json) (name : String) : ℤ :=
  ((j.getObjectItem (bytes name)).map Json.valueint).getD 0

/-- A text that is the same as a C string. -/
def Whole (text : Bytes) : Prop := 0 ∉ text

/-- A node with all nodes below it. -/
inductive NodeOf : Json → TreeNode → Prop where
  | mk {j : Json} {children : List TreeNode}
      (h : List.Forall₂ NodeOf (memberChildren j "children") children) :
      NodeOf j (.mk (suppliedMember j "label" []) (suppliedInt j "expanded" ≠ 0) children)

/-- The cells of a row under the headers. -/
def paddedRow (row : Json) (n : ℕ) : List Bytes :=
  row.children.map suppliedText++List.replicate (n-row.children.length) []

section Runs

variable {D : Type} (handle : Event → D → Option (EventResult × D)) (highlighted : D → Option Json)

def take (s : Option D) (ev : Event) : Option D :=
  s.bind fun d => (handle ev d).map Prod.snd

/-- A response to Enter is what is highlighted. -/
def EnterAnswers (s : Option D) : Prop :=
  ∃ d, s = some d ∧ ∀ ch, ∃ result d', handle (.key .keyEnter ch) d = some (result,d') ∧
    ∀ r, result = .response r → r.result = highlighted d

/-- The widget holds what it should, and Enter is answered rightly after any events. -/
def ServedBy (made : Option D) (holds : D → Prop) : Prop :=
  ∃ d, made = some d ∧ holds d ∧
    ∀ evs, Runs.Always (take handle) (EnterAnswers handle highlighted) (some d) evs

variable {handle highlighted}

theorem always_enterAnswers {I : D → Prop}
    (hstep : ∀ ev d, I d → ∃ result d', handle ev d = some (result,d') ∧ I d' ∧
      ∀ ch r, ev = .key .keyEnter ch → result = .response r → r.result = highlighted d)
    {d : D} (hd : I d) (evs : List Event) :
    Runs.Always (take handle) (EnterAnswers handle highlighted) (some d) evs := by
  have hall : Runs.Always (take handle) (fun s => ∃ d, s = some d ∧ I d) (some d) evs := by
    refine Runs.always_of_invariant ?_ _ _ ⟨d,rfl,hd⟩
    rintro _ ev ⟨d,rfl,hd⟩
    obtain ⟨result,d',hhandle,hd',-⟩ := hstep ev d hd
    exact ⟨d',by rw [take,Option.bind_some,hhandle]; rfl,hd'⟩
  refine hall.imp ?_
  rintro _ ⟨d,rfl,hd⟩
  refine ⟨d,rfl,fun ch => ?_⟩
  obtain ⟨result,d',hhandle,-,hanswer⟩ := hstep (.key .keyEnter ch) d hd
  exact ⟨result,d',hhandle,fun r => hanswer ch r rfl⟩

end Runs

inductive Request where
  | menu | radioGroup | contextMenu | table | tree | form | plot

/-- The widget holds the supplied choices, and the one that is highlighted is answered. -/
def SelectServed (handle : Event → SelectData → Option (EventResult × SelectData))
    (made : Option SelectData) (supplied : List Json) : Prop :=
  ServedBy handle (fun d => (supplied[d.selected]?).map fun j => .string (suppliedText j)) made
    fun d => d.choices = supplied.map suppliedText

def TableServed (made : Option TableData) (headers rows : List Json) : Prop :=
  ServedBy tableHandleEvent
    (fun d => do
      let row ← rows[d.selectedRow]?
      let cell ← (paddedRow row headers.length)[d.selectedCol]?
      return .string cell)
    made fun d => d.headers = headers.map suppliedText ∧
      d.rows = rows.map fun row => paddedRow row headers.length

def TreeServed (made : Option TreeData) (nodes : List Json) : Prop :=
  ServedBy treeTake (fun _ => none) made fun d => List.Forall₂ NodeOf nodes d.nodes

/-- Enter at the button answers with all fields. -/
def FormServed (made : Option FormWidget) (fields : List Json) : Prop :=
  ServedBy formTake
    (fun d => some (.object ((fields.zip d.form.fields).map fun x =>
      (suppliedMember x.1 "label" [],.string x.2.value))))
    made fun d =>
      d.form.fields = fields.map (fun f =>
        ⟨suppliedMember f "label" [],suppliedMember f "value" []⟩) ∧
      d.widgetTypes = fields.map (suppliedMember · "widget_type" (bytes "input")) ∧
      d.placeholders = fields.map (suppliedMember · "placeholder" [])

def PlotServed (made : Option PlotData) (data labels : List Json) : Prop :=
  ServedBy plotHandleEvent (fun _ => none) made fun d =>
    d.data.map Json.number = data ∧ d.labels = labels.map suppliedText

def Served (params : Json) : Request → Prop
  | .menu =>
      SelectServed menuHandleEvent (genericFactory menuCtor menuParams params)
        (memberChildren params "choices")
  | .radioGroup =>
      SelectServed radioGroupHandleEvent (genericFactory radioGroupCtor radioGroupParams params)
        (memberChildren params "choices")
  | .contextMenu =>
      SelectServed cmHandleEvent (genericFactory contextMenuCtor contextMenuParams params)
        (memberChildren params "items")
  | .table =>
      TableServed (genericFactory tableCtor tableParams params) (memberChildren params "headers")
        (memberChildren params "rows")
  | .tree =>
      TreeServed (genericFactory treeCtor treeParams params) (memberChildren params "nodes")
  | .form =>
      FormServed (genericFactory formCtor formParams params) (memberChildren params "fields")
  | .plot =>
      PlotServed (genericFactory plotCtor plotParams params) (memberChildren params "data")
        (memberChildren params "labels")

/-- No text has a null character, lists to choose from are not empty, rows are no longer
than the headers, nodes have no children, and a plot has no numbers and says how many
labels it has. -/
def Fits (params : Json) : Request → Prop
  | .menu | .radioGroup =>
      memberChildren params "choices" ≠ [] ∧
        ∀ j ∈ memberChildren params "choices", Whole (suppliedText j)
  | .contextMenu =>
      memberChildren params "items" ≠ [] ∧
        ∀ j ∈ memberChildren params "items", Whole (suppliedText j)
  | .table =>
      (∀ j ∈ memberChildren params "headers", Whole (suppliedText j)) ∧
        ∀ row ∈ memberChildren params "rows",
          row.children.length ≤ (memberChildren params "headers").length ∧
            ∀ j ∈ row.children, Whole (suppliedText j)
  | .tree =>
      ∀ n ∈ memberChildren params "nodes",
        Whole (suppliedMember n "label" []) ∧ memberChildren n "children" = []
  | .form =>
      ∀ f ∈ memberChildren params "fields", Whole (suppliedMember f "label" []) ∧
        Whole (suppliedMember f "value" []) ∧
        Whole (suppliedMember f "widget_type" (bytes "input")) ∧
        Whole (suppliedMember f "placeholder" [])
  | .plot =>
      memberChildren params "data" = [] ∧ suppliedInt params "data_count" = 0 ∧
        (suppliedInt params "label_count").toNat = (memberChildren params "labels").length ∧
        ∀ j ∈ memberChildren params "labels", Whole (suppliedText j)

/-! ## Texts -/

theorem takeWhile_eq_iff (text : Bytes) : text.takeWhile (· ≠ 0) = text ↔ Whole text := by
  rw [List.takeWhile_eq_self_iff,Whole]
  constructor
  · intro h hzero
    simpa using h 0 hzero
  · intro h c hc
    have hne : c ≠ 0 := fun hzero => h (hzero ▸ hc)
    simpa using hne

theorem textOf_eq_iff (j : Json) : textOf j = suppliedText j ↔ Whole (suppliedText j) := by
  rw [← takeWhile_eq_iff]
  cases j with
  | string s => exact Iff.rfl
  | _ => exact Iff.rfl

theorem map_textOf_eq_iff (js : List Json) :
    js.map textOf = js.map suppliedText ↔ ∀ j ∈ js, Whole (suppliedText j) := by
  rw [List.map_inj_left]
  exact forall₂_congr fun j _ => textOf_eq_iff j

theorem memberText_eq_iff (j : Json) (name : String) {otherwise : Bytes} (h : Whole otherwise) :
    (memberText j name).getD otherwise = suppliedMember j name otherwise ↔
      Whole (suppliedMember j name otherwise) := by
  have hmember : memberText j name =
      ((j.getObjectItem (bytes name)).bind Json.valuestring).map (List.takeWhile (· ≠ 0)) := by
    unfold memberText strdup
    cases j.getObjectItem (bytes name) with
    | none => rfl
    | some v => rfl
  rw [hmember,suppliedMember]
  cases (j.getObjectItem (bytes name)).bind Json.valuestring with
  | none => exact iff_of_true rfl h
  | some text => exact takeWhile_eq_iff text

theorem whole_nil : Whole [] := List.not_mem_nil

/-! ## Lists to choose from -/

theorem selectHandleEvent_step {supplied : List Json} (ev : Event) {d : SelectData}
    (hchoices : d.choices = supplied.map suppliedText) (hselected : d.selected < d.choices.length) :
    ∃ result d', selectHandleEvent ev d = some (result,d') ∧
      (d'.choices = supplied.map suppliedText ∧ d'.selected < d'.choices.length) ∧
      ∀ ch r, ev = .key .keyEnter ch → result = .response r →
        r.result = (supplied[d.selected]?).map fun j => .string (suppliedText j) := by
  unfold selectHandleEvent
  split
  · exact ⟨_,_,rfl,⟨hchoices,hselected⟩,by simp⟩
  · refine ⟨_,_,rfl,?_,by simp⟩
    split_ifs
    · exact ⟨hchoices,(Nat.sub_le _ _).trans_lt hselected⟩
    · exact ⟨hchoices,hselected⟩
  · refine ⟨_,_,rfl,?_,by simp⟩
    split_ifs with hnext
    · exact ⟨hchoices,hnext⟩
    · exact ⟨hchoices,hselected⟩
  · have hget : d.choices[d.selected]? = (supplied[d.selected]?).map suppliedText := by
      rw [hchoices,List.getElem?_map]
    rw [List.getElem?_eq_getElem hselected] at hget ⊢
    refine ⟨_,_,rfl,⟨hchoices,hselected⟩,?_⟩
    rintro ch r - hr
    cases hr
    have hmap := congrArg (Option.map Json.string) hget
    rw [Option.map_map] at hmap
    exact hmap
  · exact ⟨_,_,rfl,⟨hchoices,hselected⟩,by simp_all⟩

theorem selectServed_iff {made : SelectData} {supplied : List Json}
    (hchoices : made.choices = supplied.map textOf)
    (hselected : made.choices ≠ [] → made.selected < made.choices.length) :
    SelectServed selectHandleEvent (some made) supplied ↔
      supplied ≠ [] ∧ ∀ j ∈ supplied, Whole (suppliedText j) := by
  rw [← map_textOf_eq_iff]
  constructor
  · rintro ⟨d,hd,hholds,hrun⟩
    cases hd
    refine ⟨?_,hchoices ▸ hholds⟩
    rintro rfl
    obtain ⟨d,hd,henter⟩ := (hrun []).start
    cases hd
    obtain ⟨result,d',hhandle,-⟩ := henter 0
    rw [selectHandleEvent,hchoices] at hhandle
    cases hhandle
  · rintro ⟨hne,hwhole⟩
    refine ⟨made,rfl,hchoices.trans hwhole,fun evs => ?_⟩
    have hnonempty : made.choices ≠ [] := by
      rw [hchoices]
      exact fun h => hne (List.map_eq_nil_iff.1 h)
    refine always_enterAnswers
      (I := fun d => d.choices = supplied.map suppliedText ∧ d.selected < d.choices.length) ?_
      ⟨hchoices.trans hwhole,hselected hnonempty⟩ evs
    intro ev d hd
    exact selectHandleEvent_step ev hd.1 hd.2

theorem defaultIndex_lt {choices : List Bytes} (h : choices ≠ []) (d : ℤ) :
    defaultIndex choices d < choices.length := by
  have hpos := List.length_pos_iff.2 h
  unfold defaultIndex
  split_ifs with hd
  all_goals omega

theorem asStrs_extract (params : Json) (name : String) (defStr : Option String) (defInt : ℤ) :
    (extractParam params ⟨name,.strs,defStr,defInt⟩).asStrs.getD [] =
      (memberChildren params name).map textOf := by
  unfold extractParam memberChildren
  dsimp only [Arg.asStrs]
  cases params.getObjectItem (bytes name) with
  | none => rfl
  | some v => rfl

theorem menu_served_iff (params : Json) : Served params .menu ↔ Fits params .menu :=
  selectServed_iff (asStrs_extract params "choices" none 0) fun hne => defaultIndex_lt hne _

theorem radioGroup_served_iff (params : Json) :
    Served params .radioGroup ↔ Fits params .radioGroup :=
  selectServed_iff (asStrs_extract params "choices" none 0) fun hne => defaultIndex_lt hne _

theorem contextMenu_served_iff (params : Json) :
    Served params .contextMenu ↔ Fits params .contextMenu :=
  selectServed_iff (asStrs_extract params "items" none 0) fun hne => List.length_pos_iff.2 hne

/-! ## Tables -/

/-- The cells that a row gets are those it should have if it is not too long and its texts
are whole. -/
theorem cells_eq_iff (row : Json) (n : ℕ) :
    (List.range n).map (fun j => ((row.children[j]?).map textOf).getD []) = paddedRow row n ↔
      row.children.length ≤ n ∧ ∀ j ∈ row.children, Whole (suppliedText j) := by
  rw [← map_textOf_eq_iff]
  have hcells : ∀ (m : ℕ) (js : List Json), js.length ≤ m →
      (List.range m).map (fun j => ((js[j]?).map textOf).getD []) =
        js.map textOf++List.replicate (m-js.length) [] := by
    intro m js hm
    induction js generalizing m with
    | nil => simp [List.map_const']
    | cons j js ih =>
        obtain ⟨m,rfl⟩ : ∃ k, m = k+1 := ⟨m-1,by rw [List.length_cons] at hm; omega⟩
        have hrest := ih m (Nat.le_of_succ_le_succ hm)
        rw [List.range_succ_eq_map,List.map_cons,List.map_map,List.map_cons,List.cons_append,
          List.length_cons,Nat.add_sub_add_right,← hrest]
        rfl
  constructor
  · intro h
    have hlength := congrArg List.length h
    rw [List.length_map,List.length_range,paddedRow,List.length_append,List.length_map,
      List.length_replicate] at hlength
    have hle : row.children.length ≤ n := by omega
    rw [hcells n _ hle,paddedRow] at h
    exact ⟨hle,List.append_cancel_right h⟩
  · rintro ⟨hle,hwhole⟩
    rw [hcells n _ hle,paddedRow,hwhole]

theorem length_paddedRow {row : Json} {n : ℕ} (h : row.children.length ≤ n) :
    (paddedRow row n).length = n := by
  rw [paddedRow,List.length_append,List.length_map,List.length_replicate]
  omega

theorem tableHandleEvent_step {headers rows : List Json} (ev : Event) {d : TableData}
    (hfits : ∀ row ∈ rows, row.children.length ≤ headers.length)
    (hd : d.headers.length = headers.length ∧
      d.rows = rows.map fun row => paddedRow row headers.length) :
    ∃ result d', tableHandleEvent ev d = some (result,d') ∧
      (d'.headers.length = headers.length ∧
        d'.rows = rows.map fun row => paddedRow row headers.length) ∧
      ∀ ch r, ev = .key .keyEnter ch → result = .response r →
        r.result = do
          let row ← rows[d.selectedRow]?
          let cell ← (paddedRow row headers.length)[d.selectedCol]?
          return .string cell := by
  unfold tableHandleEvent
  split
  case h_6 =>
    split_ifs with hlt
    · obtain ⟨row,hrow⟩ : ∃ row, rows[d.selectedRow]? = some row := by
        refine ⟨_,List.getElem?_eq_getElem ?_⟩
        simpa [hd.2] using hlt.1
      have hheld : d.rows[d.selectedRow]? = some (paddedRow row headers.length) := by
        rw [hd.2,List.getElem?_map,hrow]
        rfl
      have hlength := length_paddedRow (hfits row (List.mem_of_getElem? hrow))
      obtain ⟨cell,hcell⟩ : ∃ cell,
          (paddedRow row headers.length)[d.selectedCol]? = some cell := by
        refine ⟨_,List.getElem?_eq_getElem ?_⟩
        rw [hlength,← hd.1]
        exact hlt.2
      rw [hheld,hrow]
      refine ⟨answered (.string cell),d,?_,hd,?_⟩
      · simp only [Option.bind_eq_bind,Option.bind_some,hcell]
        rfl
      · rintro ch r - hr
        cases hr
        simp only [Option.bind_eq_bind,Option.bind_some,hcell]
        rfl
    · refine ⟨_,_,rfl,hd,?_⟩
      rintro ch r - hr
      cases hr
  all_goals exact ⟨_,_,rfl,hd,by simp_all⟩

theorem table_served_iff (params : Json) : Served params .table ↔ Fits params .table := by
  have hheaders := asStrs_extract params "headers" none 0
  have hmade : genericFactory tableCtor tableParams params = some
      { title := ((extractParam params ⟨"title",.str,some "",0⟩).asStr).getD []
        headers := (memberChildren params "headers").map textOf
        rows := (memberChildren params "rows").map fun row =>
          (List.range (memberChildren params "headers").length).map fun j =>
            ((row.children[j]?).map textOf).getD [] } := by
    rw [← List.length_map textOf,← hheaders]
    rfl
  have hrows : (((memberChildren params "rows").map fun row =>
      (List.range (memberChildren params "headers").length).map fun j =>
        ((row.children[j]?).map textOf).getD []) = (memberChildren params "rows").map fun row =>
          paddedRow row (memberChildren params "headers").length) ↔
      ∀ row ∈ memberChildren params "rows",
        row.children.length ≤ (memberChildren params "headers").length ∧
          ∀ j ∈ row.children, Whole (suppliedText j) := by
    rw [List.map_inj_left]
    exact forall₂_congr fun row _ => cells_eq_iff row _
  rw [Served,TableServed,Fits,hmade,← map_textOf_eq_iff,← hrows]
  constructor
  · rintro ⟨d,hd,hholds,-⟩
    cases hd
    exact hholds
  · intro hholds
    refine ⟨_,rfl,hholds,fun evs => ?_⟩
    refine always_enterAnswers (I := fun d : TableData =>
      d.headers.length = (memberChildren params "headers").length ∧
        d.rows = (memberChildren params "rows").map fun row =>
          paddedRow row (memberChildren params "headers").length) ?_
      ⟨List.length_map _,hholds.2⟩ evs
    intro ev d hd
    exact tableHandleEvent_step ev (fun row hrow => (hrows.1 hholds.2 row hrow).1) hd

/-! ## Trees -/

theorem nodeOf_leaf_iff (n : Json) :
    NodeOf n (.mk ((memberText n "label").getD []) (suppliedInt n "expanded" ≠ 0) []) ↔
      Whole (suppliedMember n "label" []) ∧ memberChildren n "children" = [] := by
  rw [← memberText_eq_iff n "label" whole_nil]
  constructor
  · intro h
    generalize hnode : TreeNode.mk ((memberText n "label").getD [])
      (suppliedInt n "expanded" ≠ 0) [] = node at h
    cases h with
    | mk hchildren =>
        rw [TreeNode.mk.injEq] at hnode
        obtain ⟨hlabel,-,rfl⟩ := hnode
        exact ⟨hlabel,List.forall₂_nil_right_iff.1 hchildren⟩
  · rintro ⟨hlabel,hchildren⟩
    rw [hlabel]
    exact .mk (hchildren ▸ .nil)

theorem tree_served_iff (params : Json) : Served params .tree ↔ Fits params .tree := by
  have hnodes : List.Forall₂ NodeOf (memberChildren params "nodes")
      ((memberChildren params "nodes").map fun n =>
        .mk ((memberText n "label").getD []) (suppliedInt n "expanded" ≠ 0) []) ↔
        Fits params .tree := by
    rw [List.forall₂_map_right_iff,List.forall₂_same]
    exact forall₂_congr fun n _ => nodeOf_leaf_iff n
  rw [← hnodes]
  constructor
  · rintro ⟨d,hd,hholds,-⟩
    cases hd
    exact hholds
  · intro hholds
    refine ⟨_,rfl,hholds,fun evs => ?_⟩
    refine always_enterAnswers (I := fun _ => True) (fun ev d _ => ⟨_,_,rfl,trivial,?_⟩) trivial evs
    rintro ch r rfl hr
    rw [treeHandleEvent_toggle (Or.inl rfl)] at hr
    split at hr
    · cases hr
    · split_ifs at hr

/-! ## Forms -/

theorem formHandleEvent_labels (code : KeyCode) (ch : UInt8) (d : FormData) :
    (formHandleEvent code ch d).2.fields.map FormField.label = d.fields.map FormField.label := by
  have hedit : ∀ f, (d.edit f).fields.map FormField.label = d.fields.map FormField.label := by
    intro f
    apply List.ext_getElem?
    intro i
    rw [FormData.edit,List.getElem?_map,List.getElem?_map,List.getElem?_modify]
    cases d.fields[i]? with
    | none => rfl
    | some x =>
        simp only [Option.map_eq_map,Option.map_some]
        split_ifs
        all_goals rfl
  unfold formHandleEvent
  split
  case h_6 =>
    split
    · split_ifs
      · exact hedit _
      · rfl
    · rfl
  all_goals
    try split_ifs
    all_goals first | rfl | exact hedit _

theorem answer_eq {labels : Json → Bytes} {fields : List Json} {held : List FormField}
    (h : held.map FormField.label = fields.map labels) :
    held.map (fun x => (x.label,Json.string x.value)) =
      (fields.zip held).map fun x => (labels x.1,.string x.2.value) := by
  induction fields generalizing held with
  | nil =>
      rw [List.map_nil,List.map_eq_nil_iff] at h
      rw [h]
      rfl
  | cons f fields ih =>
      cases held with
      | nil => cases h
      | cons x held =>
          rw [List.map_cons,List.map_cons,List.cons.injEq] at h
          rw [List.map_cons,List.zip_cons_cons,List.map_cons,ih h.2,h.1]

theorem form_served_iff (params : Json) : Served params .form ↔ Fits params .form := by
  have hmade : ∀ f : Json,
      ((⟨(memberText f "label").getD [],(memberText f "value").getD []⟩ : FormField) =
          ⟨suppliedMember f "label" [],suppliedMember f "value" []⟩ ∧
        (memberText f "widget_type").getD (bytes "input") =
          suppliedMember f "widget_type" (bytes "input") ∧
        (memberText f "placeholder").getD [] = suppliedMember f "placeholder" []) ↔
      Whole (suppliedMember f "label" []) ∧ Whole (suppliedMember f "value" []) ∧
        Whole (suppliedMember f "widget_type" (bytes "input")) ∧
        Whole (suppliedMember f "placeholder" []) := by
    intro f
    have hinput : Whole (bytes "input") := by unfold Whole; decide
    rw [FormField.mk.injEq,memberText_eq_iff f "label" whole_nil,
      memberText_eq_iff f "value" whole_nil,memberText_eq_iff f "widget_type" hinput,
      memberText_eq_iff f "placeholder" whole_nil,and_assoc]
  have hfits : Fits params .form ↔
      ((memberChildren params "fields").map fun f =>
          (⟨(memberText f "label").getD [],(memberText f "value").getD []⟩ : FormField)) =
        (memberChildren params "fields").map (fun f =>
          ⟨suppliedMember f "label" [],suppliedMember f "value" []⟩) ∧
      ((memberChildren params "fields").map fun f =>
          (memberText f "widget_type").getD (bytes "input")) =
        (memberChildren params "fields").map (suppliedMember · "widget_type" (bytes "input")) ∧
      ((memberChildren params "fields").map fun f => (memberText f "placeholder").getD []) =
        (memberChildren params "fields").map (suppliedMember · "placeholder" []) := by
    rw [List.map_inj_left,List.map_inj_left,List.map_inj_left,← forall₂_and,← forall₂_and]
    exact forall₂_congr fun f _ => (hmade f).symm
  rw [hfits]
  constructor
  · rintro ⟨d,hd,hholds,-⟩
    cases hd
    exact hholds
  · intro hholds
    refine ⟨_,rfl,hholds,fun evs => ?_⟩
    refine always_enterAnswers (I := fun d : FormWidget => d.form.fields.map FormField.label =
      (memberChildren params "fields").map (suppliedMember · "label" [])) ?_ ?_ evs
    · intro ev d hd
      cases ev with
      | key code ch =>
          refine ⟨_,_,rfl,(formHandleEvent_labels code ch d.form).trans hd,?_⟩
          rintro ch r hev hr
          cases hev
          dsimp only [formHandleEvent] at hr
          split_ifs at hr
          cases hr
          exact congrArg (fun members => some (Json.object members)) (answer_eq hd)
      | _ => exact ⟨_,_,rfl,hd,by simp⟩
    · refine (congrArg (List.map FormField.label) hholds.1).trans ?_
      rw [List.map_map]
      rfl

/-! ## Plots -/

/-- An array is left behind its end. -/
theorem copyLabels_some (a : List Bytes) (n : ℤ) :
    copyLabels (some a) n = if n.toNat ≤ a.length then some (a.take n.toNat) else none := by
  have hcopy : ∀ k : ℕ, (List.range k).mapM (fun i => a[i]?) =
      if k ≤ a.length then some (a.take k) else none := by
    intro k
    induction k with
    | zero => rfl
    | succ k ih =>
        rw [List.range_succ,List.mapM_append,ih]
        by_cases hk : k+1 ≤ a.length
        · rw [if_pos (by omega),if_pos hk,List.take_add_one]
          simp [List.getElem?_eq_getElem hk]
        · rw [if_neg hk]
          split_ifs
          · simp [List.getElem?_eq_none (by omega : a.length ≤ k)]
          · rfl
  exact hcopy n.toNat

theorem copyLabels_none (n : ℤ) : copyLabels none n = some (List.replicate n.toNat []) := by
  have hcopy : ∀ k : ℕ, (List.range k).mapM (fun _ => some ([] : Bytes)) =
      some (List.replicate k []) := by
    intro k
    induction k with
    | zero => rfl
    | succ k ih =>
        rw [List.range_succ,List.mapM_append,ih,List.replicate_succ']
        rfl
  exact hcopy n.toNat

/-- The labels are those of the request exactly if it counts them. -/
theorem labels_held_iff (v : Option Json) (n : ℤ) :
    copyLabels (v.map fun v => v.children.map textOf) n =
        some (((v.map Json.children).getD []).map suppliedText) ↔
      n.toNat = ((v.map Json.children).getD []).length ∧
        ∀ j ∈ (v.map Json.children).getD [], Whole (suppliedText j) := by
  rw [← map_textOf_eq_iff]
  cases v with
  | none =>
      rw [Option.map_none,copyLabels_none]
      simp
  | some v =>
      rw [Option.map_some,copyLabels_some,Option.map_some,Option.getD_some]
      constructor
      · intro h
        split_ifs at h with hle
        rw [Option.some.injEq] at h
        have hlength := congrArg List.length h
        rw [List.length_take,List.length_map,List.length_map] at hlength
        rw [List.length_map] at hle
        have hn : n.toNat = v.children.length := by omega
        refine ⟨hn,?_⟩
        rw [← h,List.take_of_length_le (by rw [List.length_map,hn])]
      · rintro ⟨hn,hwhole⟩
        rw [if_pos (by rw [List.length_map,hn]),
          List.take_of_length_le (by rw [List.length_map,hn]),hwhole]

theorem plot_served_iff (params : Json) : Served params .plot ↔ Fits params .plot := by
  have hlabels := labels_held_iff (params.getObjectItem (bytes "labels"))
    (suppliedInt params "label_count")
  have hmade : genericFactory plotCtor plotParams params =
      (if suppliedInt params "data_count" = 0 then some [] else none).bind fun data =>
        (copyLabels ((params.getObjectItem (bytes "labels")).map fun v => v.children.map textOf)
          (suppliedInt params "label_count")).bind fun labels => some
            { type := ((extractParam params ⟨"type",.str,some "line",0⟩).asStr).getD (bytes "line")
              data := data, labels := labels } := rfl
  have hanswers : ∀ evs (d : PlotData),
      Runs.Always (take plotHandleEvent) (EnterAnswers plotHandleEvent fun _ => none) (some d)
        evs := by
    intro evs d
    refine always_enterAnswers (I := fun _ => True) (fun ev d _ => ?_) trivial evs
    cases ev with
    | key code ch =>
        refine ⟨_,_,rfl,trivial,?_⟩
        rintro ch r - hr
        cases hr
        rfl
    | _ => exact ⟨_,_,rfl,trivial,by simp⟩
  constructor
  · rintro ⟨d,hd,⟨hdata,hheld⟩,-⟩
    rw [hmade] at hd
    split_ifs at hd with hcount
    · rw [Option.bind_some] at hd
      obtain ⟨labels,hcopy,hmake⟩ := Option.bind_eq_some_iff.1 hd
      cases hmake
      rw [show labels = _ from hheld] at hcopy
      exact ⟨hdata.symm,hcount,hlabels.1 hcopy⟩
    · cases hd
  · rintro ⟨hdata,hcount,hfits⟩
    rw [Served,PlotServed,hmade,if_pos hcount,Option.bind_some,hlabels.2 hfits]
    exact ⟨_,rfl,⟨hdata.symm,rfl⟩,fun evs => hanswers evs _⟩

/-- A request is served exactly if it fits. -/
theorem served_iff (params : Json) (request : Request) :
    Served params request ↔ Fits params request := by
  cases request with
  | menu => exact menu_served_iff params
  | radioGroup => exact radioGroup_served_iff params
  | contextMenu => exact contextMenu_served_iff params
  | table => exact table_served_iff params
  | tree => exact tree_served_iff params
  | form => exact form_served_iff params
  | plot => exact plot_served_iff params

/-- A menu without choices is answered from behind its array, a node loses its child, and
the numbers of a plot are not read from its request. -/
theorem requests_are_not_served :
    ¬Served (.object []) .menu ∧
      ¬Served (.object [(bytes "nodes",.array [.object [(bytes "label",.string (bytes "a")),
        (bytes "children",.array [.object [(bytes "label",.string (bytes "b"))]])]])]) .tree ∧
      ¬Served (.object [(bytes "type",.string (bytes "line")),
        (bytes "data",.array ([1,3,2,5,4].map Json.ofInt)),
        (bytes "labels",.array ((["a","b","c","d","e"].map bytes).map .string))]) .plot := by
  rw [menu_served_iff,tree_served_iff,plot_served_iff]
  refine ⟨?_,?_,?_⟩
  · rintro ⟨hne,-⟩
    exact hne rfl
  · intro hfits
    have hchildren := (hfits _ (List.mem_singleton_self _)).2
    cases hchildren
  · rintro ⟨hdata,-⟩
    cases hdata

end Filly.WidgetFactories
