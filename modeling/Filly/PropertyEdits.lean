import Filly.UnsavedWork
import Filly.WidgetFactories

/-!
# Edits of a property

Enter takes the text of a parameter into the editor and a second Enter writes it back. In
between the builder draws a picture after every event, and the picture shows the selected
item anew, which ends the editing. So nothing that is typed reaches the parameter.

The factories read a parameter by its declared type.
-/
namespace Filly.Builder
open CJson Keys SessionLoop Runs
open WidgetFactories hiding textOf

/-! ## What an edit is for -/

/-- The argument that a widget gets is the value that the text stands for. -/
def ReadsBack (type : ParamType) (text : Bytes) (v : Json) (arg : Arg) : Prop :=
  match type with
  | .str => arg = .str (some text)
  | .int => ∃ d, cJSONParse text = some (.number d) ∧ arg = .int d.valueint
  | .bool => ∃ b, cJSONParse text = some (.bool b) ∧ arg = .int (Json.bool b).valueint
  | .json | .strs => v.valuestring = some text ∨ cJSONParse text = some v

/-- The parameter holds the text. An empty text may leave it out. -/
def Holds (desc : ParamDesc) (params : Option Json) (text : Bytes) : Prop :=
  match params.bind (·.getObjectItem (bytes desc.name)) with
  | none => text = []
  | some v => ReadsBack desc.type text v (extractParam (params.getD .null) desc)

/-- Enter, the characters and Enter. -/
def editKeys (typed : Bytes) : List AppEvent :=
  .key .keyEnter 0::(typed.map (.key .keyChar)++[.key .keyEnter 0])

/-- A picture follows each event. -/
def withPictures (evs : List AppEvent) : List SittingEvent :=
  evs.flatMap fun ev => [.event ev,.render]

section
variable {F : Type}

/-- What the editor makes of the characters when it is left alone. -/
def BuilderApp.editedText (app : BuilderApp F) (typed : Bytes) : Bytes :=
  (typed.foldl (fun pe ch => (propEditorKey app.project pe .keyChar ch).2)
    (propEditorKey app.project app.propEditor .keyEnter 0).2).fieldBuf

variable (zm : ZoomArithmetic F) (screen : Int32 → Int32)
variable (onCurve : ConnectionGraph → ConnectionEdge → Int32 → Int32 → Bool)
variable (regcomp : Bytes → Option (Bytes → Bool)) (paramTable : Bytes → List ParamDesc)

/-- The names that `widget_get_params` gives. -/
def paramNames (widgetType : Bytes) : List Bytes :=
  (paramTable widgetType).map fun desc => bytes desc.name

/-- The property pane shows the item, and the field is the active one. -/
structure ShowsField (app : BuilderApp F) (item : CanvasItem) (desc : ParamDesc) : Prop where
  pane : app.activePane = 2
  mode : app.mode ≠ .wire
  binding : app.keymapEditing = false
  idle : app.propEditor.editing = false
  shown : 0 ≤ app.propEditor.editingItemId
  found : projectFindItem app.project app.propEditor.editingItemId = some item
  fields : app.propEditor.fields = paramNames paramTable item.widgetType
  field : readAt (paramTable item.widgetType) app.propEditor.activeField = some desc

def paneStep : Option (Sitting F) → SittingEvent → Option (Sitting F) :=
  sittingStep zm screen onCurve regcomp (paramNames paramTable)

/-- After the edit the parameter holds the edited text. -/
def EditSticks (app : BuilderApp F) (desc : ParamDesc) (typed : Bytes) : Prop :=
  ∃ t, run (paneStep zm screen onCurve regcomp paramTable) (some ⟨app,false⟩)
      (withPictures (editKeys typed)) = some t ∧
    ∃ item, projectFindItem t.app.project app.propEditor.editingItemId = some item ∧
      Holds desc item.params (app.editedText typed)

end

/-- One of the characters makes the builder check the project. The character after a `k` is
bound as a key instead. -/
def AsksReport : Bool → Bytes → Prop
  | _, [] => False
  | true, _::cs => AsksReport false cs
  | false, c::cs =>
      match commandOf c with
      | none => AsksReport false cs
      | some .keymap => AsksReport true cs
      | some _ => True

/-! ## Nothing is written -/

section
variable {F : Type} {zm : ZoomArithmetic F} {screen : Int32 → Int32}
variable {onCurve : ConnectionGraph → ConnectionEdge → Int32 → Int32 → Bool}
variable {regcomp : Bytes → Option (Bytes → Bool)} {paramTable : Bytes → List ParamDesc}

/-- The property pane is in front with nothing being edited, and the items and nodes are those
of the project. -/
structure Idle (p : BuilderProject) (binding : Bool) (app : BuilderApp F) : Prop where
  pane : app.activePane = 2
  mode : app.mode ≠ .wire
  binding : app.keymapEditing = binding
  idle : app.propEditor.editing = false
  items : app.project.items = p.items
  nodes : app.project.nodes = p.nodes

theorem evaluates_of_nodes {p q : BuilderProject} (h : q.nodes = p.nodes) :
    Evaluates regcomp q ↔ Evaluates regcomp p := by rw [Evaluates,Evaluates,h]

/-- The report is made exactly when the scripts can be evaluated. -/
theorem runValidation_none_iff {app : BuilderApp F} :
    runValidation regcomp app = none ↔ ¬Evaluates regcomp app.project := by
  rw [← validatorCheckAll_ok_iff,runValidation]
  cases validatorCheckAll regcomp app.project with
  | ok issues => exact iff_of_false (Option.some_ne_none _) fun h => h ⟨issues,rfl⟩
  | undef => exact iff_of_true rfl fun ⟨_,h⟩ => by cases h
  | spin => exact iff_of_true rfl fun ⟨_,h⟩ => by cases h

/-- After the picture nothing is being edited. -/
theorem idle_render {p : BuilderProject} {w : Bool} {app : BuilderApp F} (pane : app.activePane = 2)
    (mode : app.mode ≠ .wire) (binding : app.keymapEditing = w)
    (items : app.project.items = p.items) (nodes : app.project.nodes = p.nodes) :
    Idle p w (builderRender (paramNames paramTable) app) := by
  rw [builderRender,if_neg mode]
  exact ⟨pane,mode,binding,rfl,items,nodes⟩

/-- An event that does not leave the builder, and the picture after it. -/
theorem run_picture {app app' : BuilderApp F} {ev : AppEvent} {r : EventResult}
    (h : builderHandleEvent zm screen onCurve regcomp (paramNames paramTable) app ev =
      some (r,app')) (hr : r.isResponse = false) :
    run (paneStep zm screen onCurve regcomp paramTable) (some ⟨app,false⟩) [.event ev,.render] =
      some ⟨builderRender (paramNames paramTable) app',false⟩ := by
  simp only [run,List.foldl_cons,List.foldl_nil,paneStep,sittingStep,Sitting.next,Option.bind_some,
    Bool.false_eq_true,if_false,h,Option.map_some,hr]

theorem run_picture_none {app : BuilderApp F} {ev : AppEvent}
    (h : builderHandleEvent zm screen onCurve regcomp (paramNames paramTable) app ev = none) :
    run (paneStep zm screen onCurve regcomp paramTable) (some ⟨app,false⟩) [.event ev,.render] =
      none := by
  simp only [run,List.foldl_cons,List.foldl_nil,paneStep,sittingStep,Sitting.next,Option.bind_some,
    Bool.false_eq_true,if_false,h,Option.map_none,Option.bind_none]

variable (zm screen onCurve regcomp paramTable) in
/-- The event and its picture lead to an idle pane. -/
def LeavesIdle (p : BuilderProject) (app : BuilderApp F) (ev : AppEvent) (binding : Bool) : Prop :=
  ∃ app', run (paneStep zm screen onCurve regcomp paramTable) (some ⟨app,false⟩)
    [.event ev,.render] = some ⟨app',false⟩ ∧ Idle p binding app'

variable {p : BuilderProject} {app : BuilderApp F} {ch : UInt8}

/-- The next key is bound. -/
theorem idle_bound (h : Idle p true app) (code : KeyCode) (ch : UInt8) :
    LeavesIdle zm screen onCurve regcomp paramTable p app (.key code ch) false := by
  have hhandled : builderHandleEvent zm screen onCurve regcomp (paramNames paramTable) app
      (.key code ch) = some (.handled,captureKey app code ch) := if_pos h.binding
  refine ⟨_,run_picture hhandled rfl,?_⟩
  unfold captureKey
  dsimp only
  split_ifs
  · exact idle_render h.pane h.mode rfl h.items h.nodes
  · exact idle_render h.pane h.mode rfl h.items h.nodes

theorem handleEvent_of_idle (h : Idle p false app) (code : KeyCode) (ch : UInt8) :
    builderHandleEvent zm screen onCurve regcomp (paramNames paramTable) app (.key code ch) =
      handleKey zm regcomp app code ch := by
  rw [builderHandleEvent,if_neg (by rw [h.binding]; exact Bool.false_ne_true)]

/-- What the pane does with a key. -/
theorem paneKey_of_idle (h : Idle p false app) (code : KeyCode) (ch : UInt8) :
    app.paneKey zm code ch = some (handlePropKey app code ch) := by
  rw [BuilderApp.paneKey,h.pane,if_neg (by decide),if_neg (by decide),if_neg h.mode]

/-- A character is not taken in, since nothing is being edited. -/
theorem idle_typed (h : Idle p false app) (hch : commandOf ch = none) :
    LeavesIdle zm screen onCurve regcomp paramTable p app (.key .keyChar ch) false := by
  have hhandled : handleKey zm regcomp app .keyChar ch =
      some (.unhandled,handlePropKey app .keyChar ch) := by
    unfold handleKey
    rw [if_pos rfl,hch]
    dsimp only [BuilderApp.modeKey]
    rw [paneKey_of_idle h,Option.map_some]
  have hprop : propEditorKey app.project app.propEditor .keyChar ch =
      (app.project,app.propEditor) := by
    unfold propEditorKey
    rw [h.idle,if_neg Bool.false_ne_true]
    exact ite_self _
  refine ⟨_,run_picture ((handleEvent_of_idle h _ _).trans hhandled) rfl,?_⟩
  rw [handlePropKey,hprop]
  exact idle_render h.pane h.mode h.binding h.items h.nodes

/-- Enter begins an edit, which the picture ends. -/
theorem idle_enter (h : Idle p false app) (ch : UInt8) :
    LeavesIdle zm screen onCurve regcomp paramTable p app (.key .keyEnter ch) false := by
  have hhandled : handleKey zm regcomp app .keyEnter ch =
      some (.unhandled,handlePropKey app .keyEnter ch) := by
    unfold handleKey
    rw [if_neg (by decide)]
    dsimp only [BuilderApp.modeKey]
    rw [paneKey_of_idle h,Option.map_some]
  have hprop : (propEditorKey app.project app.propEditor .keyEnter ch).1 = app.project := by
    unfold propEditorKey
    rw [h.idle,if_neg Bool.false_ne_true]
    split_ifs
    · rfl
    · rfl
  refine ⟨_,run_picture ((handleEvent_of_idle h _ _).trans hhandled) rfl,?_⟩
  refine idle_render h.pane h.mode h.binding ?_ ?_
  · exact (congrArg BuilderProject.items hprop).trans h.items
  · exact (congrArg BuilderProject.nodes hprop).trans h.nodes

theorem handleKey_command {command : Command} (hch : commandOf ch = some command) :
    handleKey zm regcomp app .keyChar ch =
      (app.command regcomp command).map fun app => (.handled,app) := by
  rw [handleKey,if_pos rfl,hch]

theorem idle_keymap (h : Idle p false app) (hch : commandOf ch = some .keymap) :
    LeavesIdle zm screen onCurve regcomp paramTable p app (.key .keyChar ch) true :=
  ⟨_,run_picture ((handleEvent_of_idle h _ _).trans (handleKey_command hch)) rfl,
    idle_render h.pane h.mode rfl h.items h.nodes⟩

/-- The other commands report on the project as it is. -/
theorem idle_report (h : Idle p false app) {command : Command} (hch : commandOf ch = some command)
    (hne : command ≠ .keymap) (heval : Evaluates regcomp p) :
    LeavesIdle zm screen onCurve regcomp paramTable p app (.key .keyChar ch) false := by
  have hreport (app' : BuilderApp F) (hnodes : app'.project.nodes = p.nodes) :
      ∃ issues, runValidation regcomp app' = some { app' with lastReport := issues } := by
    obtain ⟨done,hdone⟩ := Option.ne_none_iff_exists'.1 fun hnone =>
      runValidation_none_iff.1 hnone ((evaluates_of_nodes hnodes).2 heval)
    obtain ⟨issues,rfl⟩ := runValidation_eq hdone
    exact ⟨issues,hdone⟩
  have hhandled : ∃ app', app.command regcomp command = some app' ∧
      Idle p false (builderRender (paramNames paramTable) app') := by
    cases command with
    | save =>
        obtain ⟨issues,hissues⟩ := hreport { app.written with
          filePath := some (app.filePath.getD (bytes "untitled.filly-project"))
          projectDirty := false } h.nodes
        exact ⟨_,hissues,idle_render h.pane h.mode h.binding h.items h.nodes⟩
    | exportPlugin =>
        obtain ⟨issues,hissues⟩ := hreport app h.nodes
        exact ⟨_,hissues,idle_render h.pane h.mode h.binding h.items h.nodes⟩
    | validate =>
        obtain ⟨issues,hissues⟩ := hreport app h.nodes
        exact ⟨_,congrArg (Option.map _) hissues,
          idle_render h.pane h.mode h.binding h.items h.nodes⟩
    | keymap => exact absurd rfl hne
  obtain ⟨app',happ,hidle⟩ := hhandled
  have hkey : handleKey zm regcomp app .keyChar ch = some (.handled,app') := by
    rw [handleKey_command hch,happ,Option.map_some]
  exact ⟨_,run_picture ((handleEvent_of_idle h _ _).trans hkey) rfl,hidle⟩

theorem report_none (h : Idle p false app) {command : Command} (hch : commandOf ch = some command)
    (hne : command ≠ .keymap) (heval : ¬Evaluates regcomp p) :
    run (paneStep zm screen onCurve regcomp paramTable) (some ⟨app,false⟩)
      [.event (.key .keyChar ch),.render] = none := by
  have hreport (app' : BuilderApp F) (hnodes : app'.project.nodes = p.nodes) :
      runValidation regcomp app' = none :=
    runValidation_none_iff.2 fun he => heval ((evaluates_of_nodes hnodes).1 he)
  have hnone : app.command regcomp command = none := by
    cases command with
    | save => exact hreport _ h.nodes
    | exportPlugin => exact hreport app h.nodes
    | validate => exact congrArg (Option.map _) (hreport app h.nodes)
    | keymap => exact absurd rfl hne
  refine run_picture_none ((handleEvent_of_idle h _ _).trans ?_)
  rw [handleKey_command hch,hnone,Option.map_none]

theorem run_withPictures (s : Option (Sitting F)) (ev : AppEvent) (evs : List AppEvent) :
    run (paneStep zm screen onCurve regcomp paramTable) s (withPictures (ev::evs)) =
      run (paneStep zm screen onCurve regcomp paramTable)
        (run (paneStep zm screen onCurve regcomp paramTable) s [.event ev,.render])
        (withPictures evs) := rfl

theorem run_none (es : List SittingEvent) :
    run (paneStep zm screen onCurve regcomp paramTable) none es = none := by
  induction es with
  | nil => rfl
  | cons e es ih => exact ih

/-- The pane stays idle through all characters and the closing Enter. -/
theorem items_unchanged {typed : Bytes} {binding : Bool} (h : Idle p binding app)
    (heval : AsksReport binding typed → Evaluates regcomp p) :
    ∃ t, run (paneStep zm screen onCurve regcomp paramTable) (some ⟨app,false⟩)
        (withPictures (typed.map (.key .keyChar)++[.key .keyEnter 0])) = some t ∧
      t.app.project.items = p.items := by
  induction typed generalizing binding app with
  | nil =>
      have hlast : LeavesIdle zm screen onCurve regcomp paramTable p app (.key .keyEnter 0) false := by
        cases binding with
        | true => exact idle_bound h .keyEnter 0
        | false => exact idle_enter h 0
      obtain ⟨app',hrun,hidle⟩ := hlast
      exact ⟨_,hrun,hidle.items⟩
  | cons ch typed ih =>
      have hnext : ∃ binding', LeavesIdle zm screen onCurve regcomp paramTable p app
          (.key .keyChar ch) binding' ∧ (AsksReport binding' typed → Evaluates regcomp p) := by
        cases binding with
        | true => exact ⟨false,idle_bound h .keyChar ch,heval⟩
        | false =>
            rw [AsksReport] at heval
            cases hch : commandOf ch with
            | none =>
                rw [hch] at heval
                exact ⟨false,idle_typed h hch,heval⟩
            | some command =>
                rw [hch] at heval
                cases command with
                | keymap => exact ⟨true,idle_keymap h hch,heval⟩
                | save | exportPlugin | validate =>
                    have hp := heval trivial
                    exact ⟨false,idle_report h hch (by simp) hp,fun _ => hp⟩
      obtain ⟨binding',⟨app',hrun,hidle⟩,hrest⟩ := hnext
      rw [List.map_cons,List.cons_append,run_withPictures,hrun]
      exact ih hidle hrest

/-- A report that cannot be made ends the builder. -/
theorem run_ends {typed : Bytes} {binding : Bool} (h : Idle p binding app)
    (hasks : AsksReport binding typed) (heval : ¬Evaluates regcomp p) :
    run (paneStep zm screen onCurve regcomp paramTable) (some ⟨app,false⟩)
      (withPictures (typed.map (.key .keyChar)++[.key .keyEnter 0])) = none := by
  induction typed generalizing binding app with
  | nil => cases binding <;> exact hasks.elim
  | cons ch typed ih =>
      rw [List.map_cons,List.cons_append,run_withPictures]
      cases binding with
      | true =>
          obtain ⟨app',hrun,hidle⟩ := idle_bound h .keyChar ch
          rw [hrun]
          exact ih hidle hasks
      | false =>
          rw [AsksReport] at hasks
          cases hch : commandOf ch with
          | none =>
              rw [hch] at hasks
              obtain ⟨app',hrun,hidle⟩ := idle_typed h hch
              rw [hrun]
              exact ih hidle hasks
          | some command =>
              rw [hch] at hasks
              cases command with
              | keymap =>
                  obtain ⟨app',hrun,hidle⟩ := idle_keymap h hch
                  rw [hrun]
                  exact ih hidle hasks
              | save | exportPlugin | validate =>
                  rw [report_none h hch (by simp) heval,run_none]

/-- An edit sticks exactly when the parameter held the text beforehand, unless the builder does
not survive a character that is a command to it. -/
theorem edit_sticks_iff {item : CanvasItem} {desc : ParamDesc}
    (h : ShowsField paramTable app item desc) (typed : Bytes) :
    EditSticks zm screen onCurve regcomp paramTable app desc typed ↔
      (AsksReport false typed → Evaluates regcomp app.project) ∧
        Holds desc item.params (app.editedText typed) := by
  have hidle : Idle app.project false app := ⟨h.pane,h.mode,h.binding,h.idle,rfl,rfl⟩
  obtain ⟨app',hrun,hbegun⟩ := idle_enter hidle 0
  unfold EditSticks
  rw [editKeys,run_withPictures,hrun]
  by_cases hreport : AsksReport false typed → Evaluates regcomp app.project
  · obtain ⟨t,ht,hitems⟩ := items_unchanged hbegun hreport
    have hfound : projectFindItem t.app.project app.propEditor.editingItemId = some item := by
      rw [← h.found,projectFindItem,hitems,projectFindItem]
    rw [ht]
    constructor
    · rintro ⟨_,hsame,after,hafter,hholds⟩
      cases hsame
      cases hfound.symm.trans hafter
      exact ⟨hreport,hholds⟩
    · exact fun hholds => ⟨t,rfl,item,hfound,hholds.2⟩
  · obtain ⟨hasks,heval⟩ := Classical.not_imp.1 hreport
    rw [run_ends hbegun hasks heval]
    refine iff_of_false (fun hsticks => ?_) fun hholds => hreport hholds.1
    obtain ⟨_,hnone,-⟩ := hsticks
    cases hnone

end

/-! ## The title of an input -/

def inputParams : List ParamDesc :=
  [⟨"title",.str,some "",0⟩,⟨"message",.str,some "",0⟩,⟨"default",.str,some "",0⟩,
    ⟨"placeholder",.str,some "",0⟩,⟨"validation",.str,none,0⟩,⟨"validation_script",.str,none,0⟩]

def inputTable (widgetType : Bytes) : List ParamDesc :=
  if widgetType = bytes "input" then inputParams else []

def inputStep : Option (Sitting Unit) → SittingEvent → Option (Sitting Unit) :=
  paneStep unitZoom id (fun _ _ _ _ => false) (fun _ => none) inputTable

/-- An input is put on the canvas and selected there, and the property pane is brought to the
front. -/
def inputSelected : Option (Sitting Unit) :=
  run inputStep plainStart
    (withPictures [.key .keyTab 9,.key .keyTab 9,.key .keyEnter 0,.key .keyF1 0,
      .mouse .button 500 350 1 .press,.mouse .button 500 350 1 .release,.key .keyTab 9])

def titleDesc : ParamDesc := ⟨"title",.str,some "",0⟩

/-- The title of the first item. -/
def titleOf (p : BuilderProject) : Option (Bytes × Option Bytes) :=
  (projectFindItem p 1).map fun item =>
    (item.widgetType,(item.params.bind (·.getObjectItem (bytes "title"))).bind Json.valuestring)

theorem title_is_shown : ∃ app item, inputSelected = some ⟨app,false⟩ ∧
    ShowsField inputTable app item titleDesc ∧ app.propEditor.editingItemId = 1 ∧
      titleOf app.project = some (bytes "input",some (bytes "input")) := by
  have hpane : inputSelected.map (fun s => (s.closed,s.app.activePane,decide (s.app.mode = .wire),
      s.app.keymapEditing,s.app.propEditor.editing)) = some (false,2,false,false,false) := by
    decide
  have hshown : inputSelected.map (fun s => (s.app.propEditor.editingItemId,
      s.app.propEditor.activeField,s.app.propEditor.fields)) =
        some (1,0,paramNames inputTable (bytes "input")) := by decide
  have htitle : inputSelected.map (fun s => titleOf s.app.project) =
      some (some (bytes "input",some (bytes "input"))) := by decide
  obtain ⟨⟨app,closed⟩,happ,hpane⟩ := Option.map_eq_some_iff.1 hpane
  rw [happ,Option.map_some,Option.some_inj] at hshown htitle
  simp only [Prod.mk.injEq] at hpane hshown
  obtain ⟨hclosed,hactive,hmode,hbinding,hidle⟩ := hpane
  obtain ⟨hid,hfield,hfields⟩ := hshown
  obtain ⟨item,hitem,htype⟩ := Option.map_eq_some_iff.1 htitle
  have htype : item.widgetType = bytes "input" := congrArg Prod.fst htype
  refine ⟨app,item,by rw [happ,hclosed],
    ⟨hactive,of_decide_eq_false hmode,hbinding,hidle,?_,?_,?_,?_⟩,hid,htitle⟩
  · rw [hid]
    decide
  · rw [hid,hitem]
  · rw [hfields,htype]
  · rw [hfield,htype]
    rfl

/-- The text in a member that is a string. -/
theorem holds_string {name : String} {defStr : Option String} {defInt : ℤ} {params : Option Json}
    {s : Bytes} (h : params.bind (·.getObjectItem (bytes name)) = some (.string s)) (text : Bytes) :
    Holds ⟨name,.str,defStr,defInt⟩ params text ↔ s.takeWhile (· ≠ 0) = text := by
  obtain ⟨j,rfl,hj⟩ := Option.bind_eq_some_iff.1 h
  have harg : extractParam j ⟨name,.str,defStr,defInt⟩ = .str (some (s.takeWhile (· ≠ 0))) := by
    rw [extractParam,hj]
    rfl
  rw [Holds,h]
  dsimp only [ReadsBack]
  rw [Option.getD_some,harg,Arg.str.injEq,Option.some_inj]

theorem titleOf_holds {p : BuilderProject} {item : CanvasItem} {widgetType s : Bytes}
    (hitem : projectFindItem p 1 = some item) (h : titleOf p = some (widgetType,some s))
    (text : Bytes) : Holds titleDesc item.params text ↔ s.takeWhile (· ≠ 0) = text := by
  rw [titleOf,hitem,Option.map_some,Option.some_inj,Prod.mk.injEq] at h
  obtain ⟨v,hv,hs⟩ := Option.bind_eq_some_iff.1 h.2
  refine holds_string ?_ text
  cases v with
  | string s' =>
      cases hs
      exact hv
  | null | bool | number | array | object => cases hs

/-- When nothing is typed the title stays what it was. -/
theorem untouched_title_sticks : ∃ app, inputSelected = some ⟨app,false⟩ ∧
    EditSticks unitZoom id (fun _ _ _ _ => false) (fun _ => none) inputTable app titleDesc [] := by
  obtain ⟨app,item,happ,hshows,hid,htitle⟩ := title_is_shown
  refine ⟨app,happ,(edit_sticks_iff hshows []).2 ⟨fun h => h.elim,?_⟩⟩
  have htext : inputSelected.map (fun s => s.app.editedText []) = some (bytes "input") := by
    decide +kernel
  rw [happ,Option.map_some,Option.some_inj] at htext
  rw [titleOf_holds (hid ▸ hshows.found) htitle,htext]
  decide

/-- An `A` typed into the title is lost. -/
theorem typed_title_is_lost : ∃ app, inputSelected = some ⟨app,false⟩ ∧
    ¬EditSticks unitZoom id (fun _ _ _ _ => false) (fun _ => none) inputTable app titleDesc [65] := by
  obtain ⟨app,item,happ,hshows,hid,htitle⟩ := title_is_shown
  refine ⟨app,happ,?_⟩
  rintro ⟨t,ht,after,hafter,hholds⟩
  have htext : inputSelected.map (fun s => s.app.editedText [65]) = some (bytes "inputA") := by
    decide +kernel
  have hkept : (run inputStep inputSelected (withPictures (editKeys [65]))).map (fun s =>
      titleOf s.app.project) = some (some (bytes "input",some (bytes "input"))) := by
    decide +kernel
  rw [happ,Option.map_some,Option.some_inj] at htext
  rw [happ,show run inputStep (some ⟨app,false⟩) (withPictures (editKeys [65])) = some t from ht,
    Option.map_some,Option.some_inj] at hkept
  rw [titleOf_holds (hid ▸ hafter) hkept,htext] at hholds
  exact absurd hholds (by decide)

end Filly.Builder
