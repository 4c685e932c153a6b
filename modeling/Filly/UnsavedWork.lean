import Filly.BuilderApp
import Filly.CanvasLocks
import Filly.ProjectHistory

/-!
# Work that is not saved

The keys of every pane set the flag when they change the project. The mouse does not: a
drag on the canvas moves items, and a wire that is released makes an edge, with the flag as
it was. The file of a project that is left without the flag is the one saved or loaded last.
-/
namespace Filly.Builder
open CJson Keys SessionLoop Runs KeyedList

/-! ## A project that comes back from its file -/

theorem SameProject.refl (p : BuilderProject) : SameProject p p := by
  have hitem (item : CanvasItem) : SameItem item item := by
    refine ⟨rfl,?_⟩
    cases item.params with
    | none => exact .none
    | some j => exact .some (Json.same_refl j)
  exact ⟨rfl,rfl,rfl,rfl,rfl,rfl,List.forall₂_same.2 fun item _ => hitem item,rfl,rfl,rfl,rfl,rfl⟩

/-- Nothing is lost on the way through the file: no port has a description, every item has
parameters that survive, and the texts are written whole and without codes. -/
structure FileKeeps (p : BuilderProject) : Prop where
  clean : p.AllTexts Clean
  nul : p.AllTexts (0 ∉ ·)
  fits : p.AllTexts Fits
  widgets : ∀ n ∈ p.nodes, n.widgetId = -1 ∨ 0 ≤ n.widgetId
  ports : ∀ n ∈ p.nodes, ∀ port ∈ n.ports, port.description = none
  params : ∀ item ∈ p.items, ∃ j, item.params = some j ∧
    (∀ d ∈ j.numbers, Survives d) ∧ 3+j.nesting ≤ 1000

theorem FileKeeps.loads {p : BuilderProject} (h : FileKeeps p) :
    ∃ q, projectLoad (projectSave p) = .ok q ∧ SameProject q p := by
  obtain ⟨items,hitems,hsame⟩ := exists_mapM_iff.2 fun item hitem =>
    (item_returns_iff (h.clean.items item hitem)).2 (h.params item hitem)
  refine ⟨_,(projectLoad_save_iff h.clean h.nul).2 ⟨h.fits,items,hitems,rfl⟩,
    rfl,rfl,rfl,rfl,rfl,rfl,List.forall₂_map_left_iff.2 hsame,?_,rfl,rfl,rfl,rfl⟩
  refine map_eq_self_iff.2 fun n hn => ?_
  have hports : n.ports.map reopenedPort = n.ports := by
    refine map_eq_self_iff.2 fun port hport => ?_
    rw [reopenedPort,← h.ports n hn port hport]
  have hwidget : (if 0 ≤ n.widgetId then n.widgetId else -1) = n.widgetId := by
    rcases h.widgets n hn with hnone | hsome
    · rw [hnone]
      rfl
    · exact if_pos hsome
  rw [reopenedNode,hports,hwidget]

/-! ## What the mouse changes -/

variable {F : Type} {zm : ZoomArithmetic F} {screen : Int32 → Int32}
variable {onCurve : ConnectionGraph → ConnectionEdge → Int32 → Int32 → Bool}
variable {regcomp : Bytes → Option (Bytes → Bool)} {widgetGetParams : Bytes → List Bytes}

variable (zm) in
/-- A move to the point drags an item to another place or size. -/
def DragChanges (c : Canvas F) (point : Int32 × Int32) : Prop :=
  Drags c ∧ ∃ id ∈ c.selectedItems, ∃ item, projectFindItem c.project id = some item ∧
    dragRect c (dragDistance zm c point).1 (dragDistance zm c point).2 item.rect ≠ item.rect

theorem changeItems_eq_self {p : BuilderProject} {f : CanvasItem → CanvasItem} {ids : List Int32}
    (h : ∀ id ∈ ids, ∀ item, projectFindItem p id = some item → f item = item) :
    changeItems p f ids = p := by
  induction ids with
  | nil => rfl
  | cons id ids ih =>
      rw [List.forall_mem_cons] at h
      have hsame : changeItem p id f = p := by
        rw [changeItem,modify_eq_self h.1]
      rw [changeItems,List.foldl_cons,hsame,← changeItems,ih h.2]

/-- Only a drag that changes an item changes the project. -/
theorem canvasMouseMove_keeps {c : Canvas F} {x y : Int32} {buttonDown : Bool}
    (h : ¬(buttonDown ∧ DragChanges zm c (x,y))) :
    (canvasMouseMove zm c x y buttonDown).2.project = c.project := by
  by_cases hdrags : Drags c ∧ buttonDown
  · have heq : (canvasMouseMove zm c x y buttonDown).2 = dragStep zm c (x,y) := by
      rw [hdrags.2]
      rfl
    rw [heq,dragStep_eq hdrags.1]
    refine changeItems_eq_self fun id hid item hitem => ?_
    by_contra hne
    refine h ⟨hdrags.2,hdrags.1,id,hid,item,hitem,fun hrect => hne ?_⟩
    rw [dragItem,hrect]
  · exact canvasMouseMove_project hdrags x y

/-- The ports at which the search for a released wire stops. -/
def wireStops (target : ℕ) : ℕ → List GraphNode → List PortDef
  | _, [] => []
  | portIdx, node::nodes =>
      match scanPorts target portIdx 0 node.ports with
      | (none,passed) => wireStops target passed nodes
      | (some (_,port),passed) => port::wireStops target passed nodes

/-- The port that the wire comes from. -/
def ConnectionGraph.wireSource (g : ConnectionGraph) : Option PortDef := do
  let node ← readAt g.project.nodes g.wireStartNode
  readAt node.ports g.wireStartPort

variable (screen) in
/-- A wire that is released at the point connects two ports. -/
def WireConnects (g : ConnectionGraph) (x y : Int32) : Prop :=
  0 ≤ g.wireStartNode ∧ ∃ target, graphFindPortAt screen g x y = some target ∧
    ∃ src, g.wireSource = some src ∧
      ∃ port ∈ wireStops target 0 (visitedNodes g), graphPortsCompatible src port

theorem dropWire_keeps {g : ConnectionGraph} {target : ℕ} {nodes : List GraphNode} {ni portIdx : ℕ}
    {p p' : BuilderProject}
    (h : ∀ src, g.wireSource = some src → ∀ port ∈ wireStops target portIdx nodes,
      ¬graphPortsCompatible src port)
    (hp : dropWire g target ni portIdx nodes p = some p') : p' = p := by
  induction nodes generalizing ni portIdx p with
  | nil => exact (Option.some.inj hp).symm
  | cons node nodes ih =>
      unfold dropWire at hp
      unfold wireStops at h
      split at hp
      · next passed hscan =>
        rw [hscan] at h
        exact ih h hp
      · next pi port passed hscan =>
        rw [hscan] at h
        simp only [Option.bind_eq_bind,Option.bind_eq_some_iff] at hp
        obtain ⟨srcNode,hnode,src,hsrc,hp⟩ := hp
        have hsource : g.wireSource = some src := by
          rw [ConnectionGraph.wireSource,hnode]
          exact hsrc
        rw [if_neg (h src hsource port List.mem_cons_self)] at hp
        exact ih (fun src hs port hport => h src hs port (List.mem_cons_of_mem _ hport)) hp

theorem graphMouseUp_keeps {g g' : ConnectionGraph} {x y : Int32} {b : Bool}
    (h : ¬WireConnects screen g x y) (hg : graphMouseUp screen g x y = some (b,g')) :
    g'.project = g.project := by
  unfold graphMouseUp at hg
  split_ifs at hg with hwire
  · simp only [Option.bind_eq_bind,Option.bind_eq_some_iff] at hg
    obtain ⟨p,hp,hg⟩ := hg
    cases hg
    unfold releaseWire at hp
    split at hp
    · next target htarget =>
      refine dropWire_keeps (fun src hsrc port hport hcompatible => h ?_) hp
      exact ⟨hwire,target,htarget,src,hsrc,port,hport,hcompatible⟩
    · exact (Option.some.inj hp).symm
  · cases hg
    rfl

theorem graphMouseMove_keeps {g g' : ConnectionGraph} {x y : Int32} {b : Bool}
    (hg : graphMouseMove screen g x y = some (b,g')) : g'.project = g.project := by
  unfold graphMouseMove at hg
  split_ifs at hg
  · cases hg
    rfl
  · simp only [Option.bind_eq_bind,Option.bind_eq_some_iff] at hg
    obtain ⟨_,_,_,_,hg⟩ := hg
    cases hg
    rfl
  · cases hg
    rfl

theorem graphMouseDown_keeps {g g' : ConnectionGraph} {x y : Int32} {b : Bool}
    (hg : graphMouseDown screen onCurve g x y = some (b,g')) : g'.project = g.project := by
  unfold graphMouseDown at hg
  split_ifs at hg
  · cases hg
    rfl
  · split at hg
    · split at hg
      · split_ifs at hg
        · cases hg
          rfl
        · cases hg
          rfl
      · cases hg
        rfl
    · split at hg
      · cases hg
        rfl
      · split at hg
        · simp only [Option.bind_eq_bind,Option.bind_eq_some_iff] at hg
          obtain ⟨_,_,_,_,hg⟩ := hg
          cases hg
          rfl
        · cases hg
          rfl

/-! ## What an event does to the project, the flag and the file -/

inductive Effect (app app' : BuilderApp F) : Prop where
  | looked (project : app'.project = app.project) (dirty : app'.projectDirty = app.projectDirty)
      (disk : app'.disk = app.disk)
  | changed (dirty : app'.projectDirty = true) (disk : app'.disk = app.disk)
  | saved (project : app'.project = app.project)
      (disk : app'.disk = ⟨some (projectSave app.project),.saved,app.project⟩)

theorem effect_onCanvas {app : BuilderApp F} {f : Canvas F → Canvas F}
    (h : ∀ c, (f c).project = c.project) : Effect app (app.onCanvas f) :=
  .looked (h _) rfl rfl

theorem effect_onGraph {app app' : BuilderApp F} {f : ConnectionGraph → Option ConnectionGraph}
    (h : ∀ g g', f g = some g' → g'.project = g.project) (happ : app.onGraph f = some app') :
    Effect app app' := by
  obtain ⟨g,hg,rfl⟩ := Option.map_eq_some_iff.1 happ
  exact .looked (h _ _ hg) rfl rfl

theorem runValidation_eq {app app' : BuilderApp F} (h : runValidation regcomp app = some app') :
    ∃ issues, app' = { app with lastReport := issues } := by
  unfold runValidation at h
  split at h
  · next issues _ => exact ⟨issues,(Option.some.inj h).symm⟩
  · cases h
  · cases h

theorem effect_captureKey (app : BuilderApp F) (code : KeyCode) (ch : UInt8) :
    Effect app (captureKey app code ch) := by
  unfold captureKey
  dsimp only
  split_ifs
  · exact .looked rfl rfl rfl
  · exact .changed rfl rfl

theorem effect_command {app app' : BuilderApp F} {command : Command}
    (h : app.command regcomp command = some app') : Effect app app' := by
  cases command with
  | save =>
      obtain ⟨issues,rfl⟩ := runValidation_eq h
      exact .saved rfl rfl
  | exportPlugin =>
      obtain ⟨issues,rfl⟩ := runValidation_eq h
      exact .looked rfl rfl rfl
  | validate =>
      obtain ⟨checked,hchecked,rfl⟩ := Option.map_eq_some_iff.1 h
      obtain ⟨issues,rfl⟩ := runValidation_eq hchecked
      exact .looked rfl rfl rfl
  | keymap =>
      cases h
      exact .looked rfl rfl rfl

theorem effect_paletteKey {app app' : BuilderApp F} {code : KeyCode}
    (h : handlePaletteKey zm app code = some app') : Effect app app' := by
  unfold handlePaletteKey at h
  split_ifs at h
  · cases h
    exact .looked rfl rfl rfl
  · cases h
    exact .looked rfl rfl rfl
  · simp only [Option.bind_eq_bind,Option.bind_eq_some_iff] at h
    obtain ⟨_,_,_,_,h⟩ := h
    cases h
    exact .changed rfl rfl
  · cases h
    exact .looked rfl rfl rfl

theorem canvasViewKey_project (ch : UInt8) (c : Canvas F) :
    (canvasViewKey zm ch c).project = c.project := by
  have hfit : (canvasZoomToFit zm c).project = c.project := by
    unfold canvasZoomToFit
    split_ifs
    · rfl
    · rfl
  unfold canvasViewKey
  split_ifs
  · rfl
  · rfl
  · rfl
  · rfl
  · exact hfit
  · rfl
  · rfl
  · rfl
  · rfl

theorem effect_canvasKey (app : BuilderApp F) (code : KeyCode) (ch : UInt8) :
    Effect app (handleCanvasKey zm app code ch) := by
  unfold handleCanvasKey
  split
  · exact .changed rfl rfl
  · split_ifs
    · exact effect_onCanvas (canvasViewKey_project ch)
    · exact .looked rfl rfl rfl

theorem effect_paneKey {app app' : BuilderApp F} {code : KeyCode} {ch : UInt8}
    (h : app.paneKey zm code ch = some app') : Effect app app' := by
  unfold BuilderApp.paneKey at h
  split_ifs at h
  · exact effect_paletteKey h
  · cases h
    exact effect_canvasKey app code ch
  · cases h
    exact .looked rfl rfl rfl
  · obtain ⟨edited,hedited,rfl⟩ := Option.map_eq_some_iff.1 h
    obtain ⟨g,-,rfl⟩ := Option.map_eq_some_iff.1 hedited
    exact .changed rfl rfl
  · cases h
    exact .changed rfl rfl

/-! ## Leaving the builder -/

/-- Escape has nothing else to end than the builder. -/
structure Leaves (app : BuilderApp F) : Prop where
  binding : app.keymapEditing = false
  wire : ¬(app.mode = .wire ∧ 0 ≤ app.graph.wireStartNode)
  editing : app.propEditor.editing = false
  validation : app.showValidation = false

/-- What becomes of an event: either the builder goes on, or it is left by Escape and the
project is written if the flag is set. -/
inductive Handled (app : BuilderApp F) : AppEvent → EventResult → BuilderApp F → Prop where
  | stays {ev r app'} (result : r.isResponse = false) (effect : Effect app app') :
      Handled app ev r app'
  | leaves {ch} (escape : Leaves app) :
      Handled app (.key .keyEsc ch) leaving (if app.projectDirty then app.written else app)

theorem handled_escape {app : BuilderApp F} (h : app.keymapEditing = false) (ch : UInt8) :
    Handled app (.key .keyEsc ch) (handleEscape app).1 (handleEscape app).2 := by
  unfold handleEscape
  by_cases hwire : app.mode = .wire ∧ 0 ≤ app.graph.wireStartNode
  · rw [if_pos hwire]
    exact .stays rfl (.looked rfl rfl rfl)
  rw [if_neg hwire]
  by_cases hediting : app.propEditor.editing = true
  · rw [if_pos hediting]
    exact .stays rfl (.looked rfl rfl rfl)
  rw [if_neg hediting]
  by_cases hvalidation : app.showValidation = true
  · rw [if_pos hvalidation]
    exact .stays rfl (.looked rfl rfl rfl)
  rw [if_neg hvalidation]
  have hleaves : Leaves app :=
    ⟨h,hwire,Bool.eq_false_iff.2 hediting,Bool.eq_false_iff.2 hvalidation⟩
  have hhandled : Handled app (.key .keyEsc ch) leaving
      (if app.projectDirty then app.written else app) := .leaves hleaves
  split_ifs at hhandled ⊢
  · exact hhandled
  · exact hhandled

theorem handled_modeKey {app app' : BuilderApp F} {code : KeyCode} {ch : UInt8} {r : EventResult}
    (hkey : app.keymapEditing = false) (h : app.modeKey code = some (r,app')) :
    Handled app (.key code ch) r app' := by
  unfold BuilderApp.modeKey at h
  split at h
  case h_2 =>
    simp only [Option.map_eq_some_iff,Prod.mk.injEq] at h
    obtain ⟨synced,hsynced,rfl,rfl⟩ := h
    obtain ⟨g,hg,rfl⟩ := Option.map_eq_some_iff.1 hsynced
    rw [← Option.some.inj hg]
    exact .stays rfl (.looked rfl rfl rfl)
  case h_5 =>
    have hhandled := handled_escape hkey ch
    rwa [Option.some.inj h] at hhandled
  case h_7 =>
    split_ifs at h
    cases h
    exact .stays rfl (.looked rfl rfl rfl)
  case h_8 =>
    split_ifs at h
    cases h
    exact .stays rfl (.looked rfl rfl rfl)
  all_goals
    cases h
  all_goals exact .stays rfl (.looked rfl rfl rfl)

theorem handled_key {app app' : BuilderApp F} {code : KeyCode} {ch : UInt8} {r : EventResult}
    (hkey : app.keymapEditing = false) (h : handleKey zm regcomp app code ch = some (r,app')) :
    Handled app (.key code ch) r app' := by
  unfold handleKey at h
  split at h
  · obtain ⟨done,hdone,hr⟩ := Option.map_eq_some_iff.1 h
    cases hr
    exact .stays rfl (effect_command hdone)
  · split at h
    · next hmode =>
      cases h
      exact handled_modeKey hkey hmode
    · obtain ⟨done,hdone,hr⟩ := Option.map_eq_some_iff.1 h
      cases hr
      exact .stays rfl (effect_paneKey hdone)

/-! ## When no work is lost -/

variable (zm screen) in
/-- Without the flag no item is dragged and no wire connects. What is written when the builder
is left survives in the file, and what is not written has been saved or loaded. -/
def Careful (app : BuilderApp F) : AppEvent → Prop
  | .mouse event x y _ state =>
      app.keymapEditing = false → app.projectDirty = false →
        (app.activePane = 1 ∧ app.mode = .edit → event = .motion ∨ event = .dragMove →
          state = .press → ¬DragChanges zm app.openCanvas (x,y)) ∧
        (app.activePane = 2 ∧ app.mode = .wire → event = .button → state = .release →
          ¬WireConnects screen app.openGraph x y)
  | .key .keyEsc _ =>
      Leaves app → (app.projectDirty ∨ app.disk.origin = .saved → FileKeeps app.project) ∧
        (app.projectDirty = false → app.disk.origin ≠ .unknown)
  | _ => True

theorem effect_dragged {app : BuilderApp F} {x y button : Int32} {event : MouseEvent}
    {state : MouseState} (hkey : app.keymapEditing = false)
    (hpane : app.activePane = 1 ∧ app.mode = .edit) (hevent : event = .motion ∨ event = .dragMove)
    (h : Careful zm screen app (.mouse event x y button state)) :
    Effect app (app.onCanvas fun c => (canvasMouseMove zm c x y (state = .press)).2) := by
  by_cases hdirty : app.projectDirty = true
  · exact .changed hdirty rfl
  · refine .looked (canvasMouseMove_keeps fun hchanges => ?_) rfl rfl
    exact (h hkey (Bool.eq_false_iff.2 hdirty)).1 hpane hevent (of_decide_eq_true hchanges.1)
      hchanges.2

theorem handled_canvasMouse {app : BuilderApp F} {x y button : Int32} {event : MouseEvent}
    {state : MouseState} (hkey : app.keymapEditing = false)
    (hpane : app.activePane = 1 ∧ app.mode = .edit)
    (h : Careful zm screen app (.mouse event x y button state)) :
    Handled app (.mouse event x y button state)
      (app.canvasMouse zm widgetGetParams event x y button state).1
      (app.canvasMouse zm widgetGetParams event x y button state).2 := by
  unfold BuilderApp.canvasMouse
  split_ifs with hpress hmove
  · refine .stays rfl ?_
    have hlooked : Effect app (app.onCanvas fun c => (canvasMouseDown zm c x y button).2) :=
      effect_onCanvas fun c => canvasMouseDown_project c x y button
    unfold pressCanvas
    dsimp only
    split_ifs
    · exact .looked (canvasMouseDown_project _ x y button) rfl rfl
    · exact hlooked
  · exact .stays rfl (effect_dragged hkey hpane hmove h)
  · exact .stays rfl (effect_onCanvas canvasMouseUp_project)
  · exact .stays rfl (.looked rfl rfl rfl)
  · exact .stays rfl (.looked rfl rfl rfl)
  · exact .stays rfl (.looked rfl rfl rfl)

theorem handled_graphMouse {app app' : BuilderApp F} {x y button : Int32} {event : MouseEvent}
    {state : MouseState} {r : EventResult} (hkey : app.keymapEditing = false)
    (hpane : app.activePane = 2 ∧ app.mode = .wire)
    (h : Careful zm screen app (.mouse event x y button state))
    (happ : app.graphMouse screen onCurve event x y state = some (r,app')) :
    Handled app (.mouse event x y button state) r app' := by
  unfold BuilderApp.graphMouse at happ
  split_ifs at happ with hpress hmove hrelease
  · obtain ⟨done,hdone,hr⟩ := Option.map_eq_some_iff.1 happ
    cases hr
    refine .stays rfl (effect_onGraph (fun g g' hg => ?_) hdone)
    obtain ⟨⟨b,_⟩,hdown,rfl⟩ := Option.map_eq_some_iff.1 hg
    exact graphMouseDown_keeps hdown
  · obtain ⟨done,hdone,hr⟩ := Option.map_eq_some_iff.1 happ
    cases hr
    refine .stays rfl (effect_onGraph (fun g g' hg => ?_) hdone)
    obtain ⟨⟨b,_⟩,hmoved,rfl⟩ := Option.map_eq_some_iff.1 hg
    exact graphMouseMove_keeps hmoved
  · obtain ⟨done,hdone,hr⟩ := Option.map_eq_some_iff.1 happ
    cases hr
    obtain ⟨g,hg,rfl⟩ := Option.map_eq_some_iff.1 hdone
    obtain ⟨⟨b,_⟩,hup,rfl⟩ := Option.map_eq_some_iff.1 hg
    by_cases hdirty : app.projectDirty = true
    · exact .stays rfl (.changed hdirty rfl)
    · have hwire := (h hkey (Bool.eq_false_iff.2 hdirty)).2 hpane hrelease.1 hrelease.2
      exact .stays rfl (.looked (graphMouseUp_keeps hwire hup) rfl rfl)
  · cases happ
    exact .stays rfl (.looked rfl rfl rfl)

/-- One event that is taken with care. -/
theorem handled_event {app app' : BuilderApp F} {ev : AppEvent} {r : EventResult}
    (hcare : Careful zm screen app ev)
    (h : builderHandleEvent zm screen onCurve regcomp widgetGetParams app ev = some (r,app')) :
    Handled app ev r app' := by
  cases ev with
  | key code ch =>
      simp only [builderHandleEvent] at h
      split_ifs at h with hkey
      · cases h
        exact .stays rfl (effect_captureKey app code ch)
      · exact handled_key (Bool.eq_false_iff.2 hkey) h
  | mouse event x y button state =>
      simp only [builderHandleEvent] at h
      split_ifs at h with hkey hcanvas hgraph
      · cases h
        exact .stays rfl (.looked rfl rfl rfl)
      · have hhandled : Handled app (.mouse event x y button state)
            (app.canvasMouse zm widgetGetParams event x y button state).1
            (app.canvasMouse zm widgetGetParams event x y button state).2 :=
          handled_canvasMouse (Bool.eq_false_iff.2 hkey) hcanvas hcare
        rwa [Option.some.inj h] at hhandled
      · exact handled_graphMouse (Bool.eq_false_iff.2 hkey) hgraph hcare h
      · cases h
        exact .stays rfl (.looked rfl rfl rfl)
  | other =>
      cases h
      exact .stays rfl (.looked rfl rfl rfl)

/-! ## Runs -/

/-- Without the flag the project is the one saved or loaded last, and that is what the file
holds. -/
structure Accounted (app : BuilderApp F) : Prop where
  flagged : app.projectDirty = false → app.project = app.disk.kept
  loaded : app.disk.origin = .loaded → ∃ file, app.disk.content = some file ∧
    projectLoad file = .ok app.disk.kept
  saved : app.disk.origin = .saved → app.disk.content = some (projectSave app.disk.kept)

theorem accounted_saved {app : BuilderApp F}
    (h : app.disk = ⟨some (projectSave app.project),.saved,app.project⟩) : Accounted app := by
  constructor
  · intro _
    rw [h]
  · intro hloaded
    rw [h] at hloaded
    cases hloaded
  · intro _
    rw [h]

theorem Accounted.effect {app app' : BuilderApp F} (h : Accounted app) (he : Effect app app') :
    Accounted app' := by
  cases he with
  | looked hproject hdirty hdisk =>
      constructor
      · rw [hproject,hdirty,hdisk]
        exact h.flagged
      · rw [hdisk]
        exact h.loaded
      · rw [hdisk]
        exact h.saved
  | changed hdirty hdisk =>
      constructor
      · intro hclean
        rw [hdirty] at hclean
        cases hclean
      · rw [hdisk]
        exact h.loaded
      · rw [hdisk]
        exact h.saved
  | saved hproject hdisk => exact accounted_saved (by rw [hproject]; exact hdisk)

/-- The file loads as the project that is open. -/
def InFile (app : BuilderApp F) : Prop :=
  ∃ file q, app.disk.content = some file ∧ projectLoad file = .ok q ∧ SameProject q app.project

theorem inFile_of_leaves {app : BuilderApp F} (h : Accounted app)
    (hkeeps : app.projectDirty ∨ app.disk.origin = .saved → FileKeeps app.project)
    (horigin : app.projectDirty = false → app.disk.origin ≠ .unknown) :
    InFile (if app.projectDirty then app.written else app) := by
  split_ifs with hdirty
  · obtain ⟨q,hq,hsame⟩ := (hkeeps (Or.inl hdirty)).loads
    exact ⟨_,q,rfl,hq,hsame⟩
  · have hclean := Bool.eq_false_iff.2 hdirty
    have hproject := h.flagged hclean
    cases hfrom : app.disk.origin with
    | unknown => exact absurd hfrom (horigin hclean)
    | loaded =>
        obtain ⟨file,hcontent,hload⟩ := h.loaded hfrom
        exact ⟨file,_,hcontent,hload,by rw [hproject]; exact .refl _⟩
    | saved =>
        obtain ⟨q,hq,hsame⟩ := (hkeeps (Or.inr hfrom)).loads
        refine ⟨_,q,h.saved hfrom,?_,hsame⟩
        rw [← hproject]
        exact hq

/-- The flag is set when the project is not the one saved or loaded last, and the file that is
left behind loads as the project. -/
structure WorkKept (s : Sitting F) : Prop where
  flagged : s.app.project ≠ s.app.disk.kept → s.app.projectDirty
  left : s.closed → InFile s.app

def KeepsWork (s : Option (Sitting F)) : Prop := ∀ t, s = some t → WorkKept t

variable (zm screen) in
def SavesWork : Option (Sitting F) → SittingEvent → Prop
  | some s, .event ev => s.closed = false → Careful zm screen s.app ev
  | _, _ => True

/-- What every step keeps. -/
def Secured (s : Option (Sitting F)) : Prop :=
  ∀ t, s = some t → Accounted t.app ∧ (t.closed → InFile t.app)

theorem Secured.keepsWork {s : Option (Sitting F)} (h : Secured s) : KeepsWork s := by
  intro t ht
  obtain ⟨haccounted,hfile⟩ := h t ht
  refine ⟨fun hne => ?_,hfile⟩
  by_contra hclean
  exact hne (haccounted.flagged (Bool.eq_false_iff.2 hclean))

theorem accounted_openProject {path content : Option Bytes} {opened : BuilderProject × SavedFile}
    (h : openProject path content = some opened) :
    opened.1 = opened.2.kept ∧
      (opened.2.origin = .loaded → ∃ file, opened.2.content = some file ∧
        projectLoad file = .ok opened.2.kept) ∧ opened.2.origin ≠ .saved := by
  unfold openProject at h
  dsimp only at h
  split at h
  · next file =>
    split at h
    · next p hload =>
      cases h
      exact ⟨rfl,fun _ => ⟨file,rfl,hload⟩,fun hsaved => by cases hsaved⟩
    · cases h
      exact ⟨rfl,fun hloaded => (by cases hloaded),fun hsaved => by cases hsaved⟩
    · cases h
  · cases h
    exact ⟨rfl,fun hloaded => (by cases hloaded),fun hsaved => by cases hsaved⟩

theorem secured_sittingStart (registered : List Bytes) (path content : Option Bytes) :
    Secured (sittingStart zm regcomp registered path content) := by
  intro t ht
  obtain ⟨app,happ,rfl⟩ := Option.map_eq_some_iff.1 ht
  simp only [builderStart,Option.bind_eq_bind,Option.bind_eq_some_iff] at happ
  obtain ⟨opened,hopened,hstart⟩ := happ
  obtain ⟨issues,rfl⟩ := runValidation_eq hstart
  obtain ⟨hproject,hloaded,hsaved⟩ := accounted_openProject hopened
  exact ⟨⟨fun _ => hproject,hloaded,fun h => absurd h hsaved⟩,fun h => absurd h Bool.false_ne_true⟩

theorem Secured.step {s : Option (Sitting F)} {e : SittingEvent} (h : Secured s)
    (hcare : SavesWork zm screen s e) :
    Secured (sittingStep zm screen onCurve regcomp widgetGetParams s e) := by
  intro t ht
  obtain ⟨u,rfl,hnext⟩ := Option.bind_eq_some_iff.1 ht
  obtain ⟨haccounted,hfile⟩ := h u rfl
  unfold Sitting.next at hnext
  split_ifs at hnext with hclosed
  · cases hnext
    exact ⟨haccounted,hfile⟩
  cases e with
  | render =>
      cases hnext
      refine ⟨?_,fun hleft => absurd hleft hclosed⟩
      unfold builderRender
      split_ifs
      · exact haccounted
      · exact haccounted.effect (.looked rfl rfl rfl)
  | event ev =>
      obtain ⟨⟨r,app'⟩,hhandled,rfl⟩ := Option.map_eq_some_iff.1 hnext
      have hcareful := hcare (Bool.eq_false_iff.2 hclosed)
      cases handled_event hcareful hhandled with
      | stays hresult heffect =>
          refine ⟨haccounted.effect heffect,fun hleft => ?_⟩
          rw [hresult] at hleft
          cases hleft
      | leaves hleaves =>
          obtain ⟨hkeeps,horigin⟩ := hcareful hleaves
          refine ⟨?_,fun _ => inFile_of_leaves haccounted hkeeps horigin⟩
          dsimp only
          split_ifs
          · exact accounted_saved rfl
          · exact haccounted

/-- No work is lost along a run in which the mouse changes the project only while the flag is
set, and in which what is left behind survives in a file. -/
theorem work_is_kept (registered : List Bytes) (path content : Option Bytes)
    (es : List SittingEvent)
    (h : Guarded (sittingStep zm screen onCurve regcomp widgetGetParams) (SavesWork zm screen)
      (sittingStart zm regcomp registered path content) es) :
    Always (sittingStep zm screen onCurve regcomp widgetGetParams) KeepsWork
      (sittingStart zm regcomp registered path content) es :=
  (h.always (fun _ _ hs he => hs.step he) (secured_sittingStart registered path content)).imp
    fun _ hs => hs.keepsWork

/-! ## At zoom 1 -/

/-- One event, with only the widgets of the builder itself. -/
def plainStep : Option (Sitting Unit) → SittingEvent → Option (Sitting Unit) :=
  sittingStep unitZoom id (fun _ _ _ _ => false) (fun _ => none) fun _ => []

def plainStart : Option (Sitting Unit) :=
  sittingStart unitZoom (fun _ => none) builtinWidgets none none

def key (code : KeyCode) (ch : UInt8) : SittingEvent := .event (.key code ch)

def button (x y : Int32) (state : MouseState) : SittingEvent := .event (.mouse .button x y 1 state)

theorem savesWork_key {s : Option (Sitting F)} {code : KeyCode} (hcode : code ≠ .keyEsc)
    (ch : UInt8) : SavesWork zm screen s (key code ch) := by
  cases s with
  | none => trivial
  | some s =>
      intro _
      unfold Careful
      split
      · next hkey => cases hkey
      · next hkey =>
        cases hkey
        exact absurd rfl hcode
      · trivial

theorem savesWork_of_dirty {s : Option (Sitting F)}
    (h : s.map (fun s => s.app.projectDirty) = some true) (event : MouseEvent) (x y button : Int32)
    (state : MouseState) : SavesWork zm screen s (.event (.mouse event x y button state)) := by
  cases s with
  | none => trivial
  | some s =>
      intro _ _ hclean
      rw [Option.map_some,Option.some_inj,hclean] at h
      cases h

theorem savesWork_render (s : Option (Sitting F)) : SavesWork zm screen s .render := by
  cases s with
  | none => trivial
  | some s => trivial

theorem savesWork_escape {s : Option (Sitting F)} {p : BuilderProject} (hp : FileKeeps p)
    (h : s.map (fun s => s.app.projectDirty) = some true)
    (hproject : s.map (fun s => s.app.project) = some p) (ch : UInt8) :
    SavesWork zm screen s (key .keyEsc ch) := by
  cases s with
  | none => trivial
  | some s =>
      intro _ _
      rw [Option.map_some,Option.some_inj] at h hproject
      refine ⟨fun _ => by rw [hproject]; exact hp,fun hclean => ?_⟩
      rw [h] at hclean
      cases hclean

/-- A key is bound, the mouse moves over the canvas, and the builder is left. -/
def boundKey : List SittingEvent :=
  [key .keyChar 107,key .keyF5 0,button 10 10 .press,.event (.mouse .dragMove 20 20 1 .press),
    button 20 20 .release,.render]

def boundProject : BuilderProject :=
  { projectNew (some (bytes "untitled")) 800 600 with
    keymaps := [⟨.global,-1,bytes "F5",bytes "custom"⟩] }

theorem boundProject_keeps : FileKeeps boundProject := by
  have hnone (P : Bytes → Prop) : ∀ s ∈ boundProject.author, P s := fun s hs => by cases hs
  refine ⟨?_,?_,?_,List.forall_mem_nil _,List.forall_mem_nil _,List.forall_mem_nil _⟩
  all_goals
    refine ⟨by decide,hnone _,hnone _,List.forall_mem_nil _,List.forall_mem_nil _,
      List.forall_mem_nil _,List.forall_mem_singleton.2 ⟨by decide,by decide⟩,
      List.forall_mem_nil _,hnone _⟩

theorem bound_key_is_kept : Always plainStep KeepsWork plainStart (boundKey++[key .keyEsc 0]) := by
  refine work_is_kept builtinWidgets none none _ ⟨savesWork_key (by decide) _,
    savesWork_key (by decide) _,savesWork_of_dirty (by decide +kernel) _ _ _ _ _,
    savesWork_of_dirty (by decide +kernel) _ _ _ _ _,
    savesWork_of_dirty (by decide +kernel) _ _ _ _ _,savesWork_render _,
    savesWork_escape boundProject_keeps (by decide +kernel) rfl _,trivial⟩

/-- Two widgets are put on the canvas and saved, and then connected by a wire. -/
def wired : List SittingEvent :=
  [key .keyTab 9,key .keyTab 9,key .keyEnter 0,key .keyEnter 0,key .keyChar 115,key .keyF2 0,
    button 100 10 .press,.event (.mouse .motion 400 10 0 .motion),button 400 10 .release,
    button 206 32 .press,button 294 32 .release]

/-- A widget is put on the canvas and saved, and then dragged. -/
def dragged : List SittingEvent :=
  [key .keyTab 9,key .keyTab 9,key .keyEnter 0,key .keyChar 115,key .keyF1 0,
    button 500 350 .press,.event (.mouse .dragMove 550 350 1 .press)]

/-- Escape then leaves without a word. -/
theorem wire_and_drag_are_lost :
    ¬Always plainStep KeepsWork plainStart (wired++[key .keyEsc 0]) ∧
      ¬Always plainStep KeepsWork plainStart (dragged++[key .keyEsc 0]) := by
  constructor
  · intro h
    have hends : (run plainStep plainStart (wired++[key .keyEsc 0])).map (fun s =>
        (s.app.project.edges.length,s.app.disk.kept.edges.length,s.app.projectDirty)) =
          some (1,0,false) := by decide +kernel
    obtain ⟨s,hs,hcounts⟩ := Option.map_eq_some_iff.1 hends
    simp only [Prod.mk.injEq] at hcounts
    have hdirty := (h.finish s hs).flagged fun hsame => by
      rw [hsame,hcounts.2.1] at hcounts
      exact absurd hcounts.1 (by decide)
    rw [hcounts.2.2] at hdirty
    cases hdirty
  · intro h
    have hends : (run plainStep plainStart (dragged++[key .keyEsc 0])).map (fun s =>
        (s.app.project.items.map fun item => item.rect.x,
          s.app.disk.kept.items.map fun item => item.rect.x,s.app.projectDirty)) =
          some ([448],[400],false) := by decide +kernel
    obtain ⟨s,hs,hplaces⟩ := Option.map_eq_some_iff.1 hends
    simp only [Prod.mk.injEq] at hplaces
    have hdirty := (h.finish s hs).flagged fun hsame => by
      rw [hsame,hplaces.2.1] at hplaces
      exact absurd hplaces.1 (by decide)
    rw [hplaces.2.2] at hdirty
    cases hdirty

end Filly.Builder
