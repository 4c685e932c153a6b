import Filly.Keymap
import Filly.Rectangles
import Filly.Response
import Filly.WhileLoops

/-!
# The event loop of `session_run`

A session draws its widget, takes one event after another from the backend and
hands most of them to the widget. A response of the widget ends it. The widget and
the backend are known by the functions that the loop calls; whatever these can
change is in the two states `W` and `β`. The events handed over and the answers to
them are kept in a log.

`last_render_tree` is read for the node under the mouse and for the next node to
focus. Nothing in the source ever writes it.
-/
namespace Filly.SessionLoop
open CJson Keys Protocol Rectangles WhileLoops

inductive Event where
  | none
  | key (code : KeyCode) (ch : UInt8)
  | resize (w h : ℤ)
  | mouseMotion (x y : ℤ)
  | mouseButton (x y button : ℤ) (state : MouseState)
  | mouseScroll (x y : ℤ) (state : MouseState)
  | mouseDragStart (x y : ℤ)
  | mouseDragMove (x y startX startY dx dy : ℤ)
  | mouseDragEnd (x y startX startY dx dy : ℤ)
  deriving DecidableEq, Repr

inductive EventResult where
  | handled
  | response (r : WidgetResponse)
  | unhandled

def EventResult.isResponse : EventResult → Bool
  | .response _ => true
  | .handled | .unhandled => false

/-! ## Nodes on the screen -/

inductive NodeKind where
  | container | flex | grid | tabs | splitPanes | leaf
  deriving DecidableEq, Repr

/-- The fields of a `RenderTree` that the loop reads. The child of tabs and the panes of
a split are in the list of children as well. -/
inductive RenderTree where
  | mk (kind : NodeKind) (rect : Rect) (tooltip : Bytes) (tabIndex : ℤ)
      (styleClass : Option Bytes) (children : List RenderTree)

namespace RenderTree

def kind : RenderTree → NodeKind
  | .mk kind _ _ _ _ _ => kind

def tooltip : RenderTree → Bytes
  | .mk _ _ tooltip _ _ _ => tooltip

def styleClass : RenderTree → Option Bytes
  | .mk _ _ _ _ styleClass _ => styleClass

end RenderTree

mutual
def hitTest (px py offX offY : ℤ) : RenderTree → Option RenderTree
  | .mk kind rect tooltip tabIndex styleClass children =>
      let x := offX+rect.x
      let y := offY+rect.y
      if px < x ∨ x+rect.w ≤ px ∨ py < y ∨ y+rect.h ≤ py then none
      else
        let hit := match kind with
          | .container | .flex | .grid => hitLast px py x y children
          | .tabs | .splitPanes | .leaf => none
        some (hit.getD (.mk kind rect tooltip tabIndex styleClass children))

/-- The loop over the children, from the last one on. -/
def hitLast (px py x y : ℤ) : List RenderTree → Option RenderTree
  | [] => none
  | c::cs => (hitLast px py x y cs).or (hitTest px py x y c)
end

mutual
def countFocusable : RenderTree → ℕ
  | .mk kind _ _ tabIndex _ children =>
      (if 0 ≤ tabIndex then 1 else 0)+
        match kind with
        | .leaf => 0
        | .container | .flex | .grid | .tabs | .splitPanes => countChildren children

def countChildren : List RenderTree → ℕ
  | [] => 0
  | c::cs => countFocusable c+countChildren cs
end

mutual
/-- The node of a number among those that can be focused, or the next free number. -/
def findFocusable (target current : ℕ) : RenderTree → RenderTree ⊕ ℕ
  | .mk kind rect tooltip tabIndex styleClass children =>
      if 0 ≤ tabIndex ∧ current = target then .inl (.mk kind rect tooltip tabIndex styleClass children)
      else
        let current := if 0 ≤ tabIndex then current+1 else current
        match kind with
        | .leaf => .inr current
        | .container | .flex | .grid | .tabs | .splitPanes => findChild target current children

def findChild (target current : ℕ) : List RenderTree → RenderTree ⊕ ℕ
  | [] => .inr current
  | c::cs =>
      match findFocusable target current c with
      | .inl found => .inl found
      | .inr current => findChild target current cs
end

/-! ## The state of a session -/

/-- The static variables that the loop uses. -/
structure Statics where
  keymap : List KeyBinding := []
  lastRenderTree : Option RenderTree := none
  focusedWidgetId : Option Bytes := none
  tooltipTargetId : Option Bytes := none
  tooltipHoverX : ℤ := 0
  tooltipHoverY : ℤ := 0
  tooltipHoverStart : ℤ := 0

/-- The functions of a widget, and the fields of its `WidgetBase` that the loop uses. -/
structure WidgetVTable (W β : Type) where
  render : W → RenderTree × W
  handleEvent : Event → W → β → EventResult × W × β
  isDirty : W → Bool
  clearDirty : W → W
  markDirty : W → W
  setRenderArea : ℤ → ℤ → W → W
  acceptsTextInput : W → Bool

/-- The functions of a backend and of the rest of the program. The undo stack calls back
into the widgets. -/
structure Backend (W β : Type) where
  setup : β → β
  draw : Statics → RenderTree → ℤ → ℤ → β → β
  nextEvent : β → Event × β
  teardown : β → β
  getSize : β → (ℤ × ℤ) × β
  waitFrame : Option (β → β)
  copyToClipboard : Option (Bytes → β → β)
  isInteractive : Bool
  getClipboard : β → Option Bytes × β
  undoStackUndo : W → β → Bool × W × β
  undoStackRedo : W → β → Bool × W × β
  storeGetVersion : β → Option ℤ
  timeMs : β → ℤ × β

structure Host (W β : Type) extends WidgetVTable W β, Backend W β

structure State (W β : Type) extends Statics where
  w : W
  b : β
  lastW : ℤ
  lastH : ℤ
  idleCount : ℕ := 0
  lastStoreVersion : ℤ := 0
  lastFrame : ℤ := 0
  log : List (Event × EventResult) := []

/-- How `session_run` ends: with a response, or at a null pointer. -/
inductive Exit (W β : Type) where
  | response (r : WidgetResponse) (s : State W β)
  | crash

/-! ## One turn -/

section Turns

variable {W β : Type} (h : Host W β)

def markDirty (s : State W β) : State W β := { s with w := h.markDirty s.w }

/-- The widget is rendered and its tree is laid out, drawn and forgotten. -/
def redraw (termW termH : ℤ) (s : State W β) : State W β :=
  let (tree,w) := h.render s.w
  let b := h.draw s.toStatics tree termW termH s.b
  let (now,b) := h.timeMs b
  { s with w := h.clearDirty w, b := b, lastFrame := now }

/-- The part of a turn before the next event. -/
def refresh (s : State W β) : State W β :=
  let ((termW,termH),b) := h.getSize s.b
  let s := { s with b := b }
  let s :=
    if termW ≠ s.lastW ∨ termH ≠ s.lastH then
      { s with w := h.setRenderArea termW termH (h.markDirty s.w), lastW := termW, lastH := termH }
    else s
  if h.isDirty s.w then redraw h termW termH s else s

/-- What is done before a return. -/
def finish (s : State W β) : State W β :=
  { s with b := h.teardown s.b, focusedWidgetId := none, tooltipTargetId := none }

/-- A turn without an event. -/
def idle (s : State W β) : Turn (State W β) (Exit W β) :=
  if h.isInteractive then
    let (now,b) := h.timeMs s.b
    let s := { s with b := b }
    if s.tooltipTargetId.isSome ∧ 500 ≤ now-s.tooltipHoverStart then
      .next { markDirty h s with tooltipHoverStart := now }
    else .next s
  else if 5000 < s.idleCount+1 then .returned (.response ⟨none,false,none⟩ (finish h s))
  else .next { s with idleCount := s.idleCount+1 }

/-- The tooltip of the node under the mouse. -/
def hover (x y : ℤ) (s : State W β) : State W β :=
  let s := { s with tooltipTargetId := none, tooltipHoverStart := 0 }
  match s.lastRenderTree.bind (hitTest x y 0 0) with
  | none => markDirty h s
  | some hit =>
      if hit.tooltip = [] then markDirty h s
      else
        let (now,b) := h.timeMs s.b
        markDirty h { s with b := b, tooltipTargetId := some hit.tooltip, tooltipHoverX := x,
                             tooltipHoverY := y, tooltipHoverStart := now }

/-- An event for the widget. -/
def handOver (s : State W β) (ev : Event) : EventResult × State W β :=
  let (result,w,b) := h.handleEvent ev s.w s.b
  (result,{ s with w := w, b := b, log := s.log++[(ev,result)] })

/-- A right click on a container sends F2, whatever the answer to it. -/
def rightClick (x y : ℤ) (s : State W β) : State W β :=
  match s.lastRenderTree.bind (hitTest x y 0 0) with
  | none => s
  | some hit => if hit.kind = .container then (handOver h s (.key .keyF2 0)).2 else s

def copyClipboard (s : State W β) : State W β :=
  match h.copyToClipboard with
  | none => s
  | some copy =>
      match h.getClipboard s.b with
      | (none,b) => { s with b := b }
      | (some text,b) => { s with b := copy text b }

def isPrintablePaste (text : Bytes) : Bool :=
  text.all fun ch => !(ch < 32 && ch ≠ 10 && ch ≠ 9 && ch ≠ 13) && ch ≠ 127

/-- Each character is a key for the widget. The answers are not looked at. -/
def pasteText (s : State W β) (text : Bytes) : State W β :=
  text.foldl (fun s c => (handOver h s (.key .keyChar c)).2) s

def pasteClipboard (s : State W β) : State W β :=
  let (text,b) := h.getClipboard s.b
  let s := { s with b := b }
  match text with
  | none => markDirty h s
  | some text => markDirty h (if isPrintablePaste text then pasteText h s text else s)

/-- The next node gets the focus. The first node is looked for through a null pointer
if another one had it. -/
def focusNext (s : State W β) : Turn (State W β) (Exit W β) :=
  match s.lastRenderTree with
  | none => .next s
  | some tree =>
      let total := countFocusable tree
      if total = 0 then .next s
      else if s.focusedWidgetId.isSome then .returned .crash
      else
        match findFocusable (1 % total) 0 tree with
        | .inr _ => .next s
        | .inl found =>
            match found.styleClass with
            | none => .next s
            | some id => .next (markDirty h { s with focusedWidgetId := some id })

/-- A changed store is drawn again. -/
def checkStore (s : State W β) : State W β :=
  match h.storeGetVersion s.b with
  | none => s
  | some ver =>
      if ver ≠ s.lastStoreVersion then { markDirty h s with lastStoreVersion := ver } else s

def awaitFrame (s : State W β) : State W β :=
  match h.waitFrame with
  | none => s
  | some wait =>
      let (now,b) := h.timeMs s.b
      { s with b := if now-s.lastFrame < 16 then wait b else b }

/-- The part of a turn after the widget has taken an event. -/
def afterEvent (s : State W β) : State W β := awaitFrame h (checkStore h s)

def deliver (ev : Event) (s : State W β) : Turn (State W β) (Exit W β) :=
  match handOver h { s with idleCount := 0 } ev with
  | (.response r,s) => .returned (.response r (finish h s))
  | (_,s) => .next (afterEvent h s)

/-- The undo stack for the keys that use it. -/
def undoKey (code : KeyCode) (ch : UInt8) (s : State W β) : Bool × State W β :=
  if code = .keyChar ∧ ch = 26 then
    let (done,w,b) := h.undoStackUndo s.w s.b
    (done,{ s with w := w, b := b })
  else if code = .keyChar ∧ ch = 25 then
    let (done,w,b) := h.undoStackRedo s.w s.b
    (done,{ s with w := w, b := b })
  else (false,s)

def takeKey (code : KeyCode) (ch : UInt8) (s : State W β) : Turn (State W β) (Exit W β) :=
  if code = .keyChar ∧ ch = 3 then .next (copyClipboard h s)
  else if code = .keyChar ∧ ch = 22 then .next (pasteClipboard h s)
  else
    let (done,s) := undoKey h code ch s
    if done then .next (markDirty h s)
    else if code = .keyTab then focusNext h s
    else
      let (code,ch) := if h.acceptsTextInput s.w then (code,ch) else mapKey s.keymap code ch
      deliver h (.key code ch) s

def takeEvent (s : State W β) : Event → Turn (State W β) (Exit W β)
  | .none => idle h s
  | .resize _ _ => .next s
  | .mouseMotion x y => .next (hover h x y s)
  | .mouseButton x y button state =>
      if state = .press ∧ button = 3 then .next (rightClick h x y s)
      else deliver h (.mouseButton x y button state) s
  | .mouseScroll x y state => deliver h (.mouseScroll x y state) s
  | .mouseDragStart _ _ | .mouseDragMove _ _ _ _ _ _ | .mouseDragEnd _ _ _ _ _ _ =>
      .next (markDirty h s)
  | .key code ch => takeKey h code ch s

def nextEvent (s : State W β) : Event × State W β :=
  let s := refresh h s
  let (ev,b) := h.nextEvent s.b
  (ev,{ s with b := b })

def sessionTurn (s : State W β) : Turn (State W β) (Exit W β) :=
  let (ev,s) := nextEvent h s
  takeEvent h s ev

/-- The loop is entered with the default keys and a first picture. The identifiers are
null whenever no session runs. -/
def start (keymap : List KeyBinding) (w : W) (b : β) : State W β :=
  let ((termW,termH),b) := h.getSize (h.setup b)
  redraw h termW termH
    { keymap := loadDefaultKeymap keymap, w := h.setRenderArea termW termH w, b := b,
      lastW := termW, lastH := termH }

def sessionRun (keymap : List KeyBinding) (w : W) (b : β) : ℕ → Turn (State W β) (Exit W β) :=
  runFor (sessionTurn h) (start h keymap w b)

/-! ## What a turn does -/

/-- No event is handed over between the two states. -/
structure Kept (s t : State W β) : Prop where
  log : t.log = s.log
  keymap : t.keymap = s.keymap
  tree : t.lastRenderTree = s.lastRenderTree
  focused : s.focusedWidgetId = none → t.focusedWidgetId = none

theorem Kept.trans {s t u : State W β} (hst : Kept s t) (htu : Kept t u) : Kept s u :=
  ⟨htu.log.trans hst.log,htu.keymap.trans hst.keymap,htu.tree.trans hst.tree,
    fun h => htu.focused (hst.focused h)⟩

theorem kept_markDirty (s : State W β) : Kept s (markDirty h s) := ⟨rfl,rfl,rfl,id⟩

theorem kept_finish (s : State W β) : Kept s (finish h s) :=
  ⟨rfl,rfl,rfl,fun _ => rfl⟩

theorem kept_refresh (s : State W β) : Kept s (refresh h s) := by
  unfold refresh
  dsimp only
  split_ifs
  all_goals exact ⟨rfl,rfl,rfl,id⟩

theorem kept_nextEvent (s : State W β) : Kept s (nextEvent h s).2 :=
  (kept_refresh h s).trans ⟨rfl,rfl,rfl,id⟩

theorem kept_copyClipboard (s : State W β) : Kept s (copyClipboard h s) := by
  unfold copyClipboard
  split
  · exact ⟨rfl,rfl,rfl,id⟩
  · split
    all_goals exact ⟨rfl,rfl,rfl,id⟩

theorem kept_checkStore (s : State W β) : Kept s (checkStore h s) := by
  unfold checkStore
  split
  · exact ⟨rfl,rfl,rfl,id⟩
  · split_ifs
    all_goals exact ⟨rfl,rfl,rfl,id⟩

theorem kept_afterEvent (s : State W β) : Kept s (afterEvent h s) := by
  refine (kept_checkStore h s).trans ?_
  unfold afterEvent awaitFrame
  split
  all_goals exact ⟨rfl,rfl,rfl,id⟩

theorem kept_undoKey (code : KeyCode) (ch : UInt8) (s : State W β) :
    Kept s (undoKey h code ch s).2 := by
  unfold undoKey
  split_ifs
  all_goals exact ⟨rfl,rfl,rfl,id⟩

/-- While no tree is kept, the mouse is over no node. -/
theorem kept_hover {s : State W β} (hs : s.lastRenderTree = none) (x y : ℤ) :
    Kept s (hover h x y s) := by
  simp only [hover,hs,Option.bind_none]
  exact ⟨rfl,rfl,hs.symm,id⟩

/-- A turn that hands nothing over. -/
def Quiet (s : State W β) : Turn (State W β) (Exit W β) → Prop
  | .next t => Kept s t
  | .returned (.response _ t) => Kept s t
  | .returned .crash => False

/-- A turn that hands one event over and ends the session with a response to it. -/
def Heard (s : State W β) (ev : Event) : Turn (State W β) (Exit W β) → Prop
  | .next t => ∃ result, result.isResponse = false ∧
      Kept { s with log := s.log++[(ev,result)] } t
  | .returned (.response r t) => t.log = s.log++[(ev,.response r)]
  | .returned .crash => False

theorem heard_deliver (ev : Event) (s : State W β) : Heard s ev (deliver h ev s) := by
  unfold deliver handOver
  dsimp only
  cases (h.handleEvent ev s.w s.b).1 with
  | response r => rfl
  | handled =>
      refine ⟨.handled,rfl,Kept.trans ?_ (kept_afterEvent h _)⟩
      exact ⟨rfl,rfl,rfl,id⟩
  | unhandled =>
      refine ⟨.unhandled,rfl,Kept.trans ?_ (kept_afterEvent h _)⟩
      exact ⟨rfl,rfl,rfl,id⟩

theorem deliver_handled {ev : Event} {s : State W β}
    (hr : (h.handleEvent ev s.w s.b).1 = .handled) :
    deliver h ev s = .next (afterEvent h (handOver h { s with idleCount := 0 } ev).2) := by
  unfold deliver handOver
  dsimp only
  rw [hr]

theorem quiet_idle (s : State W β) : Quiet s (idle h s) := by
  unfold idle
  split_ifs
  · dsimp only
    split_ifs
    all_goals exact ⟨rfl,rfl,rfl,id⟩
  · exact kept_finish h s
  · exact ⟨rfl,rfl,rfl,id⟩

theorem Quiet.of_kept {s u : State W β} {t : Turn (State W β) (Exit W β)} (hu : Kept s u)
    (ht : Quiet u t) : Quiet s t := by
  cases t with
  | next t => exact hu.trans ht
  | returned r =>
      cases r with
      | response r t => exact hu.trans ht
      | crash => exact ht

theorem Heard.of_kept {s u : State W β} {ev : Event} {t : Turn (State W β) (Exit W β)}
    (hu : Kept s u) (ht : Heard u ev t) : Heard s ev t := by
  cases t with
  | next t =>
      obtain ⟨result,hresult,hkept⟩ := ht
      refine ⟨result,hresult,Kept.trans ?_ hkept⟩
      exact ⟨congrArg (·++[(ev,result)]) hu.log,hu.keymap,hu.tree,hu.focused⟩
  | returned r =>
      cases r with
      | response r t => exact ht.trans (congrArg (·++[(ev,.response r)]) hu.log)
      | crash => exact ht

/-- A turn hands over at most one event. -/
def Plain (s : State W β) (t : Turn (State W β) (Exit W β)) : Prop :=
  Quiet s t ∨ ∃ ev, Heard s ev t

theorem Plain.of_kept {s u : State W β} {t : Turn (State W β) (Exit W β)} (hu : Kept s u)
    (ht : Plain u t) : Plain s t :=
  ht.imp (.of_kept hu) fun ⟨ev,hev⟩ => ⟨ev,hev.of_kept hu⟩

theorem plain_takeKey {s : State W β} (hs : s.lastRenderTree = none) {code : KeyCode} {ch : UInt8}
    (hkey : ¬(code = .keyChar ∧ ch = 22)) : Plain s (takeKey h code ch s) := by
  have hundo := kept_undoKey h code ch s
  unfold takeKey
  rw [if_neg hkey]
  by_cases hcopy : code = .keyChar ∧ ch = 3
  · rw [if_pos hcopy]
    exact .inl (kept_copyClipboard h s)
  · rw [if_neg hcopy]
    generalize undoKey h code ch s = r at hundo
    obtain ⟨done,u⟩ := r
    dsimp only at hundo ⊢
    have hu : u.lastRenderTree = none := hundo.tree.trans hs
    split_ifs
    · exact .inl (hundo.trans (kept_markDirty h u))
    · rw [focusNext,hu]
      exact .inl hundo
    all_goals exact .inr ⟨_,(heard_deliver h _ u).of_kept hundo⟩

theorem plain_takeEvent {s : State W β} (hs : s.lastRenderTree = none) {ev : Event}
    (hev : ev ≠ .key .keyChar 22) : Plain s (takeEvent h s ev) := by
  cases ev with
  | none => exact .inl (quiet_idle h s)
  | resize x y => exact .inl ⟨rfl,rfl,rfl,id⟩
  | mouseMotion x y => exact .inl (kept_hover h hs x y)
  | mouseButton x y button state =>
      rw [takeEvent]
      split_ifs
      · rw [rightClick,hs]
        exact .inl ⟨rfl,rfl,rfl,id⟩
      · exact .inr ⟨_,heard_deliver h _ s⟩
  | mouseScroll x y state => exact .inr ⟨_,heard_deliver h _ s⟩
  | mouseDragStart x y => exact .inl (kept_markDirty h s)
  | mouseDragMove x y startX startY dx dy => exact .inl (kept_markDirty h s)
  | mouseDragEnd x y startX startY dx dy => exact .inl (kept_markDirty h s)
  | key code ch => exact plain_takeKey h hs fun hkey => hev (by rw [hkey.1,hkey.2])

/-- The text that the next turn pastes, and the state in which it does so. -/
def pasted (s : State W β) : Option (Bytes × State W β) :=
  let (ev,s) := nextEvent h s
  if ev = .key .keyChar 22 then
    match h.getClipboard s.b with
    | (some text,b) => if isPrintablePaste text then some (text,{ s with b := b }) else none
    | (none,_) => none
  else none

/-- A turn pastes a text or hands over at most one event. -/
theorem sessionTurn_cases {s : State W β} (hs : s.lastRenderTree = none) :
    (pasted h s = none ∧ Plain s (sessionTurn h s)) ∨
      ∃ text t, pasted h s = some (text,t) ∧ Kept s t ∧
        sessionTurn h s = .next (markDirty h (pasteText h t text)) := by
  have hkept := kept_nextEvent h s
  unfold pasted sessionTurn
  generalize nextEvent h s = r at hkept
  obtain ⟨ev,u⟩ := r
  have hu : u.lastRenderTree = none := hkept.tree.trans hs
  dsimp only
  by_cases hev : ev = .key .keyChar 22
  · subst hev
    rw [if_pos rfl,takeEvent,takeKey,if_neg (by decide),if_pos ⟨rfl,rfl⟩,pasteClipboard]
    rcases h.getClipboard u.b with ⟨_ | text,b⟩
    · exact .inl ⟨rfl,.inl (hkept.trans ⟨rfl,rfl,rfl,id⟩)⟩
    · dsimp only
      split_ifs
      · exact .inr ⟨text,_,rfl,hkept.trans ⟨rfl,rfl,rfl,id⟩,rfl⟩
      · exact .inl ⟨rfl,.inl (hkept.trans ⟨rfl,rfl,rfl,id⟩)⟩
  · rw [if_neg hev]
    exact .inl ⟨rfl,(plain_takeEvent h hu hev).of_kept hkept⟩

/-- The second state comes after the first one. -/
structure Extends (s t : State W β) : Prop where
  keymap : t.keymap = s.keymap
  tree : t.lastRenderTree = s.lastRenderTree
  focused : s.focusedWidgetId = none → t.focusedWidgetId = none
  log : ∃ rest, t.log = s.log++rest

theorem Kept.extends {s t : State W β} (hst : Kept s t) : Extends s t :=
  ⟨hst.keymap,hst.tree,hst.focused,[],by rw [hst.log,List.append_nil]⟩

theorem Extends.trans {s t u : State W β} (hst : Extends s t) (htu : Extends t u) :
    Extends s u := by
  obtain ⟨xs,hxs⟩ := hst.log
  obtain ⟨ys,hys⟩ := htu.log
  exact ⟨htu.keymap.trans hst.keymap,htu.tree.trans hst.tree,fun h => htu.focused (hst.focused h),
    xs++ys,by rw [hys,hxs,List.append_assoc]⟩

theorem pasteText_cons (s : State W β) (c : UInt8) (text : Bytes) :
    pasteText h s (c::text) = pasteText h (handOver h s (.key .keyChar c)).2 text := rfl

theorem extends_pasteText (s : State W β) (text : Bytes) : Extends s (pasteText h s text) := by
  induction text generalizing s with
  | nil => exact Kept.extends ⟨rfl,rfl,rfl,id⟩
  | cons c text ih =>
      have hover : Extends s (handOver h s (.key .keyChar c)).2 := ⟨rfl,rfl,id,_,rfl⟩
      exact hover.trans (ih _)

/-- Nothing ever sets the tree, gives a node the focus or changes the table, and the log
only grows. -/
theorem extends_sessionTurn {s t : State W β} (hs : s.lastRenderTree = none)
    (ht : sessionTurn h s = .next t) : Extends s t := by
  obtain ⟨-,hplain⟩ | ⟨text,u,-,hkept,hturn⟩ := sessionTurn_cases h hs
  · rw [ht] at hplain
    obtain hquiet | ⟨ev,result,-,hheard⟩ := hplain
    · exact Kept.extends hquiet
    · exact ⟨hheard.keymap,hheard.tree,hheard.focused,_,hheard.log⟩
  · rw [ht,Turn.next.injEq] at hturn
    rw [hturn]
    exact (hkept.extends.trans (extends_pasteText h u text)).trans (kept_markDirty h _).extends

theorem extends_of_reaches {s t : State W β} (hs : s.lastRenderTree = none)
    (ht : Reaches (sessionTurn h) s t) : Extends s t := by
  refine ht.invariant (I := Extends s) ?_ (Kept.extends ⟨rfl,rfl,rfl,id⟩)
  intro u v hu hv
  exact hu.trans (extends_sessionTurn h (hu.tree.trans hs) hv)

/-! ## Responses -/

/-- The first response in a log and the events behind it. -/
def firstResponse : List (Event × EventResult) → Option (WidgetResponse × List (Event × EventResult))
  | [] => none
  | (_,.response r)::rest => some (r,rest)
  | (_,.handled)::rest => firstResponse rest
  | (_,.unhandled)::rest => firstResponse rest

/-- A running session has seen no response. One that has seen a response has returned it
and handed nothing over since. -/
def NoneLost : Turn (State W β) (Exit W β) → Prop
  | .next s => firstResponse s.log = none
  | .returned (.response r s) => ∀ x, firstResponse s.log = some x → x = (r,[])
  | .returned .crash => False

/-- The widget responds to none of the characters. -/
def Unanswered (text : Bytes) (w : W) (b : β) : Prop :=
  match text with
  | [] => True
  | c::text =>
      let (result,w,b) := h.handleEvent (.key .keyChar c) w b
      result.isResponse = false ∧ Unanswered text w b

/-- The next turn pastes no character to which the widget responds. -/
def PastesUnanswered (s : State W β) : Prop :=
  ∀ text t, pasted h s = some (text,t) → Unanswered h text t.w t.b

/-- The first response is in the front part of a log unless that has none. -/
theorem firstResponse_append_eq (log rest : List (Event × EventResult)) :
    firstResponse (log++rest) = match firstResponse log with
      | none => firstResponse rest
      | some x => some (x.1,x.2++rest) := by
  induction log with
  | nil => rfl
  | cons x log ih =>
      obtain ⟨ev,result⟩ := x
      cases result with
      | handled => exact ih
      | response r => rfl
      | unhandled => exact ih

theorem firstResponse_append {log : List (Event × EventResult)} (hlog : firstResponse log = none)
    (rest : List (Event × EventResult)) : firstResponse (log++rest) = firstResponse rest := by
  rw [firstResponse_append_eq,hlog]

theorem firstResponse_of_append {log rest : List (Event × EventResult)}
    (h : firstResponse (log++rest) = none) : firstResponse log = none := by
  rw [firstResponse_append_eq] at h
  cases hlog : firstResponse log with
  | none => rfl
  | some x =>
      rw [hlog] at h
      cases h

theorem firstResponse_singleton {ev : Event} {result : EventResult} :
    firstResponse [(ev,result)] = none ↔ result.isResponse = false := by
  cases result <;> simp [firstResponse,EventResult.isResponse]

/-- A text gets no response into the log exactly if the widget responds to none of it. -/
theorem firstResponse_pasteText_iff {s : State W β} (hs : firstResponse s.log = none)
    (text : Bytes) :
    firstResponse (pasteText h s text).log = none ↔ Unanswered h text s.w s.b := by
  induction text generalizing s with
  | nil => exact iff_of_true hs trivial
  | cons c text ih =>
      have hfirst : firstResponse (handOver h s (.key .keyChar c)).2.log = none ↔
          (h.handleEvent (.key .keyChar c) s.w s.b).1.isResponse = false := by
        rw [handOver,firstResponse_append hs]
        exact firstResponse_singleton
      rw [pasteText_cons,Unanswered]
      constructor
      · intro hnone
        obtain ⟨rest,hrest⟩ := (extends_pasteText h (handOver h s (.key .keyChar c)).2 text).log
        have hc : firstResponse (handOver h s (.key .keyChar c)).2.log = none :=
          firstResponse_of_append (hrest ▸ hnone)
        exact ⟨hfirst.1 hc,(ih hc).1 hnone⟩
      · rintro ⟨hc,hrest⟩
        exact (ih (hfirst.2 hc)).2 hrest

/-- A turn that hands over at most one event returns the response to it. -/
theorem Plain.noneLost {s : State W β} {t : Turn (State W β) (Exit W β)} (ht : Plain s t)
    (hs : firstResponse s.log = none) : NoneLost t := by
  cases t with
  | next t =>
      obtain hquiet | ⟨ev,result,hresult,hheard⟩ := ht
      · rw [NoneLost,hquiet.log]
        exact hs
      · rw [NoneLost,hheard.log,firstResponse_append hs]
        exact firstResponse_singleton.2 hresult
  | returned r =>
      cases r with
      | crash =>
          obtain hquiet | ⟨ev,hheard⟩ := ht
          · exact hquiet
          · exact hheard
      | response r t =>
          intro x hx
          obtain hquiet | ⟨ev,hlog⟩ := ht
          · rw [hquiet.log,hs] at hx
            cases hx
          · rw [show t.log = _ from hlog,firstResponse_append hs] at hx
            exact (Option.some.inj hx).symm

/-- A turn loses a response exactly if it is one to a pasted character. -/
theorem noneLost_sessionTurn_iff {s : State W β} (htree : s.lastRenderTree = none)
    (hs : firstResponse s.log = none) :
    NoneLost (sessionTurn h s) ↔ PastesUnanswered h s := by
  obtain ⟨hpasted,hplain⟩ | ⟨text,t,hpasted,hkept,hturn⟩ := sessionTurn_cases h htree
  · have hnone : PastesUnanswered h s := by
      intro text t ht
      rw [hpasted] at ht
      cases ht
    refine iff_of_true ?_ hnone
    exact hplain.noneLost hs
  · have ht : firstResponse t.log = none := hkept.log ▸ hs
    rw [hturn]
    refine (firstResponse_pasteText_iff h ht text).trans ?_
    constructor
    · intro hunanswered text' t' ht'
      rw [hpasted,Option.some.injEq,Prod.mk.injEq] at ht'
      rw [← ht'.1,← ht'.2]
      exact hunanswered
    · intro hpastes
      exact hpastes text t hpasted

/-- No response is lost in a session exactly if no paste of it has a character to which
the widget responds. -/
theorem noneLost_iff (keymap : List KeyBinding) (w : W) (b : β) :
    (∀ n, NoneLost (sessionRun h keymap w b n)) ↔
      ∀ s, Reaches (sessionTurn h) (start h keymap w b) s → PastesUnanswered h s := by
  apply forall_runFor_iff (I := fun s => s.lastRenderTree = none)
  · intro s t hs ht
    exact (extends_sessionTurn h hs ht).tree.trans hs
  · intro s htree hs
    exact noneLost_sessionTurn_iff h htree hs
  · rfl
  · rfl

end Turns

end Filly.SessionLoop
