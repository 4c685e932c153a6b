import Filly.FilteredSelection
import Filly.RequestMembers
import Filly.TypedText

/-!
# The list of a widget in a hub

A filter and a multiselect make their list of found choices when they are drawn. In a
hub they are drawn with it, and the session draws the hub only if the hub itself is
dirty. The keys that the hub passes on make the widget in it dirty, not the hub, so the
list may belong to an older query. Here a run goes with the widget of its last picture.
-/
namespace Filly.SessionLoop
open CJson Keys WhileLoops FilteredSelection

section Pictures

variable {W β : Type} (h : Host W β)

/-- The widget in the size of the screen, where that is new. -/
def sized (termW termH : ℤ) (s : State W β) : W :=
  if termW ≠ s.lastW ∨ termH ≠ s.lastH then h.setRenderArea termW termH (h.markDirty s.w) else s.w

/-- The widget in the picture that a turn draws first, if it draws one. -/
def drawnIn (s : State W β) : Option W :=
  let (termW,termH) := (h.getSize s.b).1
  let w := sized h termW termH s
  if h.isDirty w then some (h.render w).2 else none

def firstDrawn (w : W) (b : β) : W :=
  let (termW,termH) := (h.getSize (h.setup b)).1
  (h.render (h.setRenderArea termW termH w)).2

/-- A state at the head of the loop and the widget in the last picture. -/
inductive Drawn (keymap : List KeyBinding) (w : W) (b : β) : State W β → W → Prop where
  | start : Drawn keymap w b (start h keymap w b) (firstDrawn h w b)
  | turn {s t : State W β} {last : W} : Drawn keymap w b s last → sessionTurn h s = .next t →
      Drawn keymap w b t ((drawnIn h s).getD last)

/-- The key that a turn hands over, and the state in which it does so. -/
def deliveredKey (s : State W β) : Option ((KeyCode × UInt8) × State W β) :=
  match nextEvent h s with
  | (.key code ch,s) =>
      if code = .keyChar ∧ ch = 3 then none
      else if code = .keyChar ∧ ch = 22 then none
      else
        let (done,s) := undoKey h code ch s
        if done then none
        else if code = .keyTab then none
        else some (if h.acceptsTextInput s.w then (code,ch) else mapKey s.keymap code ch,s)
  | _ => none

/-- Before an event the widget is drawn, or it is not dirty. -/
theorem refresh_cases (s : State W β) :
    (∃ w, drawnIn h s = some (h.render w).2 ∧
        (refresh h s).w = h.clearDirty (h.render w).2) ∨
      drawnIn h s = none ∧ h.isDirty (refresh h s).w = false ∧
        (refresh h s).w = sized h (h.getSize s.b).1.1 (h.getSize s.b).1.2 s := by
  have hsized : ∀ termW termH (b : β),
      (if termW ≠ s.lastW ∨ termH ≠ s.lastH then
        { s with b := b, w := h.setRenderArea termW termH (h.markDirty s.w),
                 lastW := termW, lastH := termH }
      else { s with b := b }).w = sized h termW termH s := by
    intro termW termH b
    unfold sized
    split_ifs
    all_goals rfl
  unfold drawnIn refresh
  dsimp only
  rw [hsized]
  by_cases hdirty : h.isDirty (sized h (h.getSize s.b).1.1 (h.getSize s.b).1.2 s) = true
  · rw [if_pos hdirty,if_pos hdirty]
    exact Or.inl ⟨_,rfl,congrArg (fun w => h.clearDirty (h.render w).2) (hsized _ _ _)⟩
  · rw [if_neg hdirty,if_neg hdirty,hsized]
    exact Or.inr ⟨rfl,Bool.eq_false_iff.2 hdirty,rfl⟩

variable {h}

theorem Reaches.drawn {keymap : List KeyBinding} {w : W} {b : β} {s : State W β}
    (hs : Reaches (sessionTurn h) (start h keymap w b) s) : ∃ last, Drawn h keymap w b s last := by
  refine hs.invariant (I := fun s => ∃ last, Drawn h keymap w b s last) ?_ ⟨_,.start⟩
  rintro t u ⟨last,ht⟩ hu
  exact ⟨_,ht.turn hu⟩

theorem sessionTurn_of_deliveredKey {s u : State W β} {key : KeyCode × UInt8}
    (hkey : deliveredKey h s = some (key,u)) :
    sessionTurn h s = deliver h (.key key.1 key.2) u := by
  unfold deliveredKey at hkey
  unfold sessionTurn
  generalize nextEvent h s = r at hkey
  obtain ⟨ev,v⟩ := r
  cases ev with
  | key code ch =>
      dsimp only at hkey ⊢
      rw [takeEvent,takeKey]
      split_ifs at hkey with hcopy hpaste hdone htab
      rw [if_neg hcopy,if_neg hpaste]
      dsimp only
      rw [if_neg hdone,if_neg htab]
      all_goals
        cases hkey
        simp only [*,if_true,if_false,Bool.false_eq_true]
  | _ => cases hkey

/-- What holds of a widget that is marked dirty and is kept by its events holds after a
turn if it did before the event. -/
structure Keeps (h : Host W β) (I : W → Prop) : Prop where
  event : ∀ ev w b, I w → I (h.handleEvent ev w b).2.1
  mark : ∀ w, I (h.markDirty w)
  undo : ∀ w b, (h.undoStackUndo w b).1 = false → I w → I (h.undoStackUndo w b).2.1
  redo : ∀ w b, (h.undoStackRedo w b).1 = false → I w → I (h.undoStackRedo w b).2.1

section Rules

variable {I : W → Prop} (hI : Keeps h I)
include hI

theorem Keeps.undoKey {s : State W β} {code : KeyCode} {ch : UInt8}
    (hdone : (undoKey h code ch s).1 = false) (hs : I s.w) : I (undoKey h code ch s).2.w := by
  unfold SessionLoop.undoKey at hdone ⊢
  split_ifs at hdone ⊢
  · exact hI.undo _ _ hdone hs
  · exact hI.redo _ _ hdone hs
  · exact hs

theorem Keeps.afterEvent {s : State W β} (hs : I s.w) : I (afterEvent h s).w := by
  have hstore : I (checkStore h s).w := by
    unfold checkStore
    split
    · exact hs
    · split_ifs
      · exact hI.mark _
      · exact hs
  unfold SessionLoop.afterEvent awaitFrame
  split
  all_goals exact hstore

theorem Keeps.deliver {s t : State W β} {ev : Event} (ht : deliver h ev s = .next t)
    (hs : I s.w) : I t.w := by
  have hevent := hI.event ev s.w s.b hs
  unfold SessionLoop.deliver handOver at ht
  dsimp only at ht
  cases hr : (h.handleEvent ev s.w s.b).1 with
  | response r =>
      rw [hr] at ht
      cases ht
  | handled =>
      rw [hr] at ht
      cases ht
      exact hI.afterEvent hevent
  | unhandled =>
      rw [hr] at ht
      cases ht
      exact hI.afterEvent hevent

theorem Keeps.focusNext {s t : State W β} (ht : focusNext h s = .next t) (hs : I s.w) :
    I t.w := by
  unfold SessionLoop.focusNext at ht
  split at ht
  · cases ht
    exact hs
  · dsimp only at ht
    split_ifs at ht
    · cases ht
      exact hs
    · split at ht
      · cases ht
        exact hs
      · split at ht
        · cases ht
          exact hs
        · cases ht
          exact hI.mark _

theorem Keeps.takeKey {s t : State W β} {code : KeyCode} {ch : UInt8}
    (ht : takeKey h code ch s = .next t) (hs : I s.w) : I t.w := by
  rw [SessionLoop.takeKey] at ht
  by_cases hcopy : code = .keyChar ∧ ch = 3
  · rw [if_pos hcopy] at ht
    cases ht
    unfold copyClipboard
    split
    · exact hs
    · split
      all_goals exact hs
  rw [if_neg hcopy] at ht
  by_cases hpaste : code = .keyChar ∧ ch = 22
  · rw [if_pos hpaste] at ht
    cases ht
    unfold pasteClipboard
    dsimp only
    split
    all_goals exact hI.mark _
  · rw [if_neg hpaste] at ht
    have hundo : (SessionLoop.undoKey h code ch s).1 = false →
        I (SessionLoop.undoKey h code ch s).2.w := fun hdone => hI.undoKey hdone hs
    generalize SessionLoop.undoKey h code ch s = r at hundo ht
    obtain ⟨done,u⟩ := r
    dsimp only at ht hundo
    split_ifs at ht with hdone
    · cases ht
      exact hI.mark _
    · exact hI.focusNext ht (hundo (Bool.eq_false_iff.2 hdone))
    all_goals exact hI.deliver ht (hundo (Bool.eq_false_iff.2 hdone))

theorem Keeps.takeEvent {s t : State W β} {ev : Event} (ht : takeEvent h s ev = .next t)
    (hs : I s.w) : I t.w := by
  cases ev with
  | none =>
      unfold SessionLoop.takeEvent idle at ht
      dsimp only at ht
      split_ifs at ht
      · cases ht
        exact hI.mark _
      all_goals
        cases ht
        exact hs
  | resize x y =>
      cases ht
      exact hs
  | mouseMotion x y =>
      cases ht
      unfold hover
      dsimp only
      split
      · exact hI.mark _
      · split_ifs
        all_goals exact hI.mark _
  | mouseButton x y button state =>
      rw [SessionLoop.takeEvent] at ht
      split_ifs at ht
      · cases ht
        unfold rightClick
        split
        · exact hs
        · split_ifs
          · exact hI.event _ _ _ hs
          · exact hs
      · exact hI.deliver ht hs
  | mouseScroll x y state => exact hI.deliver ht hs
  | mouseDragStart x y =>
      cases ht
      exact hI.mark _
  | mouseDragMove x y startX startY dx dy =>
      cases ht
      exact hI.mark _
  | mouseDragEnd x y startX startY dx dy =>
      cases ht
      exact hI.mark _
  | key code ch => exact hI.takeKey ht hs

end Rules

end Pictures

/-! ## A list in a hub -/

variable {α β : Type}

/-- The query of a widget that finds choices. -/
def Widget.query : Widget α → Bytes
  | .filter f => f.query
  | .multiselect m => m.query
  | _ => []

/-- The query of the widget in a hub. -/
def nestedQuery : Widget α → Bytes
  | .hubOver _ sub => sub.query
  | _ => []

/-- The list of a filter or multiselect is the one for a query. -/
def ListedFor (query : Bytes) : Widget α → Prop
  | .filter f => f.filtered = matching f.choices query
  | .multiselect m => m.filtered = matching m.choices query
  | _ => True

/-- Two queries find the same choices. -/
def SameFound (query query' : Bytes) : Widget α → Prop
  | .filter f => matching f.choices query = matching f.choices query'
  | .multiselect m => matching m.choices query = matching m.choices query'
  | _ => True

/-- The text that a hub keeps after Enter in the filter in it. -/
def storedChoice (ch : UInt8) : Widget α → Option Bytes
  | .filter f =>
      match (filterHandleEvent .keyEnter ch f).1 with
      | .response r => r.result.bind hubText
      | _ => none
  | _ => none

def Widget.choices : Widget α → List Bytes
  | .filter f => f.choices
  | .multiselect m => m.choices
  | _ => []

/-- The list is the one for the query, so a text that Enter stores is a choice that matches
what was typed. -/
structure EnterSound (ch : UInt8) (sub : Widget α) : Prop where
  listed : ListedFor sub.query sub
  stored : ∀ text, storedChoice ch sub = some text →
    text ∈ sub.choices ∧ Matches sub.query text

theorem EnterSound.of_listed {sub : Widget α} (hsub : ListedFor sub.query sub) (ch : UInt8) :
    EnterSound ch sub := by
  refine ⟨hsub,fun text htext => ?_⟩
  cases sub with
  | filter f =>
      have hshown : Shown f.choices f.query f.filtered := by
        rw [show f.filtered = _ from hsub]
        exact shown_matching _ _
      unfold storedChoice filterHandleEvent at htext
      dsimp only at htext
      cases hi : f.filtered[f.selected]? with
      | none =>
          rw [hi] at htext
          cases htext
      | some i =>
          rw [hi] at htext
          cases htext
          obtain ⟨choice,hchoice,hmatch⟩ := (hshown.mem_iff i).1 (List.mem_of_getElem? hi)
          rw [List.getD_eq_getElem?_getD,hchoice]
          exact ⟨List.mem_of_getElem? hchoice,hmatch⟩
  | _ => cases htext

/-- The list of the widget in a hub is the one for the query in the last picture, or the
hub is about to be drawn. -/
def TracksPicture (last : Widget α) : Widget α → Prop
  | .hubOver d sub => d.base.dirty = true ∨ ListedFor (nestedQuery last) sub
  | _ => True

theorem filterHandleEvent_filtered (code : KeyCode) (ch : UInt8) (d : FilterData) :
    (filterHandleEvent code ch d).2.filtered = d.filtered := by
  unfold filterHandleEvent
  split
  case h_4 => split <;> rfl
  all_goals
    try split_ifs
    all_goals rfl

theorem toggle_filtered (d : MultiselectData) :
    d.toggle.filtered = d.filtered ∧ d.toggle.choices = d.choices := by
  unfold MultiselectData.toggle
  split
  all_goals exact ⟨rfl,rfl⟩

theorem multiselectHandleEvent_filtered (code : KeyCode) (ch : UInt8) (d : MultiselectData) :
    (multiselectHandleEvent code ch d).2.filtered = d.filtered ∧
      (multiselectHandleEvent code ch d).2.choices = d.choices := by
  unfold multiselectHandleEvent
  split
  case h_4 =>
    split_ifs
    · exact toggle_filtered d
    · exact ⟨rfl,rfl⟩
  all_goals
    try split_ifs
    all_goals exact ⟨rfl,rfl⟩

/-- No event makes a widget compute its list. -/
theorem listedFor_handleEvent (pr : Program α β) (ev : Event) {query : Bytes} {sub : Widget α}
    (b : β) (hsub : ListedFor query sub) : ListedFor query (handleEvent pr ev sub b).2.1 := by
  cases ev with
  | key code ch =>
      cases sub with
      | filter f =>
          have hfiltered := filterHandleEvent_filtered code ch f
          change (filterHandleEvent code ch f).2.filtered =
            matching (filterHandleEvent code ch f).2.choices query
          rw [hfiltered,filterHandleEvent_choices]
          exact hsub
      | multiselect m =>
          obtain ⟨hfiltered,hchoices⟩ := multiselectHandleEvent_filtered code ch m
          change (multiselectHandleEvent code ch m).2.filtered =
            matching (multiselectHandleEvent code ch m).2.choices query
          rw [hfiltered,hchoices]
          exact hsub
      | hub d =>
          rw [handleEvent,keysOnly]
          dsimp only [hubWith]
          split
          all_goals trivial
      | hubOver d sub =>
          rw [handleEvent,keysOnly]
          split_ifs
          · split
            all_goals trivial
          · dsimp only [hubWith]
            split
            all_goals trivial
      | _ => trivial
  | _ =>
      cases sub
      all_goals exact hsub

/-- A hub that opens an item is about to be drawn. -/
theorem tracks_hubBrowse (pr : Program α β) (code : KeyCode) (d : HubData) (last : Widget α) :
    TracksPicture last (hubWith (hubBrowse pr code d).2.1 (hubBrowse pr code d).2.2 none) := by
  unfold hubBrowse
  split
  case h_7 =>
    split
    · trivial
    · split
      · trivial
      · exact Or.inl rfl
  case h_8 =>
    split
    · trivial
    · split_ifs
      all_goals trivial
  all_goals trivial

theorem tracks_hubKey (pr : Program α β) (code : KeyCode) (ch : UInt8) (d : HubData)
    (last : Widget α) :
    TracksPicture last (hubWith (hubKey pr code ch d).2.1 (hubKey pr code ch d).2.2 none) := by
  unfold hubKey
  dsimp only
  split
  case h_3 => exact tracks_hubBrowse pr code d last
  case h_4 => exact tracks_hubBrowse pr code d last
  all_goals
    split_ifs
    all_goals trivial

theorem tracks_handleEvent (pr : Program α β) (ev : Event) {last w : Widget α} (b : β)
    (hvalid : w.Valid) (hw : TracksPicture last w) : TracksPicture last (handleEvent pr ev w b).2.1 := by
  cases w with
  | hub d =>
      cases ev with
      | key code ch => exact tracks_hubKey pr code ch d last
      | _ => trivial
  | hubOver d sub =>
      cases ev with
      | key code ch =>
          have hsub := fun hlisted => listedFor_handleEvent pr (.key code ch) b
            (show ListedFor (nestedQuery last) sub from hlisted)
          rw [handleEvent,keysOnly,if_pos hvalid.1]
          generalize handleEvent pr (.key code ch) sub b = r at hsub
          obtain ⟨result,sub',b'⟩ := r
          cases result with
          | response r => trivial
          | handled => exact hw.imp_right hsub
          | unhandled => exact hw.imp_right hsub
      | _ => exact hw
  | other a => trivial
  | _ =>
      cases ev
      all_goals trivial

theorem tracks_touch (last w : Widget α) (g : α → α) :
    TracksPicture last (w.mapBase WidgetBase.touch g) := by
  cases w with
  | hubOver d sub => exact Or.inl rfl
  | _ => trivial

/-- An undo that does nothing leaves the widget alone. -/
structure UndoStays (be : Backend { w : Widget α // w.Valid } β) : Prop where
  undo : ∀ w b, (be.undoStackUndo w b).1 = false → (be.undoStackUndo w b).2.1 = w
  redo : ∀ w b, (be.undoStackRedo w b).1 = false → (be.undoStackRedo w b).2.1 = w

variable {pr : Program α β} {be : Backend { w : Widget α // w.Valid } β}

theorem keeps_tracks (hundo : UndoStays be) (last : Widget α) :
    Keeps (host pr be) fun w => TracksPicture last w.1 where
  event ev w b hw := tracks_handleEvent pr ev b w.2 hw
  mark w := tracks_touch last w.1 _
  undo w b hdone hw := (hundo.undo w b hdone).symm ▸ hw
  redo w b hdone hw := (hundo.redo w b hdone).symm ▸ hw

/-- A picture of a hub has the list for its query. -/
theorem listedFor_renderUpdate (sub : Widget α) :
    ListedFor (renderUpdate pr sub).query (renderUpdate pr sub) := by
  cases sub with
  | filter f => rfl
  | multiselect m => rfl
  | _ => trivial

/-- At an event a hub has been drawn, and its list is the one for the query drawn last. -/
def Settled (last : Widget α) : Widget α → Prop
  | .hubOver _ sub => ListedFor (nestedQuery last) sub
  | _ => True

theorem Settled.tracks {last w : Widget α} (hw : Settled last w) : TracksPicture last w := by
  cases w with
  | hubOver d sub => exact Or.inr hw
  | _ => trivial

theorem settled_render (w : { w : Widget α // w.Valid }) :
    Settled ((host pr be).render w).2.1 ((host pr be).clearDirty ((host pr be).render w).2).1 := by
  obtain ⟨w,hw⟩ := w
  cases w with
  | hubOver d sub =>
      change ListedFor (if d.mode = .editing then renderUpdate pr sub else sub).query
        (if d.mode = .editing then renderUpdate pr sub else sub)
      rw [if_pos hw.1]
      exact listedFor_renderUpdate sub
  | _ => trivial

theorem tracks_mapBase {last w : Widget α} {termW termH : ℤ} (g : α → α) (hw : TracksPicture last w) :
    TracksPicture last (w.mapBase (WidgetBase.resize termW termH) g) := by
  cases w with
  | hubOver d sub => exact hw
  | _ => trivial

theorem settled_refresh {s : State { w : Widget α // w.Valid } β}
    {last : { w : Widget α // w.Valid }} (hs : TracksPicture last.1 s.w.1) :
    Settled ((drawnIn (host pr be) s).getD last).1 (refresh (host pr be) s).w.1 := by
  obtain ⟨w,hdrawn,hw⟩ | ⟨hdrawn,hclean,hw⟩ := refresh_cases (host pr be) s
  · rw [hdrawn,hw]
    exact settled_render w
  · rw [hdrawn]
    have htracks : TracksPicture last.1 (refresh (host pr be) s).w.1 := by
      rw [hw,sized]
      split_ifs
      · exact tracks_mapBase _ (tracks_touch _ _ _)
      · exact hs
    generalize (refresh (host pr be) s).w = u at hclean htracks
    obtain ⟨u,hu⟩ := u
    cases u with
    | hubOver d sub => exact htracks.resolve_left (Bool.eq_false_iff.1 hclean)
    | _ => trivial

theorem drawn_tracks (hundo : UndoStays be) {keymap : List KeyBinding}
    {w : { w : Widget α // w.Valid }} {b : β} {s : State { w : Widget α // w.Valid } β}
    {last : { w : Widget α // w.Valid }} (hs : Drawn (host pr be) keymap w b s last) :
    TracksPicture last.1 s.w.1 := by
  induction hs with
  | start => exact (settled_render _).tracks
  | turn hs ht ih =>
      refine (keeps_tracks hundo _).takeEvent ht ?_
      exact (settled_refresh ih).tracks

theorem deliveredKey_w (hundo : UndoStays be) {s u : State { w : Widget α // w.Valid } β}
    {key : KeyCode × UInt8} (hkey : deliveredKey (host pr be) s = some (key,u)) :
    u.w = (refresh (host pr be) s).w := by
  unfold deliveredKey at hkey
  have hw : (nextEvent (host pr be) s).2.w = (refresh (host pr be) s).w := rfl
  generalize nextEvent (host pr be) s = r at hkey hw
  obtain ⟨ev,v⟩ := r
  rw [← hw]
  cases ev with
  | key code ch =>
      dsimp only at hkey ⊢
      have hstays : (undoKey (host pr be) code ch v).1 = false →
          (undoKey (host pr be) code ch v).2.w = v.w := by
        unfold undoKey
        split_ifs
        · exact hundo.undo _ _
        · exact hundo.redo _ _
        · exact fun _ => rfl
      split_ifs at hkey with _ _ hdone
      all_goals
        cases hkey
        exact hstays (Bool.eq_false_iff.2 hdone)
  | _ => cases hkey

/-- Enter finds the list for the query exactly if the query in the last picture finds the
same choices. -/
theorem enter_sound_iff (hundo : UndoStays be) {keymap : List KeyBinding}
    {w : { w : Widget α // w.Valid }} {b : β} {s : State { w : Widget α // w.Valid } β}
    {last : { w : Widget α // w.Valid }} (hs : Drawn (host pr be) keymap w b s last)
    {ch : UInt8} {u : State { w : Widget α // w.Valid } β}
    (henter : deliveredKey (host pr be) s = some ((.keyEnter,ch),u)) {d : HubData}
    {sub : Widget α} (hw : u.w.1 = .hubOver d sub) :
    EnterSound ch sub ↔
      SameFound (nestedQuery ((drawnIn (host pr be) s).getD last).1) sub.query sub := by
  have hlisted : Settled ((drawnIn (host pr be) s).getD last).1 (.hubOver d sub) := by
    rw [← hw,deliveredKey_w hundo henter]
    exact settled_refresh (drawn_tracks hundo hs)
  have hiff : ListedFor sub.query sub ↔
      SameFound (nestedQuery ((drawnIn (host pr be) s).getD last).1) sub.query sub := by
    cases sub with
    | filter f =>
        rw [ListedFor,show f.filtered = _ from hlisted]
        exact Iff.rfl
    | multiselect m =>
        rw [ListedFor,show m.filtered = _ from hlisted]
        exact Iff.rfl
    | _ => exact Iff.rfl
  exact ⟨fun h => hiff.1 h.listed,fun h => .of_listed (hiff.2 h) ch⟩

/-- The plain program with filters for the items of a hub. -/
def filterProgram : Program Empty (List Event) :=
  { plainProgram with
    widgetRegistryCreate := fun _ params =>
      some ⟨.filter (filterWidgetNew ((memberChildren params "choices").filterMap strdup)),rfl⟩ }

/-- A hub with one item to choose from two choices. -/
def choiceHub : { w : Widget Empty // w.Valid } :=
  ⟨.hub ⟨{},[[⟨bytes "x",bytes "X",[],bytes "filter",[bytes "alpha",bytes "beta"],[],[],[]⟩]],[],0,0,
    [],.browsing⟩,HubMode.noConfusion⟩

/-- A mouse that moves between the letter and Enter has the list made. -/
theorem moved_mouse_is_enough : ∃ s last u d sub,
    Drawn (host filterProgram listBackend) [] choiceHub
      [.key .keyEnter 0,.key .keyChar 98,.mouseMotion 0 0,.key .keyEnter 0] s last ∧
    deliveredKey (host filterProgram listBackend) s = some ((.keyEnter,0),u) ∧
    u.w.1 = .hubOver d sub ∧ EnterSound 0 sub ∧ storedChoice 0 sub = some (bytes "beta") := by
  have hstart : Drawn (host filterProgram listBackend) [] choiceHub
      [.key .keyEnter 0,.key .keyChar 98,.mouseMotion 0 0,.key .keyEnter 0] _ _ := .start
  have hs := ((hstart.turn rfl).turn rfl).turn rfl
  refine ⟨_,_,_,_,_,hs,rfl,rfl,?_,rfl⟩
  exact (enter_sound_iff ⟨fun _ _ _ => rfl,fun _ _ _ => rfl⟩ hs rfl rfl).2 rfl

/-- After `b` is typed, Enter stores the choice `alpha`. -/
theorem stale_choice_is_stored : ¬∀ s last ch u d sub,
    Drawn (host filterProgram listBackend) [] choiceHub
      [.key .keyEnter 0,.key .keyChar 98,.key .keyEnter 0] s last →
    deliveredKey (host filterProgram listBackend) s = some ((.keyEnter,ch),u) →
    u.w.1 = .hubOver d sub → EnterSound ch sub := by
  intro h
  have henter := h _ _ _ _ _ _ (.turn (.turn .start rfl) rfl) rfl rfl
  have hmatch : (bytes "b").map Fil.toLower <:+: (bytes "alpha").map Fil.toLower :=
    (henter.stored (bytes "alpha") rfl).2
  exact absurd hmatch (by decide +kernel)

end Filly.SessionLoop
