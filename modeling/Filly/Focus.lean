import Filly.TypedText

/-!
# Tab and the focus

The session takes every Tab for itself and looks for the next node to focus in
`last_render_tree`. Since that is never set, no node gets the focus, and a widget with
fields of its own never hears of a Tab either.
-/
namespace Filly.SessionLoop
open CJson Keys WhileLoops

mutual
/-- The nodes that can be focused, in preorder. -/
def focusables : RenderTree → List RenderTree
  | .mk kind rect tooltip tabIndex styleClass children =>
      (if 0 ≤ tabIndex then [.mk kind rect tooltip tabIndex styleClass children] else [])++
        match kind with
        | .leaf => []
        | .container | .flex | .grid | .tabs | .splitPanes => focusablesBelow children

def focusablesBelow : List RenderTree → List RenderTree
  | [] => []
  | c::cs => focusables c++focusablesBelow cs
end

section Focus

variable {W β : Type} (h : Host W β)

/-- A run with that many presses of Tab and any other events. -/
inductive TabRun : ℕ → State W β → State W β → Prop
  | start (s : State W β) : TabRun 0 s s
  | tab {k : ℕ} {s t u : State W β} {ch : UInt8} : TabRun k s t →
      (nextEvent h t).1 = .key .keyTab ch → sessionTurn h t = .next u → TabRun (k+1) s u
  | other {k : ℕ} {s t u : State W β} : TabRun k s t →
      (∀ ch, (nextEvent h t).1 ≠ .key .keyTab ch) → sessionTurn h t = .next u → TabRun k s u

/-- The focus is on the node that a number of presses leads to. -/
def FocusOn (k : ℕ) (s : State W β) : Prop :=
  let nodes := focusables (h.render s.w).1
  ∃ node, nodes[k % nodes.length]? = some node ∧ s.focusedWidgetId = node.styleClass

theorem TabRun.reaches {k : ℕ} {s t : State W β} (hrun : TabRun h k s t) :
    Reaches (sessionTurn h) s t := by
  induction hrun with
  | start s => exact Reaches.refl s
  | tab _ _ hturn ih => exact ih.step hturn
  | other _ _ hturn ih => exact ih.step hturn

/-- No node ever has the focus. -/
theorem focused_of_reaches {keymap : List KeyBinding} {w : W} {b : β} {s : State W β}
    (hs : Reaches (sessionTurn h) (start h keymap w b) s) : s.focusedWidgetId = none :=
  (extends_of_reaches h (s := start h keymap w b) rfl hs).focused rfl

theorem not_focusOn {keymap : List KeyBinding} {w : W} {b : β} {k : ℕ} {s : State W β}
    (hrun : TabRun h (k+1) (start h keymap w b) s)
    (hclass : ∀ node ∈ focusables (h.render s.w).1, node.styleClass ≠ none) : ¬FocusOn h k s := by
  rintro ⟨node,hnode,hfocus⟩
  rw [focused_of_reaches h hrun.reaches] at hfocus
  exact hclass node (List.mem_of_getElem? hnode) hfocus.symm

/-- The turns take these events from the backend. -/
def Events : List Event → State W β → Prop
  | [], _ => True
  | ev::evs, s => (nextEvent h s).1 = ev ∧ ∀ t, sessionTurn h s = .next t → Events evs t

/-- While no tree is kept, a Tab does nothing. -/
theorem sessionTurn_tab {s : State W β} (hs : s.lastRenderTree = none) {ch : UInt8}
    (hev : (nextEvent h s).1 = .key .keyTab ch) :
    sessionTurn h s = .next (nextEvent h s).2 := by
  have hturn : sessionTurn h s = takeEvent h (nextEvent h s).2 (nextEvent h s).1 := rfl
  have htree : (nextEvent h s).2.lastRenderTree = none := (kept_nextEvent h s).tree.trans hs
  rw [hturn,hev,takeEvent,takeKey,if_neg (by simp),if_neg (by simp),undoKey,if_neg (by simp),
    if_neg (by simp)]
  dsimp only
  rw [if_neg (by simp),if_pos rfl,focusNext,htree]

end Focus

/-! ## Forms -/

variable {α β : Type} (pr : Program α β) (be : Backend { w : Widget α // w.Valid } β)

def formWith (fields : List FormField) : { w : Widget α // w.Valid } :=
  ⟨.form (formWidgetNew fields),fun _ => rfl⟩

/-- The form is as it was made, but for what drawing needs. -/
def Untouched (fields : List FormField) (w : Widget α) : Prop :=
  ∃ d, w = .form d ∧ d.fields = fields ∧ d.focused = 0

theorem untouched_nextEvent {fields : List FormField} {s : State { w : Widget α // w.Valid } β}
    (hs : Untouched fields s.w.1) : Untouched fields (nextEvent (host pr be) s).2.w.1 := by
  apply refresh_invariant pr be (P := Untouched fields) _ _ hs
  · rintro f g w ⟨d,rfl,hfields,hfocused⟩
    exact ⟨_,rfl,hfields,hfocused⟩
  · rintro w - ⟨d,rfl,hfields,hfocused⟩
    exact ⟨d,rfl,hfields,hfocused⟩

theorem untouched_start (keymap : List KeyBinding) (fields : List FormField) (b : β) :
    Untouched fields (start (host pr be) keymap (formWith fields) b).w.1 :=
  ⟨_,rfl,rfl,rfl⟩

/-- As many Tabs as there are fields, and Enter. -/
def submitKeys (fields : List FormField) : List Event :=
  List.replicate fields.length (.key .keyTab 0)++[.key .keyEnter 0]

/-- The keys end the session with the values of the fields. -/
def Submits (fields : List FormField) (s : State { w : Widget α // w.Valid } β) : Prop :=
  ∃ members t, runFor (sessionTurn (host pr be)) s (fields.length+1) =
    .returned (.response ⟨some (.object members),false,none⟩ t)

/-- Enter on an untouched form submits it if the button is the first thing in it. -/
theorem sessionTurn_enter {fields : List FormField} {s : State { w : Widget α // w.Valid } β}
    (hs : Untouched fields s.w.1) (hev : (nextEvent (host pr be) s).1 = .key .keyEnter 0) :
    (∃ members t, sessionTurn (host pr be) s =
      .returned (.response ⟨some (.object members),false,none⟩ t)) ↔ fields = [] := by
  have hturn : sessionTurn (host pr be) s = takeEvent (host pr be) (nextEvent (host pr be) s).2
      (nextEvent (host pr be) s).1 := rfl
  have hnext := untouched_nextEvent pr be hs
  rw [hturn,hev]
  generalize (nextEvent (host pr be) s).2 = u at hnext
  obtain ⟨d,hd,hfields,hfocused⟩ := hnext
  have hdeliver : takeEvent (host pr be) u (.key .keyEnter 0) =
      deliver (host pr be) (.key .keyEnter 0) u := by
    rw [takeEvent,takeKey,if_neg (by simp),if_neg (by simp),undoKey,if_neg (by simp),
      if_neg (by simp)]
    dsimp only
    rw [if_neg (by simp),if_neg (by simp)]
    split_ifs
    · rfl
    · rw [mapKey_of_ne _ (by decide)]
  have hresult : ((host pr be).handleEvent (.key .keyEnter 0) u.w u.b).1 =
      (formHandleEvent .keyEnter 0 d).1 := by
    change (handleEvent pr (.key .keyEnter 0) u.w.1 u.b).1 = _
    rw [hd]
    rfl
  rw [hdeliver]
  by_cases hempty : fields = []
  · have hsubmit : (formHandleEvent .keyEnter 0 d).1 = answered (.object []) := by
      rw [formHandleEvent,hfocused,hfields,hempty,if_pos List.length_nil.symm]
      rfl
    refine iff_of_true ?_ hempty
    rw [hsubmit] at hresult
    unfold deliver handOver
    dsimp only
    rw [hresult]
    exact ⟨_,_,rfl⟩
  · have hpos : 0 ≠ fields.length := fun h => hempty (List.length_eq_zero_iff.1 h.symm)
    have hhandled : (formHandleEvent .keyEnter 0 d).1 = .handled := by
      rw [formHandleEvent,hfocused,hfields,if_neg hpos]
    refine iff_of_false ?_ hempty
    rintro ⟨members,t,ht⟩
    rw [deliver_handled _ (hresult.trans hhandled)] at ht
    cases ht

theorem runFor_submitKeys {fields : List FormField} (n : ℕ)
    {s : State { w : Widget α // w.Valid } β} (htree : s.lastRenderTree = none)
    (hs : Untouched fields s.w.1)
    (hev : Events (host pr be) (List.replicate n (.key .keyTab 0)++[.key .keyEnter 0]) s) :
    (∃ members t, runFor (sessionTurn (host pr be)) s (n+1) =
      .returned (.response ⟨some (.object members),false,none⟩ t)) ↔ fields = [] := by
  induction n generalizing s with
  | zero => exact sessionTurn_enter pr be hs hev.1
  | succ n ih =>
      obtain ⟨htab,hrest⟩ := hev
      have hturn := sessionTurn_tab (host pr be) htree htab
      rw [runFor_of_next hturn]
      exact ih ((kept_nextEvent _ s).tree.trans htree) (untouched_nextEvent pr be hs)
        (hrest _ hturn)

/-- No press of Tab moves the focus to a node of any widget, and a form is submitted after
as many Tabs as it has fields only if it has none. -/
theorem tab_is_swallowed {W γ : Type} (h : Host W γ) {keymap : List KeyBinding} {w : W} {c : γ}
    {k : ℕ} {s : State W γ} (hrun : TabRun h (k+1) (start h keymap w c) s)
    (hclass : ∀ node ∈ focusables (h.render s.w).1, node.styleClass ≠ none)
    {fields : List FormField} {b : β}
    (hev : Events (host pr be) (submitKeys fields) (start (host pr be) keymap (formWith fields) b)) :
    ¬FocusOn h k s ∧
      (Submits pr be fields (start (host pr be) keymap (formWith fields) b) ↔ fields = []) :=
  ⟨not_focusOn h hrun hclass,
    runFor_submitKeys pr be fields.length rfl (untouched_start pr be keymap fields b) hev⟩

/-- A program whose pictures have one node to focus. -/
def focusProgram : Program Empty (List Event) :=
  { plainProgram with picture := fun _ => .mk .container ⟨0,0,80,24⟩ [] 0 (some (bytes "form")) [] }

theorem tab_is_swallowed_once :
    ∃ s, TabRun (host focusProgram listBackend) 1
        (start (host focusProgram listBackend) [] (formWith []) [.key .keyTab 0]) s ∧
      ¬FocusOn (host focusProgram listBackend) 0 s ∧
      (Submits focusProgram listBackend []
        (start (host focusProgram listBackend) [] (formWith []) [.key .keyEnter 0]) ↔
          ([] : List FormField) = []) := by
  have hrun : TabRun (host focusProgram listBackend) 1
      (start (host focusProgram listBackend) [] (formWith []) [.key .keyTab 0]) _ :=
    TabRun.tab (TabRun.start _) rfl rfl
  refine ⟨_,hrun,tab_is_swallowed focusProgram listBackend (host focusProgram listBackend) hrun ?_
    ⟨rfl,fun _ _ => trivial⟩⟩
  intro node hnode
  obtain rfl := List.mem_singleton.1 hnode
  exact Option.some_ne_none _

/-- One Tab focuses nothing, and a form with one field is not submitted by Tab and Enter. -/
theorem tab_fails :
    (∃ s, TabRun (host focusProgram listBackend) 1
        (start (host focusProgram listBackend) [] (formWith []) [.key .keyTab 0]) s ∧
      (focusables (focusProgram.picture s.w.1)).length = 1 ∧
      ¬FocusOn (host focusProgram listBackend) 0 s) ∧
    ¬Submits focusProgram listBackend [⟨bytes "name",[]⟩]
      (start (host focusProgram listBackend) [] (formWith [⟨bytes "name",[]⟩])
        [.key .keyTab 0,.key .keyEnter 0]) := by
  constructor
  · refine ⟨_,TabRun.tab (TabRun.start _) rfl rfl,rfl,?_⟩
    rintro ⟨node,hnode,hfocus⟩
    cases hnode
    cases hfocus
  · rintro ⟨members,t,ht⟩
    cases ht

end Filly.SessionLoop
