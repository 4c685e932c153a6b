import Filly.TypedText

/-!
# Key bindings of a script

The bindings of the keymap blocks reach `session_load_keymap_from_fil` as texts
`scope|key|action` and become rows of the key table. `session_run` empties the table
before it fills in its own rows, so that no binding is left when the first event comes.
-/
namespace Filly.SessionLoop
open CJson Keys Fil WhileLoops

inductive KeyName where
  | escape | enter | up | down | left | right | tab
  | char (c : UInt8)
  deriving DecidableEq, Repr

def KeyName.text : KeyName → Bytes
  | .escape => bytes "Escape"
  | .enter => bytes "Enter"
  | .up => bytes "Up"
  | .down => bytes "Down"
  | .left => bytes "Left"
  | .right => bytes "Right"
  | .tab => bytes "Tab"
  | .char c => [c]

/-- The key events that the name stands for. -/
def KeyName.fits (code : KeyCode) (ch : UInt8) : KeyName → Bool
  | .escape => code = .keyEsc
  | .enter => code = .keyEnter
  | .up => code = .keyUp
  | .down => code = .keyDown
  | .left => code = .keyLeft
  | .right => code = .keyRight
  | .tab => code = .keyTab
  | .char c => code = .keyChar ∧ ch = c

inductive KeyAction where
  | back | select | moveUp | moveDown | moveLeft | moveRight | confirm | cancel
  deriving DecidableEq, Repr

def KeyAction.text : KeyAction → Bytes
  | .back => bytes "back"
  | .select => bytes "select"
  | .moveUp => bytes "move-up"
  | .moveDown => bytes "move-down"
  | .moveLeft => bytes "move-left"
  | .moveRight => bytes "move-right"
  | .confirm => bytes "confirm"
  | .cancel => bytes "cancel"

def KeyAction.code : KeyAction → KeyCode
  | .back | .cancel => .keyEsc
  | .select | .confirm => .keyEnter
  | .moveUp => .keyUp
  | .moveDown => .keyDown
  | .moveLeft => .keyLeft
  | .moveRight => .keyRight

structure ScriptBinding where
  scope : Bytes
  key : KeyName
  action : KeyAction
  deriving DecidableEq, Repr

/-- The text that a keymap block leaves for a binding. -/
def ScriptBinding.entry (x : ScriptBinding) : Bytes := joinBars [x.scope,x.key.text,x.action.text]

/-- The last binding for a key. -/
def lastBinding (xs : List ScriptBinding) (code : KeyCode) (ch : UInt8) : Option ScriptBinding :=
  xs.reverse.find? fun x => x.key.fits code ch

theorem KeyAction.code_ne (a : KeyAction) : a.code ≠ .keyChar ∧ a.code ≠ .keyTab := by
  cases a <;> decide

variable {W β : Type} (h : Host W β)

/-- The log behind a turn. -/
def turnLog : Turn (State W β) (Exit W β) → List (Event × EventResult)
  | .next t => t.log
  | .returned (.response _ t) => t.log
  | .returned .crash => []

/-- The next turn hands exactly these events over. -/
def HandsOver (s : State W β) (evs : List Event) : Prop :=
  (turnLog (sessionTurn h s)).map Prod.fst = s.log.map Prod.fst++evs

/-- A key with a binding is handed over as the key of its action. One without a binding
is handled as by the default table. -/
def TakesEffect (xs : List ScriptBinding) (code : KeyCode) (ch : UInt8) (s : State W β) : Prop :=
  match lastBinding xs code ch with
  | some x => ∃ ch', HandsOver h s [.key x.action.code ch']
  | none => sessionTurn h s = sessionTurn h { s with keymap := loadDefaultKeymap [] }

theorem Quiet.turnLog {s : State W β} {t : Turn (State W β) (Exit W β)} (ht : Quiet s t) :
    turnLog t = s.log := by
  cases t with
  | next t => exact ht.log
  | returned r =>
      cases r with
      | response r t => exact ht.log
      | crash => exact ht.elim

theorem Heard.turnLog {s : State W β} {ev : Event} {t : Turn (State W β) (Exit W β)}
    (ht : Heard s ev t) : (turnLog t).map Prod.fst = s.log.map Prod.fst++[ev] := by
  cases t with
  | next t =>
      obtain ⟨result,-,hkept⟩ := ht
      rw [SessionLoop.turnLog,hkept.log,List.map_append]
      rfl
  | returned r =>
      cases r with
      | response r t =>
          rw [SessionLoop.turnLog,show t.log = _ from ht,List.map_append]
          rfl
      | crash => exact ht.elim

/-- Pasted characters stay characters. -/
theorem pasteText_events (s : State W β) (text : Bytes) :
    (pasteText h s text).log.map Prod.fst =
      s.log.map Prod.fst++text.map fun c => .key .keyChar c := by
  induction text generalizing s with
  | nil => simp [pasteText]
  | cons c text ih =>
      rw [pasteText_cons,ih]
      simp [handOver]

theorem pasteClipboard_events (s : State W β) :
    ∃ text : Bytes, (pasteClipboard h s).log.map Prod.fst =
      s.log.map Prod.fst++text.map fun c => .key .keyChar c := by
  unfold pasteClipboard
  rcases h.getClipboard s.b with ⟨_ | text,b⟩
  · exact ⟨[],by simp [markDirty]⟩
  · dsimp only
    split_ifs
    · exact ⟨text,pasteText_events h _ text⟩
    · exact ⟨[],by simp [markDirty]⟩

/-- How a turn treats a key other than copy and paste. -/
theorem heard_takeKey {s : State W β} {code : KeyCode} {ch : UInt8} (htree : s.lastRenderTree = none)
    (hcopy : ¬(code = .keyChar ∧ ch = 3)) (hpaste : ¬(code = .keyChar ∧ ch = 22)) :
    Quiet s (takeKey h code ch s) ∨ ∃ key, Heard s (.key key.1 key.2) (takeKey h code ch s) ∧
      (key = (code,ch) ∨ key = mapKey s.keymap code ch) := by
  have hundo := kept_undoKey h code ch s
  unfold takeKey
  rw [if_neg hcopy,if_neg hpaste]
  generalize undoKey h code ch s = r at hundo
  obtain ⟨done,u⟩ := r
  dsimp only at hundo ⊢
  have hu : u.lastRenderTree = none := hundo.tree.trans htree
  split_ifs with hdone htab
  · exact .inl (hundo.trans (kept_markDirty h u))
  · rw [focusNext,hu]
    exact .inl hundo
  · exact .inr ⟨(code,ch),(heard_deliver h _ u).of_kept hundo,.inl rfl⟩
  · exact .inr ⟨_,(heard_deliver h _ u).of_kept hundo,.inr (by rw [hundo.keymap])⟩

/-- A key that becomes an action is one that the default table has for it. -/
theorem mapKey_of_handsOver {s : State W β} (htree : s.lastRenderTree = none) {code : KeyCode}
    {ch : UInt8} (hev : (nextEvent h s).1 = .key code ch) {a : KeyAction} {ch' : UInt8}
    (hover : HandsOver h s [.key a.code ch']) : (mapKey s.keymap code ch).1 = a.code := by
  have hkept := kept_nextEvent h s
  have hturn : sessionTurn h s = takeEvent h (nextEvent h s).2 (nextEvent h s).1 := rfl
  rw [hev,takeEvent] at hturn
  have hquiet : ¬Quiet s (sessionTurn h s) := by
    intro hquiet
    rw [HandsOver,hquiet.turnLog] at hover
    simp at hover
  by_cases hcopy : code = .keyChar ∧ ch = 3
  · rw [hturn,takeKey,if_pos hcopy] at hquiet
    exact absurd (hkept.trans (kept_copyClipboard h _)) hquiet
  by_cases hpaste : code = .keyChar ∧ ch = 22
  · obtain ⟨text,htext⟩ := pasteClipboard_events h (nextEvent h s).2
    rw [HandsOver,hturn,takeKey,if_neg hcopy,if_pos hpaste,turnLog,htext,hkept.log,
      List.append_cancel_left_eq] at hover
    have hmem : Event.key a.code ch' ∈ text.map fun c => Event.key .keyChar c := by
      rw [hover]
      exact List.mem_singleton_self _
    obtain ⟨c,-,hc⟩ := List.mem_map.1 hmem
    exact absurd (Event.key.inj hc).1.symm a.code_ne.1
  · obtain hnone | ⟨key,hheard,hkey⟩ := heard_takeKey h (hkept.tree.trans htree) hcopy hpaste
    · rw [hturn] at hquiet
      exact absurd (hnone.of_kept hkept) hquiet
    · rw [HandsOver,hturn,(hheard.of_kept hkept).turnLog,List.append_cancel_left_eq] at hover
      obtain ⟨hcode,-⟩ := Event.key.inj (List.singleton_inj.1 hover)
      obtain rfl | rfl := hkey
      · have hne : code ≠ .keyChar := fun h => a.code_ne.1 (hcode ▸ h)
        rw [mapKey_of_ne _ hne]
        exact hcode
      · rw [← hkept.keymap]
        exact hcode

/-- A key that the default table has for an action becomes that action. -/
theorem handsOver_of_mapKey {s : State W β} {keymap : List KeyBinding}
    (hkeymap : s.keymap = loadDefaultKeymap keymap)
    {code : KeyCode} {ch : UInt8} (hev : (nextEvent h s).1 = .key code ch)
    (haccepts : h.acceptsTextInput (nextEvent h s).2.w = false) {a : KeyAction}
    (hmap : (mapKey s.keymap code ch).1 = a.code) :
    HandsOver h s [.key a.code (mapKey s.keymap code ch).2] := by
  have hkept := kept_nextEvent h s
  have hturn : sessionTurn h s = takeEvent h (nextEvent h s).2 (nextEvent h s).1 := rfl
  have hcontrol : ∀ c ∈ ([3,22,25,26] : Bytes), ¬(code = .keyChar ∧ ch = c) := by
    rintro c hc ⟨rfl,rfl⟩
    rw [hkeymap] at hmap
    have hchar : ∀ c ∈ ([3,22,25,26] : Bytes),
        (mapKey (loadDefaultKeymap []) .keyChar c).1 = .keyChar := by decide +kernel
    exact a.code_ne.1 (hmap ▸ hchar ch hc)
  have htab : code ≠ .keyTab := by
    rintro rfl
    rw [mapKey_of_ne _ (by decide)] at hmap
    exact a.code_ne.2 hmap.symm
  have hdeliver : takeKey h code ch (nextEvent h s).2 =
      deliver h (.key (mapKey s.keymap code ch).1 (mapKey s.keymap code ch).2)
        (nextEvent h s).2 := by
    rw [takeKey,undoKey,if_neg (hcontrol 3 (by simp)),if_neg (hcontrol 22 (by simp)),
      if_neg (hcontrol 26 (by simp)),if_neg (hcontrol 25 (by simp)),← hkept.keymap]
    simp only [Bool.false_eq_true,if_false,if_neg htab,haccepts]
  rw [HandsOver,hturn,hev,takeEvent,hdeliver,hmap]
  exact ((heard_deliver h _ _).of_kept hkept).turnLog

/-- Bindings of a script take effect exactly where the last one for a key names the action
that the key has anyway. -/
theorem takesEffect_iff {keymap : List KeyBinding} {fr : FilResult} {xs : List ScriptBinding}
    {w : W} {b : β} {s : State W β}
    (hs : Reaches (sessionTurn h) (start h (sessionLoadKeymapFromFil keymap
      { fr with keymaps := xs.map ScriptBinding.entry }) w b) s)
    {code : KeyCode} {ch : UInt8} (hev : (nextEvent h s).1 = .key code ch)
    (haccepts : h.acceptsTextInput (nextEvent h s).2.w = false) :
    TakesEffect h xs code ch s ↔
      ∀ x, lastBinding xs code ch = some x →
        (mapKey (loadDefaultKeymap []) code ch).1 = x.action.code := by
  have hextends := extends_of_reaches h rfl hs
  have hkeymap : s.keymap = loadDefaultKeymap [] := hextends.keymap
  unfold TakesEffect
  cases hlast : lastBinding xs code ch with
  | none => exact iff_of_true (by rw [← hkeymap]) (by simp)
  | some x =>
      simp only [Option.some.injEq,forall_eq']
      constructor
      · rintro ⟨ch',hover⟩
        rw [← hkeymap]
        exact mapKey_of_handsOver h hextends.tree hev hover
      · intro hmap
        rw [← hkeymap] at hmap
        exact ⟨_,handsOver_of_mapKey h hkeymap hev haccepts hmap⟩

/-- A session with a hub after a script has been loaded. -/
def scripted (xs : List ScriptBinding) (evs : List Event) :
    State { w : Widget Empty // w.Valid } (List Event) :=
  start (host plainProgram listBackend) (sessionLoadKeymapFromFil []
    { FilResult.ofState {} with keymaps := xs.map ScriptBinding.entry }) emptyHub evs

theorem bound_default_key_takes_effect :
    TakesEffect (host plainProgram listBackend) [⟨bytes "menu",.char 106,.moveDown⟩] .keyChar 106
      (scripted [⟨bytes "menu",.char 106,.moveDown⟩] [.key .keyChar 106]) := by
  refine (takesEffect_iff (host plainProgram listBackend) (Reaches.refl _) rfl rfl).2 ?_
  decide +kernel

/-- Neither `x` bound to `back` nor Escape bound to `select` does what it is bound to. -/
theorem bindings_are_dropped :
    ¬TakesEffect (host plainProgram listBackend) [⟨bytes "menu",.char 120,.back⟩] .keyChar 120
        (scripted [⟨bytes "menu",.char 120,.back⟩] [.key .keyChar 120]) ∧
      ¬TakesEffect (host plainProgram listBackend) [⟨bytes "menu",.escape,.select⟩] .keyEsc 0
        (scripted [⟨bytes "menu",.escape,.select⟩] [.key .keyEsc 0]) := by
  constructor
  · rintro ⟨ch',hover⟩
    exact absurd (mapKey_of_handsOver _ rfl rfl hover) (by decide +kernel)
  · rintro ⟨ch',hover⟩
    exact absurd (mapKey_of_handsOver _ rfl rfl hover) (by decide +kernel)

end Filly.SessionLoop
