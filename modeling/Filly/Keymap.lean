import Filly.Fil
import Filly.TtyKeys

/-!
# The key table of `core/session.c`

The table is a static array that lives longer than a session. `session_load_keymap`
adds a row behind the others, and a search takes the first row that fits.
-/
namespace Filly.SessionLoop
open CJson Keys Fil

structure KeyBinding where
  key : Bytes
  code : KeyCode
  ch : UInt8
  deriving DecidableEq, Repr

def sessionLoadKeymap (keymap : List KeyBinding) (key : Bytes) (code : KeyCode) (ch : UInt8) :
    List KeyBinding :=
  keymap++[⟨key,code,ch⟩]

def sessionClearKeymap (_keymap : List KeyBinding) : List KeyBinding := []

def loadDefaultKeymap (keymap : List KeyBinding) : List KeyBinding :=
  let keymap := sessionClearKeymap keymap
  let keymap := sessionLoadKeymap keymap (bytes "j") .keyDown 0
  let keymap := sessionLoadKeymap keymap (bytes "k") .keyUp 0
  let keymap := sessionLoadKeymap keymap (bytes "q") .keyEsc 0
  let keymap := sessionLoadKeymap keymap (bytes "h") .keyLeft 0
  let keymap := sessionLoadKeymap keymap (bytes "l") .keyRight 0
  let keymap := sessionLoadKeymap keymap (bytes "i") .keyEnter 0
  sessionLoadKeymap keymap (bytes "\t") .keyTab 0

/-- The search of `session_run`: only names of one character are compared. -/
def mapKey (keymap : List KeyBinding) (code : KeyCode) (ch : UInt8) : KeyCode × UInt8 :=
  match keymap.find? fun b => b.key.length = 1 && code = .keyChar && b.key.head? = some ch with
  | some b => (b.code,b.ch)
  | none => (code,ch)

/-- Only characters are looked up. -/
theorem mapKey_of_ne (keymap : List KeyBinding) {code : KeyCode} (hcode : code ≠ .keyChar)
    (ch : UInt8) : mapKey keymap code ch = (code,ch) := by
  have hfind : keymap.find? (fun b => b.key.length = 1 && code = .keyChar &&
      b.key.head? = some ch) = none := by
    simp [hcode]
  rw [mapKey,hfind]

/-! ## Bindings of a script -/

/-- The code that `session_load_keymap_from_fil` gives a name. -/
def keyOfName (key : Bytes) : KeyCode :=
  if key = bytes "Escape" then .keyEsc
  else if key = bytes "Enter" then .keyEnter
  else if key = bytes "Up" then .keyUp
  else if key = bytes "Down" then .keyDown
  else if key = bytes "Left" then .keyLeft
  else if key = bytes "Right" then .keyRight
  else if key = bytes "Tab" then .keyTab
  else if key.length = 1 then .keyChar
  else .keyNull

/-- An unknown action leaves the key as it is. -/
def keyOfAction (action : Bytes) (code : KeyCode) (ch : UInt8) : KeyCode × UInt8 :=
  if action = bytes "back" then (.keyEsc,0)
  else if action = bytes "select" then (.keyEnter,ch)
  else if action = bytes "move-up" then (.keyUp,ch)
  else if action = bytes "move-down" then (.keyDown,ch)
  else if action = bytes "move-left" then (.keyLeft,ch)
  else if action = bytes "move-right" then (.keyRight,ch)
  else if action = bytes "confirm" then (.keyEnter,ch)
  else if action = bytes "cancel" then (.keyEsc,ch)
  else (code,ch)

/-- The text on both sides of the first bar. -/
def cutAtBar (s : Bytes) : Option (Bytes × Bytes) :=
  match s.dropWhile (· ≠ 124) with
  | [] => none
  | _::rest => some (s.takeWhile (· ≠ 124),rest)

def loadEntry (keymap : List KeyBinding) (entry : Bytes) : List KeyBinding :=
  match cutAtBar entry with
  | none => keymap
  | some (_scope,rest) =>
      match cutAtBar rest with
      | none => keymap
      | some (key,action) =>
          let code := keyOfName key
          if code ≠ .keyNull then
            let ch := if code = .keyChar then key.headD 0 else 0
            let (code,ch) := keyOfAction action code ch
            sessionLoadKeymap keymap key code ch
          else keymap

def sessionLoadKeymapFromFil (keymap : List KeyBinding) (fr : FilResult) : List KeyBinding :=
  fr.keymaps.foldl loadEntry keymap

end Filly.SessionLoop
