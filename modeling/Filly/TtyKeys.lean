import Filly.CJsonRoundTrip
import Filly.FilLexer
import Filly.StepReader

/-!
# Keys from a terminal

The bytes of a terminal become key events in two ways. `term_next_event` reads
them directly. The relay reads them with `parse_csi`, writes a message for each
key, and `sock_next_event` reads the messages on the other side. Both read escape
sequences with the same loop but differ in what they make of them.

Bytes are taken as available: a read that would time out finds the end of the
input. An event of the socket also stores the size of a window, which is left out.
-/
namespace Filly.Keys
open CJson StepReader

inductive KeyCode where
  | keyBackspace | keyEnter | keyLeft | keyRight | keyUp | keyDown
  | keyHome | keyEnd | keyPageup | keyPagedown | keyTab | keyBacktab
  | keyDelete | keyInsert
  | keyF1 | keyF2 | keyF3 | keyF4 | keyF5 | keyF6 | keyF7 | keyF8 | keyF9 | keyF10 | keyF11 | keyF12
  | keyChar | keyEsc | keyNull
  deriving DecidableEq, Repr

/-- The number of the enumerator. -/
def KeyCode.code (k : KeyCode) : ℤ := (k.ctorIdx : ℤ)

inductive MouseState where
  | press | release | motion | scrollUp | scrollDown
  deriving DecidableEq, Repr

inductive Event where
  | none
  | key (code : ℤ) (ch : UInt8)
  | resize (w h : ℤ)
  | mouseButton (x y button : ℤ) (state : MouseState)
  deriving DecidableEq, Repr

/-! ## Escape sequences -/

def isParam (c : UInt8) : Bool := 48 ≤ c && c ≤ 57 || c = 59

def isFinal (c : UInt8) : Bool := 65 ≤ c && c ≤ 90 || 97 ≤ c && c ≤ 122 || c = 126

/-- The loop over the bytes of a sequence: up to 15 parameter bytes are kept, a letter
or a tilde ends it, and any other byte is passed over. The byte behind the fifteenth
is read but not looked at. -/
def csiScan (params : Bytes) : Bytes → Option (Bytes × UInt8) × Bytes
  | [] => (none,[])
  | c::s =>
      if 15 ≤ params.length then (none,s)
      else if isParam c then csiScan (params++[c]) s
      else if isFinal c then (some (params,c),s)
      else csiScan params s

def finalKey (c : UInt8) : Option KeyCode :=
  if c = 65 then some .keyUp
  else if c = 66 then some .keyDown
  else if c = 67 then some .keyRight
  else if c = 68 then some .keyLeft
  else if c = 72 then some .keyHome
  else if c = 70 then some .keyEnd
  else if c = 90 then some .keyBacktab
  else none

def tildeKey (p : ℤ) : Option KeyCode :=
  if p = 1 ∨ p = 7 then some .keyHome
  else if p = 2 then some .keyInsert
  else if p = 3 then some .keyDelete
  else if p = 4 ∨ p = 8 then some .keyEnd
  else if p = 5 then some .keyPageup
  else if p = 6 then some .keyPagedown
  else if p = 11 then some .keyF1
  else if p = 12 then some .keyF2
  else if p = 13 then some .keyF3
  else if p = 14 then some .keyF4
  else if p = 15 then some .keyF5
  else if p = 17 then some .keyF6
  else if p = 18 then some .keyF7
  else if p = 19 then some .keyF8
  else if p = 20 then some .keyF9
  else if p = 21 then some .keyF10
  else if p = 23 then some .keyF11
  else if p = 24 then some .keyF12
  else none

def ss3Key (c : UInt8) : Option KeyCode :=
  if c = 80 then some .keyF1
  else if c = 81 then some .keyF2
  else if c = 82 then some .keyF3
  else if c = 83 then some .keyF4
  else none

/-! ## The relay -/

/-- The key of a sequence with its parameters and final byte. -/
def relayCsiKey (params : Bytes) (final : UInt8) : Option KeyCode :=
  if params = [] then finalKey final
  else if final = 126 then tildeKey (Fil.atoi params)
  else none

/-- `parse_csi`, from the byte behind the escape. -/
def parseCsi : Bytes → Option KeyCode × Bytes
  | [] => (none,[])
  | c::s =>
      if c = 91 then
        let r := csiScan [] s
        (r.1.bind fun q => relayCsiKey q.1 q.2,r.2)
      else if c = 79 then
        match s with
        | [] => (none,[])
        | k::s => (ss3Key k,s)
      else (none,s)

/-- The key of a byte that is no escape, and the character sent with it. -/
def plainKey (c : UInt8) : KeyCode × UInt8 :=
  if c = 9 then (.keyTab,0)
  else if c = 13 ∨ c = 10 then (.keyEnter,0)
  else if c = 127 then (.keyBackspace,0)
  else (.keyChar,c)

/-- One turn of `relay_run` for the terminal. -/
def relayKey : Bytes → Option ((KeyCode × UInt8) × Bytes)
  | [] => none
  | c::s =>
      if c = 27 then some (((parseCsi s).1.getD .keyEsc,0),(parseCsi s).2)
      else some (plainKey c,s)

/-- The text of the character in a message. -/
def charText (ch : UInt8) : Bytes :=
  if ch = 34 then [92,34]
  else if ch = 92 then [92,92]
  else if 32 ≤ ch ∧ ch ≤ 126 then [ch]
  else []

def keyLine (key : KeyCode × UInt8) : Bytes :=
  bytes "\x7b\"type\":\"key\",\"code\":"++formatInt key.1.code++bytes ",\"ch\":\""++
    charText key.2++bytes "\"\x7d"

def fillyClientSendKey (key : KeyCode × UInt8) : Bytes := keyLine key++[10]

/-- The event of a line. -/
def lineEvent (line : Bytes) : Event :=
  match cJSONParse (line.takeWhile (· ≠ 0)) with
  | none => .none
  | some msg =>
      let int (key : String) := (msg.getObjectItem (bytes key)).map Json.valueint
      match (msg.getObjectItem (bytes "type")).bind Json.valuestring with
      | none => .none
      | some type =>
          if type = bytes "key" then
            match int "code" with
            | none => .none
            | some code => .key code
                ((((msg.getObjectItem (bytes "ch")).bind Json.valuestring).bind List.head?).getD 0)
          else if type = bytes "size" then
            match int "w", int "h" with
            | some w, some h => .resize w h
            | _, _ => .none
          else if type = bytes "mouse" then
            match int "x", int "y" with
            | some x, some y => .mouseButton x y ((int "button").getD 0)
                (if (msg.getObjectItem (bytes "state")).bind Json.valuestring =
                  some (bytes "release") then .release else .press)
            | _, _ => .none
          else .none

/-- `sock_next_event`: a line ends at a newline or after 255 bytes; without either the
socket is at its end and there is no event. -/
def sockNextEvent (stream : Bytes) : Option (Event × Bytes) :=
  if stream = [] then none
  else if 10 ∈ stream.take 255 then
    some (lineEvent (stream.takeWhile (· ≠ 10)),(stream.dropWhile (· ≠ 10)).tail)
  else if 255 ≤ stream.length then some (lineEvent (stream.take 255),stream.drop 255)
  else some (.none,[])

/-! ## The terminal -/

/-- The bytes of a mouse report, its last byte, and what follows. -/
def readMouse (buf : Bytes) : Bytes → Bytes × Option UInt8 × Bytes
  | [] => (buf,none,[])
  | c::s =>
      if c = 0 then (buf,some c,s)
      else if 30 ≤ buf.length then (buf,some c,s)
      else if c = 77 ∨ c = 109 then (buf++[c],some c,s)
      else readMouse (buf++[c]) s

/-- The conversion `%d`. -/
def scanInt (s : Bytes) : Option (ℤ × Bytes) :=
  if (Fil.strtolSpan s).2.1 = [] then none else some (Fil.atoi s,(Fil.strtolSpan s).2.2)

/-- `sscanf(s, "%d;%d;%d", ...)`: a number that is not reached stays zero. -/
def scanMouse (s : Bytes) : ℤ × ℤ × ℤ :=
  match scanInt s with
  | none => (0,0,0)
  | some (btn,59::s) => match scanInt s with
    | none => (btn,0,0)
    | some (mx,59::s) => (btn,mx,((scanInt s).map Prod.fst).getD 0)
    | some (mx,_) => (btn,mx,0)
  | some (btn,_) => (btn,0,0)

def mouseEvent (buf : Bytes) (last : Option UInt8) : Event :=
  let (btn,mx,my) := scanMouse buf
  .mouseButton (mx-1) (my-1) (btn % 4)
    (if btn / 32 % 2 = 1 then .motion else if last = some 77 then .press else .release)

def KeyCode.event (k : KeyCode) : Event := .key k.code 0

/-- The key of a sequence; the parameters are cut at the first semicolon. -/
def termCsiKey (params : Bytes) (final : UInt8) : Option KeyCode :=
  if params = [] then finalKey final
  else if final = 126 then tildeKey (Fil.atoi (params.takeWhile (· ≠ 59)))
  else none

/-- The event of a sequence that may be none. -/
def keyEvent (k : Option KeyCode) : Event := (k.map KeyCode.event).getD .none

def termNextEvent : Bytes → Option (Event × Bytes)
  | [] => none
  | c::s =>
      if c ≠ 27 then some (.key (plainKey c).1.code (plainKey c).2,s)
      else match s with
        | [] => some (KeyCode.event .keyEsc,[])
        | c::s =>
            if c = 91 then match s with
              | [] => some (KeyCode.event .keyEsc,[])
              | c::s =>
                  if c = 60 then
                    let r := readMouse [] s
                    some (mouseEvent r.1 r.2.1,r.2.2)
                  else
                    let r := csiScan [] (c::s)
                    some (keyEvent (r.1.bind fun q => termCsiKey q.1 q.2),r.2)
            else if c = 79 then match s with
              | [] => some (KeyCode.event .keyEsc,[])
              | c::s => some (keyEvent (ss3Key c),s)
            else some (KeyCode.event .keyEsc,s)

/-! ## Both sides on one input -/

def Event.isKey : Event → Bool
  | .key _ _ => true
  | _ => false

/-- The keys that come out of the socket. -/
def relayKeys (input : Bytes) : List Event :=
  (log sockNextEvent ((log relayKey input).flatMap fun e => fillyClientSendKey e.2)).map Prod.snd

/-- The bytes that the relay takes for each key. -/
def relayTaken (input : Bytes) : List Bytes := (log relayKey input).map Prod.fst

/-- The keys of the terminal with the bytes taken for each. -/
def termKeys (input : Bytes) : List (Bytes × Event) :=
  (log termNextEvent input).filter fun e => e.2.isKey

/-- Both sides give the same keys and take the same bytes for each of them. -/
def SameKeys (input : Bytes) : Prop :=
  relayKeys input = (termKeys input).map Prod.snd ∧ relayTaken input = (termKeys input).map Prod.fst

end Filly.Keys
