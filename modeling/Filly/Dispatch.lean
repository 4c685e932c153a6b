import Filly.Positions
import Filly.ResponseMsgPack
import Filly.Schema
import Filly.Subscriptions

/-!
# Lines and replies

A line reaches the daemon in one of three places: as the first line of a
connection, as the line after a handshake, or in the loop of a connection with a
graphical backend. Each place sorts messages out by hand. What a line leads to
is the replies that are written for it, in order, and whether the registry was
searched for a null name.

Widgets are given by the registry: a factory makes a widget from the request or
not, and the widget ends with a response. Which terminals and which graphical
backend can be opened is given too.
-/
namespace Filly.Daemon
open CJson SessionStore Protocol

/-! ## The surroundings -/

structure RegistryEntry where
  name : Bytes
  factory : Option (WidgetRequest → Option WidgetResponse)

inductive TtyAccess where
  | denied
  | unopenable
  | opened
  deriving DecidableEq, Repr

structure Surroundings where
  registry : List RegistryEntry
  /-- `use_msgpack` when the line is handled. -/
  useMsgpack : Bool
  /-- Whether the graphical backend starts, if the daemon was built with one. -/
  gui : Option Bool
  tty : Bytes → TtyAccess
  time : UInt64
  thread : UInt64
  anchor : CharArray 32
  relativeTo : CharArray 64

/-! ## Replies -/

inductive ReplyKind where
  | response
  | pong
  | queryResponse
  | handshakeAck
  deriving DecidableEq, Repr

/-- What handling a line leads to. -/
structure Handled where
  replies : List (ReplyKind × Bytes)
  nullLookup : Bool
  deriving DecidableEq, Repr

def silent : Handled := ⟨[],false⟩

def replied (kind : ReplyKind) (text : Bytes) : Handled := ⟨[(kind,text)],false⟩

def errorHead : Bytes :=
  bytes "\x7b\"type\":\"response\",\"result\":null,\"cancelled\":true,\"error\":\""

/-- `char buf[512]`. -/
def sendError (message : Bytes) : Handled :=
  replied .response ((errorHead++message++bytes "\"\x7d\n").take 511)

def sendOk : Handled :=
  replied .response (bytes "\x7b\"type\":\"response\",\"result\":null,\"cancelled\":false\x7d\n")

/-- A printed tree goes to `send_response_msgpack`. Nothing comes of a null text,
whose length `strlen` is asked for or which is not parsed. -/
def sendPrinted (useMsgpack : Bool) (kind : ReplyKind) (json : Option Bytes) : Handled :=
  match json.bind (sendResponseMsgpack useMsgpack) with
  | none | some [] => silent
  | some text => replied kind text

/-! ## Widgets -/

/-- `widget_registry_create` and the run of the widget. -/
def widgetRegistryCreate (registry : List RegistryEntry) (name : Bytes) (req : WidgetRequest) :
    Option WidgetResponse :=
  ((registry.find? fun e => e.name = name).bind RegistryEntry.factory).bind fun make => make req

def unknownWidget : WidgetResponse := ⟨none,true,some (bytes "Unknown widget")⟩

/-- A null name reaches `strcmp`, unless there is nothing to compare it with. -/
def runWidget (e : Surroundings) (req : WidgetRequest) : Handled :=
  match req.widget with
  | none =>
      { sendPrinted e.useMsgpack .response
          (if e.registry.isEmpty then widgetResponseToJson unknownWidget else none) with
        nullLookup := true }
  | some name =>
      sendPrinted e.useMsgpack .response
        (widgetResponseToJson ((widgetRegistryCreate e.registry name req).getD unknownWidget))

/-! ## Dispatch -/

def widgetSchema : Bytes := bytes
  "\x7b\"type\":\"object\",\"properties\":\x7b\"widget\":\x7b\"type\":\"string\"\x7d,\"params\":\x7b\"type\":\"object\"\x7d\x7d\x7d"

def handleQuery (e : Surroundings) (json : Json) (session : Session) : Handled :=
  match stringField json (bytes "widget_id") with
  | none => sendError (bytes "Missing widget_id")
  | some id => sendPrinted e.useMsgpack .queryResponse
      (Reply.queryResponse id (storeGet session.store id)).toJson

def handleSession (e : Surroundings) (json : Json) : Handled :=
  match stringField json (bytes "action") with
  | none => silent
  | some action =>
      if action = bytes "create" then
        replied .response (bytes "\x7b\"type\":\"response\",\"result\":\""++sessionId e.time e.thread++
          bytes "\",\"cancelled\":false\x7d\n")
      else if action = bytes "destroy" then sendOk
      else silent

/-- The messages that are known by their type; absent for any other. -/
def handleTyped (e : Surroundings) (json : Json) (session : Session) (type : Bytes) :
    Option Handled :=
  if type = bytes "quit" then some sendOk
  else if type = bytes "ping" then some (replied .pong (bytes "\x7b\"type\":\"pong\"\x7d\n"))
  else if type = bytes "subscribe" then some silent
  else if type = bytes "unsubscribe" then some sendOk
  else if type = bytes "query" then some (handleQuery e json session)
  else if type = bytes "position" then some sendOk
  else if type = bytes "reload_theme" then some sendOk
  else if type = bytes "reload_plugins" then some sendOk
  else if type = bytes "set_accessibility" then some sendOk
  else if type = bytes "session" then some (handleSession e json)
  else none

/-- What was kept for the next widget is added to the request. -/
def runRequest (e : Surroundings) (session : Session) (req : WidgetRequest) : Handled :=
  match takePosition session req with
  | none => silent
  | some req => runWidget e req

def dispatchMessage (e : Surroundings) (text : Bytes) (session : Session) : Handled :=
  match schemaValidate text widgetSchema with
  | some error => sendError error
  | none =>
      match cJSONParse text with
      | none => silent
      | some json =>
          match (stringField json (bytes "type")).bind (handleTyped e json session) with
          | some handled => handled
          | none =>
              match widgetRequestParse text with
              | none => sendError (bytes "Invalid JSON")
              | some req => runRequest e session req

/-! ## The first lines of a connection -/

def relayError (e : Surroundings) (req : WidgetRequest) : Option Handled :=
  if req.relay then
    match e.tty (req.tty.getD (bytes "/dev/tty")) with
    | .denied => some (sendError (bytes "Permission denied"))
    | .unopenable => some (sendError (bytes "Cannot open /dev/tty"))
    | .opened => none
  else none

/-- The line with which `handle_client` does its work. -/
def handleWidgetLine (e : Surroundings) (text : Bytes) : Handled :=
  match cJSONParse text with
  | none => silent
  | some json =>
      if (stringField json (bytes "type")).isSome && (json.getObjectItem (bytes "widget")).isNone then
        dispatchMessage e text (newSession e.time e.thread e.anchor e.relativeTo)
      else
        match widgetRequestParse text with
        | none => sendError (bytes "Invalid widget request")
        | some req => (relayError e req).getD (runWidget e req)

def capabilityNames : List Bytes :=
  [bytes "animations",bytes "vectors",bytes "shadows",bytes "streaming",bytes "positioning",
    bytes "flexbox",bytes "grid",bytes "shaping",bytes "transforms",bytes "accessibility"]

def capabilityTree (clientCaps : Json) : Json :=
  .object [(bytes "type",.string (bytes "handshake_ack")),(bytes "version",.number ⟨false,2,0⟩),
    (bytes "capabilities",.array (match clientCaps with
      | .array caps => ((caps.filterMap Json.valuestring).filter (· ∈ capabilityNames)).map .string
      | _ => []))]

/-- Without capabilities a handshake is not acknowledged. -/
def sendNegotiatedCapabilities (clientCaps : Option Json) : Handled :=
  match clientCaps with
  | none => silent
  | some caps =>
      match cJSONPrintUnformatted (capabilityTree caps) with
      | none => silent
      | some text => replied .handshakeAck (text++[10])

def isHandshake (first : Json) : Bool :=
  stringField first (bytes "type") = some (bytes "handshake")

def acknowledge (first : Json) : Handled :=
  if isHandshake first then
    sendNegotiatedCapabilities (first.getObjectItem (bytes "capabilities"))
  else silent

def Handled.append (h k : Handled) : Handled :=
  ⟨h.replies++k.replies,h.nullLookup || k.nullLookup⟩

/-- The first line; a graphical connection goes on to its loop, or ends if the
backend does not start. -/
def handleFirstLine (e : Surroundings) (text : Bytes) : Handled :=
  match cJSONParse text with
  | none => handleWidgetLine e text
  | some first =>
      if intField first (bytes "gui") ≠ 0 ∧ e.gui = some true then acknowledge first
      else if intField first (bytes "gui") ≠ 0 ∧ e.gui = some false then
        (acknowledge first).append (sendError (bytes "GUI backend unavailable"))
      else if isHandshake first then acknowledge first
      else handleWidgetLine e text

/-! ## Lines -/

inductive Place where
  | first
  | afterHandshake
  | loop (session : Session)

/-- `read_message` takes 524286 characters before the newline at most, and every
function that gets the line reads it up to its first NUL. -/
def handleLine (e : Surroundings) (place : Place) (line : Bytes) : Handled :=
  if 524286 < line.length then silent
  else
    let text := line.takeWhile (· ≠ 0)
    match place with
    | .first => handleFirstLine e text
    | .afterHandshake => handleWidgetLine e text
    | .loop session => dispatchMessage e text session

end Filly.Daemon
