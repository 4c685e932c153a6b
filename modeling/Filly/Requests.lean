import Filly.CJson

/-!
# Widget requests

`widget_request_parse` takes what it knows from a JSON object and leaves zeros
and null pointers for the rest. Only text that is not JSON is refused: a request
may come without a widget.
-/
namespace Filly.Protocol
open CJson

structure WidgetRequest where
  widget : Option Bytes
  params : Option Json
  step : ℤ
  total : ℤ
  sessionId : Option Bytes
  tty : Option Bytes
  relay : Bool
  headless : Bool
  anchor : Option Bytes
  x : ℤ
  y : ℤ
  relativeTo : Option Bytes
  dx : ℤ
  dy : ℤ
  zIndex : ℤ
  overflow : Option Bytes
  tooltip : Option Bytes
  tabIndex : ℤ
  draggable : Bool

/-- `item && item->valuestring`. -/
def stringField (root : Json) (name : Bytes) : Option Bytes :=
  (root.getObjectItem name).bind Json.valuestring

/-- `item && item->type == cJSON_Number`. -/
def numberField (root : Json) (name : Bytes) : Option ℤ :=
  match root.getObjectItem name with
  | some (.number d) => some d.valueint
  | _ => none

/-- `item->valueint`, for an item of any type. -/
def intField (root : Json) (name : Bytes) : ℤ :=
  ((root.getObjectItem name).map Json.valueint).getD 0

def widgetRequest (root : Json) : WidgetRequest where
  widget := stringField root (bytes "widget")
  params := root.getObjectItem (bytes "params")
  step := intField root (bytes "step")
  total := intField root (bytes "total")
  sessionId := stringField root (bytes "session_id")
  tty := stringField root (bytes "tty")
  relay := intField root (bytes "relay") ≠ 0
  headless := intField root (bytes "headless") ≠ 0
  anchor := stringField root (bytes "anchor")
  x := (numberField root (bytes "x")).getD 0
  y := (numberField root (bytes "y")).getD 0
  relativeTo := stringField root (bytes "relative_to")
  dx := (numberField root (bytes "dx")).getD 0
  dy := (numberField root (bytes "dy")).getD 0
  zIndex := (numberField root (bytes "z_index")).getD 0
  overflow := stringField root (bytes "overflow")
  tooltip := stringField root (bytes "tooltip")
  tabIndex := (numberField root (bytes "tab_index")).getD 0
  draggable := intField root (bytes "draggable") ≠ 0

/-- The argument is the C string. -/
def widgetRequestParse (text : Bytes) : Option WidgetRequest := (cJSONParse text).map widgetRequest

end Filly.Protocol
