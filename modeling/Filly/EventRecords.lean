import Filly.TtyKeys

/-!
# The event record of `core/event.h`

One record with a field for everything that an event of some kind can carry. A record
that has been zeroed is an event of no kind.
-/
namespace Filly.EventRecords
open Keys (KeyCode MouseState)

/-- Beside the names of the enumeration, a file may hold any other number. -/
inductive EventType where
  | none
  | key
  | resize
  | mouseMotion
  | mouseButton
  | mouseScroll
  | mouseDragStart
  | mouseDragMove
  | mouseDragEnd
  | unnamed (code : { n : Int32 // n ∉ [0,1,2,3,4,5,6,7,8] })
  deriving DecidableEq

def EventType.code : EventType → Int32
  | .none => 0
  | .key => 1
  | .resize => 2
  | .mouseMotion => 3
  | .mouseButton => 4
  | .mouseScroll => 5
  | .mouseDragStart => 6
  | .mouseDragMove => 7
  | .mouseDragEnd => 8
  | .unnamed c => c.1

def EventType.ofCode (n : Int32) : EventType :=
  if h : n ∈ [0,1,2,3,4,5,6,7,8] then
    if n = 0 then .none
    else if n = 1 then .key
    else if n = 2 then .resize
    else if n = 3 then .mouseMotion
    else if n = 4 then .mouseButton
    else if n = 5 then .mouseScroll
    else if n = 6 then .mouseDragStart
    else if n = 7 then .mouseDragMove
    else .mouseDragEnd
  else .unnamed ⟨n,h⟩

@[simp] theorem EventType.ofCode_code (t : EventType) : ofCode t.code = t := by
  cases t with
  | unnamed c => exact dif_neg c.2
  | _ => rfl

/-- The key is kept as the number of its enumerator. -/
@[ext] structure Event where
  type : EventType := .none
  code : Int32 := 0
  ch : Int8 := 0
  w : Int32 := 0
  h : Int32 := 0
  x : Int32 := 0
  y : Int32 := 0
  button : Int32 := 0
  mouseState : MouseState := .press
  dragStartX : Int32 := 0
  dragStartY : Int32 := 0
  dragDx : Int32 := 0
  dragDy : Int32 := 0
  deriving DecidableEq

def keyNumber (code : KeyCode) : Int32 := Int32.ofInt code.code

end Filly.EventRecords
