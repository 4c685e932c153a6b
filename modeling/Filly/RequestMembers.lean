import Filly.CJson

/-!
# What widgets read from a request

Members of a request are taken as C strings, which end before the first null byte, or as
the values that an array or an object holds.
-/
namespace Filly.CJson

/-- `strdup` of the text of a value; there is none of a null pointer. -/
def strdup (j : Json) : Option Bytes := j.valuestring.map fun s => s.takeWhile (· ≠ 0)

/-- The text of a member that has one. -/
def memberText (j : Json) (name : String) : Option Bytes :=
  (j.getObjectItem (bytes name)).bind strdup

def memberChildren (j : Json) (name : String) : List Json :=
  ((j.getObjectItem (bytes name)).map Json.children).getD []

end Filly.CJson
