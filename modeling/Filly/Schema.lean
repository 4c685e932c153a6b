import Filly.CJsonPrint

/-!
# Schema validation

`schema.c` walks a document and a schema side by side. A property is validated
where the document has it, and the first error ends the walk. The type of the
root is not looked at.

A validator returns the error text, or nothing when the document is accepted.
-/
namespace Filly.Protocol
open CJson

def isOfType (node : Json) (type : Bytes) : Bool :=
  match node with
  | .string _ => type = bytes "string"
  | .number _ => type = bytes "number"
  | .bool _ => type = bytes "boolean"
  | .object _ => type = bytes "object"
  | .array _ => type = bytes "array"
  | .null => false

/-- The types a schema can ask for; any other name is passed over. -/
def typeNames : List Bytes :=
  [bytes "string",bytes "number",bytes "boolean",bytes "object",bytes "array"]

def validateType (node schema : Json) : Option Bytes :=
  match (schema.getObjectItem (bytes "type")).bind Json.valuestring with
  | none => none
  | some type =>
      if type ∈ typeNames ∧ ¬isOfType node type then some (bytes "Expected "++type) else none

def isRequired (schema : Json) (key : Bytes) : Bool :=
  ((schema.getObjectItem (bytes "required")).elim [] Json.children).any
    fun req => req.valuestring = some key

/-- `char buf[256]`. -/
def missingField (key : Bytes) : Bytes := (bytes "Missing required field: "++key).take 255

/-- The children of `properties` with their names; those of an array have none,
and nothing is found under no name. -/
def properties (schema : Json) : List (Bytes × Json) :=
  match schema.getObjectItem (bytes "properties") with
  | some (.object members) => members
  | _ => []

section
variable (validate : Json → Json → Option Bytes)

def validateProperty (node schema : Json) (p : Bytes × Json) : Option Bytes :=
  match node.getObjectItem p.1 with
  | none => if isRequired schema p.1 then some (missingField p.1) else none
  | some value => validate value p.2

def validateObject (node schema : Json) : Option Bytes :=
  (properties schema).findSome? (validateProperty validate node schema)

def validateArray (children : List Json) (schema : Json) : Option Bytes :=
  match schema.getObjectItem (bytes "items") with
  | none => none
  | some items => children.findSome? fun child => validate child items

def validateChildren (node schema : Json) : Option Bytes :=
  match node with
  | .object _ => validateObject validate node schema
  | .array items => validateArray validate items schema
  | _ => none

end

/-- The schema gets smaller with each call, so its nesting bounds the depth. -/
def validateNode : ℕ → Json → Json → Option Bytes
  | 0, _, _ => none
  | n+1, node, schema =>
      (validateType node schema).or (validateChildren (validateNode n) node schema)

def schemaValidate (text schemaText : Bytes) : Option Bytes :=
  match cJSONParse text with
  | none => some (bytes "Invalid JSON")
  | some node =>
      match cJSONParse schemaText with
      | none => some (bytes "Invalid schema JSON")
      | some schema => validateObject (validateNode schema.nesting) node schema

end Filly.Protocol
