import Stencil.Value.Basic
import Stencil.Json.Basic

/-! Values as JSON. Callables have no form there and become nothing. -/

namespace Stencil.Value

mutual

/-- The value that JSON stands for. -/
def ofJson : Json → Value
  | .null => .null
  | .bool b => .bool b
  | .int n => ofInt n
  | .float x => .float x
  | .string s => .string s
  | .array items => .array (ofJsonItems items)
  | .object members => .object (ofJsonMembers members)

/-- The items that JSON stands for. -/
def ofJsonItems : List Json → List Value
  | [] => []
  | item :: rest => ofJson item :: ofJsonItems rest

/-- The fields that JSON stands for. -/
def ofJsonMembers : List (String × Json) → List (String × Value)
  | [] => []
  | (key, value) :: rest => (key, ofJson value) :: ofJsonMembers rest

end

mutual

/-- The JSON that stands for a value. -/
def toJson : Value → Json
  | .null | .function _ => .null
  | .bool b => .bool b
  | .int n => .int n.toInt
  | .float x => .float x
  | .string s => .string s
  | .array items => .array (toJsonItems items)
  | .object fields => .object (toJsonMembers fields)

/-- The JSON that stands for items. -/
def toJsonItems : List Value → List Json
  | [] => []
  | item :: rest => item.toJson :: toJsonItems rest

/-- The JSON that stands for fields. -/
def toJsonMembers : List (String × Value) → List (String × Json)
  | [] => []
  | (key, value) :: rest => (key, value.toJson) :: toJsonMembers rest

end

end Stencil.Value
