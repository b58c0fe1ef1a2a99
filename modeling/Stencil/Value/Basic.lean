import Stencil.Dict
import Stencil.Decimal.Binary
import Stencil.Decimal.Numeral

/-! The data that templates render. -/

namespace Stencil

/-- The name of a callable; what a callable does is up to the engine. -/
abbrev FunctionId := Nat

/-- A value. The fields of an object stand in the order of their names. -/
inductive Value where
  | null
  | bool (b : Bool)
  | int (n : Int64)
  | float (x : Float)
  | string (s : String)
  | array (items : List Value)
  | object (fields : List (String × Value))
  | function (id : FunctionId)
deriving Inhabited

namespace Value

/-- A whole number, as a floating-point number if it is no word. -/
def ofInt (n : Int) : Value :=
  match Decimal.Numeral.word? n with
  | some word => .int word
  | none => .float (Decimal.Numeral.nearest (n < 0) n.natAbs 0)

/-- A count. -/
def ofNat (n : Nat) : Value :=
  ofInt n

/-- The object with some fields. -/
def ofFields (fields : List (String × Value)) : Value :=
  .object (Dict.ofList fields)

/-- Text or nothing. -/
def ofString? : Option String → Value
  | none => .null
  | some s => .string s

/-- Whether a value counts as absent: it writes nothing, and a section of it shows its other body. Zero does not. -/
def isEmpty : Value → Bool
  | .null => true
  | .bool b => !b
  | .float x => Decimal.isNaN x
  | .string s => s.isEmpty
  | .array items => items.isEmpty
  | .int _ | .object _ | .function _ => false

/-- The entry under a key: a field of an object, or the item of an array whose index the key spells. -/
def get? (key : String) : Value → Option Value
  | .object fields => Dict.get? key fields
  | .array items => (Decimal.Numeral.index? key.toList).bind (items[·]?)
  | _ => none

/-- The entry under an index: an item of an array, or the field of an object whose name spells the index. -/
def item? (index : Nat) : Value → Option Value
  | .array items => items[index]?
  | .object fields => Dict.get? (toString index) fields
  | _ => none

/-- Whether a value is a callable. -/
def isFunction : Value → Bool
  | .function _ => true
  | _ => false

/-- The text of a string. -/
def string? : Value → Option String
  | .string s => some s
  | _ => none

/-- The word of a whole number. -/
def int? : Value → Option Int64
  | .int n => some n
  | _ => none

/-- The items of an array. -/
def items? : Value → Option (List Value)
  | .array items => some items
  | _ => none

/-- The fields of an object. -/
def fields? : Value → Option (Dict Value)
  | .object fields => some fields
  | _ => none

/-- The name of the kind of a value. -/
def kind : Value → String
  | .null => "Null"
  | .bool _ => "Bool"
  | .int _ => "Int"
  | .float _ => "Float"
  | .string _ => "String"
  | .array _ => "Array"
  | .object _ => "Object"
  | .function _ => "Function"

mutual

/-- Whether two values are equal: numbers as numbers, so a number that is none equals nothing, and callables by name. -/
def beq : Value → Value → Bool
  | .null, .null => true
  | .bool a, .bool b => a == b
  | .int a, .int b => a == b
  | .float a, .float b => a == b
  | .string a, .string b => a == b
  | .array a, .array b => beqItems a b
  | .object a, .object b => beqFields a b
  | .function a, .function b => a == b
  | _, _ => false

/-- Whether two lists of items are equal. -/
def beqItems : List Value → List Value → Bool
  | [], [] => true
  | a :: as, b :: bs => a.beq b && beqItems as bs
  | _, _ => false

/-- Whether two lists of fields are equal. -/
def beqFields : List (String × Value) → List (String × Value) → Bool
  | [], [] => true
  | (k, a) :: as, (l, b) :: bs => k == l && a.beq b && beqFields as bs
  | _, _ => false

end

instance : BEq Value := ⟨Value.beq⟩

end Value
end Stencil
