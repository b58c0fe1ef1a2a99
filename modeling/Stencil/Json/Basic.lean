import Stencil.Dict

/-! Values of the JSON data format. Whole numbers and floating-point numbers are kept apart: `2` and `2.0` are two
    values. -/

namespace Stencil

/-- A value of the data format. What is read has the members of an object in the order of their names, one for each name;
    what is written may have them in any order. -/
inductive Json where
  | null
  | bool (b : Bool)
  | int (n : Int)
  | float (x : Float)
  | string (s : String)
  | array (items : List Json)
  | object (members : List (String × Json))
deriving Inhabited

namespace Json

/-- The object with some members. -/
def ofMembers (members : List (String × Json)) : Json :=
  .object (Dict.ofList members)

/-- Text or nothing. -/
def ofString? : Option String → Json
  | none => .null
  | some s => .string s

/-- A list of texts. -/
def ofStrings (texts : List String) : Json :=
  .array (texts.map .string)

end Json
end Stencil
