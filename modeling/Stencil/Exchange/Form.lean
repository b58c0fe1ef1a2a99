import Stencil.Decimal.Numeral
import Stencil.Json.Basic

/-! Forms of records and variants in JSON. A record is an object, or the array of its fields in their order; a variant is
    an object with one member, its name and its content, and a variant without content may be its name alone. Several
    fields of one variant stand in an object. Members that are no fields are passed over. -/

namespace Stencil.Form

variable {α : Type}

/-- The fields of an object, in the order of these names. A name without a member gives nothing. -/
def fields? (names : List String) : Json → Option (List (Option Json))
  | .object members => some (names.map (Dict.get? · members))
  | _ => none

/-- The fields of a record, in the order of these names. -/
def record? (names : List String) : Json → Option (List (Option Json))
  | .array items => if items.length = names.length then some (items.map some) else none
  | json => fields? names json

/-- The name and the content of a variant. -/
def variant? : Json → Option (String × Option Json)
  | .string name => some (name, none)
  | .object [(name, content)] => some (name, some content)
  | _ => none

/-- Reads a field that must be there. -/
def required (read : Json → Option α) (field : Option Json) : Option α :=
  field.bind read

/-- Reads a field that may be missing or be nothing. -/
def optional (read : Json → Option α) : Option Json → Option (Option α)
  | none | some .null => some none
  | some json => (read json).map some

/-- Reads the absence of content. -/
def noContent : Option Json → Option Unit
  | none | some .null => some ()
  | some _ => none

/-- Reads text. -/
def string? : Json → Option String
  | .string s => some s
  | _ => none

/-- Reads a truth value. -/
def bool? : Json → Option Bool
  | .bool b => some b
  | _ => none

/-- Reads a count. -/
def count? : Json → Option Nat
  | .int n => if 0 ≤ n ∧ n.toNat ≤ Decimal.Numeral.maxIndex then some n.toNat else none
  | _ => none

/-- Reads a word. -/
def word? : Json → Option Int64
  | .int n => Decimal.Numeral.word? n
  | _ => none

/-- Reads a floating-point number. -/
def float? : Json → Option Float
  | .float x => some x
  | .int n => some (Decimal.Numeral.nearest (n < 0) n.natAbs 0)
  | _ => none

/-- Reads an array. -/
def list? (read : Json → Option α) : Json → Option (List α)
  | .array items => items.mapM read
  | _ => none

/-- Reads an object whose members are all alike. -/
def dict? (read : Json → Option α) : Json → Option (Dict α)
  | .object members => members.mapM fun (name, json) => (read json).map (name, ·)
  | _ => none

/-- Writes a variant with content. -/
def variant (name : String) (content : Json) : Json :=
  .object [(name, content)]

/-- Writes what may be missing. -/
def nullable (write : α → Json) : Option α → Json
  | none => .null
  | some a => write a

end Stencil.Form
