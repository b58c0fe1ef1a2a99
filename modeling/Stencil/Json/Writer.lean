import Stencil.Json.Basic
import Stencil.Decimal.Layout

/-! The compact text of a JSON value: no blanks, members in their order, characters beyond ASCII as they are. -/

namespace Stencil.Json

/-- Numbers have the point in its place from `0.00001` up to `1e16`, keep a fraction when whole, and sign their powers
    of ten. -/
def numberLayout : Decimal.Layout where
  isPlain leading := -5 ≤ leading && leading < 16
  wholePoint := true
  plusSign := true
  tie := .toEven

/-- A number that is none has no text in the format and is written as `null`. -/
def floatText (x : Float) : String :=
  match Decimal.FloatView.ofFloat x with
  | .finite negative magnitude => numberLayout.ofFinite negative magnitude
  | .infinite _ | .nan => "null"

/-- A digit of base sixteen. -/
def hexDigit (n : Nat) : Char :=
  Char.ofNat (if n < 10 then 0x30 + n else 0x57 + n)

/-- How one character of a string is written. -/
def escapeChar (c : Char) : List Char :=
  if c = '"' then ['\\', '"']
  else if c = '\\' then ['\\', '\\']
  else if c = '\x08' then ['\\', 'b']
  else if c = '\x0c' then ['\\', 'f']
  else if c = '\n' then ['\\', 'n']
  else if c = '\r' then ['\\', 'r']
  else if c = '\t' then ['\\', 't']
  else if c.toNat < 0x20 then ['\\', 'u', '0', '0', hexDigit (c.toNat / 16), hexDigit (c.toNat % 16)]
  else [c]

/-- A string in its quotes. -/
def stringText (s : String) : String :=
  String.ofList ('"' :: s.toList.flatMap escapeChar ++ ['"'])

mutual

/-- The text of a value. -/
def text : Json → String
  | .null => "null"
  | .bool true => "true"
  | .bool false => "false"
  | .int n => toString n
  | .float x => floatText x
  | .string s => stringText s
  | .array items => "[" ++ ",".intercalate (itemTexts items) ++ "]"
  | .object members => "\x7b" ++ ",".intercalate (memberTexts members) ++ "\x7d"

/-- The texts of the items of an array. -/
def itemTexts : List Json → List String
  | [] => []
  | item :: rest => item.text :: itemTexts rest

/-- The texts of the members of an object, each a name, a colon and a value. -/
def memberTexts : List (String × Json) → List String
  | [] => []
  | (name, value) :: rest => (stringText name ++ ":" ++ value.text) :: memberTexts rest

end

end Stencil.Json
