import Stencil.Value.Basic
import Stencil.Decimal.Layout
import Stencil.Text.Quoted

/-! Values as text: as they are rendered, and for reading by people. -/

namespace Stencil.Value

/-- Rendered numbers always have the point in its place. -/
def renderedLayout : Decimal.Layout where
  isPlain _ := true
  wholePoint := false
  plusSign := false
  tie := .up

/-- Shown numbers have the point in its place from `0.0001` up to `1e16` and keep a fraction when whole. -/
def shownLayout : Decimal.Layout where
  isPlain leading := -4 ≤ leading && leading < 16
  wholePoint := true
  plusSign := false
  tie := .up

/-- Whole numbers below this are rendered as integers, so zero loses its sign. -/
def integerBelow : Nat := Nat.pow 10 15

/-- The integer that a floating-point number is rendered as, if it is whole and not too large. -/
def integerOf? (negative : Bool) (magnitude : Decimal.Binary) : Option Int :=
  magnitude.toNat?.bind fun n =>
    if n < integerBelow then some (if negative then -(n : Int) else n) else none

/-- A floating-point number as rendered. -/
def floatText (x : Float) : String :=
  match Decimal.FloatView.ofFloat x with
  | .nan => "NaN"
  | .infinite false => "Infinity"
  | .infinite true => "-Infinity"
  | .finite negative magnitude =>
    match integerOf? negative magnitude with
    | some n => toString n
    | none => renderedLayout.ofFinite negative magnitude

mutual

/-- What a value renders as. -/
def text : Value → String
  | .null | .function _ => ""
  | .bool true => "true"
  | .bool false => "false"
  | .int n => toString n.toInt
  | .float x => floatText x
  | .string s => s
  | .array items => ",".intercalate (texts items)
  | .object _ => "[object Object]"

/-- What items render as. -/
def texts : List Value → List String
  | [] => []
  | item :: rest => item.text :: texts rest

end

/-- A floating-point number as shown. -/
def shownFloat (x : Float) : String :=
  match Decimal.FloatView.ofFloat x with
  | .nan => "NaN"
  | .infinite false => "inf"
  | .infinite true => "-inf"
  | .finite negative magnitude => shownLayout.ofFinite negative magnitude

mutual

/-- A value as shown, with its kind. -/
def debugText : Value → String
  | .null => "Null"
  | .bool b => "Bool(" ++ (if b then "true" else "false") ++ ")"
  | .int n => "Int(" ++ toString n.toInt ++ ")"
  | .float x => "Float(" ++ shownFloat x ++ ")"
  | .string s => "String(" ++ Text.Quoted.quote s ++ ")"
  | .array items => "Array([" ++ ", ".intercalate (debugTexts items) ++ "])"
  | .object fields => "Object(\x7b" ++ ", ".intercalate (debugFields fields) ++ "\x7d)"
  | .function _ => "Function(..)"

/-- Items as shown. -/
def debugTexts : List Value → List String
  | [] => []
  | item :: rest => item.debugText :: debugTexts rest

/-- Fields as shown. -/
def debugFields : List (String × Value) → List String
  | [] => []
  | (key, value) :: rest => (Text.Quoted.quote key ++ ": " ++ value.debugText) :: debugFields rest

end

end Stencil.Value
