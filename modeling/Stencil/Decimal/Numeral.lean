/-! Numbers read from text: digits, whole numbers within bounds, and the floating-point number nearest to a decimal. -/

namespace Stencil.Decimal.Numeral

/-- A digit of base ten. -/
def isDigit (c : Char) : Bool :=
  '0' ≤ c && c ≤ '9'

/-- The value of a digit. -/
def digitValue (c : Char) : Nat :=
  c.toNat - '0'.toNat

/-- The number that digits stand for. -/
def value (digits : List Char) : Nat :=
  digits.foldl (fun n c => 10 * n + digitValue c) 0

/-- A number of one or more digits and nothing else. -/
def digits? (text : List Char) : Option Nat :=
  if !text.isEmpty && text.all isDigit then some (value text) else none

/-- The greatest index of an item. -/
def maxIndex : Nat := Nat.pow 2 64 - 1

/-- An index of digits, a plus sign before them being allowed. -/
def index? (text : List Char) : Option Nat := do
  let n ← digits? (match text with | '+' :: rest => rest | _ => text)
  if n ≤ maxIndex then some n else none

/-- A whole number of digits with an optional sign. -/
def int? : List Char → Option Int
  | '-' :: rest => (digits? rest).map fun n => -(n : Int)
  | '+' :: rest => (digits? rest).map fun n => (n : Int)
  | text => (digits? text).map fun n => (n : Int)

/-- The first whole number above the words. -/
def wordEnd : Nat := Nat.pow 2 63

/-- A whole number as a word, if it fits. -/
def word? (n : Int) : Option Int64 :=
  if -(wordEnd : Int) ≤ n ∧ n < wordEnd then some (Int64.ofInt n) else none

/-- Infinity of a sign. -/
def infinity (negative : Bool) : Float :=
  Float.ofBits (if negative then 0xFFF0000000000000 else 0x7FF0000000000000)

/-- The number nearest to `digits * 10 ^ exponent`. Decimals far beyond the greatest and the least finite magnitude are
    settled by their size alone. -/
def nearest (negative : Bool) (digits : Nat) (exponent : Int) : Float :=
  let size := (Nat.toDigits 10 digits).length + exponent
  let magnitude : Float :=
    if digits = 0 ∨ size < -400 then 0.0
    else if 400 < size then infinity false
    else Float.ofScientific digits (exponent < 0) exponent.natAbs
  if negative then -magnitude else magnitude

/-- The parts of a decimal without its sign: digits, a fraction, a power of ten. -/
structure Parts where
  whole : List Char
  /-- Absent without a point. -/
  fraction : Option (List Char)
  /-- Absent without the letter of the power. -/
  power : Option (List Char)

/-- Splits a decimal at its point and at the letter of its power. -/
def Parts.ofText (text : List Char) : Parts :=
  let whole := text.takeWhile isDigit
  let rest := text.dropWhile isDigit
  let (fraction, rest) :=
    match rest with
    | '.' :: rest => (some (rest.takeWhile isDigit), rest.dropWhile isDigit)
    | _ => (none, rest)
  ⟨whole, fraction, if rest.isEmpty then none else some rest⟩

/-- The power of ten after its letter. -/
def Parts.exponent? (p : Parts) : Option Int :=
  match p.power with
  | none => some 0
  | some (letter :: power) => if letter = 'e' ∨ letter = 'E' then int? power else none
  | some [] => none

/-- The number nearest to an unsigned decimal, which has a digit before or after its point. -/
def magnitude? (negative : Bool) (text : List Char) : Option Float := do
  let p := Parts.ofText text
  let power ← p.exponent?
  let places := p.fraction.getD []
  if p.whole.isEmpty && places.isEmpty then none
  else some (nearest negative (value (p.whole ++ places)) (power - places.length))

/-- The names of numbers that have no digits. -/
def named? (negative : Bool) (text : List Char) : Option Float :=
  match String.ofList (text.map Char.toLower) with
  | "inf" | "infinity" => some (infinity negative)
  | "nan" => some (Float.ofBits 0x7FF8000000000000)
  | _ => none

/-- The number nearest to a decimal with an optional sign. -/
def float? (text : List Char) : Option Float :=
  let (negative, rest) :=
    match text with
    | '-' :: rest => (true, rest)
    | '+' :: rest => (false, rest)
    | _ => (false, text)
  (magnitude? negative rest).or (named? negative rest)

end Stencil.Decimal.Numeral
