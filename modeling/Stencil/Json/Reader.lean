import Stencil.Json.Basic
import Stencil.Decimal.Stepwise

/-! Reads JSON text strictly: no comments, no surplus commas, no loose numbers. A reader takes characters and gives a
    result with the characters behind it. Containers may nest as deep as the caller allows. -/

namespace Stencil.Json

open Decimal

/-- The blanks of the format. -/
def isSpace (c : Char) : Bool :=
  c = ' ' || c = '\t' || c = '\n' || c = '\r'

/-- Drops the blanks in front. -/
def skipSpace (text : List Char) : List Char :=
  text.dropWhile isSpace

/-- The value of a digit of base sixteen. -/
def hexValue? (c : Char) : Option Nat :=
  if '0' ≤ c ∧ c ≤ '9' then some (c.toNat - '0'.toNat)
  else if 'a' ≤ c ∧ c ≤ 'f' then some (c.toNat - 'a'.toNat + 10)
  else if 'A' ≤ c ∧ c ≤ 'F' then some (c.toNat - 'A'.toNat + 10)
  else none

/-- The unit of four digits of base sixteen. -/
def unit? (a b c d : Char) : Option Nat := do
  some (((← hexValue? a) * 16 + (← hexValue? b)) * 256 + (← hexValue? c) * 16 + (← hexValue? d))

/-- The character of a unit that stands alone. -/
def charOfUnit? (unit : Nat) : Option Char :=
  if 0xD800 ≤ unit ∧ unit ≤ 0xDFFF then none else some (Char.ofNat unit)

/-- The character of a pair of units. -/
def charOfPair? (high low : Nat) : Option Char :=
  if 0xD800 ≤ high ∧ high ≤ 0xDBFF ∧ 0xDC00 ≤ low ∧ low ≤ 0xDFFF then
    some (Char.ofNat (0x10000 + (high - 0xD800) * 0x400 + (low - 0xDC00)))
  else none

/-- The character that a letter after the backslash stands for. -/
def unescape? : Char → Option Char
  | '"' => some '"'
  | '\\' => some '\\'
  | '/' => some '/'
  | 'b' => some '\x08'
  | 'f' => some '\x0c'
  | 'n' => some '\n'
  | 'r' => some '\r'
  | 't' => some '\t'
  | _ => none

/-- The characters of a string up to its closing quote. -/
def stringChars? : List Char → Option (List Char × List Char)
  | [] => none
  | '"' :: rest => some ([], rest)
  | '\\' :: 'u' :: a :: b :: c :: d :: '\\' :: 'u' :: a' :: b' :: c' :: d' :: rest => do
    let first ← unit? a b c d
    match charOfUnit? first with
    | some char =>
      let (chars, rest) ← stringChars? ('\\' :: 'u' :: a' :: b' :: c' :: d' :: rest)
      some (char :: chars, rest)
    | none =>
      let char ← charOfPair? first (← unit? a' b' c' d')
      let (chars, rest) ← stringChars? rest
      some (char :: chars, rest)
  | '\\' :: 'u' :: a :: b :: c :: d :: rest => do
    let char ← charOfUnit? (← unit? a b c d)
    let (chars, rest) ← stringChars? rest
    some (char :: chars, rest)
  | '\\' :: letter :: rest => do
    let char ← unescape? letter
    let (chars, rest) ← stringChars? rest
    some (char :: chars, rest)
  | char :: rest => do
    if char.toNat < 0x20 ∨ char = '\\' then none
    let (chars, rest) ← stringChars? rest
    some (char :: chars, rest)

/-- A string after its opening quote. -/
def string? (text : List Char) : Option (String × List Char) := do
  let (chars, rest) ← stringChars? text
  some (String.ofList chars, rest)

/-- One or more digits. -/
def digits? (text : List Char) : Option (List Char × List Char) :=
  let digits := text.takeWhile Numeral.isDigit
  if digits.isEmpty then none else some (digits, text.dropWhile Numeral.isDigit)

/-- The digits before the point: a zero alone or digits that start with another. -/
def wholePart? : List Char → Option (List Char × List Char)
  | '0' :: rest => some (['0'], rest)
  | text => digits? text

/-- The digits after the point, if there is one. -/
def fraction? : List Char → Option (Option (List Char) × List Char)
  | '.' :: rest => do
    let (digits, rest) ← digits? rest
    some (some digits, rest)
  | text => some (none, text)

/-- The power of ten after a sign. -/
def signedPower? : List Char → Option (Int × List Char)
  | '-' :: rest => (digits? rest).map fun (digits, rest) => (-(Numeral.value digits : Int), rest)
  | '+' :: rest => (digits? rest).map fun (digits, rest) => ((Numeral.value digits : Int), rest)
  | text => (digits? text).map fun (digits, rest) => ((Numeral.value digits : Int), rest)

/-- The power of ten, if there is one. -/
def power? : List Char → Option (Option Int × List Char)
  | letter :: rest =>
    if letter = 'e' ∨ letter = 'E' then (signedPower? rest).map fun (power, rest) => (some power, rest)
    else some (none, letter :: rest)
  | [] => some (none, [])

/-- A whole number that fits a word, with or without sign. Minus zero is left to the floating-point numbers. -/
def wholeNumber? (negative : Bool) (magnitude : Nat) : Option Json :=
  if negative then if 0 < magnitude ∧ magnitude ≤ Numeral.wordEnd then some (.int (-magnitude)) else none
  else if magnitude ≤ Numeral.maxIndex then some (.int magnitude) else none

/-- The floating-point number reached from a decimal, unless it is beyond all finite numbers. -/
def realNumber? (negative : Bool) (decimal : Scientific) : Option Json :=
  (Stepwise.float? negative decimal).map .float

/-- A number. Without point and power it is a whole number if it fits, else a floating-point number. -/
def number? (text : List Char) : Option (Json × List Char) := do
  let negative := text.head? == some '-'
  let (whole, rest) ← wholePart? (if negative then text.tail else text)
  let (fraction, rest) ← fraction? rest
  let (power, rest) ← power? rest
  let kept := Stepwise.keep whole (fraction.getD [])
  let real := realNumber? negative ⟨kept.digits, kept.exponent + power.getD 0⟩
  let number ←
    if fraction.isNone && power.isNone then (wholeNumber? negative (Numeral.value whole)).or real else real
  some (number, rest)

/-- A value that is no container. -/
def scalar? : List Char → Option (Json × List Char)
  | 'n' :: 'u' :: 'l' :: 'l' :: rest => some (.null, rest)
  | 't' :: 'r' :: 'u' :: 'e' :: rest => some (.bool true, rest)
  | 'f' :: 'a' :: 'l' :: 's' :: 'e' :: rest => some (.bool false, rest)
  | '"' :: rest => (string? rest).map fun (s, rest) => (.string s, rest)
  | text => number? text

/-- One or more items with commas between them, up to a closing character. No more items are read than `count`. -/
def series? {α : Type} (item? : List Char → Option (α × List Char)) (close : Char) :
    (count : Nat) → List Char → Option (List α × List Char)
  | 0, _ => none
  | count + 1, text => do
    let (item, rest) ← item? text
    match skipSpace rest with
    | [] => none
    | c :: rest =>
      if c = close then some ([item], rest)
      else if c = ',' then
        let (items, rest) ← series? item? close count rest
        some (item :: items, rest)
      else none

/-- No items or a series of them. Each item takes a character, so their number is bounded by the text. -/
def items? {α : Type} (item? : List Char → Option (α × List Char)) (close : Char) (text : List Char) :
    Option (List α × List Char) :=
  match skipSpace text with
  | [] => none
  | c :: rest => if c = close then some ([], rest) else series? item? close (rest.length + 1) (c :: rest)

/-- A member of an object. -/
def member? (value? : List Char → Option (Json × List Char)) (text : List Char) :
    Option ((String × Json) × List Char) :=
  match skipSpace text with
  | '"' :: rest => do
    let (name, rest) ← string? rest
    match skipSpace rest with
    | ':' :: rest =>
      let (value, rest) ← value? rest
      some ((name, value), rest)
    | _ => none
  | _ => none

/-- A value with containers nested up to a depth. -/
def value? : (depth : Nat) → List Char → Option (Json × List Char)
  | 0, text =>
    match skipSpace text with
    | '[' :: _ => none
    | '\x7b' :: _ => none
    | text => scalar? text
  | depth + 1, text =>
    match skipSpace text with
    | '[' :: rest => do
      let (items, rest) ← items? (value? depth) ']' rest
      some (.array items, rest)
    | '\x7b' :: rest => do
      let (members, rest) ← items? (member? (value? depth)) '\x7d' rest
      some (ofMembers members, rest)
    | text => scalar? text

/-- The value that a text holds, with nothing but blanks around it. -/
def parse? (depth : Nat) (text : String) : Option Json := do
  let (value, rest) ← value? depth text.toList
  if (skipSpace rest).isEmpty then some value else none

end Stencil.Json
