import Stencil.Decimal.Shortest

/-! How a chosen decimal is written: with the point in its place, or as one digit, a fraction and a power of ten. -/

namespace Stencil.Decimal

/-- The decisions of a number format. -/
structure Layout where
  /-- Whether a number whose leading digit stands for this power of ten has the point in its place. -/
  isPlain : Int → Bool
  /-- Whole numbers with the point in its place end in `.0`. -/
  wholePoint : Bool
  /-- Powers of ten above zero carry a plus sign. -/
  plusSign : Bool
  /-- The choice between two shortest decimals that are equally near. -/
  tie : Tie

namespace Layout

/-- Digits with the point in its place. -/
def plain (l : Layout) (digits : List Char) (exponent : Int) : List Char :=
  if 0 ≤ exponent then
    digits ++ List.replicate exponent.toNat '0' ++ (if l.wholePoint then ['.', '0'] else [])
  else
    let places := (-exponent).toNat
    if places < digits.length then
      digits.take (digits.length - places) ++ '.' :: digits.drop (digits.length - places)
    else
      '0' :: '.' :: List.replicate (places - digits.length) '0' ++ digits

/-- The first digit, the others as its fraction, and the power of ten of the first. -/
def powered (l : Layout) (digits : List Char) (leading : Int) : List Char :=
  let fraction := if digits.length ≤ 1 then [] else '.' :: digits.drop 1
  let sign := if leading < 0 then ['-'] else if l.plusSign then ['+'] else []
  digits.take 1 ++ fraction ++ 'e' :: sign ++ Nat.toDigits 10 leading.natAbs

/-- A decimal that is not zero. -/
def ofScientific (l : Layout) (d : Scientific) : List Char :=
  let digits := Nat.toDigits 10 d.digits
  let leading := d.exponent + digits.length - 1
  if l.isPlain leading then l.plain digits d.exponent else l.powered digits leading

/-- A finite number: its sign and the shortest decimal that reads back. -/
def ofFinite (l : Layout) (negative : Bool) (x : Binary) : String :=
  let magnitude :=
    if x.mantissa = 0 then (if l.wholePoint then ['0', '.', '0'] else ['0'])
    else l.ofScientific (x.shortest l.tie)
  String.ofList (if negative then '-' :: magnitude else magnitude)

end Layout
end Stencil.Decimal
