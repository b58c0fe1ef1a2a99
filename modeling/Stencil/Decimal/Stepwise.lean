import Stencil.Decimal.Numeral
import Stencil.Decimal.Shortest

/-! Numbers reached from a decimal step by step: as many digits as sixty-four bits hold are rounded first, and each
    product or quotient with a power of ten is rounded on its own. Where more than one step rounds, the number may be
    another than the nearest one. -/

namespace Stencil.Decimal.Stepwise

/-- The first number that sixty-four bits do not hold. -/
def limit : Nat := Nat.pow 2 64

/-- Appends digits to a number as long as it stays below the limit, and gives the digits that are left. -/
def append (n : Nat) : List Char → Nat × List Char
  | [] => (n, [])
  | digit :: rest =>
    let next := 10 * n + Numeral.digitValue digit
    if next < limit then append next rest else (n, digit :: rest)

/-- What is kept of the digits before and after a point. Those left of the whole part count as zeros, and those left of
    the fraction are dropped. -/
def keep (whole fraction : List Char) : Scientific :=
  let (n, zeros) := append 0 whole
  let (n, dropped) := append n fraction
  ⟨n, (zeros.length + dropped.length : Nat) - (fraction.length : Nat)⟩

/-- The greatest power of ten below the greatest finite number. -/
def greatestPower : Nat := 308

/-- The number nearest to a power of ten. -/
def powerOfTen (power : Nat) : Float :=
  Numeral.nearest false 1 power

/-- Multiplies by a power of ten, unless the product is beyond all finite numbers. -/
def scaleUp? (x : Float) (power : Nat) : Option Float :=
  if power ≤ greatestPower then
    let product := x * powerOfTen power
    if product.isInf then none else some product
  else if x == 0.0 then some x
  else none

/-- Divides by a power of ten, as many places at a time as the greatest power has. -/
def scaleDown (x : Float) (power : Nat) : Float :=
  if power ≤ greatestPower then x / powerOfTen power
  else if x == 0.0 then x
  else scaleDown (x / powerOfTen greatestPower) (power - greatestPower)
termination_by power
decreasing_by simp only [greatestPower] at *; omega

/-- The number reached from a decimal, unless it is beyond all finite numbers. -/
def float? (negative : Bool) (d : Scientific) : Option Float := do
  let start := Numeral.nearest false d.digits 0
  let magnitude ←
    if 0 ≤ d.exponent then scaleUp? start d.exponent.toNat else some (scaleDown start (-d.exponent).toNat)
  some (if negative then -magnitude else magnitude)

end Stencil.Decimal.Stepwise
