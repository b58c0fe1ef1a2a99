import Stencil.Decimal.Binary

/-! The shortest decimal that reads back to a given magnitude. The numbers that round to the magnitude form an interval
    around it, with both ends exactly when the mantissa is even. On the grid of the multiples of a power of ten only the
    two neighbours of the magnitude need a test, and the coarsest grid with a hit has the fewest digits. -/

namespace Stencil.Decimal

/-- The number `digits * 10 ^ exponent`. -/
structure Scientific where
  digits : Nat
  exponent : Int
deriving Repr, DecidableEq

/-- Which of two neighbours is taken when both are equally near. -/
inductive Tie where
  | up
  | toEven
deriving Repr, DecidableEq

namespace Binary

/-- A quarter of the last place of the mantissa in units of `10 ^ grid`, as numerator and denominator. -/
def quarter (x : Binary) (grid : Int) : Nat × Nat :=
  (Nat.pow 2 (x.exponent - 2).toNat * Nat.pow 10 (-grid).toNat, Nat.pow 2 (2 - x.exponent).toNat * Nat.pow 10 grid.toNat)

/-- Whether `candidate * 10 ^ grid` reads back to the magnitude. -/
def readsBack (x : Binary) (grid : Int) (candidate : Nat) : Bool :=
  let (numer, denom) := x.quarter grid
  let low := (4 * x.mantissa - if x.narrowBelow then 1 else 2) * numer
  let high := (4 * x.mantissa + 2) * numer
  let point := candidate * denom
  if x.mantissa % 2 = 0 then low ≤ point && point ≤ high else low < point && point < high

/-- The multiple of `10 ^ grid` that reads back and is nearest to the magnitude, if any. -/
def onGrid? (x : Binary) (tie : Tie) (grid : Int) : Option Nat :=
  let (numer, denom) := x.quarter grid
  let exact := 4 * x.mantissa * numer
  let below := exact / denom
  match x.readsBack grid below, x.readsBack grid (below + 1) with
  | false, false => none
  | true, false => some below
  | false, true => some (below + 1)
  | true, true =>
    match compare (2 * exact) ((2 * below + 1) * denom) with
    | .lt => some below
    | .gt => some (below + 1)
    | .eq =>
      match tie with
      | .up => some (below + 1)
      | .toEven => some (if below % 2 = 0 then below else below + 1)

/-- A power of ten that the magnitude does not reach. -/
def coarsest (x : Binary) : Int :=
  ((x.mantissa.log2 : Int) + 1 + x.exponent) * 30103 / 100000 + 1

/-- The magnitude itself, written without a power of two. -/
def unrounded (x : Binary) : Scientific :=
  if 0 ≤ x.exponent then ⟨x.mantissa * Nat.pow 2 x.exponent.toNat, 0⟩
  else ⟨x.mantissa * Nat.pow 5 (-x.exponent).toNat, x.exponent⟩

/-- The decimal with the fewest digits that reads back, and of those the nearest. Seventeen digits suffice, so the
    twenty grids below the magnitude hold one; the exact value stands in otherwise. -/
def shortest (x : Binary) (tie : Tie) : Scientific :=
  let hit := (List.range 20).findSome? fun step =>
    let grid := x.coarsest - (step : Nat)
    (x.onGrid? tie grid).map fun digits => (⟨digits, grid⟩ : Scientific)
  hit.getD x.unrounded

end Binary
end Stencil.Decimal
