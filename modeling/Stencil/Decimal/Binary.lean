/-! What the bits of a floating-point number say: a number that is none, an infinity, or a sign and a magnitude
    `mantissa * 2 ^ exponent`. -/

namespace Stencil.Decimal

/-- A finite magnitude, `mantissa * 2 ^ exponent`. -/
structure Binary where
  mantissa : Nat
  exponent : Int
  /-- The neighbour below is half as far away as the neighbour above. -/
  narrowBelow : Bool
deriving Repr, DecidableEq

/-- A floating-point number by its bits. -/
inductive FloatView where
  | nan
  | infinite (negative : Bool)
  | finite (negative : Bool) (magnitude : Binary)
deriving Repr, DecidableEq

/-- The magnitude for a biased exponent below 2047 and a fraction. -/
def Binary.ofFields (biased fraction : Nat) : Binary :=
  if biased = 0 then ⟨fraction, -1074, false⟩
  else ⟨Nat.pow 2 52 + fraction, (biased : Int) - 1075, fraction = 0 && 1 < biased⟩

/-- Reads the three fields of the bits. -/
def FloatView.ofBits (bits : UInt64) : FloatView :=
  let negative := Nat.pow 2 63 ≤ bits.toNat
  let biased := bits.toNat / Nat.pow 2 52 % Nat.pow 2 11
  let fraction := bits.toNat % Nat.pow 2 52
  if biased < 2047 then .finite negative (.ofFields biased fraction)
  else if fraction = 0 then .infinite negative
  else .nan

/-- The view of a number. -/
def FloatView.ofFloat (x : Float) : FloatView :=
  ofBits x.toBits

/-- The magnitude as a whole number, if it is one. -/
def Binary.toNat? (x : Binary) : Option Nat :=
  if 0 ≤ x.exponent then some (x.mantissa * Nat.pow 2 x.exponent.toNat)
  else
    let unit := Nat.pow 2 (-x.exponent).toNat
    if x.mantissa % unit = 0 then some (x.mantissa / unit) else none

/-- Whether a number is none at all. -/
def isNaN (x : Float) : Bool :=
  FloatView.ofFloat x == .nan

end Stencil.Decimal
