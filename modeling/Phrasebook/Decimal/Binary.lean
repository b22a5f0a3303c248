/-! # Exact value of a binary floating-point number

A finite 64-bit floating-point number is `mantissa * 2 ^ exponent` with a mantissa of at most 53 bits. The
numbers that round to it form an interval that reaches half way to its two neighbours; the ends belong to
it exactly when the mantissa is even.
-/

namespace Phrasebook.Decimal

/-- The magnitude `mantissa * 2 ^ exponent` of a finite floating-point number. -/
structure Binary where
  mantissa : Nat
  exponent : Int
deriving Repr, DecidableEq

namespace Binary

/-- The least mantissa of a number that uses all 53 bits. -/
def leastFull : Nat := Nat.pow 2 52

/-- Reads the magnitude, without the sign, from the 64 bits of a finite number. -/
def ofBits (bits : UInt64) : Binary :=
  let fraction : Nat := bits.toNat % leastFull
  let field : Nat := bits.toNat / leastFull % 2048
  if field = 0 then ⟨fraction, -1074⟩ else ⟨leastFull + fraction, (field : Int) - 1075⟩

/-- Whether the neighbour below is only half as far away as the one above: the mantissa is the least one of
its exponent, and a smaller exponent exists. -/
def narrowBelow (x : Binary) : Bool :=
  x.mantissa = leastFull && x.exponent ≠ -1074

end Binary

/-- A magnitude and the ends of its rounding interval over one denominator. -/
structure Interval where
  low : Nat
  value : Nat
  high : Nat
  denominator : Nat
  closed : Bool

/-- The rounding interval of a magnitude, in quarters of its last place. -/
def Binary.interval (x : Binary) : Interval :=
  let scale := Nat.pow 2 x.exponent.toNat
  { low := (4 * x.mantissa - if x.narrowBelow then 1 else 2) * scale
    value := 4 * x.mantissa * scale
    high := (4 * x.mantissa + 2) * scale
    denominator := 4 * Nat.pow 2 (-x.exponent).toNat
    closed := x.mantissa % 2 = 0 }

end Phrasebook.Decimal
