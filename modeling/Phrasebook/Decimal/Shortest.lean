import Phrasebook.Decimal.Binary

/-! # Fewest decimal digits that read back

Among the decimal numbers that round to a given floating-point number, the text uses one with the fewest
digits, of those the nearest, and of two equally near ones the one whose last digit is even. For each count
of digits only the two neighbours of the value on that decimal grid can qualify, so the search looks at
those.
-/

namespace Phrasebook.Decimal

structure Scaled where
  digits : Nat
  exponent : Int
deriving Repr, DecidableEq

namespace Interval

/-- Multiplies the three points by ten to the power `-place`, so that the grid becomes the integers. -/
def shift (i : Interval) (place : Int) : Interval :=
  let up := Nat.pow 10 (-place).toNat
  { i with
    low := i.low * up
    value := i.value * up
    high := i.high * up
    denominator := i.denominator * Nat.pow 10 place.toNat }

def admits (i : Interval) (n : Nat) : Bool :=
  let point := n * i.denominator
  if i.closed then i.low ≤ point && point ≤ i.high else i.low < point && point < i.high

/-- The nearest integer in the interval, if there is one; a tie goes to the even integer. -/
def nearest? (i : Interval) : Option Nat :=
  let below := i.value / i.denominator
  let above := below + 1
  let lower := i.value - below * i.denominator
  let upper := above * i.denominator - i.value
  match i.admits below, i.admits above with
  | true, true =>
    if lower < upper then some below
    else if upper < lower then some above
    else some (if below % 2 = 0 then below else above)
  | true, false => some below
  | false, true => some above
  | false, false => none

/-- The exponent of the leading decimal digit, counted down from a start above it. -/
def leadingPlace (i : Interval) : Nat → Int → Int
  | 0, place => place
  | fuel + 1, place =>
    let s := i.shift place
    if s.denominator ≤ s.value then place else leadingPlace i fuel (place - 1)

/-- The first grid with a point in the interval, from coarse to fine. -/
def search (i : Interval) : Nat → Int → Option Scaled
  | 0, _ => none
  | fuel + 1, place =>
    match (i.shift place).nearest? with
    | some digits => some ⟨digits, place⟩
    | none => search i fuel (place - 1)

end Interval

def Scaled.trim : Nat → Scaled → Scaled
  | 0, s => s
  | fuel + 1, s =>
    if s.digits ≠ 0 && s.digits % 10 = 0 then trim fuel ⟨s.digits / 10, s.exponent + 1⟩ else s

/-- The shortest decimal number that rounds to a positive magnitude. Seventeen digits always suffice. -/
def shortest (x : Binary) : Scaled :=
  let i := x.interval
  let start : Int := ((Nat.log2 x.mantissa : Int) + x.exponent) * 30103 / 100000 + 2
  let lead := i.leadingPlace 8 start
  ((i.search 18 lead).getD ⟨0, 0⟩).trim 20

end Phrasebook.Decimal
