import Phrasebook.Json.Basic

/-! # Numerals

A numeral is the written form of a number: digits, an optional fraction and an optional power of ten. Its
value is an integer when it has neither of the two and fits 64 bits. Otherwise it is a floating-point number:
as many digits as fit 64 bits are gathered into one integer, which is converted and then multiplied or
divided by one power of ten. The digits that no longer fit count as zeros before the point and are dropped
after it.
-/

namespace Phrasebook.Json

structure PowerOfTen where
  negative : Bool
  digits : List Nat
deriving Repr, DecidableEq

/-- The written form of a number; the lists hold the digits. -/
structure Numeral where
  negative : Bool
  whole : List Nat
  fraction : Option (List Nat)
  power : Option PowerOfTen
deriving Repr, DecidableEq

namespace Numeral

def ofDigits (digits : List Nat) : Nat :=
  digits.foldl (fun n d => 10 * n + d) 0

/-- Numbers below this one fit 64 bits. -/
def wordLimit : Nat := Nat.pow 2 64

/-- The integer gathered so far, and the power of ten that it still has to be multiplied by. -/
structure Gathered where
  significand : Nat
  exponent : Int
  full : Bool

/-- Takes one more digit before the point; once one did not fit, all later ones count as zeros. -/
def Gathered.whole (g : Gathered) (digit : Nat) : Gathered :=
  if !g.full && g.significand * 10 + digit < wordLimit then
    { g with significand := g.significand * 10 + digit }
  else
    { g with exponent := g.exponent + 1, full := true }

/-- Takes one more digit after the point; once one did not fit, it and all later ones are dropped. -/
def Gathered.fraction (g : Gathered) (digit : Nat) : Gathered :=
  if !g.full && g.significand * 10 + digit < wordLimit then
    { g with significand := g.significand * 10 + digit, exponent := g.exponent - 1 }
  else
    { g with full := true }

def gather (n : Numeral) : Gathered :=
  let whole := n.whole.foldl Gathered.whole ⟨0, 0, false⟩
  (n.fraction.getD []).foldl Gathered.fraction { whole with full := false }

def pow10 (n : Nat) : Float := Float.ofScientific 1 false n

/-- Divides by ten to the power `-exponent`, in steps of 308 where that is too much for one division. A
64-bit integer is zero after two such steps. -/
def descend : Nat → Float → Int → Float
  | 0, value, _ => value
  | steps + 1, value, exponent =>
    if -308 ≤ exponent then value / pow10 (-exponent).toNat
    else if value == 0 then value
    else descend steps (value / pow10 308) (exponent + 308)

/-- Multiplies by a power of ten, unless the result is too large. -/
def scale? (value : Float) (exponent : Int) : Option Float :=
  if exponent < 0 then some (descend 4 value exponent)
  else if 308 < exponent then (if value == 0 then some value else none)
  else
    let scaled := value * pow10 exponent.toNat
    if scaled.isInf then none else some scaled

/-- The floating-point magnitude of a numeral, unless it is too large. A power beyond 31 bits gives zero
where it is negative or there is nothing to multiply. -/
def magnitude? (n : Numeral) : Option Float :=
  let g := n.gather
  let value := (UInt64.ofNat g.significand).toFloat
  match n.power with
  | none => scale? value g.exponent
  | some power =>
    let size := ofDigits power.digits
    if size < Nat.pow 2 31 then
      scale? value (if power.negative then g.exponent - size else g.exponent + size)
    else if power.negative || g.significand = 0 then some 0
    else none

/-- The integer that a numeral without fraction and power denotes, if it fits 64 bits; a negative zero is
no integer. -/
def int? (n : Numeral) : Option Int :=
  let value := ofDigits n.whole
  if n.fraction.isSome || n.power.isSome then none
  else if n.negative then
    if 0 < value && value ≤ wordLimit / 2 then some (-(value : Int)) else none
  else if value < wordLimit then some value
  else none

def value? (n : Numeral) : Option Number :=
  match n.int? with
  | some value => some (.int value)
  | none => n.magnitude?.map fun f => .float (if n.negative then -f else f)

end Numeral

end Phrasebook.Json
