/-! # Ranges of code points

A character class given by a standard is a list of closed ranges of code points; membership is membership
in one of them.
-/

namespace Phrasebook.Text

/-- The code points from `low` to `high`, both included. -/
structure CodeRange where
  low : Nat
  high : Nat
deriving Repr, DecidableEq

namespace CodeRange

def contains (range : CodeRange) (c : Char) : Bool :=
  range.low ≤ c.toNat && c.toNat ≤ range.high

def cover (ranges : List CodeRange) (c : Char) : Bool :=
  ranges.any (·.contains c)

theorem cover_eq_true_iff {ranges : List CodeRange} {c : Char} :
    cover ranges c = true ↔ ∃ r ∈ ranges, r.low ≤ c.toNat ∧ c.toNat ≤ r.high := by
  simp [cover, contains]

end CodeRange

end Phrasebook.Text
