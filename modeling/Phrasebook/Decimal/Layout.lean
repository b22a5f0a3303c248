import Phrasebook.Decimal.Shortest

/-! # Layout of a floating-point number

How the shortest digits are set: which exponents are written positionally, and how the others are.
-/

namespace Phrasebook.Decimal

/-- Choices of a number format. Exponents from `positionalFrom` to `positionalTo` are written without an
exponent part. -/
structure Layout where
  positionalFrom : Int
  positionalTo : Int
  exponentMark : String

/-- The layout of data documents: positional from 10⁻⁵ up to 10¹⁵, with a point in any case, otherwise
`e` and a signed exponent. -/
def Layout.document : Layout := ⟨-5, 15, "e"⟩

def digitString (n : Nat) : List Char := Nat.toDigits 10 n

/-- The digits with the point placed `point` digits from the left, padded with zeros where needed. -/
def positional (digits : List Char) (point : Int) : List Char :=
  if point ≤ 0 then
    '0' :: '.' :: (List.replicate (-point).toNat '0' ++ digits)
  else
    let whole := digits.take point.toNat ++ List.replicate (point.toNat - digits.length) '0'
    match digits.drop point.toNat with
    | [] => whole ++ ['.', '0']
    | fraction => whole ++ '.' :: fraction

/-- The digits in scientific form: one digit before the point, no point for a single digit. -/
def scientific (mark : String) (digits : List Char) (exponent : Int) : List Char :=
  let sign := if exponent < 0 then '-' else '+'
  let tail := mark.toList ++ sign :: digitString exponent.natAbs
  match digits with
  | [] => tail
  | [d] => d :: tail
  | d :: rest => d :: '.' :: (rest ++ tail)

def Layout.render (layout : Layout) (value : Float) : String :=
  let bits := value.toBits
  let magnitude := Binary.ofBits bits
  let sign := if bits.toNat / Nat.pow 2 63 = 1 then ['-'] else []
  let body :=
    if magnitude.mantissa = 0 then ['0', '.', '0']
    else
      let s := shortest magnitude
      let digits := digitString s.digits
      let exponent : Int := s.exponent + digits.length - 1
      if layout.positionalFrom ≤ exponent && exponent ≤ layout.positionalTo then
        positional digits (exponent + 1)
      else
        scientific layout.exponentMark digits exponent
  String.ofList (sign ++ body)

end Phrasebook.Decimal
