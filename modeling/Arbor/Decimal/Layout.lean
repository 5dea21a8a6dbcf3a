import Arbor.Decimal.Shortest

/-! # Layouts of decimals

How the digits of a decimal are set: positionally, with zeros filling the distance to the point,
or scientifically, with a point after the first digit and a signed exponent. -/

namespace Arbor.Decimal

/-- The exponent of the first digit. -/
def Scaled.magnitude (decimal : Scaled) : Int :=
  decimal.exponent + (Nat.toDigits 10 decimal.digits).length - 1

/-- All digits around the point; no point when the number is whole. -/
def Scaled.positional (decimal : Scaled) : List Char :=
  let digits := Nat.toDigits 10 decimal.digits
  if 0 ≤ decimal.exponent then digits ++ List.replicate decimal.exponent.toNat '0'
  else
    let places := (-decimal.exponent).toNat
    let padded := List.replicate (places + 1 - digits.length) '0' ++ digits
    padded.take (padded.length - places) ++ '.' :: padded.drop (padded.length - places)

/-- One digit, the others after a point, and the exponent with its sign. -/
def Scaled.scientific (decimal : Scaled) : List Char :=
  let sign := if decimal.magnitude < 0 then '-' else '+'
  let power := 'e' :: sign :: Nat.toDigits 10 decimal.magnitude.natAbs
  match Nat.toDigits 10 decimal.digits with
  | first :: second :: rest => first :: '.' :: second :: rest ++ power
  | digits => digits ++ power

def signed (negative : Bool) (cs : List Char) : String :=
  String.ofList (if negative then '-' :: cs else cs)

end Arbor.Decimal
