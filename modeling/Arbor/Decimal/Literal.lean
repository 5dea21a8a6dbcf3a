import Arbor.Decimal.Double

/-! # Decimal literals

An unsigned decimal literal has digits, a point with digits on at least one side of it, or both,
then optionally an exponent with a sign. `Literal.read?` takes exactly those texts apart. -/

namespace Arbor.Decimal

/-- The parts of a decimal literal: the digits before and after the point, and the exponent. -/
structure Literal where
  whole : List Char
  fraction : List Char
  exponent : Int

def digitsValue (cs : List Char) : Nat :=
  cs.foldl (fun value c => 10 * value + (c.toNat - '0'.toNat)) 0

/-- An exponent after its mark: an optional sign and at least one digit, up to the end. -/
def exponent? (cs : List Char) : Option Int :=
  let (negative, digits) := match cs with
    | '-' :: rest => (true, rest)
    | '+' :: rest => (false, rest)
    | _ => (false, cs)
  if digits.isEmpty || !digits.all Char.isDigit then none
  else some (if negative then -(digitsValue digits) else digitsValue digits)

/-- The whole text as an unsigned decimal literal. -/
def Literal.read? (cs : List Char) : Option Literal :=
  let whole := cs.takeWhile Char.isDigit
  let (fraction, tail) := match cs.dropWhile Char.isDigit with
    | '.' :: rest => (rest.takeWhile Char.isDigit, rest.dropWhile Char.isDigit)
    | rest => ([], rest)
  if whole.isEmpty && fraction.isEmpty then none
  else match tail with
    | [] => some ⟨whole, fraction, 0⟩
    | c :: rest =>
      if c == 'e' || c == 'E' then (exponent? rest).map fun power => ⟨whole, fraction, power⟩
      else none

def Literal.toFloat (literal : Literal) (negative : Bool) : Float :=
  ofDecimal negative (digitsValue (literal.whole ++ literal.fraction))
    (literal.exponent - literal.fraction.length)

end Arbor.Decimal
