/-! # Doubles as exact binary numbers

A finite double is a sign, a whole mantissa and a power of two. Reading a double this way, and
finding the double nearest to a ratio of whole numbers, are done in exact whole-number arithmetic
on the bit pattern. -/

namespace Arbor.Decimal

abbrev twoTo (exponent : Nat) : Nat := Nat.pow 2 exponent

abbrev tenTo (exponent : Nat) : Nat := Nat.pow 10 exponent

/-- What a double stands for. -/
inductive Double where
  /-- Not a number. -/
  | nan
  /-- One of the two infinities. -/
  | infinite (negative : Bool)
  /-- `mantissa * 2 ^ exponent`, with the sign kept apart so that both zeros are told apart. -/
  | finite (negative : Bool) (mantissa : Nat) (exponent : Int)
  deriving DecidableEq

def minExponent : Int := -1074

def maxExponent : Int := 971

/-- The parts of a double, read off its bits. -/
def Double.ofFloat (x : Float) : Double :=
  let bits := x.toBits.toNat
  let negative := bits / twoTo 63 == 1
  let biased : Nat := bits / twoTo 52 % twoTo 11
  let fraction : Nat := bits % twoTo 52
  if biased == twoTo 11 - 1 then
    if fraction == 0 then .infinite negative else .nan
  else if biased == 0 then .finite negative fraction minExponent
  else .finite negative (twoTo 52 + fraction) (minExponent + biased - 1)

/-- The double with the given mantissa, below `2 ^ 53`, and exponent; an infinity when the exponent
is out of range. A mantissa below `2 ^ 52` goes with the smallest exponent only. -/
def assemble (negative : Bool) (mantissa : Nat) (exponent : Int) : Float :=
  let sign := if negative then twoTo 63 else 0
  let magnitude :=
    if exponent > maxExponent then (twoTo 11 - 1) * twoTo 52
    else if mantissa < twoTo 52 then mantissa
    else (exponent - minExponent + 1).toNat * twoTo 52 + (mantissa - twoTo 52)
  Float.ofBits (UInt64.ofNat (sign + magnitude))

/-- `num / (den * 2 ^ exponent)` as a quotient and remainder of whole numbers, with the divisor. -/
def scaledDivide (num den : Nat) (exponent : Int) : Nat × Nat × Nat :=
  let num := num * twoTo (-exponent).toNat
  let den := den * twoTo exponent.toNat
  (num / den, num % den, den)

/-- The double nearest to `num / den`, a half going to the even neighbour. -/
def nearest (negative : Bool) (num den : Nat) : Float :=
  if num == 0 then assemble negative 0 minExponent
  else
    -- The quotient by `2 ^ guess` has 52 or 53 bits; with 52 the next lower exponent gives 53.
    let guess : Int := (num.log2 : Int) - den.log2 - 52
    let guess := if (scaledDivide num den guess).1 < twoTo 52 then guess - 1 else guess
    let exponent := max guess minExponent
    let (quotient, remainder, divisor) := scaledDivide num den exponent
    let up := 2 * remainder > divisor || (2 * remainder == divisor && quotient % 2 == 1)
    let mantissa := if up then quotient + 1 else quotient
    if mantissa == twoTo 53 then assemble negative (twoTo 52) (exponent + 1)
    else assemble negative mantissa exponent

def ofInt (n : Int) : Float := nearest (n < 0) n.natAbs 1

/-- The double nearest to `digits * 10 ^ exponent`. Powers of ten far outside the range of doubles
are decided from the number of digits alone. -/
def ofDecimal (negative : Bool) (digits : Nat) (exponent : Int) : Float :=
  let magnitude : Int := (Nat.toDigits 10 digits).length + exponent
  if digits == 0 || magnitude < -400 then assemble negative 0 minExponent
  else if magnitude > 400 then assemble negative 0 (maxExponent + 1)
  else nearest negative (digits * tenTo exponent.toNat) (tenTo (-exponent).toNat)

/-- The bound under which every whole number is a double. -/
def safeBound : Nat := twoTo 53

/-- The whole number a double stands for, when it is one and lies strictly within `safeBound`. -/
def safeInt? (x : Float) : Option Int :=
  match Double.ofFloat x with
  | .finite negative mantissa exponent =>
    let scale := twoTo (-exponent).toNat
    let magnitude := mantissa * twoTo exponent.toNat / scale
    if mantissa % scale == 0 && magnitude < safeBound then
      some (if negative then -magnitude else magnitude)
    else none
  | _ => none

end Arbor.Decimal
