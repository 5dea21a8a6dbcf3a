import Arbor.Decimal.Double

/-! # The shortest decimal that reads back

Of the decimals that round to a given double, the one with the fewest digits, and among those the
nearest. The decimals that round to `mantissa * 2 ^ exponent` form an interval around it whose ends
belong to it when the mantissa is even. For each number of digits only the two neighbours of the
value on that decimal grid have to be tried. -/

namespace Arbor.Decimal

/-- Which of two equally near decimals is taken. -/
inductive Tie where
  | up
  | toEven

/-- `digits * 10 ^ exponent`. -/
structure Scaled where
  digits : Nat
  exponent : Int
  deriving DecidableEq

/-- The interval of numbers that round to a double, as numerators over one denominator. -/
structure Interval where
  low : Nat
  value : Nat
  high : Nat
  denominator : Nat
  /-- The ends round to the double too. -/
  closed : Bool

/-- The rounding interval of `mantissa * 2 ^ exponent`. Below a power of two the doubles lie twice
as close, unless they are already as close as they get. -/
def Interval.around (mantissa : Nat) (exponent : Int) : Interval :=
  let below := if mantissa == twoTo 52 && exponent > minExponent then 1 else 2
  let scale := twoTo exponent.toNat
  { low := (4 * mantissa - below) * scale
    value := 4 * mantissa * scale
    high := (4 * mantissa + 2) * scale
    denominator := 4 * twoTo (-exponent).toNat
    closed := mantissa % 2 == 0 }

/-- The fraction `num / den` lies in the interval. -/
def Interval.contains (interval : Interval) (num den : Nat) : Bool :=
  let point := num * interval.denominator
  if interval.closed then interval.low * den ≤ point && point ≤ interval.high * den
  else interval.low * den < point && point < interval.high * den

/-- The decimal in the interval on the grid of multiples of `10 ^ exponent`, if there is one. -/
def Interval.onGrid? (interval : Interval) (tie : Tie) (exponent : Int) : Option Scaled :=
  let up := tenTo exponent.toNat
  let down := tenTo (-exponent).toNat
  let step := up * interval.denominator
  let floor := interval.value * down / step
  let rest := interval.value * down % step
  let lower := interval.contains (floor * up) down
  let upper := interval.contains ((floor + 1) * up) down
  let preferUpper :=
    2 * rest > step ||
      (2 * rest == step && match tie with
        | .up => true
        | .toEven => floor % 2 == 1)
  if upper && (preferUpper || !lower) then some ⟨floor + 1, exponent⟩
  else if lower then some ⟨floor, exponent⟩
  else none

/-- The grids from `exponent` downwards, tried in order. -/
def Interval.search (interval : Interval) (tie : Tie) : Nat → Int → Scaled
  | 0, exponent => ⟨interval.value * tenTo (-exponent).toNat / interval.denominator, exponent⟩
  | fuel + 1, exponent =>
    match interval.onGrid? tie exponent with
    | some decimal => decimal
    | none => interval.search tie fuel (exponent - 1)

/-- The decimal without zeros at its end. -/
def Scaled.strip (decimal : Scaled) : Nat → Scaled
  | 0 => decimal
  | fuel + 1 =>
    if decimal.digits != 0 && decimal.digits % 10 == 0 then
      Scaled.strip ⟨decimal.digits / 10, decimal.exponent + 1⟩ fuel
    else decimal

/-- The shortest decimal that rounds to `mantissa * 2 ^ exponent`. Eighteen digits always suffice. -/
def shortest (tie : Tie) (mantissa : Nat) (exponent : Int) : Scaled :=
  if mantissa == 0 then ⟨0, 0⟩
  else
    let interval := Interval.around mantissa exponent
    let whole := interval.value / interval.denominator
    -- A power of ten not below the value.
    let top : Int :=
      if whole == 0 then 1 - (Nat.toDigits 10 (interval.denominator / interval.value)).length
      else (Nat.toDigits 10 whole).length
    (interval.search tie 20 top).strip 20

end Arbor.Decimal
