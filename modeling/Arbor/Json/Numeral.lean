import Arbor.Json.Basic

/-! # JSON numerals

A numeral is read in one pass over its digits. They are gathered into a significand of 64 bits;
digits that no longer fit only count towards the exponent. A numeral without point and exponent is
a whole number when it fits 64 bits with its sign. Any other is the significand scaled by a power
of ten, each step rounded to a double; a scaled number too large for a double is refused. -/

namespace Arbor.Json.Numeral

def significandBound : Nat := Decimal.twoTo 64

def digitValue (c : Char) : Nat := c.toNat - '0'.toNat

/-- Digits gathered as long as they fit: the significand, how many were taken, and the rest. -/
def gather (significand taken : Nat) : List Char → Nat × Nat × List Char
  | [] => (significand, taken, [])
  | c :: rest =>
    if c.isDigit && significand * 10 + digitValue c < significandBound then
      gather (significand * 10 + digitValue c) (taken + 1) rest
    else (significand, taken, c :: rest)

def powerOfTen (n : Nat) : Float := Decimal.nearest false (Decimal.tenTo n) 1

/-- Divide by `10 ^ 308` until the exponent is in the range of doubles or nothing is left. -/
def scaleDown : Nat → Float → Nat → Float
  | 0, x, _ => x
  | fuel + 1, x, n =>
    if n ≤ 308 then x / powerOfTen n
    else if x == 0.0 then x
    else scaleDown fuel (x / powerOfTen 308) (n - 308)

/-- The significand times a power of ten; `none` when it is too large. -/
def scale? (significand : Nat) (exponent : Int) : Option Float :=
  let x := Decimal.ofInt significand
  if exponent < 0 then some (scaleDown 8 x exponent.natAbs)
  else if significand == 0 then some x
  else if exponent > 308 then none
  else
    let y := x * powerOfTen exponent.natAbs
    match Decimal.Double.ofFloat y with
    | .infinite _ => none
    | _ => some y

/-- The exponents that can be written; larger ones stand for zero or are refused. -/
def exponentBound : Nat := Decimal.twoTo 31

def withSign (negative : Bool) (x : Float) : Float := if negative then -x else x

/-- The part of a numeral after the mark of the exponent. `exponent` is that of the digits read. -/
def exponentPart? (negative : Bool) (significand : Nat) (exponent : Int) (cs : List Char) :
    Option (Number × List Char) :=
  let (below, digits) := match cs with
    | '+' :: rest => (false, rest)
    | '-' :: rest => (true, rest)
    | _ => (false, cs)
  let power := (digits.takeWhile Char.isDigit).foldl (fun n c => n * 10 + digitValue c) 0
  let rest := digits.dropWhile Char.isDigit
  if (digits.takeWhile Char.isDigit).isEmpty then none
  else if power ≥ exponentBound then
    if significand != 0 && !below then none
    else some (.double (withSign negative 0.0), rest)
  else
    let exponent := if below then exponent - power else exponent + power
    (scale? significand exponent).map fun x => (.double (withSign negative x), rest)

/-- The end of a numeral after its digits: an exponent, or nothing more. -/
def tail? (negative : Bool) (significand : Nat) (exponent : Int) (cs : List Char) :
    Option (Number × List Char) :=
  match cs with
  | 'e' :: rest => exponentPart? negative significand exponent rest
  | 'E' :: rest => exponentPart? negative significand exponent rest
  | rest => (scale? significand exponent).map fun x => (.double (withSign negative x), rest)

/-- The part of a numeral after its point, which has at least one digit. -/
def fractionPart? (negative : Bool) (significand : Nat) (exponent : Int) (cs : List Char) :
    Option (Number × List Char) :=
  let (significand, taken, rest) := gather significand 0 cs
  if (cs.takeWhile Char.isDigit).isEmpty then none
  else tail? negative significand (exponent - taken) (rest.dropWhile Char.isDigit)

/-- A numeral whose digits fit the significand: a whole number, unless it goes on, is a negative
zero, or is negative beyond 63 bits. -/
def shortNumeral? (negative : Bool) (significand : Nat) (cs : List Char) :
    Option (Number × List Char) :=
  match cs with
  | '.' :: rest => fractionPart? negative significand 0 rest
  | 'e' :: rest => exponentPart? negative significand 0 rest
  | 'E' :: rest => exponentPart? negative significand 0 rest
  | rest =>
    if !negative then some (.int significand, rest)
    else if significand == 0 || significand > Decimal.twoTo 63 then
      some (.double (-(Decimal.ofInt significand)), rest)
    else some (.int (-significand), rest)

/-- A numeral with digits beyond the significand. -/
def longNumeral? (negative : Bool) (significand : Nat) (cs : List Char) :
    Option (Number × List Char) :=
  let exponent := (cs.takeWhile Char.isDigit).length
  match cs.dropWhile Char.isDigit with
  | '.' :: rest => fractionPart? negative significand exponent rest
  | rest => tail? negative significand exponent rest

/-- An unsigned numeral at the head of the text. It starts with a digit, and a zero at its start
stands alone. -/
def unsigned? (negative : Bool) : List Char → Option (Number × List Char)
  | [] => none
  | '0' :: rest =>
    if (rest.takeWhile Char.isDigit).isEmpty then shortNumeral? negative 0 rest else none
  | c :: rest =>
    if !c.isDigit then none
    else match gather (digitValue c) 0 rest with
      | (significand, _, d :: rest) =>
        if d.isDigit then longNumeral? negative significand (d :: rest)
        else shortNumeral? negative significand (d :: rest)
      | (significand, _, []) => shortNumeral? negative significand []

def read? : List Char → Option (Number × List Char)
  | '-' :: rest => unsigned? true rest
  | cs => unsigned? false cs

end Arbor.Json.Numeral
