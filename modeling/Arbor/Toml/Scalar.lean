import Arbor.Decimal.Literal
import Arbor.Toml.Document

/-! # Unquoted TOML values

Booleans, numbers, dates and times. The whole text of such a value is known when it is read, so each
reader decides about all of it. -/

namespace Arbor.Toml

/-- Digits of which the given test holds, with single underscores between them; without those. -/
def separated? (isDigit : Char → Bool) : List Char → Option (List Char)
  | [] => none
  | [c] => if isDigit c then some [c] else none
  | c :: '_' :: rest => if isDigit c then (separated? isDigit rest).map (c :: ·) else none
  | c :: rest => if isDigit c then (separated? isDigit rest).map (c :: ·) else none

def digitValue (c : Char) : Nat :=
  if c.isDigit then c.toNat - '0'.toNat
  else if c.isLower then c.toNat - 'a'.toNat + 10
  else c.toNat - 'A'.toNat + 10

def isRadixDigit (radix : Nat) (c : Char) : Bool :=
  (c.isDigit || ('a' ≤ c && c ≤ 'f') || ('A' ≤ c && c ≤ 'F')) && digitValue c < radix

def radixValue (radix : Nat) (cs : List Char) : Nat :=
  cs.foldl (fun value c => value * radix + digitValue c) 0

/-- A whole number that fits 64 bits with its sign. -/
def bounded? (n : Int) : Option Toml :=
  if -(Decimal.twoTo 63) ≤ n && n < Decimal.twoTo 63 then some (.integer n) else none

/-- Digits without a needless zero in front. -/
def wholeDigits? (cs : List Char) : Option (List Char) :=
  match separated? Char.isDigit cs with
  | some ('0' :: _ :: _) => none
  | digits => digits

/-- A whole number in a radix given by its mark. -/
def radixInteger? (radix : Nat) (cs : List Char) : Option Toml :=
  (separated? (isRadixDigit radix) cs).bind fun digits => bounded? (radixValue radix digits)

def integer? (negative : Bool) (cs : List Char) : Option Toml :=
  (wholeDigits? cs).bind fun digits =>
    let n : Int := radixValue 10 digits
    bounded? (if negative then -n else n)

/-- A finite number with a fraction, an exponent or both. -/
def float? (negative : Bool) (cs : List Char) : Option Toml := do
  let isExponent (c : Char) : Bool := c == 'e' || c == 'E'
  let mantissa := cs.takeWhile fun c => !isExponent c
  let whole ← wholeDigits? (mantissa.takeWhile (· != '.'))
  let fraction ← match mantissa.dropWhile (· != '.') with
    | [] => some []
    | _ :: fraction => separated? Char.isDigit fraction
  let exponent ← match cs.dropWhile fun c => !isExponent c with
    | [] => some 0
    | _ :: '-' :: digits => (separated? Char.isDigit digits).map fun d => -(radixValue 10 d : Int)
    | _ :: '+' :: digits => (separated? Char.isDigit digits).map fun d => (radixValue 10 d : Int)
    | _ :: digits => (separated? Char.isDigit digits).map fun d => (radixValue 10 d : Int)
  let x := Decimal.Literal.toFloat ⟨whole, fraction, exponent⟩ negative
  match Decimal.Double.ofFloat x with
  | .finite _ _ _ => some (.float x)
  | _ => none

def unsignedNumber? (negative : Bool) (cs : List Char) : Option Toml :=
  if cs == "inf".toList then
    some (.float (Decimal.assemble negative 0 (Decimal.maxExponent + 1)))
  else if cs == "nan".toList then some (.float (0.0 / 0.0))
  else match integer? negative cs with
    | some n => some n
    | none =>
      if cs.any fun c => c == '.' || c == 'e' || c == 'E' then float? negative cs else none

def number? : List Char → Option Toml
  | '-' :: rest => unsignedNumber? true rest
  | '+' :: rest => unsignedNumber? false rest
  | '0' :: 'x' :: rest => radixInteger? 16 rest
  | '0' :: 'o' :: rest => radixInteger? 8 rest
  | '0' :: 'b' :: rest => radixInteger? 2 rest
  | cs => unsignedNumber? false cs

/-- The number written by exactly the given digits, if it is within bounds. -/
def field? (low high : Nat) (cs : List Char) : Option Nat :=
  if cs.all Char.isDigit && low ≤ radixValue 10 cs && radixValue 10 cs ≤ high then
    some (radixValue 10 cs)
  else none

def daysOfMonth (year month : Nat) : Nat :=
  if month == 2 then
    if year % 4 == 0 && (year % 100 != 0 || year % 400 == 0) then 29 else 28
  else if month == 4 || month == 6 || month == 9 || month == 11 then 30
  else 31

/-- A date at the head of the text, and what follows it. -/
def date? : List Char → Option (List Char)
  | y1 :: y2 :: y3 :: y4 :: '-' :: m1 :: m2 :: '-' :: d1 :: d2 :: rest => do
    let year ← field? 0 9999 [y1, y2, y3, y4]
    let month ← field? 1 12 [m1, m2]
    let _ ← field? 1 (daysOfMonth year month) [d1, d2]
    return rest
  | _ => none

/-- The parts of a second after its point, of which there is at least one digit. -/
def fractionOfSecond? : List Char → Option (List Char)
  | '.' :: c :: rest => if c.isDigit then some (rest.dropWhile Char.isDigit) else none
  | '.' :: [] => none
  | rest => some rest

/-- A time of day at the head of the text, and what follows it. Seconds may be left out. -/
def time? : List Char → Option (List Char)
  | h1 :: h2 :: ':' :: m1 :: m2 :: rest => do
    let _ ← field? 0 23 [h1, h2]
    let _ ← field? 0 59 [m1, m2]
    match rest with
    | ':' :: s1 :: s2 :: rest => do
      let _ ← field? 0 60 [s1, s2]
      fractionOfSecond? rest
    | ':' :: _ => none
    | rest => some rest
  | _ => none

/-- An offset from universal time, or none, up to the end of the text. -/
def isOffset : List Char → Bool
  | [] => true
  | ['Z'] => true
  | ['z'] => true
  | [sign, h1, h2, ':', m1, m2] =>
    (sign == '+' || sign == '-') && (field? 0 23 [h1, h2]).isSome && (field? 0 59 [m1, m2]).isSome
  | _ => false

def isDate (cs : List Char) : Bool :=
  match date? cs with
  | some [] => true
  | some (mark :: rest) =>
    (mark == 'T' || mark == 't' || mark == ' ') && ((time? rest).any isOffset)
  | none => time? cs == some []

/-- The value written by an unquoted text. -/
def unquoted? (cs : List Char) : Option Toml :=
  if cs == "true".toList then some (.boolean true)
  else if cs == "false".toList then some (.boolean false)
  else match number? cs with
    | some value => some value
    | none => if isDate cs then some .date else none

end Arbor.Toml
