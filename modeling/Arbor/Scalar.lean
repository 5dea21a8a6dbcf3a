import Arbor.Decimal.Layout
import Arbor.Decimal.Literal
import Arbor.Text.Blank
import Arbor.Text.Quoted

/-! # Scalars

The values a field can hold besides nodes and lists: the two marks of absence, booleans, numbers,
strings and regular-expression literals. Each scalar has a text, the form in which selectors
compare it, and a display, in which strings are quoted. `Scalar.ofText` reads the text of a
selector value back into a scalar. -/

namespace Arbor

/-- A regular-expression literal, kept as source text. -/
structure Regex where
  pattern : String
  flags : String
  deriving DecidableEq

/-- The kinds of scalar a field can be restricted to. -/
inductive PrimitiveKind where
  | string
  | number
  | boolean
  | regexp
  deriving DecidableEq

namespace PrimitiveKind

def name : PrimitiveKind → String
  | .string => "string"
  | .number => "number"
  | .boolean => "boolean"
  | .regexp => "regexp"

def ofName? : String → Option PrimitiveKind
  | "string" => some .string
  | "number" => some .number
  | "boolean" => some .boolean
  | "regexp" => some .regexp
  | _ => none

end PrimitiveKind

/-- A value that is neither a node nor a list. -/
inductive Scalar where
  /-- Nothing was ever assigned. -/
  | undefined
  | null
  | boolean (b : Bool)
  | number (x : Float)
  | string (s : String)
  | regex (r : Regex)
  deriving Inhabited

namespace Scalar

/-- Equality of scalars. Numbers compare as numbers: the two zeros are equal, and what is not a
number equals nothing. -/
def equal : Scalar → Scalar → Bool
  | .undefined, .undefined => true
  | .null, .null => true
  | .boolean a, .boolean b => a == b
  | .number a, .number b => a == b
  | .string a, .string b => a == b
  | .regex a, .regex b => a == b
  | _, _ => false

instance : BEq Scalar := ⟨equal⟩

/-- Null or undefined. -/
def isAbsent : Scalar → Bool
  | .undefined => true
  | .null => true
  | _ => false

def kind? : Scalar → Option PrimitiveKind
  | .boolean _ => some .boolean
  | .number _ => some .number
  | .string _ => some .string
  | .regex _ => some .regexp
  | _ => none

def string? : Scalar → Option String
  | .string s => some s
  | _ => none

def boolean? : Scalar → Option Bool
  | .boolean b => some b
  | _ => none

end Scalar

/-- The text of a number: all its digits, without a point when it is whole and without a sign when
it is zero. -/
def numberText (x : Float) : String :=
  match Decimal.safeInt? x with
  | some n => toString n
  | none => match Decimal.Double.ofFloat x with
    | .nan => "NaN"
    | .infinite negative => Decimal.signed negative "Infinity".toList
    | .finite negative mantissa exponent =>
      Decimal.signed negative (Decimal.shortest .up mantissa exponent).positional

namespace Scalar

def text : Scalar → String
  | .undefined => "undefined"
  | .null => "null"
  | .boolean true => "true"
  | .boolean false => "false"
  | .number x => numberText x
  | .string s => s
  | .regex r => "/" ++ r.pattern ++ "/" ++ r.flags

/-- The text of a scalar with strings quoted. -/
def display : Scalar → String
  | .string s => Text.quote s
  | scalar => scalar.text

/-- The value of a digit in a radix of at most sixteen. -/
def radixDigit? (radix : Nat) (c : Char) : Option Nat :=
  let value? : Option Nat :=
    if c.isDigit then some (c.toNat - '0'.toNat)
    else if 'a' ≤ c && c ≤ 'f' then some (c.toNat - 'a'.toNat + 10)
    else if 'A' ≤ c && c ≤ 'F' then some (c.toNat - 'A'.toNat + 10)
    else none
  value?.filter (· < radix)

/-- The radix announced by a mark after a zero. -/
def radix? : Char → Option Nat
  | 'x' => some 16
  | 'X' => some 16
  | 'o' => some 8
  | 'O' => some 8
  | 'b' => some 2
  | 'B' => some 2
  | _ => none

/-- The number written by digits of a radix, of which there is at least one. It is summed in
doubles, so a long numeral is rounded at each digit. -/
def radixNumber? (radix : Nat) (cs : List Char) : Option Float :=
  if cs.isEmpty then none
  else (cs.mapM (radixDigit? radix)).map fun digits =>
    digits.foldl (fun sum digit => sum * radix.toFloat + digit.toFloat) 0.0

/-- A decimal numeral or `Infinity`, without sign. -/
def unsignedNumber? (negative : Bool) (cs : List Char) : Option Float :=
  if cs == "Infinity".toList then some (Decimal.assemble negative 0 (Decimal.maxExponent + 1))
  else (Decimal.Literal.read? cs).map (·.toFloat negative)

/-- The number a text reads as. Blanks around it do not count, and blank text reads as zero. -/
def numberOfText? (cs : List Char) : Option Float :=
  match Text.trim cs with
  | [] => some 0.0
  | '0' :: mark :: digits => match radix? mark with
    | some radix => radixNumber? radix digits
    | none => unsignedNumber? false ('0' :: mark :: digits)
  | '-' :: rest => unsignedNumber? true rest
  | '+' :: rest => unsignedNumber? false rest
  | rest => unsignedNumber? false rest

/-- The scalar a selector value stands for: a number if it reads as one, else one of the four
keywords, else the string itself. -/
def ofText (s : String) : Scalar :=
  match if s.isEmpty then none else numberOfText? s.toList with
  | some x => .number x
  | none => match s with
    | "true" => .boolean true
    | "false" => .boolean false
    | "null" => .null
    | "undefined" => .undefined
    | s => .string s

end Scalar
end Arbor
