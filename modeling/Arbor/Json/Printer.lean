import Arbor.Decimal.Layout
import Arbor.Json.Basic

/-! # JSON text

Two printed forms of a JSON value: compact, without any blanks, and pretty, with every member and
item on a line of its own, indented by two spaces. -/

namespace Arbor.Json

/-- One character of a string as it stands between the quotes. -/
def escapeChar (c : Char) : List Char :=
  match c with
  | '"' => ['\\', '"']
  | '\\' => ['\\', '\\']
  | '\x08' => ['\\', 'b']
  | '\x0c' => ['\\', 'f']
  | '\n' => ['\\', 'n']
  | '\r' => ['\\', 'r']
  | '\t' => ['\\', 't']
  | c =>
    if c.toNat < 0x20 then
      ['\\', 'u', '0', '0', Nat.digitChar (c.toNat / 16), Nat.digitChar (c.toNat % 16)]
    else [c]

def printString (s : String) : String :=
  String.ofList ('"' :: s.toList.flatMap escapeChar ++ ['"'])

/-- A double by its shortest digits, with a point, for magnitudes from `10 ^ -5` to below `10 ^ 16`;
by mantissa and exponent otherwise. -/
def printDouble (x : Float) : String :=
  match Decimal.Double.ofFloat x with
  | .finite negative mantissa exponent =>
    let decimal := Decimal.shortest .toEven mantissa exponent
    let positional := -5 ≤ decimal.magnitude && decimal.magnitude ≤ 15
    let point := if 0 ≤ decimal.exponent then ['.', '0'] else []
    Decimal.signed negative
      (if positional then decimal.positional ++ point else decimal.scientific)
  | _ => "null"

def Number.print : Number → String
  | .int n => toString n
  | .double x => printDouble x

mutual

def compact : Json → String
  | .null => "null"
  | .bool true => "true"
  | .bool false => "false"
  | .number n => n.print
  | .string s => printString s
  | .array items => "[" ++ compactItems items ++ "]"
  | .object members => "\x7b" ++ compactMembers members ++ "\x7d"

/-- Items with commas between them. -/
def compactItems : List Json → String
  | [] => ""
  | [item] => compact item
  | item :: rest => compact item ++ "," ++ compactItems rest

/-- Members with commas between them. -/
def compactMembers : List (String × Json) → String
  | [] => ""
  | [(key, value)] => printString key ++ ":" ++ compact value
  | (key, value) :: rest =>
    printString key ++ ":" ++ compact value ++ "," ++ compactMembers rest

end

/-- A line break and the indentation of the given depth. -/
def newline (depth : Nat) : String := String.ofList ('\n' :: List.replicate (2 * depth) ' ')

mutual

/-- The pretty text of a value that stands at the given depth. -/
def prettyAt (depth : Nat) : Json → String
  | .array [] => "[]"
  | .array items => "[" ++ prettyItems (depth + 1) items ++ newline depth ++ "]"
  | .object [] => "\x7b\x7d"
  | .object members => "\x7b" ++ prettyMembers (depth + 1) members ++ newline depth ++ "\x7d"
  | .null => "null"
  | .bool true => "true"
  | .bool false => "false"
  | .number n => n.print
  | .string s => printString s

/-- Items on lines of their own. -/
def prettyItems (depth : Nat) : List Json → String
  | [] => ""
  | [item] => newline depth ++ prettyAt depth item
  | item :: rest => newline depth ++ prettyAt depth item ++ "," ++ prettyItems depth rest

/-- Members on lines of their own. -/
def prettyMembers (depth : Nat) : List (String × Json) → String
  | [] => ""
  | [(key, value)] => newline depth ++ printString key ++ ": " ++ prettyAt depth value
  | (key, value) :: rest =>
    newline depth ++ printString key ++ ": " ++ prettyAt depth value ++ "," ++
      prettyMembers depth rest

end

def pretty (json : Json) : String := prettyAt 0 json

end Arbor.Json
