import Arbor.Json.Numeral

/-! # Reading JSON text

The strict syntax of JSON: no comments, no comma after the last item, no raw control characters in
strings, no escape for half a surrogate pair, and nothing after the value. Arrays and objects nest
to a given depth only. A repeated member keeps its first place and takes its last value. -/

namespace Arbor.Json
namespace Reader

/-- The text from its first character that is not JSON blank space. -/
def skipSpace (cs : List Char) : List Char :=
  cs.dropWhile fun c => c == ' ' || c == '\t' || c == '\n' || c == '\r'

def hexValue? (c : Char) : Option Nat :=
  if c.isDigit then some (c.toNat - '0'.toNat)
  else if 'a' ≤ c && c ≤ 'f' then some (c.toNat - 'a'.toNat + 10)
  else if 'A' ≤ c && c ≤ 'F' then some (c.toNat - 'A'.toNat + 10)
  else none

/-- The number written by four hexadecimal digits. -/
def hexUnit? (a b c d : Char) : Option Nat := do
  let a ← hexValue? a
  let b ← hexValue? b
  let c ← hexValue? c
  let d ← hexValue? d
  return ((a * 16 + b) * 16 + c) * 16 + d

/-- The character of a code unit that is no surrogate. -/
def plainUnit? (unit : Nat) : Option Char :=
  if 0xd800 ≤ unit && unit < 0xe000 then none else some (Char.ofNat unit)

/-- The character written by a high and a low surrogate. -/
def surrogates? (high low : Nat) : Option Char :=
  if 0xd800 ≤ high && high < 0xdc00 && 0xdc00 ≤ low && low < 0xe000 then
    some (Char.ofNat (0x10000 + (high - 0xd800) * 0x400 + (low - 0xdc00)))
  else none

/-- The character a one-letter escape stands for. -/
def simpleEscape? : Char → Option Char
  | '"' => some '"'
  | '\\' => some '\\'
  | '/' => some '/'
  | 'b' => some '\x08'
  | 'f' => some '\x0c'
  | 'n' => some '\n'
  | 'r' => some '\r'
  | 't' => some '\t'
  | _ => none

/-- An escape after its backslash: the character and the rest. -/
def escape? : List Char → Option (Char × List Char)
  | 'u' :: a :: b :: c :: d :: rest => do
    let unit ← hexUnit? a b c d
    match plainUnit? unit with
    | some char => some (char, rest)
    | none => match rest with
      | '\\' :: 'u' :: e :: f :: g :: h :: rest => do
        let low ← hexUnit? e f g h
        let char ← surrogates? unit low
        return (char, rest)
      | _ => none
  | c :: rest => (simpleEscape? c).map (·, rest)
  | [] => none

/-- A string after its opening quote. `taken` holds the characters read so far, last first. -/
def stringBody? : Nat → List Char → List Char → Option (String × List Char)
  | _, taken, '"' :: rest => some (String.ofList taken.reverse, rest)
  | fuel + 1, taken, '\\' :: rest => do
    let (c, rest) ← escape? rest
    stringBody? fuel (c :: taken) rest
  | fuel + 1, taken, c :: rest =>
    if c.toNat < 0x20 then none else stringBody? fuel (c :: taken) rest
  | _, _, _ => none

def string? : List Char → Option (String × List Char)
  | '"' :: rest => stringBody? rest.length [] rest
  | _ => none

mutual

/-- A value at the head of the text, with `depth` levels of nesting to go. -/
def value? : Nat → Nat → List Char → Option (Json × List Char)
  | 0, _, _ => none
  | fuel + 1, depth, cs =>
    match skipSpace cs, depth with
    | 'n' :: 'u' :: 'l' :: 'l' :: rest, _ => some (.null, rest)
    | 't' :: 'r' :: 'u' :: 'e' :: rest, _ => some (.bool true, rest)
    | 'f' :: 'a' :: 'l' :: 's' :: 'e' :: rest, _ => some (.bool false, rest)
    | '"' :: rest, _ => (string? ('"' :: rest)).map fun (s, rest) => (.string s, rest)
    | '[' :: rest, depth + 1 =>
      match skipSpace rest with
      | ']' :: rest => some (.array [], rest)
      | rest => (items? fuel depth [] rest).map fun (items, rest) => (.array items, rest)
    | '\x7b' :: rest, depth + 1 =>
      match skipSpace rest with
      | '\x7d' :: rest => some (.object [], rest)
      | rest => (members? fuel depth [] rest).map fun (members, rest) => (.object members, rest)
    | rest, _ => (Numeral.read? rest).map fun (n, rest) => (.number n, rest)

/-- The items of an array up to its closing bracket. `taken` holds those read, last first. -/
def items? : Nat → Nat → List Json → List Char → Option (List Json × List Char)
  | 0, _, _, _ => none
  | fuel + 1, depth, taken, cs => do
    let (item, cs) ← value? fuel depth cs
    match skipSpace cs with
    | ',' :: cs => items? fuel depth (item :: taken) cs
    | ']' :: cs => some ((item :: taken).reverse, cs)
    | _ => none

/-- The members of an object up to its closing brace, added to those already read. -/
def members? : Nat → Nat → Record Json → List Char → Option (Record Json × List Char)
  | 0, _, _, _ => none
  | fuel + 1, depth, members, cs => do
    let (key, cs) ← string? (skipSpace cs)
    match skipSpace cs with
    | ':' :: cs =>
      let (value, cs) ← value? fuel depth cs
      let members := members.insert key value
      match skipSpace cs with
      | ',' :: cs => members? fuel depth members cs
      | '\x7d' :: cs => some (members, cs)
      | _ => none
    | _ => none

end

end Reader

/-- The whole text as a JSON value with at most `depth` nested arrays and objects. -/
def read? (depth : Nat) (text : String) : Option Json := do
  let cs := text.toList
  let (json, rest) ← Reader.value? (2 * cs.length + 2) depth cs
  if (Reader.skipSpace rest).isEmpty then some json else none

def documentDepth : Nat := 127

def parse? (text : String) : Option Json := read? documentDepth text

end Arbor.Json
