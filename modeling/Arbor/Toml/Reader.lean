import Arbor.Json.Reader
import Arbor.Toml.Document
import Arbor.Toml.Scalar

/-! # TOML text

Each reader takes the text from where it starts to read, and returns what it read and the rest of
the text. Arrays and inline tables nest to a bounded depth, and a key has a bounded number of
names. -/

namespace Arbor.Toml
namespace Reader

/-- The text after blanks on the same line. -/
def skipBlanks (cs : List Char) : List Char := cs.dropWhile fun c => c == ' ' || c == '\t'

/-- A character that may stand in a comment or string: no control but the tab. -/
def isPlain (c : Char) : Bool := c == '\t' || (0x20 ≤ c.toNat && c.toNat != 0x7f)

/-- The text after a comment, if there is one. -/
def skipComment? : List Char → Option (List Char)
  | '#' :: rest =>
    match rest.dropWhile isPlain with
    | [] => some []
    | '\n' :: rest => some ('\n' :: rest)
    | '\r' :: '\n' :: rest => some ('\r' :: '\n' :: rest)
    | _ => none
  | cs => some cs

/-- The text after a line end, if there is one. -/
def lineEnd? : List Char → Option (List Char)
  | '\n' :: rest => some rest
  | '\r' :: '\n' :: rest => some rest
  | _ => none

/-- The text after any blanks, comments and line ends. -/
def skipLines? : Nat → List Char → Option (List Char)
  | 0, _ => none
  | fuel + 1, cs => do
    let cs ← skipComment? (skipBlanks cs)
    match lineEnd? cs with
    | some rest => skipLines? fuel rest
    | none => some cs

def hex? (cs : List Char) : Option Nat :=
  cs.foldlM (fun value c => (Json.Reader.hexValue? c).map (value * 16 + ·)) 0

/-- The character of a code point that is one. -/
def codePoint? (n : Nat) : Option Char :=
  if n < 0xd800 || (0xdfff < n && n < 0x110000) then some (Char.ofNat n) else none

/-- An escape after its backslash. -/
def escape? : List Char → Option (Char × List Char)
  | 'b' :: rest => some ('\x08', rest)
  | 't' :: rest => some ('\t', rest)
  | 'n' :: rest => some ('\n', rest)
  | 'f' :: rest => some ('\x0c', rest)
  | 'r' :: rest => some ('\r', rest)
  | 'e' :: rest => some ('\x1b', rest)
  | '"' :: rest => some ('"', rest)
  | '\\' :: rest => some ('\\', rest)
  | 'x' :: a :: b :: rest => ((hex? [a, b]).bind codePoint?).map (·, rest)
  | 'u' :: a :: b :: c :: d :: rest => ((hex? [a, b, c, d]).bind codePoint?).map (·, rest)
  | 'U' :: a :: b :: c :: d :: e :: f :: g :: h :: rest =>
    ((hex? [a, b, c, d, e, f, g, h]).bind codePoint?).map (·, rest)
  | _ => none

/-- A string with escapes after its opening quote. -/
def basic? : Nat → List Char → List Char → Option (String × List Char)
  | _, taken, '"' :: rest => some (String.ofList taken.reverse, rest)
  | fuel + 1, taken, '\\' :: rest => do
    let (c, rest) ← escape? rest
    basic? fuel (c :: taken) rest
  | fuel + 1, taken, c :: rest => if isPlain c then basic? fuel (c :: taken) rest else none
  | _, _, _ => none

/-- A string without escapes after its opening quote. -/
def literal? (cs : List Char) : Option (String × List Char) :=
  match cs.dropWhile fun c => isPlain c && c != '\'' with
  | '\'' :: rest => some (String.ofList (cs.takeWhile fun c => isPlain c && c != '\''), rest)
  | _ => none

/-- The text after the line end right behind an opening triple quote, if there is one. -/
def afterOpening (cs : List Char) : List Char := (lineEnd? cs).getD cs

/-- The end of a string of several lines: three to five quotes, the first two of five being part of
the string. -/
def closing? (mark : Char) (cs : List Char) : Option (List Char × List Char) :=
  let quotes := cs.takeWhile (· == mark)
  if quotes.length < 3 then none
  else
    let extra := min (quotes.length - 3) 2
    some (List.replicate extra mark, cs.drop (3 + extra))

/-- The text after blanks and line ends. -/
def skipSpace : List Char → List Char
  | ' ' :: rest => skipSpace rest
  | '\t' :: rest => skipSpace rest
  | '\n' :: rest => skipSpace rest
  | '\r' :: '\n' :: rest => skipSpace rest
  | cs => cs

/-- A string of several lines with escapes, after its opening quotes. A backslash at the end of a
line drops the blank space up to the next text. -/
def basicLines? : Nat → List Char → List Char → Option (String × List Char)
  | 0, _, _ => none
  | fuel + 1, taken, cs =>
    match closing? '"' cs with
    | some (extra, rest) => some (String.ofList (taken.reverse ++ extra), rest)
    | none => match cs with
      | '\\' :: rest =>
        match lineEnd? (skipBlanks rest) with
        | some rest => basicLines? fuel taken (skipSpace rest)
        | none => do
          let (c, rest) ← escape? rest
          basicLines? fuel (c :: taken) rest
      | '\n' :: rest => basicLines? fuel ('\n' :: taken) rest
      | '\r' :: '\n' :: rest => basicLines? fuel ('\n' :: '\r' :: taken) rest
      | c :: rest => if isPlain c then basicLines? fuel (c :: taken) rest else none
      | [] => none

/-- A string of several lines without escapes, after its opening quotes. -/
def literalLines? : Nat → List Char → List Char → Option (String × List Char)
  | 0, _, _ => none
  | fuel + 1, taken, cs =>
    match closing? '\'' cs with
    | some (extra, rest) => some (String.ofList (taken.reverse ++ extra), rest)
    | none => match cs with
      | '\n' :: rest => literalLines? fuel ('\n' :: taken) rest
      | '\r' :: '\n' :: rest => literalLines? fuel ('\n' :: '\r' :: taken) rest
      | c :: rest => if isPlain c then literalLines? fuel (c :: taken) rest else none
      | [] => none

def isKeyChar (c : Char) : Bool := c.isAlphanum || c == '_' || c == '-'

def simpleKey? (cs : List Char) : Option (String × List Char) :=
  match cs with
  | '"' :: rest => basic? rest.length [] rest
  | '\'' :: rest => literal? rest
  | cs =>
    let name := cs.takeWhile isKeyChar
    if name.isEmpty then none else some (String.ofList name, cs.dropWhile isKeyChar)

/-- A key of at most the given number of names, with dots between them and blanks allowed around
each. -/
def names? : Nat → List Char → Option (List String × List Char)
  | 0, _ => none
  | limit + 1, cs => do
    let (name, rest) ← simpleKey? (skipBlanks cs)
    match skipBlanks rest with
    | '.' :: rest => (names? limit rest).map fun (path, rest) => (name :: path, rest)
    | rest => some ([name], rest)

/-- How deep arrays and inline tables nest, and how many names a key has, at most. -/
def nesting : Nat := 80

def key? (cs : List Char) : Option (List String × List Char) := names? nesting cs

def isUnquotedChar (c : Char) : Bool :=
  isPlain c && !(" \t,#[]\x7b\x7d=\"'".toList.contains c)

/-- An unquoted value. A date may be followed by a blank and a time. -/
def unquotedValue? (cs : List Char) : Option (Toml × List Char) :=
  let word := cs.takeWhile isUnquotedChar
  let rest := cs.dropWhile isUnquotedChar
  match date? word, rest with
  | some [], ' ' :: c :: others =>
    if c.isDigit then
      let time := (c :: others).takeWhile isUnquotedChar
      (unquoted? (word ++ ' ' :: time)).map (·, (c :: others).dropWhile isUnquotedChar)
    else some (.date, rest)
  | _, _ => (unquoted? word).map (·, rest)

mutual

/-- A value, with `depth` levels of nesting to go. -/
def value? : Nat → Nat → List Char → Option (Toml × List Char)
  | 0, _, _ => none
  | fuel + 1, depth, cs =>
    match cs, depth with
    | '"' :: '"' :: '"' :: rest, _ =>
      (basicLines? (rest.length + 1) [] (afterOpening rest)).map fun (s, rest) => (.string s, rest)
    | '\'' :: '\'' :: '\'' :: rest, _ =>
      (literalLines? (rest.length + 1) [] (afterOpening rest)).map fun (s, rest) =>
        (.string s, rest)
    | '"' :: rest, _ => (basic? rest.length [] rest).map fun (s, rest) => (.string s, rest)
    | '\'' :: rest, _ => (literal? rest).map fun (s, rest) => (.string s, rest)
    | '[' :: rest, depth + 1 =>
      (items? fuel depth [] rest).map fun (items, rest) => (.array items, rest)
    | '\x7b' :: rest, depth + 1 => do
      let (assignments, rest) ← assignments? fuel depth [] rest
      let members ← inlineMembers [] assignments
      return (.table (closeMembers members), rest)
    | cs, _ => unquotedValue? cs

def items? : Nat → Nat → List Toml → List Char → Option (List Toml × List Char)
  | 0, _, _, _ => none
  | fuel + 1, depth, taken, cs => do
    match ← skipLines? (cs.length + 1) cs with
    | ']' :: rest => some (taken.reverse, rest)
    | cs => do
      let (item, cs) ← value? fuel depth cs
      match ← skipLines? (cs.length + 1) cs with
      | ',' :: rest => items? fuel depth (item :: taken) rest
      | ']' :: rest => some ((item :: taken).reverse, rest)
      | _ => none

/-- The assignments of an inline table up to its closing brace, a comma after the last allowed.
Lines may end and comments may stand on both sides of the equals sign. -/
def assignments? : Nat → Nat → List (List String × Toml) → List Char →
    Option (List (List String × Toml) × List Char)
  | 0, _, _, _ => none
  | fuel + 1, depth, taken, cs => do
    match ← skipLines? (cs.length + 1) cs with
    | '\x7d' :: rest => some (taken.reverse, rest)
    | cs => do
      let (path, cs) ← key? cs
      match ← skipLines? (cs.length + 1) cs with
      | '=' :: cs => do
        let (value, cs) ← value? fuel depth (← skipLines? (cs.length + 1) cs)
        match ← skipLines? (cs.length + 1) cs with
        | ',' :: rest => assignments? fuel depth ((path, value) :: taken) rest
        | '\x7d' :: rest => some (((path, value) :: taken).reverse, rest)
        | _ => none
      | _ => none

end

/-- What a line says, without its end. -/
def line? (cs : List Char) : Option (Line × List Char) :=
  match cs with
  | '[' :: '[' :: rest => do
    let (path, rest) ← key? rest
    match rest with
    | ']' :: ']' :: rest => some (.row path, rest)
    | _ => none
  | '[' :: rest => do
    let (path, rest) ← key? rest
    match rest with
    | ']' :: rest => some (.header path, rest)
    | _ => none
  | cs => do
    let (path, rest) ← key? cs
    match rest with
    | '=' :: rest => do
      let (value, rest) ← value? (2 * rest.length + 2) nesting (skipBlanks rest)
      return (.assign path value, rest)
    | _ => none

def lines? : Nat → List Char → Option (List Line)
  | 0, _ => none
  | fuel + 1, cs => do
    match ← skipLines? (cs.length + 1) cs with
    | [] => some []
    | cs => do
      let (line, rest) ← line? cs
      match ← skipComment? (skipBlanks rest) with
      | [] => some [line]
      | rest => do
        let rest ← lineEnd? rest
        let others ← lines? fuel rest
        return line :: others

end Reader

/-- The members of the document a text writes. A byte order mark at its start is skipped. -/
def read? (text : String) : Option (Record Toml) := do
  let cs := match text.toList with
    | '\ufeff' :: rest => rest
    | cs => cs
  let lines ← Reader.lines? (cs.length + 1) cs
  let document ← interpret [] [] lines
  return closeMembers document

end Arbor.Toml
