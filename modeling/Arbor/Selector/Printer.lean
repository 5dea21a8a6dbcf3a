import Arbor.Selector.Basic
import Arbor.Text.Quoted

/-! # The canonical text of a selector

Every selector has one canonical text: parts separated by single blanks, chains by a comma and a
blank, and every value in quotes. -/

namespace Arbor

/-- An attribute test in brackets. -/
def Attribute.chars (test : Attribute) : List Char :=
  match test.comparison with
  | none => '[' :: test.name.toList ++ [']']
  | some (operator, value) =>
    '[' :: test.name.toList ++ operator.symbol.toList ++ Text.quoteChars value.toList ++ [']']

/-- A pseudo-class after its colon. -/
def Pseudo.chars (pseudo : Pseudo) : List Char :=
  match pseudo.argument with
  | none => ':' :: pseudo.name.toList
  | some argument => ':' :: pseudo.name.toList ++ '(' :: Text.quoteChars argument.toList ++ [')']

namespace Part

/-- The combinator of a part and a blank; nothing for the descendant combinator. -/
def combinatorChars (part : Part) : List Char :=
  if part.combinator = .descendant then [] else part.combinator.symbol.toList ++ [' ']

/-- The tag of a part; a star when neither tag nor type is given. -/
def tagChars (part : Part) : List Char :=
  match part.tag, part.id with
  | some tag, _ => tag.toList
  | none, none => ['*']
  | none, some _ => []

/-- The type a part tests for. -/
def idChars (part : Part) : List Char :=
  match part.id with
  | some id => '#' :: id.toList
  | none => []

def chars (part : Part) : List Char :=
  part.combinatorChars ++ part.tagChars ++ part.idChars
    ++ part.classes.flatMap (fun name => '.' :: name.toList)
    ++ part.attributes.flatMap Attribute.chars ++ part.pseudos.flatMap Pseudo.chars

def text (part : Part) : String := String.ofList part.chars

end Part

def Chain.chars (chain : Chain) : List Char := [' '].intercalate (chain.map Part.chars)

def Chain.text (chain : Chain) : String := String.ofList (Chain.chars chain)

namespace Selector

def chars (selector : Selector) : List Char :=
  [',', ' '].intercalate (selector.chains.map Chain.chars)

def text (selector : Selector) : String := String.ofList selector.chars

end Selector
end Arbor
