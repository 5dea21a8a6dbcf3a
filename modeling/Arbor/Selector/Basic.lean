/-! # Selectors

A selector is a list of chains, of which any may match. A chain is a list of parts, each with the
combinator that leads to it from the part before, or from where the search starts. A part tests
one candidate: the key it sits under, its type, its fields, attributes and pseudo-classes. -/

namespace Arbor

/-- How the candidates of a part lie to what the part before found. -/
inductive Combinator where
  /-- Anything below. -/
  | descendant
  /-- Directly below. -/
  | child
  /-- Directly above. -/
  | parent
  /-- Anything above, innermost first. -/
  | ancestor
  /-- Below, without entering blocks or loops. -/
  | outsideBlocks
  /-- Below, without entering functions. -/
  | outsideFunctions
  /-- Below, without entering classes. -/
  | outsideClasses
  deriving DecidableEq

namespace Combinator

def symbol : Combinator → String
  | .descendant => " "
  | .child => ">"
  | .parent => "<"
  | .ancestor => "!"
  | .outsideBlocks => "~>"
  | .outsideFunctions => "=>"
  | .outsideClasses => ">>"

def ofSymbol? : String → Option Combinator
  | " " => some .descendant
  | ">" => some .child
  | "<" => some .parent
  | "!" => some .ancestor
  | "~>" => some .outsideBlocks
  | "=>" => some .outsideFunctions
  | ">>" => some .outsideClasses
  | _ => none

end Combinator

/-- How an attribute is compared with the text given for it. -/
inductive Operator where
  | equal
  | notEqual
  | startsWith
  | endsWith
  | contains
  /-- One of the words of the text. -/
  | word
  /-- The whole text, or the start of it up to a dash. -/
  | dash
  /-- An operator without meaning. It never matches. -/
  | unknown (text : String)
  deriving DecidableEq

namespace Operator

def symbol : Operator → String
  | .equal => "="
  | .notEqual => "!="
  | .startsWith => "^="
  | .endsWith => "$="
  | .contains => "*="
  | .word => "~="
  | .dash => "|="
  | .unknown text => text

def ofSymbol : String → Operator
  | "=" => .equal
  | "!=" => .notEqual
  | "^=" => .startsWith
  | "$=" => .endsWith
  | "*=" => .contains
  | "~=" => .word
  | "|=" => .dash
  | text => .unknown text

end Operator

/-- A test of a field or metadata key: that it exists, or how it compares with a text. -/
structure Attribute where
  name : String
  comparison : Option (Operator × String)
  deriving DecidableEq

/-- A test by name, with an optional argument. -/
structure Pseudo where
  name : String
  argument : Option String
  deriving DecidableEq

/-- One step of a chain. -/
structure Part where
  combinator : Combinator
  /-- The key a candidate must sit under; any key when there is none. -/
  tag : Option String
  /-- The type or category a candidate must have. -/
  id : Option String
  /-- The fields that must hold something. -/
  classes : List String
  attributes : List Attribute
  pseudos : List Pseudo
  deriving DecidableEq

/-- The part tests more than the key. Scalars and lists never pass such a part. -/
def Part.hasNodeTests (part : Part) : Bool :=
  part.id.isSome || !part.classes.isEmpty || !part.attributes.isEmpty || !part.pseudos.isEmpty

/-- Parts one after the other. -/
abbrev Chain := List Part

/-- Chains of which any may match. -/
structure Selector where
  chains : List Chain
  deriving DecidableEq

namespace Selector

/-- The only part of a selector that has one part in all. -/
def simplePart? (selector : Selector) : Option Part :=
  match selector.chains with
  | [[part]] => some part
  | _ => none

def typeNames (selector : Selector) : List String :=
  selector.chains.flatten.filterMap (·.id)

end Selector
end Arbor
