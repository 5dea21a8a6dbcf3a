import Arbor.Decimal.Double
import Arbor.Query.Role
import Arbor.Selector.Basic
import Arbor.Text.Blank

/-! # Testing a candidate

Whether a value passes a part of a selector, apart from the combinator. Scalars and lists only pass
parts that test nothing but the key. -/

namespace Arbor

def Text.containsRun (needle : List Char) : List Char → Bool
  | [] => needle.isEmpty
  | c :: rest => needle.isPrefixOf (c :: rest) || Text.containsRun needle rest

/-- The number a text of decimal digits writes, if it fits 64 bits. A plus sign may stand before. -/
def indexOfText? (text : String) : Option Nat :=
  let digits := match text.toList with
    | '+' :: rest => rest
    | cs => cs
  let n := digits.foldl (fun n c => n * 10 + (c.toNat - '0'.toNat)) 0
  if digits.isEmpty || !digits.all Char.isDigit || n ≥ Decimal.twoTo 64 then none else some n

def Key.matchesTag (tag : String) : Key → Bool
  | .field name => tag == name
  | .index n => indexOfText? tag == some n

/-- The tag, if there is one, asks for the key. -/
def tagMatches (tag : Option String) (key : Option Key) : Bool :=
  match tag with
  | none => true
  | some tag => key.any (Key.matchesTag tag)

/-- The scalar passes the comparison with the given text. -/
def Scalar.passes (scalar : Scalar) (operator : Operator) (text : String) : Bool :=
  let own := scalar.text.toList
  let given := text.toList
  match operator with
  | .equal => scalar == Scalar.ofText text
  | .notEqual => !(scalar == Scalar.ofText text)
  | .startsWith => given.isPrefixOf own
  | .endsWith => given.isSuffixOf own
  | .contains => Text.containsRun given own
  | .word => (Text.words own).contains given
  | .dash => own == given || (given ++ ['-']).isPrefixOf own
  | .unknown _ => false

namespace Tree

variable {catalogue : Catalogue}

/-- The field or metadata key of the given name is present. -/
def hasClass (tree : Tree catalogue) (id : NodeId) (name : String) : Bool :=
  match tree.get id name with
  | .ok value => !value.isAbsent
  | .error _ => match (tree.metadata id).get? name with
    | none => false
    | some .null => false
    | some _ => true

/-- The scalar of a field or metadata key; undefined when there is neither, and none when it holds
anything else. -/
def attributeScalar? (tree : Tree catalogue) (id : NodeId) (name : String) : Option Scalar :=
  match tree.get id name with
  | .ok (.scalar s) => some s
  | .ok _ => none
  | .error _ => match (tree.metadata id).get? name with
    | none => some .undefined
    | some .null => some .null
    | some (.bool b) => some (.boolean b)
    | some (.number n) => some (.number n.toFloat)
    | some (.string s) => some (.string s)
    | some _ => none

/-- The node passes an attribute test. What is no scalar only passes as being different. -/
def passesAttribute (tree : Tree catalogue) (id : NodeId) (test : Attribute) : Bool :=
  match test.comparison with
  | none =>
    (tree.fields id).any (·.name == test.name) || (tree.metadata id).contains test.name
  | some (operator, text) =>
    match tree.attributeScalar? id test.name with
    | some scalar => scalar.passes operator text
    | none => operator = .notEqual

/-- The node passes a pseudo-class. An unknown one is never passed. -/
def passesPseudo (tree : Tree catalogue) (id : NodeId) (test : Pseudo) : Bool :=
  match test.name with
  | "reference" => tree.isReference id test.argument
  | "declaration" => tree.isDeclaration id test.argument
  | "scope" => tree.isScope id
  | _ => false

/-- The node passes all tests of a part but that of the key. -/
def passesTests (tree : Tree catalogue) (id : NodeId) (part : Part) : Bool :=
  part.id.all (catalogue.isA (tree.typeOf id))
    && part.classes.all (tree.hasClass id)
    && part.attributes.all (tree.passesAttribute id)
    && part.pseudos.all (tree.passesPseudo id)

/-- The node or list sits under the key a part asks for. The key is looked up if it is not given. -/
def passesTag (tree : Tree catalogue) (handle : Handle) (key : Option Key) (part : Part) : Bool :=
  part.tag.isNone || tagMatches part.tag (key.or (tree.keyOf? handle))

/-- The value, found under the given key, passes a part. -/
def passesPart (tree : Tree catalogue) (value : Value) (key : Option Key) (part : Part) : Bool :=
  match value with
  | .scalar _ => !part.hasNodeTests && tagMatches part.tag key
  | .list id => tree.passesTag (.list id) key part && !part.hasNodeTests
  | .node id => tree.passesTag (.node id) key part && tree.passesTests id part

end Tree
end Arbor
