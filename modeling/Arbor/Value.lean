import Arbor.Scalar

/-! # Values

What a field holds and what a search returns: a scalar, or a handle of a node or list. Nodes and
lists are numbered separately, in the order in which a tree made them. -/

namespace Arbor

/-- The number of a node in its tree. It is unbounded here; a number of 32 bits says the same for
trees of fewer than 2 ^ 32 nodes, and wraps around beyond that. -/
structure NodeId where
  index : Nat
  deriving DecidableEq

/-- The number of a list in its tree, unbounded like that of a node: 32 bits say the same for trees
of fewer than 2 ^ 32 lists. -/
structure ListId where
  index : Nat
  deriving DecidableEq

/-- A node or a list: what can hold children. -/
inductive Handle where
  | node (id : NodeId)
  | list (id : ListId)
  deriving DecidableEq

def Handle.node? : Handle → Option NodeId
  | .node id => some id
  | .list _ => none

/-- A scalar, a node or a list. -/
inductive Value where
  | scalar (s : Scalar)
  | node (id : NodeId)
  | list (id : ListId)
  deriving Inhabited

namespace Value

/-- Equality of values; scalars compare as `Scalar.equal` says. -/
def equal : Value → Value → Bool
  | .scalar a, .scalar b => a == b
  | .node a, .node b => a == b
  | .list a, .list b => a == b
  | _, _ => false

instance : BEq Value := ⟨equal⟩

abbrev undefined : Value := .scalar .undefined

abbrev null : Value := .scalar .null

def ofHandle : Handle → Value
  | .node id => .node id
  | .list id => .list id

/-- The value of a list item, null for a hole. -/
def ofItem : Option NodeId → Value
  | some id => .node id
  | none => .null

def handle? : Value → Option Handle
  | .scalar _ => none
  | .node id => some (.node id)
  | .list id => some (.list id)

def node? : Value → Option NodeId
  | .node id => some id
  | _ => none

def isScalar : Value → Bool
  | .scalar _ => true
  | _ => false

def isAbsent : Value → Bool
  | .scalar s => s.isAbsent
  | _ => false

def string? : Value → Option String
  | .scalar s => s.string?
  | _ => none

def text : Value → String
  | .scalar s => s.text
  | .node id => "[node " ++ toString id.index ++ "]"
  | .list id => "[list " ++ toString id.index ++ "]"

def display : Value → String
  | .scalar s => s.display
  | value => value.text

end Value
end Arbor
