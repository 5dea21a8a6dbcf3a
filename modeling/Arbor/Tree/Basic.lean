import Arbor.Catalogue.Basic
import Arbor.Json.Basic

/-! # Trees

A tree is a store of nodes and lists of one catalogue. A node has a slot for each field of its type;
the slot of a list field holds a list that belongs to the field for good. Nodes know where they are
held, and nothing is ever taken out of the store, so a node that is held nowhere stays usable. A list
that belongs to no field is free: it refers to nodes without holding them.

Nodes and lists carry identities from one counter, which are never used twice. -/

namespace Arbor

structure Node where
  uid : Nat
  type : TypeId
  /-- The node or list that holds this node. -/
  parent : Option Handle
  /-- What each field holds; undefined where nothing is assigned. -/
  slots : List Value
  /-- Members beyond the fields of the type, kept as they came. -/
  metadata : Record Json

/-- A list of a tree, with holes where an item is missing. -/
structure NodeList where
  uid : Nat
  /-- The node the list belongs to, and the place of the field. -/
  owner : Option (NodeId × Nat)
  items : List (Option NodeId)

/-- The place of a value in what holds it. -/
inductive Key where
  | field (name : String)
  | index (n : Nat)
  deriving DecidableEq

def Key.text : Key → String
  | .field name => name
  | .index n => toString n

/-- A store of nodes and lists. -/
structure Tree (catalogue : Catalogue) where
  nodes : Array Node
  lists : Array NodeList
  /-- The identity the next node or list gets. The counter is unbounded here; one of 64 bits says the
  same until it has given out 2 ^ 64 identities. -/
  nextUid : Nat

namespace Tree

variable {catalogue : Catalogue}

/-- The tree without nodes whose identities start at the given number. -/
def empty (catalogue : Catalogue) (firstUid : Nat) : Tree catalogue := ⟨#[], #[], firstUid⟩

def size (tree : Tree catalogue) : Nat := tree.nodes.size + tree.lists.size

def node? (tree : Tree catalogue) (id : NodeId) : Option Node := tree.nodes[id.index]?

def list? (tree : Tree catalogue) (id : ListId) : Option NodeList := tree.lists[id.index]?

/-- All nodes, in the order in which they were made. -/
def nodeIds (tree : Tree catalogue) : List NodeId := (List.range tree.nodes.size).map NodeId.mk

def typeOf (tree : Tree catalogue) (id : NodeId) : TypeId :=
  ((tree.node? id).map (·.type)).getD ⟨0⟩

def typeName (tree : Tree catalogue) (id : NodeId) : String := catalogue.typeName (tree.typeOf id)

def fields (tree : Tree catalogue) (id : NodeId) : List Field :=
  ((catalogue.type? (tree.typeOf id)).map (·.fields)).getD []

def slots (tree : Tree catalogue) (id : NodeId) : List Value :=
  ((tree.node? id).map (·.slots)).getD []

def metadata (tree : Tree catalogue) (id : NodeId) : Record Json :=
  ((tree.node? id).map (·.metadata)).getD []

def items (tree : Tree catalogue) (id : ListId) : List (Option NodeId) :=
  ((tree.list? id).map (·.items)).getD []

def owner? (tree : Tree catalogue) (id : ListId) : Option (NodeId × Nat) :=
  (tree.list? id).bind (·.owner)

def uid (tree : Tree catalogue) : Handle → Nat
  | .node id => ((tree.node? id).map (·.uid)).getD 0
  | .list id => ((tree.list? id).map (·.uid)).getD 0

/-- The node or list that holds another. -/
def parent? (tree : Tree catalogue) : Handle → Option Handle
  | .node id => (tree.node? id).bind (·.parent)
  | .list id => (tree.owner? id).map fun owner => .node owner.1

/-- What holds a node or list, what holds that, and so on, up to the given number of steps. -/
def ancestorsUpTo (tree : Tree catalogue) : Nat → Handle → List Handle
  | 0, _ => []
  | bound + 1, handle =>
    match tree.parent? handle with
    | some parent => parent :: tree.ancestorsUpTo bound parent
    | none => []

/-- What holds a node or list, innermost first. A tree has no more levels than nodes and lists. -/
def ancestors (tree : Tree catalogue) (handle : Handle) : List Handle :=
  tree.ancestorsUpTo tree.size handle

/-- The innermost node that holds a node or list, lists in between not counted. -/
def parentNode? (tree : Tree catalogue) (handle : Handle) : Option NodeId :=
  (tree.ancestors handle).findSome? (·.node?)

/-- The outermost node or list that holds another, or itself. -/
def root (tree : Tree catalogue) (handle : Handle) : Handle :=
  (tree.ancestors handle).getLastD handle

/-- The first is the second, or holds it at some level. -/
def isAncestorOrSelf (tree : Tree catalogue) (ancestor handle : Handle) : Bool :=
  handle == ancestor || (tree.ancestors handle).contains ancestor

end Tree

/-- What a field reads as when its slot holds the given value. -/
def Field.read (field : Field) : Value → Value
  | .scalar .undefined => .scalar field.default
  | value => value

namespace Tree

variable {catalogue : Catalogue}

/-- The fields of a node beside what they read as. -/
def readings (tree : Tree catalogue) (id : NodeId) : List (Field × Value) :=
  ((tree.fields id).zip (tree.slots id)).map fun (field, value) => (field, field.read value)

/-- The first field of a node that reads as the given value. -/
def fieldOf? (tree : Tree catalogue) (id : NodeId) (value : Value) : Option String :=
  ((tree.readings id).find? fun (_, read) => read == value).map (·.1.name)

def position? (tree : Tree catalogue) (id : ListId) (item : Option NodeId) : Option Nat :=
  (tree.items id).idxOf? item

def indexOf? (tree : Tree catalogue) (parent : Handle) (value : Value) : Option Key :=
  match parent, value with
  | .node id, value => (tree.fieldOf? id value).map .field
  | .list id, .node item => (tree.position? id (some item)).map .index
  | .list id, .scalar .null => (tree.position? id none).map .index
  | .list _, _ => none

/-- The place of a node or list in what holds it. -/
def keyOf? (tree : Tree catalogue) : Handle → Option Key
  | .node id => (tree.parent? (.node id)).bind fun parent => tree.indexOf? parent (.node id)
  | .list id => (tree.owner? id).bind fun (owner, place) =>
    ((tree.fields owner)[place]?).map fun field => .field field.name

def instanceOf (tree : Tree catalogue) (id : NodeId) (name : String) : Bool :=
  catalogue.isA (tree.typeOf id) name

/-- The name of a list: that of its field, or just a list when it is free. -/
def listName (tree : Tree catalogue) (id : ListId) : String :=
  match tree.owner? id with
  | none => "List"
  | some (owner, place) =>
    match catalogue.type? (tree.typeOf owner), (tree.fields owner)[place]? with
    | some type, some field => type.listName field.name
    | _, _ => "List"

/-- A short text for a value: nodes and lists by name and identity, scalars as displayed. -/
def describe (tree : Tree catalogue) : Value → String
  | .node id => tree.typeName id ++ " #" ++ toString (tree.uid (.node id))
  | .list id => tree.listName id ++ " #" ++ toString (tree.uid (.list id))
  | .scalar s => s.display

/-- The values directly below a node or list, with their keys. -/
def children (tree : Tree catalogue) : Handle → List (Value × Key)
  | .node id => (tree.readings id).map fun (field, value) => (value, .field field.name)
  | .list id => (tree.items id).mapIdx fun n item => (.ofItem item, .index n)

/-- The item of a list at a place: null for a hole, undefined past the end. -/
def item (tree : Tree catalogue) (id : ListId) (n : Nat) : Value :=
  match (tree.items id)[n]? with
  | some item => .ofItem item
  | none => .undefined

end Tree
end Arbor
