import Arbor.Tree.Build

/-! # Operations and runs

Everything that can be done to a tree, as data. A run performs operations one after the other, whether
they succeed or not; the trees that runs make from an empty tree are the ones that exist. An operation
that speaks of nodes or lists the tree does not have, or of a type its catalogue does not have, does
nothing. -/

namespace Arbor

/-- Something to do to a tree. -/
inductive Operation where
  | createNode (type : String)
  | createNodeOf (type : TypeId)
  | createList
  | set (node : NodeId) (field : String) (value : Value)
  | detach (node : NodeId)
  | removeChild (parent : Handle) (child : NodeId)
  | replaceChild (parent : Handle) (child : NodeId) (value : Value)
  | splice (list : ListId) (start delete : Nat) (items : List (Option NodeId))
  | push (list : ListId) (value : Value)
  | append (list : ListId) (items : List (Option NodeId))
  | unshift (list : ListId) (value : Value)
  | pop (list : ListId)
  | shift (list : ListId)
  | clear (list : ListId)
  | slice (list : ListId) (start stop : Tree.Bound)
  | filter (list : ListId) (keep : Option NodeId → Nat → Bool)
  | build (json : Json)
  | parse (text : String)
  | cloneSubtree (handle : Handle)
  | setMetadata (node : NodeId) (metadata : Record Json)
  /-- Go on with a copy of the whole tree. -/
  | copy

inductive Answer where
  | done
  | value (value : Value)
  | flag (held : Bool)
  | count (n : Nat)
  | items (items : List (Option NodeId))
  /-- The item taken out, if there was one. -/
  | taken (item : Option (Option NodeId))

namespace Operation

variable {catalogue : Catalogue}

/-- What an action answers, and the tree it leaves. -/
def outcome {α : Type} (tree : Tree catalogue) (answer : α → Answer) (action : Action catalogue α) :
    Except TreeError Answer × Tree catalogue :=
  ((action tree).1.map answer, (action tree).2)

def perform (tree : Tree catalogue) : Operation → Except TreeError Answer × Tree catalogue
  | .createNode type => outcome tree (.value ∘ .node) (Tree.makeNode type)
  | .createNodeOf type => outcome tree (.value ∘ .node) (Tree.makeNodeOf type)
  | .createList => (.ok (.value (.list tree.createList.1)), tree.createList.2)
  | .set node field value => outcome tree (fun () => .done) (Tree.assign node field value)
  | .detach node => (.ok .done, tree.detach node)
  | .removeChild parent child =>
    (.ok (.flag (tree.removeChild parent child).1), (tree.removeChild parent child).2)
  | .replaceChild parent child value => outcome tree .flag (Tree.exchangeChild parent child value)
  | .splice list start delete items => outcome tree .items (Tree.spliceItems list start delete items)
  | .push list value => outcome tree .count (Tree.pushValue list value)
  | .append list items => outcome tree .count (Tree.appendItems list items)
  | .unshift list value => outcome tree .count (Tree.unshiftValue list value)
  | .pop list => (.ok (.taken (tree.pop list).1), (tree.pop list).2)
  | .shift list => (.ok (.taken (tree.shift list).1), (tree.shift list).2)
  | .clear list => (.ok (.items (tree.clear list).1), (tree.clear list).2)
  | .slice list start stop =>
    (.ok (.value (.list (tree.slice list start stop).1)), (tree.slice list start stop).2)
  | .filter list keep =>
    (.ok (.value (.list (tree.filter list keep).1)), (tree.filter list keep).2)
  | .build json => outcome tree .value (Tree.build json)
  | .parse text => outcome tree .value (Tree.parse text)
  | .cloneSubtree handle => outcome tree .value (Tree.cloneSubtree handle)
  | .setMetadata node metadata => (.ok .done, tree.setMetadata node metadata)
  | .copy => (.ok .done, tree.copy)

end Operation

namespace Tree

variable {catalogue : Catalogue}

def hasNode (tree : Tree catalogue) (id : NodeId) : Bool := id.index < tree.nodes.size

def hasList (tree : Tree catalogue) (id : ListId) : Bool := id.index < tree.lists.size

def hasHandle (tree : Tree catalogue) : Handle → Bool
  | .node id => tree.hasNode id
  | .list id => tree.hasList id

def hasValue (tree : Tree catalogue) (value : Value) : Bool := value.handle?.all tree.hasHandle

def hasItems (tree : Tree catalogue) (items : List (Option NodeId)) : Bool :=
  items.all fun item => item.all tree.hasNode

/-- The tree has all nodes and lists an operation speaks of, and its catalogue the type. -/
def hasOperands (tree : Tree catalogue) : Operation → Bool
  | .createNodeOf type => (catalogue.type? type).isSome
  | .set node _ value => tree.hasNode node && tree.hasValue value
  | .detach node => tree.hasNode node
  | .removeChild parent child => tree.hasHandle parent && tree.hasNode child
  | .replaceChild parent child value =>
    tree.hasHandle parent && tree.hasNode child && tree.hasValue value
  | .splice list _ _ items => tree.hasList list && tree.hasItems items
  | .push list value => tree.hasList list && tree.hasValue value
  | .append list items => tree.hasList list && tree.hasItems items
  | .unshift list value => tree.hasList list && tree.hasValue value
  | .pop list => tree.hasList list
  | .shift list => tree.hasList list
  | .clear list => tree.hasList list
  | .slice list _ _ => tree.hasList list
  | .filter list _ => tree.hasList list
  | .cloneSubtree handle => tree.hasHandle handle
  | .setMetadata node _ => tree.hasNode node
  | _ => true

def step (tree : Tree catalogue) (operation : Operation) : Tree catalogue :=
  if tree.hasOperands operation then (operation.perform tree).2 else tree

def run (tree : Tree catalogue) (operations : List Operation) : Tree catalogue :=
  operations.foldl step tree

/-- The tree is one that operations make from an empty tree. -/
def Reachable (tree : Tree catalogue) : Prop :=
  ∃ firstUid operations, tree = (empty catalogue firstUid).run operations

end Tree
end Arbor
