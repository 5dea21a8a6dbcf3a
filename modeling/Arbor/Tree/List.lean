import Arbor.Tree.Field

/-! # Lists and their items

A list that belongs to a field checks every item it gets and holds its nodes: a node that is put in
leaves the place that held it, and one that is taken out is held nowhere. A free list takes any items
and holds none of them. -/

namespace Arbor.Tree

variable {catalogue : Catalogue}

def createList (tree : Tree catalogue) : ListId × Tree catalogue := tree.allocList none

def isOwned (tree : Tree catalogue) (id : ListId) : Bool := (tree.owner? id).isSome

def length (tree : Tree catalogue) (id : ListId) : Nat := (tree.items id).length

def ownerField? (tree : Tree catalogue) (id : ListId) : Option Field :=
  (tree.owner? id).bind fun (owner, place) => (tree.fields owner)[place]?

def listLabel (tree : Tree catalogue) (id : ListId) : String :=
  match tree.ownerField? id with
  | some field => field.label
  | none => "Node or null"

/-- The item a value makes: nodes and null can be items. -/
def listItem (tree : Tree catalogue) (id : ListId) : Value → Except TreeError (Option NodeId)
  | .node node => .ok (some node)
  | .scalar .null => .ok none
  | value =>
    .error (.invalidListItem (tree.describe (.list id)) (tree.describe value) (tree.listLabel id))

def admitsItem (tree : Tree catalogue) (field : Field) : Option NodeId → Bool
  | none => field.admitsNull
  | some node => catalogue.admitsNode field (tree.typeOf node)

def checkItem (tree : Tree catalogue) (id : ListId) (item : Option NodeId) :
    Except TreeError Unit :=
  match tree.ownerField? id with
  | none => .ok ()
  | some field =>
    if tree.admitsItem field item then
      match item with
      | some node => tree.checkAcyclic node (.list id)
      | none => .ok ()
    else
      .error (.invalidListItem (tree.listName id) (tree.describe (.ofItem item)) field.label)

/-- Refuse items of which one is not accepted, for the first such. -/
def checkItems (tree : Tree catalogue) (id : ListId) :
    List (Option NodeId) → Except TreeError Unit
  | [] => .ok ()
  | item :: rest =>
    match tree.checkItem id item with
    | .error error => .error error
    | .ok () => tree.checkItems id rest

/-- The items without the repetitions of a node; holes may repeat. `seen` holds nodes before. -/
def distinctItems (seen : List NodeId) : List (Option NodeId) → List (Option NodeId)
  | [] => []
  | none :: rest => none :: distinctItems seen rest
  | some node :: rest =>
    if seen.contains node then distinctItems seen rest
    else some node :: distinctItems (node :: seen) rest

def itemNodes (items : List (Option NodeId)) : List NodeId := items.filterMap id

def insertAt (tree : Tree catalogue) (id : ListId) (place : Nat) (items : List (Option NodeId)) :
    Tree catalogue :=
  tree.setItems id ((tree.items id).take place ++ items ++ (tree.items id).drop place)

/-- Take a node that a list is to get out of what holds it. `place` is where the list is to get it:
one place earlier when the node leaves this list from before it. -/
def fetch (tree : Tree catalogue) (id : ListId) (place : Nat) (node : NodeId) :
    Nat × Tree catalogue :=
  if tree.parent? (.node node) = some (.list id) then
    match tree.position? id (some node) with
    | some n =>
      (if n < place then place - 1 else place,
        (tree.setItems id ((tree.items id).eraseIdx n)).setParent none node)
    | none => (place, tree.setParent none node)
  else (place, tree.detach node)

/-- Take nodes that a list is to get out of what holds them, one after the other. -/
def fetchAll (tree : Tree catalogue) (id : ListId) (place : Nat) :
    List NodeId → Nat × Tree catalogue
  | [] => (place, tree)
  | node :: rest =>
    let (place, tree) := tree.fetch id place node
    tree.fetchAll id place rest

/-- Replace the items from `start` up to `stop` of a list that belongs to a field. The nodes put in
leave their former places, this list included. -/
def replaceOwned (tree : Tree catalogue) (id : ListId) (start stop : Nat)
    (items : List (Option NodeId)) : Tree catalogue :=
  let held := tree.items id
  let nodes := itemNodes items
  let tree := tree.setItems id (held.take start ++ held.drop stop)
  let tree := (itemNodes ((held.take stop).drop start)).foldl (setParent · none) tree
  let (place, tree) := tree.fetchAll id start nodes
  (nodes.foldl (setParent · (some (.list id))) tree).insertAt id place items

/-- Replace the items from `start` up to `stop` of a free list. -/
def replaceFree (tree : Tree catalogue) (id : ListId) (start stop : Nat)
    (items : List (Option NodeId)) : Tree catalogue :=
  let held := tree.items id
  tree.setItems id (held.take start ++ items ++ held.drop stop)

/-- The largest place that can be asked for. -/
def lastPlace : Nat := 18446744073709551615

/-- The place `n` further on, or the last one there is. No list is longer than that: its length is in
the limit only so that it need not be assumed. -/
def furtherOn (length place n : Nat) : Nat := min (place + n) (max lastPlace length)

@[simp] theorem min_furtherOn (length place n : Nat) :
    min (furtherOn length place n) length = min (place + n) length := by
  rw [furtherOn]
  omega

/-- Take out `delete` items from `start` on and put others in their place; returns those taken out.
Places past the end count as the end. -/
def splice (tree : Tree catalogue) (id : ListId) (start delete : Nat)
    (items : List (Option NodeId)) : Except TreeError (List (Option NodeId) × Tree catalogue) :=
  let held := tree.items id
  let start := min start held.length
  let stop := min (furtherOn held.length start delete) held.length
  let removed := (held.take stop).drop start
  if tree.isOwned id then
    let items := distinctItems [] items
    match tree.checkItems id items with
    | .error error => .error error
    | .ok () => .ok (removed, tree.replaceOwned id start stop items)
  else .ok (removed, tree.replaceFree id start stop items)

/-- Put items at the end; returns the new length. -/
def append (tree : Tree catalogue) (id : ListId) (items : List (Option NodeId)) :
    Except TreeError (Nat × Tree catalogue) :=
  match tree.splice id (tree.length id) 0 items with
  | .error error => .error error
  | .ok (_, tree) => .ok (tree.length id, tree)

/-- Put one value at the end; returns the new length. -/
def push (tree : Tree catalogue) (id : ListId) (value : Value) :
    Except TreeError (Nat × Tree catalogue) :=
  match tree.listItem id value with
  | .error error => .error error
  | .ok item => tree.append id [item]

/-- Put one value at the start; returns the new length. -/
def unshift (tree : Tree catalogue) (id : ListId) (value : Value) :
    Except TreeError (Nat × Tree catalogue) :=
  match tree.listItem id value with
  | .error error => .error error
  | .ok item =>
    match tree.splice id 0 0 [item] with
    | .error error => .error error
    | .ok (_, tree) => .ok (tree.length id, tree)

/-- Take out the item at a place, if there is one. -/
def take (tree : Tree catalogue) (id : ListId) (place : Nat) :
    Option (Option NodeId) × Tree catalogue :=
  match (tree.items id)[place]? with
  | none => (none, tree)
  | some item =>
    let rest := tree.setItems id ((tree.items id).eraseIdx place)
    match item with
    | some node => (some item, if tree.isOwned id then rest.setParent none node else rest)
    | none => (some item, rest)

def pop (tree : Tree catalogue) (id : ListId) : Option (Option NodeId) × Tree catalogue :=
  tree.take id (tree.length id - 1)

def shift (tree : Tree catalogue) (id : ListId) : Option (Option NodeId) × Tree catalogue :=
  tree.take id 0

def clear (tree : Tree catalogue) (id : ListId) : List (Option NodeId) × Tree catalogue :=
  let held := tree.items id
  let rest := tree.setItems id []
  (held, if tree.isOwned id then (itemNodes held).foldl (setParent · none) rest else rest)

/-- One end of a range of places. -/
inductive Bound where
  | included (n : Nat)
  | excluded (n : Nat)
  | unbounded

/-- The first place of a range that starts at the bound, in a list of the given length. -/
def Bound.first (length : Nat) (bound : Bound) : Nat :=
  let place := match bound with
    | .included n => n
    | .excluded n => furtherOn length n 1
    | .unbounded => 0
  min place length

/-- The nearest place from `low` to `high`. -/
def clamp (low high place : Nat) : Nat :=
  if place < low then low else if high < place then high else place

/-- The place after a range that starts at a place of a list of the given length and ends at the
bound. -/
def Bound.stop (length start : Nat) (bound : Bound) : Nat :=
  let place := match bound with
    | .included n => furtherOn length n 1
    | .excluded n => n
    | .unbounded => length
  clamp start length place

def createListOf (tree : Tree catalogue) (items : List (Option NodeId)) :
    ListId × Tree catalogue :=
  let (id, tree) := tree.createList
  (id, tree.setItems id items)

def slice (tree : Tree catalogue) (id : ListId) (start stop : Bound) : ListId × Tree catalogue :=
  let held := tree.items id
  let first := start.first held.length
  tree.createListOf ((held.take (stop.stop held.length first)).drop first)

/-- Make a free list of the items a test of item and place accepts. -/
def filter (tree : Tree catalogue) (id : ListId) (keep : Option NodeId → Nat → Bool) :
    ListId × Tree catalogue :=
  tree.createListOf (((tree.items id).zipIdx.filter fun (item, n) => keep item n).map (·.1))

/-- The items of a list with their places, from last to first. -/
def valuesRight (tree : Tree catalogue) (id : ListId) : List (Nat × Value) :=
  ((tree.items id).zipIdx.map fun (item, n) => (n, .ofItem item)).reverse

/-- Take a node out of the given parent; tells whether it was held there. -/
def removeChild (tree : Tree catalogue) (parent : Handle) (child : NodeId) :
    Bool × Tree catalogue :=
  match parent with
  | .node id =>
    match tree.slotOf? id child with
    | none => (false, tree)
    | some place => (true, (tree.setSlotValue id place .undefined).setParent none child)
  | .list id =>
    match tree.position? id (some child) with
    | none => (false, tree)
    | some place =>
      match tree.splice id place 1 [] with
      | .ok (_, tree) => (true, tree)
      | .error _ => (false, tree)

/-- Put a value where the given parent holds a node; tells whether it was held there. -/
def replaceChild (tree : Tree catalogue) (parent : Handle) (child : NodeId) (value : Value) :
    Except TreeError (Bool × Tree catalogue) :=
  match parent with
  | .node id =>
    match tree.slotOf? id child with
    | none => .ok (false, tree)
    | some place => (tree.setSlot id place value).map (true, ·)
  | .list id =>
    match tree.position? id (some child) with
    | none => .ok (false, tree)
    | some place =>
      match tree.listItem id value with
      | .error error => .error error
      | .ok item => (tree.splice id place 1 [item]).map fun (_, tree) => (true, tree)

end Arbor.Tree
