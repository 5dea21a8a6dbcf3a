import Arbor.Tree.Basic
import Arbor.Tree.Error

/-! # Nodes and their fields

Making nodes, reading and assigning fields, and moving nodes around. Assigning checks the value
against the field, and a node against becoming its own ancestor, before anything changes; a node that
is assigned leaves the place that held it. -/

namespace Arbor.Tree

variable {catalogue : Catalogue}

def modifyNode (tree : Tree catalogue) (id : NodeId) (change : Node → Node) : Tree catalogue :=
  { tree with nodes := tree.nodes.modify id.index change }

def modifyList (tree : Tree catalogue) (id : ListId) (change : NodeList → NodeList) :
    Tree catalogue :=
  { tree with lists := tree.lists.modify id.index change }

def setParent (tree : Tree catalogue) (parent : Option Handle) (id : NodeId) : Tree catalogue :=
  tree.modifyNode id fun node => { node with parent }

def setSlotValue (tree : Tree catalogue) (id : NodeId) (place : Nat) (value : Value) :
    Tree catalogue :=
  tree.modifyNode id fun node => { node with slots := node.slots.set place value }

def setItems (tree : Tree catalogue) (id : ListId) (items : List (Option NodeId)) :
    Tree catalogue :=
  tree.modifyList id fun list => { list with items }

def setMetadata (tree : Tree catalogue) (id : NodeId) (metadata : Record Json) : Tree catalogue :=
  tree.modifyNode id fun node => { node with metadata }

/-- Make an empty list with the given owner. -/
def allocList (tree : Tree catalogue) (owner : Option (NodeId × Nat)) : ListId × Tree catalogue :=
  (⟨tree.lists.size⟩,
    { tree with lists := tree.lists.push ⟨tree.nextUid, owner, []⟩, nextUid := tree.nextUid + 1 })

/-- Make the slots of a new node, and the lists of its list fields. `place` numbers the first of the
fields. -/
def allocSlots (tree : Tree catalogue) (id : NodeId) (place : Nat) :
    List Field → List Value × Tree catalogue
  | [] => ([], tree)
  | field :: rest =>
    if field.kind = .list then
      let (list, tree) := tree.allocList (some (id, place))
      let (slots, tree) := tree.allocSlots id (place + 1) rest
      (.list list :: slots, tree)
    else
      let (slots, tree) := tree.allocSlots id (place + 1) rest
      (.undefined :: slots, tree)

/-- Make a node of the given type, held nowhere and with nothing assigned. -/
def allocNode (tree : Tree catalogue) (type : TypeId) (fields : List Field) :
    NodeId × Tree catalogue :=
  let id : NodeId := ⟨tree.nodes.size⟩
  let node : Node := ⟨tree.nextUid, type, none, [], []⟩
  let tree := { tree with nodes := tree.nodes.push node, nextUid := tree.nextUid + 1 }
  let (slots, tree) := tree.allocSlots id 0 fields
  (id, tree.modifyNode id fun node => { node with slots })

/-- The type of the given number, unless it is abstract. -/
def concreteAt (catalogue : Catalogue) (id : TypeId) : Except TreeError (TypeId × NodeType) :=
  match catalogue.type? id with
  | none => .error (.missingType "" none)
  | some type => if type.isAbstract then .error (.abstractType type.name) else .ok (id, type)

/-- The concrete type of the given name. -/
def concreteType (catalogue : Catalogue) (name : String) : Except TreeError (TypeId × NodeType) :=
  match catalogue.typeId? name with
  | none => .error (.missingType name (Text.closest? name catalogue.knownNames))
  | some id => concreteAt catalogue id

/-- Make a node of a type, unless the type was refused. -/
def createFound (tree : Tree catalogue) (found : Except TreeError (TypeId × NodeType)) :
    Except TreeError (NodeId × Tree catalogue) :=
  found.map fun (id, type) => tree.allocNode id type.fields

def createNodeOf (tree : Tree catalogue) (type : TypeId) :
    Except TreeError (NodeId × Tree catalogue) :=
  tree.createFound (concreteAt catalogue type)

def createNode (tree : Tree catalogue) (name : String) :
    Except TreeError (NodeId × Tree catalogue) :=
  tree.createFound (concreteType catalogue name)

def fieldPlace (tree : Tree catalogue) (id : NodeId) (name : String) : Except TreeError Nat :=
  match (tree.fields id).findIdx? (·.name == name) with
  | some place => .ok place
  | none => .error (.unknownField (tree.typeName id) name)

/-- What a field reads as. -/
def get (tree : Tree catalogue) (id : NodeId) (name : String) : Except TreeError Value :=
  match (tree.readings id).find? fun (field, _) => field.name == name with
  | some (_, value) => .ok value
  | none => .error (.unknownField (tree.typeName id) name)

def child (tree : Tree catalogue) (id : NodeId) (name : String) :
    Except TreeError (Option NodeId) :=
  (tree.get id name).map (·.node?)

def list (tree : Tree catalogue) (id : NodeId) (name : String) : Except TreeError ListId :=
  match tree.get id name with
  | .ok (.list list) => .ok list
  | .ok _ => .error (.notAList (tree.typeName id) name)
  | .error error => .error error

/-- The slots with the first that holds the node cleared. -/
def releaseSlot (child : NodeId) : List Value → List Value
  | [] => []
  | value :: rest =>
    if value.node? = some child then .undefined :: rest else value :: releaseSlot child rest

/-- Take a node out of what holds it. -/
def detach (tree : Tree catalogue) (id : NodeId) : Tree catalogue :=
  match tree.parent? (.node id) with
  | none => tree
  | some (.node owner) =>
    (tree.setParent none id).modifyNode owner fun node =>
      { node with slots := releaseSlot id node.slots }
  | some (.list list) =>
    (tree.setParent none id).modifyList list fun entry =>
      { entry with items := entry.items.erase (some id) }

/-- Refuse to put a node under what it holds itself. -/
def checkAcyclic (tree : Tree catalogue) (child : NodeId) (parent : Handle) :
    Except TreeError Unit :=
  if tree.isAncestorOrSelf (.node child) parent then
    .error (.cycle (tree.describe (.node child)) (tree.describe (.ofHandle parent)))
  else .ok ()

/-- The value may be assigned to the field, which is no list field. -/
def admits (tree : Tree catalogue) (field : Field) (value : Value) : Bool :=
  match field.kind, value with
  | .list, _ => false
  | .node, .scalar .undefined => true
  | .node, .scalar .null => field.admitsNull
  | .node, .node child => catalogue.admitsNode field (tree.typeOf child)
  | .node, _ => false
  | _, value => field.admitsValue value

/-- Refuse a value the field does not accept. -/
def checkSlot (tree : Tree catalogue) (id : NodeId) (field : Field) (value : Value) :
    Except TreeError Unit :=
  if field.kind = .list then .error (.listField (tree.typeName id) field.name)
  else if tree.admits field value then .ok ()
  else .error (.invalidValue (tree.typeName id) field.name (tree.describe value) field.label)

/-- Refuse a value the field at a place does not accept. -/
def checkPlace (tree : Tree catalogue) (id : NodeId) (place : Nat) (value : Value) :
    Except TreeError Unit :=
  match (tree.fields id)[place]? with
  | none => .error (.unknownField (tree.typeName id) "")
  | some field => tree.checkSlot id field value

/-- Put a scalar into a slot; a node it held is then held nowhere. -/
def putScalar (tree : Tree catalogue) (id : NodeId) (place : Nat) (value : Value) :
    Tree catalogue :=
  let previous := (tree.slots id)[place]?.bind (·.node?)
  let tree := tree.setSlotValue id place value
  match previous with
  | some previous => tree.setParent none previous
  | none => tree

/-- Put a node into a slot, out of the place that held it. -/
def putNode (tree : Tree catalogue) (id : NodeId) (place : Nat) (child : NodeId) :
    Tree catalogue :=
  ((tree.detach child).putScalar id place (.node child)).setParent (some (.node id)) child

def setSlot (tree : Tree catalogue) (id : NodeId) (place : Nat) (value : Value) :
    Except TreeError (Tree catalogue) :=
  match tree.checkPlace id place value with
  | .error error => .error error
  | .ok () =>
    match value with
    | .node child =>
      match tree.checkAcyclic child (.node id) with
      | .error error => .error error
      | .ok () => .ok (tree.putNode id place child)
    | value => .ok (tree.putScalar id place value)

def set (tree : Tree catalogue) (id : NodeId) (name : String) (value : Value) :
    Except TreeError (Tree catalogue) :=
  match tree.fieldPlace id name with
  | .error error => .error error
  | .ok place => tree.setSlot id place value

def slotOf? (tree : Tree catalogue) (id child : NodeId) : Option Nat :=
  (tree.slots id).findIdx? fun value => value.node? == some child

/-- Make a copy of the whole tree under identities of its own. -/
def copy (tree : Tree catalogue) : Tree catalogue :=
  { nodes := tree.nodes.mapIdx fun n node => { node with uid := tree.nextUid + n }
    lists := tree.lists.mapIdx fun n list =>
      { list with uid := tree.nextUid + tree.nodes.size + n }
    nextUid := tree.nextUid + tree.size }

end Arbor.Tree
