import Arbor.Text.Uppercase
import Arbor.Value

/-! # Catalogues

A compiled catalogue of node types. Types are numbered in the order of their declaration, after the
root type that all others extend; a type comes after its base. A type has the fields of its base and
its own, and each field says what it accepts. A category is a list of types; a type satisfies it by
extending one of them. -/

namespace Arbor

/-- The number of a type in its catalogue. It is unbounded here; 32 bits say the same for catalogues
of fewer than 2 ^ 32 types. -/
structure TypeId where
  index : Nat
  deriving DecidableEq

/-- The number of a category in its catalogue, unbounded like that of a type: 32 bits say the same for
catalogues of fewer than 2 ^ 32 categories. -/
structure CategoryId where
  index : Nat
  deriving DecidableEq

/-- What a field holds. -/
inductive FieldKind where
  /-- At most one node. -/
  | node
  /-- A list of nodes, which belongs to the field for good. -/
  | list
  /-- A scalar of one of the accepted kinds. -/
  | native
  /-- One of the accepted literals. -/
  | strict
  deriving DecidableEq

/-- One entry of what a field accepts. -/
inductive Accept where
  | type (id : TypeId)
  | category (id : CategoryId)
  | primitive (kind : PrimitiveKind)
  | literal (scalar : Scalar)
  | null
  | undefined

structure Field where
  name : String
  kind : FieldKind
  accepts : List Accept
  /-- The written form of what the field accepts. -/
  label : String
  /-- What the field reads as while nothing is assigned. -/
  default : Scalar

structure NodeType where
  name : String
  base : Option TypeId
  isAbstract : Bool
  /-- The fields of the base first, each as the most specific type declares it. -/
  fields : List Field

structure Category where
  name : String
  members : List TypeId

structure Catalogue where
  name : String
  types : Array NodeType
  categories : Array Category

/-- The name of the type that all others extend. -/
def rootTypeName : String := "Node"

namespace Accept

def isNull : Accept → Bool
  | .null => true
  | _ => false

def isNode : Accept → Bool
  | .type _ => true
  | .category _ => true
  | _ => false

def isPrimitive : Accept → Bool
  | .primitive _ => true
  | _ => false

/-- The entry accepts the scalar, which is present. -/
def admitsPresent (scalar : Scalar) : Accept → Bool
  | .primitive kind => scalar.kind? == some kind
  | .literal expected => expected == scalar
  | _ => false

end Accept

namespace Field

def admitsNull (field : Field) : Bool := field.accepts.any Accept.isNull

/-- The scalar may be assigned, to a field that holds scalars. -/
def admitsScalar (field : Field) : Scalar → Bool
  | .null => field.admitsNull
  | .undefined => true
  | scalar => field.accepts.any (·.admitsPresent scalar)

/-- The value may be assigned, to a field that holds scalars. -/
def admitsValue (field : Field) : Value → Bool
  | .scalar scalar => field.admitsScalar scalar
  | _ => false

end Field

namespace NodeType

def fieldIndex? (type : NodeType) (name : String) : Option Nat :=
  type.fields.findIdx? (·.name == name)

def field? (type : NodeType) (name : String) : Option Field :=
  type.fields.find? (·.name == name)

/-- The name of the list of a field: the names of the type and the field, run together. -/
def listName (type : NodeType) (field : String) : String :=
  match field.toList with
  | [] => type.name
  | first :: rest => type.name ++ String.ofList (Text.uppercase first ++ rest)

end NodeType

namespace Catalogue

variable (catalogue : Catalogue)

def type? (id : TypeId) : Option NodeType := catalogue.types[id.index]?

def category? (id : CategoryId) : Option Category := catalogue.categories[id.index]?

def typeId? (name : String) : Option TypeId :=
  (catalogue.types.findIdx? (·.name == name)).map TypeId.mk

def categoryId? (name : String) : Option CategoryId :=
  (catalogue.categories.findIdx? (·.name == name)).map CategoryId.mk

def base? (id : TypeId) : Option TypeId := (catalogue.type? id).bind (·.base)

def typeName (id : TypeId) : String := ((catalogue.type? id).map (·.name)).getD ""

/-- What a type extends, innermost first, along the given number of bases. -/
def ancestorsUpTo : Nat → TypeId → List TypeId
  | 0, _ => []
  | bound + 1, id =>
    match catalogue.base? id with
    | some base => base :: ancestorsUpTo bound base
    | none => []

/-- All a type extends, innermost first. Bases come before the types that extend them, so the number
of the type bounds the walk. -/
def ancestors (id : TypeId) : List TypeId := catalogue.ancestorsUpTo id.index id

/-- The type is the other or extends it along the given number of bases. -/
def instanceUpTo (test : TypeId) : Nat → TypeId → Bool
  | 0, id => id == test
  | bound + 1, id =>
    if id == test then true
    else match catalogue.base? id with
      | some base => instanceUpTo test bound base
      | none => false

/-- The type is the other or extends it. -/
def instanceOf (type test : TypeId) : Bool := catalogue.instanceUpTo test type.index type

def satisfies (type : TypeId) (category : CategoryId) : Bool :=
  ((catalogue.category? category).map (·.members)).getD [] |>.any (catalogue.instanceOf type)

/-- The type has the type or satisfies the category of the given name; none if there is neither. -/
def isA? (type : TypeId) (name : String) : Option Bool :=
  match catalogue.typeId? name with
  | some test => some (catalogue.instanceOf type test)
  | none => (catalogue.categoryId? name).map (catalogue.satisfies type)

def isA (type : TypeId) (name : String) : Bool := catalogue.isA? type name == some true

def knows (name : String) : Bool :=
  (catalogue.typeId? name).isSome || (catalogue.categoryId? name).isSome

def knownNames : List String :=
  (catalogue.types.map (·.name)).toList ++ (catalogue.categories.map (·.name)).toList

def admitsEntry (type : TypeId) : Accept → Bool
  | .type test => catalogue.instanceOf type test
  | .category category => catalogue.satisfies type category
  | _ => false

def admitsNode (field : Field) (type : TypeId) : Bool :=
  field.accepts.any (catalogue.admitsEntry type)

end Catalogue
end Arbor
