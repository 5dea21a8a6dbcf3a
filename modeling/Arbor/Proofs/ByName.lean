import Arbor.Proofs.Renumbering

/-! # Catalogues read by name

Types and categories have numbers, but what a catalogue says can be read with names in their place: the
base of a type, what its fields accept, the members of a category, and what is an instance of what. Two
catalogues of which one is the other with its types renumbered read the same. -/

namespace Arbor

/-- What an entry accepts, with names for numbers. -/
inductive NamedAccept where
  | type (name : String)
  | category (name : String)
  | primitive (kind : PrimitiveKind)
  | literal (scalar : Scalar)
  | null
  | undefined

/-- A field, with names for numbers. -/
structure NamedField where
  name : String
  kind : FieldKind
  accepts : List NamedAccept
  label : String
  default : Scalar

/-- What a catalogue says of a type, with names for numbers. -/
structure NamedType where
  base : Option String
  isAbstract : Bool
  fields : List NamedField

namespace Catalogue

section Reading

variable (catalogue : Catalogue)

def categoryName (id : CategoryId) : String := ((catalogue.category? id).map (·.name)).getD ""

/-- The entry with names for numbers. -/
def nameAccept : Accept → NamedAccept
  | .type id => .type (catalogue.typeName id)
  | .category id => .category (catalogue.categoryName id)
  | .primitive kind => .primitive kind
  | .literal scalar => .literal scalar
  | .null => .null
  | .undefined => .undefined

/-- The field with names for numbers. -/
def nameField (field : Field) : NamedField :=
  ⟨field.name, field.kind, field.accepts.map catalogue.nameAccept, field.label, field.default⟩

def namedType? (name : String) : Option NamedType :=
  ((catalogue.typeId? name).bind catalogue.type?).map fun type =>
    ⟨type.base.map catalogue.typeName, type.isAbstract, type.fields.map catalogue.nameField⟩

def namedMembers? (name : String) : Option (List String) :=
  ((catalogue.categoryId? name).bind catalogue.category?).map fun category =>
    category.members.map catalogue.typeName

/-- Whether the type of the first name has the type or satisfies the category of the second; none if one
of the names is not known. -/
def namedIsA? (type name : String) : Option Bool :=
  (catalogue.typeId? type).bind fun id => catalogue.isA? id name

/-- A type and all it extends, innermost first. -/
def lineage (id : TypeId) : List TypeId := id :: catalogue.ancestors id

/-- A type comes after its base. -/
def Grounded : Prop := ∀ id base, catalogue.base? id = some base → base.index < id.index

end Reading

/-- The catalogues have the same names and say the same about them. -/
structure AgreesByName (first second : Catalogue) : Prop where
  typeNames : (first.types.toList.map (·.name)).Perm (second.types.toList.map (·.name))
  categoryNames : first.categories.toList.map (·.name) = second.categories.toList.map (·.name)
  types : ∀ name, first.namedType? name = second.namedType? name
  members : ∀ name, first.namedMembers? name = second.namedMembers? name
  isA : ∀ type name, first.namedIsA? type name = second.namedIsA? type name

/-- The second catalogue is the first with its types renumbered. -/
structure Renumbered (number : TypeId → TypeId) (first second : Catalogue) : Prop where
  injective : Function.Injective number
  type? : ∀ id, second.type? (number id) = (first.type? id).map (NodeType.renumber number)
  typeId? : ∀ name, second.typeId? name = (first.typeId? name).map number
  categories : second.categories = first.categories.map (Category.renumber number)
  grounded : first.Grounded
  otherGrounded : second.Grounded

/-- The two walks along bases take the same way: one finds what the other collects. -/
theorem instanceUpTo_eq_contains (catalogue : Catalogue) (test : TypeId) (bound : Nat) (id : TypeId) :
    catalogue.instanceUpTo test bound id = (id :: catalogue.ancestorsUpTo bound id).contains test := by
  induction bound generalizing id with
  | zero =>
    rw [instanceUpTo, ancestorsUpTo, List.contains_cons, List.contains_nil, Bool.or_false]
    exact BEq.comm
  | succ bound ih =>
    rw [instanceUpTo, ancestorsUpTo, List.contains_cons, show (test == id) = (id == test) from BEq.comm]
    cases id == test with
    | true => rfl
    | false =>
      cases catalogue.base? id with
      | none => rfl
      | some base => exact ih base

/-- The instances of a type are the types whose lineage has it. -/
theorem instanceOf_eq_contains (catalogue : Catalogue) (type test : TypeId) :
    catalogue.instanceOf type test = (catalogue.lineage type).contains test :=
  catalogue.instanceUpTo_eq_contains test type.index type

/-- The bound on a walk along bases does not show beyond the number of the type. -/
theorem Grounded.ancestorsUpTo_eq {catalogue : Catalogue} (grounded : catalogue.Grounded) {id : TypeId}
    {bound more : Nat} (enough : id.index ≤ bound) (enoughMore : id.index ≤ more) :
    catalogue.ancestorsUpTo bound id = catalogue.ancestorsUpTo more id := by
  induction bound generalizing id more with
  | zero =>
    have noBase : catalogue.base? id = none := by
      rw [Option.eq_none_iff_forall_ne_some]
      intro base isBase
      have less := grounded id base isBase
      omega
    cases more with
    | zero => rfl
    | succ more => rw [ancestorsUpTo, ancestorsUpTo, noBase]
  | succ bound ih =>
    cases isBase : catalogue.base? id with
    | none => cases more <;> simp [ancestorsUpTo, isBase]
    | some base =>
      have less := grounded id base isBase
      cases more with
      | zero => omega
      | succ more =>
        rw [ancestorsUpTo, ancestorsUpTo, isBase]
        exact congrArg (base :: ·) (ih (by omega) (by omega))

namespace Renumbered

variable {number : TypeId → TypeId} {first second : Catalogue}
  (renumbered : Renumbered number first second)
include renumbered

theorem typeName (id : TypeId) : second.typeName (number id) = first.typeName id := by
  rw [Catalogue.typeName, renumbered.type?, Option.map_map, Catalogue.typeName]
  rfl

theorem category? (id : CategoryId) :
    second.category? id = (first.category? id).map (Category.renumber number) := by
  rw [Catalogue.category?, renumbered.categories, Array.getElem?_map, Catalogue.category?]

theorem categoryId? (name : String) : second.categoryId? name = first.categoryId? name := by
  rw [Catalogue.categoryId?, renumbered.categories, Array.findIdx?_map, Catalogue.categoryId?]
  rfl

theorem base? (id : TypeId) : second.base? (number id) = (first.base? id).map number := by
  rw [Catalogue.base?, renumbered.type?, Catalogue.base?]
  cases first.type? id <;> rfl

theorem nameField (field : Field) : second.nameField (field.renumber number) = first.nameField field := by
  have nameAccept (entry : Accept) :
      second.nameAccept (entry.renumber number) = first.nameAccept entry := by
    cases entry with
    | type id => rw [Accept.renumber, Catalogue.nameAccept, renumbered.typeName, Catalogue.nameAccept]
    | category id =>
      rw [Accept.renumber, Catalogue.nameAccept, categoryName, renumbered.category?, Option.map_map,
        Catalogue.nameAccept, categoryName]
      rfl
    | primitive | literal | null | undefined => rfl
  rw [Catalogue.nameField, Catalogue.nameField, Field.renumber]
  simp only [List.map_map, Function.comp_def, nameAccept]

theorem namedType? (name : String) : first.namedType? name = second.namedType? name := by
  rw [Catalogue.namedType?, Catalogue.namedType?, renumbered.typeId?]
  cases first.typeId? name with
  | none => rfl
  | some id =>
    rw [Option.map_some, Option.bind_some, Option.bind_some, renumbered.type?]
    cases first.type? id with
    | none => rfl
    | some type =>
      simp only [Option.map_some, NodeType.renumber, Option.map_map, List.map_map, Function.comp_def,
        renumbered.typeName, renumbered.nameField]

theorem namedMembers? (name : String) : first.namedMembers? name = second.namedMembers? name := by
  rw [Catalogue.namedMembers?, Catalogue.namedMembers?, renumbered.categoryId?]
  cases first.categoryId? name with
  | none => rfl
  | some id =>
    rw [Option.bind_some, Option.bind_some, renumbered.category?]
    cases first.category? id with
    | none => rfl
    | some category =>
      simp only [Option.map_some, Category.renumber, List.map_map, Function.comp_def,
        renumbered.typeName]

theorem ancestorsUpTo (bound : Nat) (id : TypeId) :
    second.ancestorsUpTo bound (number id) = (first.ancestorsUpTo bound id).map number := by
  induction bound generalizing id with
  | zero => rfl
  | succ bound ih =>
    rw [Catalogue.ancestorsUpTo, Catalogue.ancestorsUpTo, renumbered.base?]
    cases first.base? id with
    | none => rfl
    | some base => exact congrArg (number base :: ·) (ih base)

theorem lineage (id : TypeId) : second.lineage (number id) = (first.lineage id).map number := by
  refine congrArg (number id :: ·) ?_
  calc second.ancestors (number id)
      = second.ancestorsUpTo (max id.index (number id).index) (number id) :=
        renumbered.otherGrounded.ancestorsUpTo_eq (Nat.le_refl _) (by omega)
    _ = (first.ancestorsUpTo (max id.index (number id).index) id).map number :=
        renumbered.ancestorsUpTo _ id
    _ = (first.ancestors id).map number :=
        congrArg (List.map number) (renumbered.grounded.ancestorsUpTo_eq (by omega) (Nat.le_refl _))

theorem instanceOf (type test : TypeId) :
    second.instanceOf (number type) (number test) = first.instanceOf type test := by
  rw [instanceOf_eq_contains, instanceOf_eq_contains, renumbered.lineage, Bool.eq_iff_iff,
    List.contains_iff_mem, List.contains_iff_mem, List.mem_map_of_injective renumbered.injective]

theorem satisfies (type : TypeId) (category : CategoryId) :
    second.satisfies (number type) category = first.satisfies type category := by
  rw [Catalogue.satisfies, Catalogue.satisfies, renumbered.category?]
  cases first.category? category with
  | none => rfl
  | some category =>
    simp only [Option.map_some, Option.getD_some, Category.renumber, List.any_map, Function.comp_def,
      renumbered.instanceOf]

theorem namedIsA? (type name : String) : first.namedIsA? type name = second.namedIsA? type name := by
  rw [Catalogue.namedIsA?, Catalogue.namedIsA?, renumbered.typeId?]
  cases first.typeId? type with
  | none => rfl
  | some id =>
    rw [Option.map_some, Option.bind_some, Option.bind_some, isA?, isA?, renumbered.typeId?,
      renumbered.categoryId?]
    cases first.typeId? name with
    | some test =>
      simp only [Option.map_some]
      rw [renumbered.instanceOf]
    | none =>
      simp only [Option.map_none]
      rw [show second.satisfies (number id) = first.satisfies id from funext (renumbered.satisfies id)]

theorem agreesByName
    (names : (first.types.toList.map (·.name)).Perm (second.types.toList.map (·.name))) :
    first.AgreesByName second where
  typeNames := names
  categoryNames := by
    rw [renumbered.categories, Array.toList_map, List.map_map]
    rfl
  types := renumbered.namedType?
  members := renumbered.namedMembers?
  isA := renumbered.namedIsA?

end Renumbered
end Catalogue
end Arbor
