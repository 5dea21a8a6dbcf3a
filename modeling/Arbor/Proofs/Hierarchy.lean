import Arbor.Proofs.Inheritance

/-! # The hierarchy of types

Whatever is declared, and whichever declarations are rejected, a type is accepted only under a base that is
there already. So bases have lower numbers than what extends them, every walk along bases ends at the root
type, and to extend is a partial order. What a category, a name or a field asks of a type, it asks of its
lineage, so it holds of all that extends a type once it holds of the type. -/

namespace Arbor

/-- The type or category of the entry is among the given numbers of them. -/
def Accept.Within (types categories : Nat) : Accept → Prop
  | .type id => id.index < types
  | .category id => id.index < categories
  | _ => True

namespace Draft

/-- The numbers that names refer to are below the given ones. -/
structure Scope.Bounded (scope : Scope) (types categories : Nat) : Prop where
  types : ∀ name id, scope.types.get? name = some id → id.index < types
  categories : ∀ name id, scope.categories.get? name = some id → id.index < categories

private theorem exists_lt_of_get?_numbered {α : Type} {number : Nat → α} {names : List String}
    {name : String} {id : α} (found : (numbered number names).get? name = some id) :
    ∃ place < names.length, id = number place := by
  rw [get?_numbered, Option.map_eq_some_iff] at found
  obtain ⟨place, isPlace, rfl⟩ := found
  exact ⟨place, (List.findIdx?_eq_some_iff_getElem.mp isPlace).1, rfl⟩

theorem Indexed.bounded_scope {draft : Draft} (indexed : draft.Indexed) :
    draft.scope.Bounded draft.types.size draft.categories.length := by
  constructor
  · intro name id found
    change draft.index.get? name = some id at found
    rw [indexed] at found
    obtain ⟨place, less, rfl⟩ := exists_lt_of_get?_numbered found
    simpa [typeNames] using less
  · intro name id found
    obtain ⟨place, less, rfl⟩ := exists_lt_of_get?_numbered found
    simpa using less

section Within

variable {scope : Scope} {types categories : Nat} (bounded : scope.Bounded types categories)
include bounded

theorem Scope.Bounded.accept? {name : String} {entry : Accept} (found : scope.accept? name = some entry) :
    entry.Within types categories := by
  rw [Scope.accept?.eq_def] at found
  split at found
  · cases found
    trivial
  · cases found
    trivial
  split at found
  · cases found
    trivial
  split at found
  · next id isType =>
    cases found
    exact bounded.types name id isType
  · obtain ⟨id, isCategory, rfl⟩ := Option.map_eq_some_iff.mp found
    exact bounded.categories name id isCategory

theorem Scope.Bounded.accepts {type field : String} {names : List String} {entries : List Accept}
    (resolved : scope.accepts type field names = .ok entries) :
    ∀ entry ∈ entries, entry.Within types categories := by
  induction names generalizing entries with
  | nil =>
    cases resolved
    exact fun _ isEntry => absurd isEntry List.not_mem_nil
  | cons name rest ih =>
    rw [Scope.accepts] at resolved
    split at resolved
    · contradiction
    next first isFirst =>
    cases others : scope.accepts type field rest with
    | error error =>
      rw [others] at resolved
      contradiction
    | ok more =>
      rw [others] at resolved
      cases resolved
      intro entry isEntry
      obtain rfl | isMore := List.mem_cons.mp isEntry
      · exact bounded.accept? isFirst
      · exact ih others entry isMore

theorem Scope.Bounded.compileField {type : String} {decl : FieldDecl} {field : Field}
    (compiled : Draft.compileField scope type decl = .ok field) :
    ∀ entry ∈ field.accepts, entry.Within types categories := by
  obtain ⟨entries, kind, default, resolved, -, rfl⟩ := compileField_eq_ok compiled
  intro entry isEntry
  obtain isResolved | isLiteral := List.mem_append.mp isEntry
  · exact bounded.accepts resolved entry isResolved
  · obtain ⟨literal, -, rfl⟩ := List.mem_map.mp isLiteral
    trivial

theorem Scope.Bounded.compileMembers {category : String} {names : List String} {members : List TypeId}
    (resolved : Draft.compileMembers scope category names = .ok members) :
    ∀ member ∈ members, member.index < types := by
  induction names generalizing members with
  | nil =>
    cases resolved
    exact fun _ isMember => absurd isMember List.not_mem_nil
  | cons name rest ih =>
    rw [Draft.compileMembers] at resolved
    split at resolved
    · contradiction
    next id isType =>
    cases others : Draft.compileMembers scope category rest with
    | error error =>
      rw [others] at resolved
      contradiction
    | ok more =>
      rw [others] at resolved
      cases resolved
      intro member isMember
      obtain rfl | isMore := List.mem_cons.mp isMember
      · exact bounded.types name _ isType
      · exact ih others member isMore

end Within

/-- The categories have names of their own, and members below the given number. -/
structure Scope.Fits (scope : Scope) (types : Nat) (categories : Array Category) : Prop where
  distinct : (categories.toList.map (·.name)).Nodup
  apart : ∀ category ∈ categories, category.name ∉ scope.types.keys
  members : ∀ category ∈ categories, ∀ member ∈ category.members, member.index < types

theorem Scope.fits_empty (scope : Scope) (types : Nat) : scope.Fits types #[] :=
  ⟨List.nodup_nil, fun _ isOne => absurd isOne (Array.not_mem_empty _),
    fun _ isOne => absurd isOne (Array.not_mem_empty _)⟩

theorem Scope.Fits.push {scope : Scope} {types : Nat} {categories : Array Category}
    (fits : scope.Fits types categories) {category : Category}
    (new : category.name ∉ categories.toList.map (·.name)) (apart : category.name ∉ scope.types.keys)
    (members : ∀ member ∈ category.members, member.index < types) :
    scope.Fits types (categories.push category) := by
  constructor
  · rw [Array.toList_push, List.map_append, List.map_singleton, ← List.concat_eq_append]
    exact List.Nodup.concat new fits.distinct
  · intro other isOther
    obtain old | rfl := Array.mem_push.mp isOther
    · exact fits.apart other old
    · exact apart
  · intro other isOther
    obtain old | rfl := Array.mem_push.mp isOther
    · exact fits.members other old
    · exact members

theorem Scope.Fits.compileCategories {scope : Scope} {types number : Nat}
    (bounded : scope.Bounded types number) {start categories : Array Category}
    {decls : List (String × List String)} (fits : scope.Fits types start)
    (compiled : Draft.compileCategories scope start decls = .ok categories) :
    scope.Fits types categories ∧
      categories.toList.map (·.name) = start.toList.map (·.name) ++ decls.map (·.1) := by
  induction decls generalizing start with
  | nil =>
    cases compiled
    exact ⟨fits, (List.append_nil _).symm⟩
  | cons decl rest ih =>
    obtain ⟨name, names⟩ := decl
    rw [Draft.compileCategories] at compiled
    split at compiled
    · contradiction
    next fresh =>
    split at compiled
    · contradiction
    next members resolved =>
    rw [Bool.or_eq_true, not_or] at fresh
    obtain ⟨apart, new⟩ := fresh
    have new : name ∉ start.toList.map (·.name) := by
      intro again
      obtain ⟨other, isOther, same⟩ := List.mem_map.mp again
      exact new (Array.any_eq_true'.mpr ⟨other, Array.mem_toList_iff.mp isOther, beq_iff_eq.mpr same⟩)
    have apart : name ∉ scope.types.keys := mt Record.contains_iff.mpr apart
    obtain ⟨fitsAll, names⟩ := ih (fits.push new apart (bounded.compileMembers resolved)) compiled
    refine ⟨fitsAll, ?_⟩
    rw [names, Array.toList_push, List.map_append, List.append_assoc]
    rfl

end Draft

namespace Catalogue

/-- The numbers and names of a catalogue fit together. -/
structure Consistent (catalogue : Catalogue) : Prop where
  grounded : catalogue.Grounded
  based : ∀ id type, catalogue.type? id = some type → (type.base = none ↔ id = ⟨0⟩)
  root : (catalogue.type? ⟨0⟩).map (·.name) = some rootTypeName
  typeId : ∀ name id, catalogue.typeId? name = some id ↔
    (catalogue.type? id).map (·.name) = some name
  categoryId : ∀ name id, catalogue.categoryId? name = some id ↔
    (catalogue.category? id).map (·.name) = some name
  apart : ∀ name, catalogue.typeId? name = none ∨ catalogue.categoryId? name = none
  bases : ∀ id type base, catalogue.type? id = some type → type.base = some base →
    base.index < catalogue.types.size
  members : ∀ id category, catalogue.category? id = some category →
    ∀ member ∈ category.members, member.index < catalogue.types.size
  accepts : ∀ id type, catalogue.type? id = some type → ∀ field ∈ type.fields,
    ∀ entry ∈ field.accepts, entry.Within catalogue.types.size catalogue.categories.size

end Catalogue

namespace Draft

section Compiled

variable {draft : Draft} (made : draft.Made) {catalogue : Catalogue}
  (compiled : draft.compile = .ok catalogue)
include made compiled

theorem Made.typeNames_eq : catalogue.types.toList.map (·.name) = draft.typeNames := by
  rw [map_name_of_compiles (made.follow compiled).1, typeNames]

theorem Made.size_types : catalogue.types.size = draft.types.size := by
  have sameNames := congrArg List.length (made.typeNames_eq compiled)
  simpa [typeNames] using sameNames

theorem Made.fits : draft.scope.Fits draft.types.size catalogue.categories ∧
    catalogue.categories.toList.map (·.name) = draft.categories.map (·.1) :=
  (draft.scope.fits_empty _).compileCategories made.indexed.bounded_scope (compile_eq_ok_iff.mp compiled).1

theorem Made.size_categories : catalogue.categories.size = draft.categories.length := by
  have sameNames := congrArg List.length (made.fits compiled).2
  simpa using sameNames

/-- A search through the names of the catalogue finds what its declarations referred to: the types in the
index of the draft, and the categories under the numbers of their places. -/
theorem Made.lookups_agree (name : String) :
    catalogue.typeId? name = draft.scope.types.get? name ∧
      catalogue.categoryId? name = draft.scope.categories.get? name := by
  constructor
  · rw [Catalogue.typeId?_eq_idxOf?, made.typeNames_eq compiled]
    exact (made.indexed.get? name).symm
  · rw [Catalogue.categoryId?_eq_idxOf?, (made.fits compiled).2]
    exact (get?_numbered CategoryId.mk _ name).symm

/-- Every field of a type is compiled from some declaration, in the type or in one it extends. -/
theorem Made.exists_compileField {id : TypeId} {type : NodeType} (found : catalogue.type? id = some type)
    {field : Field} (isField : field ∈ type.fields) :
    ∃ name decl, compileField draft.scope name decl = .ok field := by
  have distinct := Catalogue.Compiled.nodup_fields ⟨draft, made, compiled⟩ found
  -- Names are different, so the field is the one its name leads to, and that has a nearest declaration.
  have known : (type.field? field.name).isSome := by
    rw [NodeType.field?, List.find?_isSome]
    exact ⟨field, isField, beq_self_eq_true _⟩
  obtain ⟨other, isOther⟩ := Option.isSome_iff_exists.mp known
  have sameName := List.find?_some isOther
  have same : other = field :=
    List.inj_on_of_nodup_map distinct (List.mem_of_find?_eq_some isOther) isField (beq_iff_eq.mp sameName)
  have nearest := made.map_nearest? compiled field.name id type found
  rw [isOther, same, Option.map_some, Option.map_eq_some_iff] at nearest
  obtain ⟨⟨name, decl⟩, -, isCompiled⟩ := nearest
  exact ⟨name, decl, isCompiled⟩

theorem Made.based {id : TypeId} {type : NodeType} (found : catalogue.type? id = some type) :
    type.base = none ↔ id = ⟨0⟩ := by
  obtain ⟨entry, isEntry, compiles⟩ := made.exists_entry compiled found
  rw [compiles.base]
  constructor
  · intro noBase
    by_contra other
    obtain ⟨base, isBase, -⟩ := made.rooted.based id entry isEntry other
    rw [noBase] at isBase
    contradiction
  · rintro rfl
    cases made.rooted.root.symm.trans isEntry
    rfl

theorem Made.root : (catalogue.type? ⟨0⟩).map (·.name) = some rootTypeName := by
  rw [Catalogue.type?, ← Array.getElem?_toList, ← List.getElem?_map, made.typeNames_eq compiled, typeNames,
    List.getElem?_map, Array.getElem?_toList]
  exact congrArg (Option.map (·.name)) made.rooted.root

/-- A name of a type is not one of a category. -/
theorem Made.apart (name : String) :
    catalogue.typeId? name = none ∨ catalogue.categoryId? name = none := by
  obtain ⟨fits, -⟩ := made.fits compiled
  cases isCategory : catalogue.categoryId? name with
  | none => exact .inr rfl
  | some id =>
    have isNamed := (Catalogue.categoryId?_eq_some_iff fits.distinct).mp isCategory
    obtain ⟨category, found, rfl⟩ := Option.map_eq_some_iff.mp isNamed
    rw [(made.lookups_agree compiled category.name).1, Record.get?_eq_none_iff]
    exact .inl (fits.apart category (Array.mem_of_getElem? found))

/-- What compiles is consistent. -/
theorem Made.consistent : catalogue.Consistent where
  grounded := (made.follow compiled).2
  based _ _ := made.based compiled
  root := made.root compiled
  typeId _ _ := Catalogue.typeId?_eq_some_iff (Catalogue.Compiled.nodup_typeNames ⟨draft, made, compiled⟩)
  categoryId _ _ := Catalogue.categoryId?_eq_some_iff (made.fits compiled).1.distinct
  apart := made.apart compiled
  bases := by
    intro id type base found isBase
    obtain ⟨parent, isParent⟩ := made.exists_base compiled found isBase
    exact (Array.getElem?_eq_some_iff.mp isParent).1
  members := by
    intro id category found
    rw [made.size_types compiled]
    exact (made.fits compiled).1.members category (Array.mem_of_getElem? found)
  accepts := by
    intro id type found field isField
    obtain ⟨name, decl, isCompiled⟩ := made.exists_compileField compiled found isField
    rw [made.size_types compiled, made.size_categories compiled]
    exact made.indexed.bounded_scope.compileField isCompiled

end Compiled

end Draft

namespace Catalogue

section Order

variable {catalogue : Catalogue} (grounded : catalogue.Grounded)

theorem instanceOf_iff_ancestors (type test : TypeId) :
    catalogue.instanceOf type test = true ↔ test = type ∨ test ∈ catalogue.ancestors type := by
  rw [instanceOf_eq_contains, List.contains_iff_mem, lineage, List.mem_cons]

include grounded

/-- Numbers fall along bases. -/
theorem Grounded.index_le {type test : TypeId} (chain : Relation.ReflTransGen catalogue.Extends type test) :
    test.index ≤ type.index := by
  induction chain using Relation.ReflTransGen.head_induction_on with
  | refl => exact Nat.le_refl _
  | @head type base isBase _ ih =>
    have less := grounded type base isBase
    omega

theorem Grounded.instanceOf_refl (type : TypeId) : catalogue.instanceOf type type = true :=
  grounded.instanceOf_iff.mpr .refl

theorem Grounded.instanceOf_trans {type middle test : TypeId}
    (first : catalogue.instanceOf type middle = true) (second : catalogue.instanceOf middle test = true) :
    catalogue.instanceOf type test = true :=
  grounded.instanceOf_iff.mpr ((grounded.instanceOf_iff.mp first).trans (grounded.instanceOf_iff.mp second))

theorem Grounded.instanceOf_antisymm {type test : TypeId}
    (forth : catalogue.instanceOf type test = true) (back : catalogue.instanceOf test type = true) :
    type = test := by
  have below := grounded.index_le (grounded.instanceOf_iff.mp forth)
  have above := grounded.index_le (grounded.instanceOf_iff.mp back)
  exact congrArg TypeId.mk (Nat.le_antisymm above below)

variable {type test : TypeId} (isInstance : catalogue.instanceOf type test = true)
include isInstance

theorem Grounded.satisfies_of_instanceOf {category : CategoryId}
    (satisfied : catalogue.satisfies test category = true) : catalogue.satisfies type category = true := by
  rw [satisfies, List.any_eq_true] at satisfied ⊢
  obtain ⟨member, isMember, below⟩ := satisfied
  exact ⟨member, isMember, grounded.instanceOf_trans isInstance below⟩

theorem Grounded.isA?_of_instanceOf {name : String} (isA : catalogue.isA? test name = some true) :
    catalogue.isA? type name = some true := by
  rw [isA?] at isA ⊢
  cases isType : catalogue.typeId? name with
  | some other =>
    rw [isType] at isA
    have below : catalogue.instanceOf test other = true := Option.some.inj isA
    exact congrArg some (grounded.instanceOf_trans isInstance below)
  | none =>
    rw [isType] at isA
    obtain ⟨category, isCategory, satisfied⟩ := Option.map_eq_some_iff.mp isA
    exact Option.map_eq_some_iff.mpr
      ⟨category, isCategory, grounded.satisfies_of_instanceOf isInstance satisfied⟩

theorem Grounded.admitsNode_of_instanceOf {field : Field}
    (admitted : catalogue.admitsNode field test = true) : catalogue.admitsNode field type = true := by
  rw [admitsNode, List.any_eq_true] at admitted ⊢
  obtain ⟨entry, isEntry, admits⟩ := admitted
  refine ⟨entry, isEntry, ?_⟩
  cases entry with
  | type other => exact grounded.instanceOf_trans isInstance admits
  | category category => exact grounded.satisfies_of_instanceOf isInstance admits
  | primitive | literal | null | undefined => contradiction

end Order

/-- The root type is above every type. -/
theorem Consistent.instanceOf_root {catalogue : Catalogue} (consistent : catalogue.Consistent)
    {id : TypeId} (inRange : id.index < catalogue.types.size) :
    catalogue.instanceOf id ⟨0⟩ = true := by
  rw [consistent.grounded.instanceOf_iff]
  induction id using consistent.grounded.induction with
  | step id ih =>
    have found : catalogue.type? id = some _ := Array.getElem?_eq_getElem inRange
    cases isBase : (catalogue.types[id.index]).base with
    | none => rw [(consistent.based id _ found).mp isBase]
    | some base =>
      have isExtension : catalogue.Extends id base := (base?_eq found).trans isBase
      exact .head isExtension (ih base isExtension (consistent.bases id _ base found isBase))

end Catalogue

/-- In a catalogue compiled from any declarations, numbers and names fit together, to be an instance is a
partial order below the root type that follows the ancestors, and what accepts a type accepts all that extends
it. -/
theorem Catalogue.types_form_hierarchy {name : String} {declarations : List Draft.Declaration}
    {catalogue : Catalogue}
    (compiled : ((Draft.new name).declareAll declarations).compile = .ok catalogue) :
    catalogue.Consistent ∧
    (∀ t, catalogue.instanceOf t t = true) ∧
    (∀ t u v, catalogue.instanceOf t u = true → catalogue.instanceOf u v = true →
      catalogue.instanceOf t v = true) ∧
    (∀ t u, catalogue.instanceOf t u = true → catalogue.instanceOf u t = true → t = u) ∧
    (∀ t : TypeId, t.index < catalogue.types.size → catalogue.instanceOf t ⟨0⟩ = true) ∧
    (∀ t, catalogue.ancestors t =
      ((catalogue.base? t).map fun base => base :: catalogue.ancestors base).getD []) ∧
    (∀ t u, catalogue.instanceOf t u = true ↔ u = t ∨ u ∈ catalogue.ancestors t) ∧
    ∀ t u, catalogue.instanceOf t u = true →
      u.index ≤ t.index ∧
      (∀ category, catalogue.satisfies u category = true → catalogue.satisfies t category = true) ∧
      (∀ name, catalogue.isA? u name = some true → catalogue.isA? t name = some true) ∧
      ∀ field, catalogue.admitsNode field u = true → catalogue.admitsNode field t = true := by
  have consistent := (Draft.made_new_declareAll name declarations).consistent compiled
  have grounded := consistent.grounded
  refine ⟨consistent, grounded.instanceOf_refl, fun t u v => grounded.instanceOf_trans,
    fun t u => grounded.instanceOf_antisymm, fun t => consistent.instanceOf_root, grounded.ancestors_eq,
    instanceOf_iff_ancestors, fun t u isInstance => ⟨?_, ?_, ?_, ?_⟩⟩
  · exact grounded.index_le (grounded.instanceOf_iff.mp isInstance)
  · exact fun category => grounded.satisfies_of_instanceOf isInstance
  · exact fun name => grounded.isA?_of_instanceOf isInstance
  · exact fun field => grounded.admitsNode_of_instanceOf isInstance

/-- The bud is a piece since the leaf is one, and the root type is none. -/
theorem Catalogue.types_form_hierarchy_budding :
    ((Draft.new "wood").declareAll Draft.budding).compile = .ok Draft.budded ∧
    Draft.budded.Consistent ∧
    Draft.budded.instanceOf ⟨3⟩ ⟨1⟩ = true ∧ Draft.budded.instanceOf ⟨1⟩ ⟨3⟩ = false ∧
    Draft.budded.ancestors ⟨3⟩ = [⟨2⟩, ⟨1⟩, ⟨0⟩] ∧
    Draft.budded.isA? ⟨1⟩ "Piece" = some true ∧ Draft.budded.isA? ⟨3⟩ "Piece" = some true ∧
    Draft.budded.isA? ⟨0⟩ "Piece" = some false := by
  obtain ⟨consistent, -, -, -, -, -, -, closed⟩ := Catalogue.types_form_hierarchy Draft.compile_budding
  have isInstance : Draft.budded.instanceOf ⟨3⟩ ⟨1⟩ = true := by decide
  obtain ⟨-, -, isA, -⟩ := closed ⟨3⟩ ⟨1⟩ isInstance
  have isPiece : Draft.budded.isA? ⟨1⟩ "Piece" = some true := by decide +kernel
  exact ⟨Draft.compile_budding, consistent, isInstance, by decide, by decide, isPiece, isA "Piece" isPiece,
    by decide +kernel⟩

end Arbor
