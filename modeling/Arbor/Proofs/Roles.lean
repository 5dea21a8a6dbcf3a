import Arbor.Proofs.Candidates
import Arbor.Proofs.SingleOwner
import Arbor.Query.Match

/-! # Identifiers are read or bound, but not both

A role comes from the field an identifier sits in and the type of the node around it. A node sits in one
field only, and no type has a field that gives both roles, whatever categories it belongs to: the value of
a property is read outside object patterns and bound in them. -/

namespace Arbor

theorem RoleTable.exists_of_mem_fields {table : RoleTable} {type field : String}
    (listed : field ∈ table.fields type) : ∃ entry ∈ table, entry.1 = type ∧ field ∈ entry.2 := by
  rw [RoleTable.fields] at listed
  cases found : table.lookup type with
  | none =>
    rw [found] at listed
    contradiction
  | some fields =>
    rw [found] at listed
    obtain ⟨before, after, split, -⟩ := List.lookup_eq_some_iff.mp found
    exact ⟨(type, fields), by simp [split], rfl, listed⟩

/-- An identifier can be read in the field of a node of the type. -/
def Reads (type field : String) : Prop :=
  field ∈ referenceRoles.fields type ∨ type = "MemberExpression" ∧ field = "property"

/-- Where an identifier can be read, neither the type nor a category has it bound. -/
theorem Reads.not_bound {type field : String} (reads : Reads type field) :
    field ∉ declarationRoles.fields type ∧ ∀ entry ∈ categoryDeclarationRoles, field ∉ entry.2 := by
  have apart : ∀ entry ∈ ("MemberExpression", ["property"]) :: referenceRoles, ∀ field ∈ entry.2,
      field ∉ declarationRoles.fields entry.1 ∧
        ∀ other ∈ categoryDeclarationRoles, field ∉ other.2 := by
    decide +kernel
  rcases reads with listed | ⟨rfl, rfl⟩
  · obtain ⟨entry, isEntry, rfl, inEntry⟩ := RoleTable.exists_of_mem_fields listed
    exact apart entry (List.mem_cons_of_mem _ isEntry) field inEntry
  · exact apart _ List.mem_cons_self _ (List.mem_singleton_self _)

namespace Tree

variable {catalogue : Catalogue} {tree : Tree catalogue}

/-- The slot of a node holds another node, itself or in a list. -/
def SitsAt (tree : Tree catalogue) (parent : NodeId) (place : Nat) (child : NodeId) : Prop :=
  (tree.slots parent)[place]? = some (.node child) ∨
    ∃ l, (tree.slots parent)[place]? = some (.list l) ∧ some child ∈ tree.items l

/-- A node sits in one slot only. -/
theorem Owned.sitsAt_unique (owned : tree.Owned) {parent child : NodeId} {first second : Nat}
    (inFirst : tree.SitsAt parent first child) (inSecond : tree.SitsAt parent second child) :
    first = second := by
  have inList {place : Nat} {l : ListId} (held : (tree.slots parent)[place]? = some (.list l))
      (isItem : some child ∈ tree.items l) : ∃ i, tree.Holds (.item l i) child := by
    obtain ⟨i, found⟩ := List.mem_iff_getElem?.mp isItem
    have isOwned : tree.isOwned l = true := by
      rw [isOwned, owned.owner_iff.mpr held]
      rfl
    exact ⟨i, isOwned, found⟩
  -- One place holds the node, so it is in both slots itself or in the same list, which is in one slot.
  rcases inFirst with held | ⟨l, held, isItem⟩
  · have holds : tree.Holds (.slot parent first) child := held
    rcases inSecond with other | ⟨k, other, isOther⟩
    · have otherHolds : tree.Holds (.slot parent second) child := other
      cases owned.eq_of_holds holds otherHolds
      rfl
    · obtain ⟨j, otherHolds⟩ := inList other isOther
      cases owned.eq_of_holds holds otherHolds
  · obtain ⟨i, holds⟩ := inList held isItem
    rcases inSecond with other | ⟨k, other, isOther⟩
    · have otherHolds : tree.Holds (.slot parent second) child := other
      cases owned.eq_of_holds holds otherHolds
    · obtain ⟨j, otherHolds⟩ := inList other isOther
      cases owned.eq_of_holds holds otherHolds
      have owner := owned.owner_iff.mpr held
      rw [owned.owner_iff.mpr other] at owner
      cases owner
      rfl

/-- What a field holds sits in a slot of that field. -/
theorem exists_of_holds {parent child : NodeId} {name : String}
    (holds : tree.holds parent name child = true) :
    ∃ (i : Nat) (field : Field), (tree.fields parent)[i]? = some field ∧ field.name = name ∧
      tree.SitsAt parent i child := by
  rw [Tree.holds] at holds
  split at holds
  · next held read =>
    obtain rfl := beq_iff_eq.mp holds
    obtain ⟨i, field, value, declared, named, isHeld, isRead⟩ := exists_of_get read
    have isNode := (handle?_read field value (.node held)).mp (by rw [isRead]; rfl)
    rw [handle?_eq_some.mp isNode] at isHeld
    exact ⟨i, field, declared, named, .inl isHeld⟩
  · next l read =>
    obtain ⟨i, field, value, declared, named, isHeld, isRead⟩ := exists_of_get read
    have isList := (handle?_read field value (.list l)).mp (by rw [isRead]; rfl)
    rw [handle?_eq_some.mp isList] at isHeld
    exact ⟨i, field, declared, named, .inr ⟨l, isHeld, List.contains_iff_mem.mp holds⟩⟩
  · contradiction

/-- A node sits in one field only. -/
theorem Owned.eq_of_holds_field (owned : tree.Owned) {parent child : NodeId} {first second : String}
    (inFirst : tree.holds parent first child = true)
    (inSecond : tree.holds parent second child = true) : first = second := by
  obtain ⟨i, field, declared, rfl, sits⟩ := exists_of_holds inFirst
  obtain ⟨j, other, otherDeclared, rfl, otherSits⟩ := exists_of_holds inSecond
  obtain rfl := owned.sitsAt_unique sits otherSits
  rw [declared] at otherDeclared
  cases otherDeclared
  rfl

section Roles

/-- The name that is asked for does not change which node is around an identifier. -/
theorem parentNode?_of_identifierParent? {n parent : NodeId} {name : Option String}
    (found : tree.identifierParent? n name = some parent) :
    tree.parentNode? (.node n) = some parent := by
  rw [identifierParent?.eq_def] at found
  split at found
  · contradiction
  cases name with
  | none => exact found
  | some name =>
    dsimp only at found
    split at found
    · split at found
      · exact found
      · contradiction
    · contradiction

/-- An identifier that is read sits in a field where it can be read, and in no property of a pattern. -/
theorem exists_of_isReference {n : NodeId} {name : Option String}
    (isRead : tree.isReference n name = true) :
    ∃ parent field, tree.parentNode? (.node n) = some parent ∧ tree.holds parent field n = true ∧
      Reads (tree.typeName parent) field ∧
      ¬ (tree.typeName parent = "Property" ∧ tree.inObjectPattern parent = true) := by
  rw [isReference] at isRead
  split at isRead
  · contradiction
  next parent found =>
  have around := parentNode?_of_identifierParent? found
  dsimp only at isRead
  split at isRead
  · next computed =>
    simp only [Bool.and_eq_true, beq_iff_eq] at computed
    obtain ⟨⟨isMember, -⟩, holds⟩ := computed
    refine ⟨parent, "property", around, holds, .inr ⟨isMember, rfl⟩, ?_⟩
    rw [isMember]
    simp
  · split at isRead
    · contradiction
    next noPattern =>
    obtain ⟨field, listed, holds⟩ := List.any_eq_true.mp isRead
    refine ⟨parent, field, around, holds, .inl listed, ?_⟩
    simpa using noPattern

/-- An identifier that is bound sits in a property of a pattern or in a field that binds. -/
theorem exists_of_isDeclaration {n : NodeId} {name : Option String}
    (isBound : tree.isDeclaration n name = true) :
    ∃ parent field, tree.parentNode? (.node n) = some parent ∧ tree.holds parent field n = true ∧
      (tree.typeName parent = "Property" ∧ tree.inObjectPattern parent = true ∨
        field ∈ tree.declaringFields parent) := by
  rw [isDeclaration] at isBound
  split at isBound
  · contradiction
  next parent found =>
  have around := parentNode?_of_identifierParent? found
  split at isBound
  · next isProperty =>
    obtain ⟨inPattern, holds⟩ := Bool.and_eq_true_iff.mp isBound
    exact ⟨parent, "value", around, holds, .inl ⟨beq_iff_eq.mp isProperty, inPattern⟩⟩
  · obtain ⟨field, listed, holds⟩ := List.any_eq_true.mp isBound
    exact ⟨parent, field, around, holds, .inr listed⟩

theorem Reads.not_mem_declaringFields {parent : NodeId} {field : String}
    (reads : Reads (tree.typeName parent) field) : field ∉ tree.declaringFields parent := by
  obtain ⟨notByType, notByCategory⟩ := reads.not_bound
  intro listed
  rcases List.mem_append.mp listed with byType | byCategory
  · exact notByType byType
  · obtain ⟨entry, isEntry, inEntry⟩ := List.mem_flatMap.mp byCategory
    exact notByCategory entry (List.mem_filter.mp isEntry).1 inEntry

/-- No node is both read and bound, whatever names are asked for. -/
theorem reference_excludes_declaration (reachable : tree.Reachable) (n : NodeId)
    (first second : Option String) :
    ¬ (tree.passesPseudo n ⟨"reference", first⟩ = true ∧
      tree.passesPseudo n ⟨"declaration", second⟩ = true) := by
  rintro ⟨isRead, isBound⟩
  obtain ⟨parent, field, around, holds, reads, noPattern⟩ := exists_of_isReference isRead
  obtain ⟨other, otherField, otherAround, otherHolds, binds⟩ := exists_of_isDeclaration isBound
  have sameParent : parent = other := Option.some.inj (around.symm.trans otherAround)
  subst sameParent
  have sameField := reachable.wellFormed.owned.eq_of_holds_field holds otherHolds
  subst sameField
  rcases binds with pattern | listed
  · exact noPattern pattern
  · exact Reads.not_mem_declaringFields reads listed

end Roles

end Tree

/-- A catalogue with identifiers and the declarators that bind one of them and read another. -/
def bindings : Catalogue where
  name := "bindings"
  types := #[⟨"Node", none, true, []⟩,
    ⟨"Identifier", some ⟨0⟩, false, [⟨"name", .native, [.primitive .string], "string", .undefined⟩]⟩,
    ⟨"VariableDeclarator", some ⟨0⟩, false, [⟨"id", .node, [.type ⟨1⟩], "Identifier", .undefined⟩,
      ⟨"init", .node, [.type ⟨1⟩], "Identifier", .undefined⟩]⟩]
  categories := #[]

namespace Tree

/-- A declarator of the first identifier, which starts out as the second. -/
def declarator : Tree bindings :=
  (empty bindings 1).run [.createNode "VariableDeclarator", .createNode "Identifier",
    .createNode "Identifier", .set ⟨1⟩ "name" (.scalar (.string "a")),
    .set ⟨2⟩ "name" (.scalar (.string "a")), .set ⟨0⟩ "id" (.node ⟨1⟩), .set ⟨0⟩ "init" (.node ⟨2⟩)]

/-- Of two identifiers of one name, one is bound and the other is read. -/
theorem reference_excludes_declaration_declarator :
    declarator.Reachable ∧ declarator.passesPseudo ⟨1⟩ ⟨"declaration", some "a"⟩ = true ∧
      declarator.passesPseudo ⟨1⟩ ⟨"reference", none⟩ = false ∧
      declarator.passesPseudo ⟨2⟩ ⟨"reference", some "a"⟩ = true ∧
      declarator.passesPseudo ⟨2⟩ ⟨"declaration", none⟩ = false := by
  have reachable : declarator.Reachable := ⟨1, _, rfl⟩
  have isBound : declarator.passesPseudo ⟨1⟩ ⟨"declaration", some "a"⟩ = true := by decide +kernel
  have isRead : declarator.passesPseudo ⟨2⟩ ⟨"reference", some "a"⟩ = true := by decide +kernel
  refine ⟨reachable, isBound, ?_, isRead, ?_⟩
  · rw [← Bool.not_eq_true]
    exact fun also => reference_excludes_declaration reachable ⟨1⟩ none (some "a") ⟨also, isBound⟩
  · rw [← Bool.not_eq_true]
    exact fun also => reference_excludes_declaration reachable ⟨2⟩ (some "a") none ⟨isRead, also⟩

end Tree

end Arbor
