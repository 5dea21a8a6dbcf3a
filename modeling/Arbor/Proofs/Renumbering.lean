import Arbor.Proofs.Compiled

/-! # Compiling under other numbers

Names are resolved to numbers, and nothing else that is compiled depends on what the numbers are. So where
two scopes give a name different numbers, but have the same names, what is compiled in the second is what
is compiled in the first with its types renumbered; and where compiling fails in one it fails in the
other, though the name it suggests may differ. -/

namespace Arbor

/-- The entry with its types renumbered. Categories keep their numbers. -/
def Accept.renumber (number : TypeId → TypeId) : Accept → Accept
  | .type id => .type (number id)
  | .category id => .category id
  | .primitive kind => .primitive kind
  | .literal scalar => .literal scalar
  | .null => .null
  | .undefined => .undefined

def Field.renumber (number : TypeId → TypeId) (field : Field) : Field :=
  { field with accepts := field.accepts.map (Accept.renumber number) }

def NodeType.renumber (number : TypeId → TypeId) (type : NodeType) : NodeType :=
  { type with base := type.base.map number, fields := type.fields.map (Field.renumber number) }

def Category.renumber (number : TypeId → TypeId) (category : Category) : Category :=
  { category with members := category.members.map number }

variable (number : TypeId → TypeId)

theorem Accept.any_renumber {test : Accept → Bool}
    (same : ∀ entry : Accept, test (entry.renumber number) = test entry) (entries : List Accept) :
    (entries.map (Accept.renumber number)).any test = entries.any test := by
  rw [List.any_map, show test ∘ Accept.renumber number = test from funext same]

theorem Field.admitsNull_renumber (field : Field) :
    (field.renumber number).admitsNull = field.admitsNull :=
  Accept.any_renumber number (fun entry => by cases entry <;> rfl) field.accepts

theorem Field.admitsScalar_renumber (field : Field) (scalar : Scalar) :
    (field.renumber number).admitsScalar scalar = field.admitsScalar scalar := by
  have present (scalar : Scalar) : (field.renumber number).accepts.any (·.admitsPresent scalar) =
      field.accepts.any (·.admitsPresent scalar) :=
    Accept.any_renumber number (fun entry => by cases entry <;> rfl) field.accepts
  cases scalar with
  | null => exact field.admitsNull_renumber number
  | undefined => rfl
  | boolean | number | string | regex => exact present _

namespace Draft

private theorem fieldKind_renumber (type : String) (decl : FieldDecl) (entries : List Accept) :
    fieldKind type decl (entries.map (Accept.renumber number)) = fieldKind type decl entries := by
  rw [fieldKind, Accept.any_renumber number (fun entry => by cases entry <;> rfl),
    Accept.any_renumber number (fun entry => by cases entry <;> rfl), fieldKind]

private theorem impliedDefault_renumber (field : Field) :
    impliedDefault (field.renumber number) = impliedDefault field := by
  rw [impliedDefault, impliedDefault, field.admitsNull_renumber number]
  obtain ⟨name, kind, accepts, label, default⟩ := field
  rcases accepts with _ | ⟨entry, _ | ⟨next, rest⟩⟩
  · rfl
  · cases kind <;> cases entry <;> rfl
  · cases entry with
    | primitive scalarKind => cases kind <;> cases scalarKind <;> rfl
    | type | category | literal | null | undefined => cases kind <;> rfl

private theorem withDefault_renumber (type : String) (decl : FieldDecl) (field : Field) :
    withDefault type decl (field.renumber number) =
      (withDefault type decl field).map (Field.renumber number) := by
  rw [withDefault, withDefault]
  cases decl.default with
  | none =>
    rw [impliedDefault_renumber]
    rfl
  | some literal =>
    have sameKind : (field.renumber number).kind = field.kind := rfl
    simp only [field.admitsScalar_renumber number, sameKind]
    split <;> rfl

private theorem overlay_renumber (field : Field) (fields : List Field) :
    overlay (field.renumber number) (fields.map (Field.renumber number)) =
      (overlay field fields).map (Field.renumber number) := by
  induction fields with
  | nil => rfl
  | cons other rest ih =>
    rw [List.map_cons, overlay, overlay, ih]
    show (if other.name == field.name then _ else _) = _
    split <;> rfl

/-- Both fail, or both succeed and the second gives the image of what the first gives. -/
def Likewise {α β : Type} (image : α → β) (first : Except CatalogueError α)
    (second : Except CatalogueError β) : Prop :=
  (∃ a, first = .ok a ∧ second = .ok (image a)) ∨ ∃ error other, first = .error error ∧ second = .error other

/-- To compare what is done with two results, compare it where both succeed and where both fail. -/
@[elab_as_elim]
theorem Likewise.elim {α β : Type} {image : α → β}
    {motive : Except CatalogueError α → Except CatalogueError β → Prop}
    {first : Except CatalogueError α} {second : Except CatalogueError β}
    (likewise : Likewise image first second) (ok : ∀ a, motive (.ok a) (.ok (image a)))
    (error : ∀ error other, motive (.error error) (.error other)) : motive first second := by
  rcases likewise with ⟨a, rfl, rfl⟩ | ⟨inFirst, inSecond, rfl, rfl⟩
  · exact ok a
  · exact error inFirst inSecond

theorem Likewise.eq_ok {α β : Type} {image : α → β} {first : Except CatalogueError α}
    {second : Except CatalogueError β} (likewise : Likewise image first second) {a : α}
    (done : first = .ok a) : second = .ok (image a) := by
  rcases likewise with ⟨b, rfl, rfl⟩ | ⟨error, other, rfl, rfl⟩
  · cases done
    rfl
  · contradiction

theorem Likewise.refused {α β : Type} {image : α → β} (error other : CatalogueError) :
    Likewise image (.error error) (.error other) :=
  .inr ⟨error, other, rfl, rfl⟩

/-- The scopes have the same names, with the types renumbered from the first to the second. -/
structure Scope.Renumbered (first second : Scope) : Prop where
  types : ∀ name, second.types.get? name = (first.types.get? name).map number
  categories : second.categories = first.categories

variable {number} {first second : Scope} (renumbered : first.Renumbered number second)
include renumbered

namespace Scope.Renumbered

theorem accept? (name : String) :
    second.accept? name = (first.accept? name).map (Accept.renumber number) := by
  rw [Scope.accept?.eq_def, Scope.accept?.eq_def]
  split
  · rfl
  · rfl
  · cases PrimitiveKind.ofName? name with
    | some kind => rfl
    | none =>
      dsimp only
      rw [renumbered.types, renumbered.categories]
      cases first.types.get? name with
      | some id => rfl
      | none => cases first.categories.get? name <;> rfl

theorem accepts (type field : String) (names : List String) :
    Likewise (List.map (Accept.renumber number)) (first.accepts type field names)
      (second.accepts type field names) := by
  induction names with
  | nil => exact .inl ⟨[], rfl, rfl⟩
  | cons name rest ih =>
    rw [Scope.accepts, Scope.accepts, renumbered.accept?]
    cases first.accept? name with
    | none => exact .refused _ _
    | some entry => exact ih.elim (fun entries => .inl ⟨entry :: entries, rfl, rfl⟩) .refused

theorem compileField (type : String) (decl : FieldDecl) :
    Likewise (Field.renumber number) (Draft.compileField first type decl)
      (Draft.compileField second type decl) := by
  rw [Draft.compileField, Draft.compileField]
  refine (renumbered.accepts type decl.name decl.accepts).elim (fun entries => ?_) .refused
  dsimp only
  rw [fieldKind_renumber]
  cases fieldKind type decl entries with
  | error error => exact .refused error error
  | ok kind =>
    dsimp only
    have literals : (decl.oneOf.map fun literal => Accept.literal literal.toScalar).map
        (Accept.renumber number) = decl.oneOf.map fun literal => Accept.literal literal.toScalar := by
      rw [List.map_map]
      rfl
    have whole := withDefault_renumber number type decl ⟨decl.name, kind, entries ++ decl.oneOf.map
      fun literal => Accept.literal literal.toScalar, acceptLabel decl, .undefined⟩
    rw [Field.renumber, List.map_append, literals] at whole
    rw [whole]
    cases withDefault type decl ⟨decl.name, kind, entries ++ decl.oneOf.map
      fun literal => Accept.literal literal.toScalar, acceptLabel decl, .undefined⟩ with
    | error error => exact .refused error error
    | ok field => exact .inl ⟨field, rfl, rfl⟩

/-- The fields of a type are compiled likewise if those it starts with correspond. -/
theorem compileFields (type : String) (own : List String) (fields : List Field)
    (decls : List FieldDecl) :
    Likewise (List.map (Field.renumber number)) (Draft.compileFields first type own fields decls)
      (Draft.compileFields second type own (fields.map (Field.renumber number)) decls) := by
  induction decls generalizing own fields with
  | nil => exact .inl ⟨fields, rfl, rfl⟩
  | cons decl rest ih =>
    rw [Draft.compileFields, Draft.compileFields]
    split
    · exact .refused _ _
    · refine (renumbered.compileField type decl).elim (fun field => ?_) .refused
      dsimp only
      rw [overlay_renumber]
      exact ih (decl.name :: own) (overlay field fields)

theorem compileMembers (category : String) (members : List String) :
    Likewise (List.map number) (Draft.compileMembers first category members)
      (Draft.compileMembers second category members) := by
  induction members with
  | nil => exact .inl ⟨[], rfl, rfl⟩
  | cons member rest ih =>
    rw [Draft.compileMembers, Draft.compileMembers, renumbered.types]
    cases first.types.get? member with
    | none => exact .refused _ _
    | some id => exact ih.elim (fun ids => .inl ⟨id :: ids, rfl, rfl⟩) .refused

theorem contains (name : String) : second.types.contains name = first.types.contains name := by
  have absent : second.types.get? name = none ↔ first.types.get? name = none := by
    rw [renumbered.types, Option.map_eq_none_iff]
  rw [Record.get?_eq_none_iff, Record.get?_eq_none_iff] at absent
  rw [Bool.eq_iff_iff, Record.contains_iff, Record.contains_iff]
  exact not_iff_not.mp absent

theorem compileCategories (categories : Array Category) (decls : List (String × List String)) :
    Likewise (Array.map (Category.renumber number)) (Draft.compileCategories first categories decls)
      (Draft.compileCategories second (categories.map (Category.renumber number)) decls) := by
  induction decls generalizing categories with
  | nil => exact .inl ⟨categories, rfl, rfl⟩
  | cons decl rest ih =>
    obtain ⟨name, members⟩ := decl
    have declared : (categories.map (Category.renumber number)).any (·.name == name) =
        categories.any (·.name == name) := by
      rw [Array.any_map]
      rfl
    rw [Draft.compileCategories, Draft.compileCategories, renumbered.contains, declared]
    split
    · exact .refused _ _
    · refine (renumbered.compileMembers name members).elim (fun ids => ?_) .refused
      have next := ih (categories.push ⟨name, ids⟩)
      rw [Array.map_push] at next
      exact next

end Scope.Renumbered

end Draft
end Arbor
