import Arbor.Proofs.Written
import Arbor.Tree.Build

/-! # Documents that conform to a catalogue

Which documents describe something a catalogue allows, and what they say about the fields of a node. Both
are said of the document alone: no tree is involved. An object with a type describes a node; its members
are looked at field by field, and each of them has to be something the field admits. An object without one
can only be a regular-expression literal, and which members write a literal is a rule of its own. -/

namespace Arbor

theorem Json.string?_eq_some_iff {json : Json} {text : String} :
    json.string? = some text ↔ json = .string text := by
  cases json <;> simp [Json.string?]

section Literals

/-- Members write a literal with their pattern, and with their flags unless they have none. -/
inductive WritesRegex (members : Record Json) : Regex → Prop where
  | bare {pattern : String} (isPattern : members.get? "pattern" = some (.string pattern))
      (unflagged : members.get? "flags" = none) : WritesRegex members ⟨pattern, ""⟩
  | flagged {pattern flags : String} (isPattern : members.get? "pattern" = some (.string pattern))
      (isFlags : members.get? "flags" = some (.string flags)) : WritesRegex members ⟨pattern, flags⟩

/-- An empty object among the members stands for the literal that another of them writes. -/
inductive WritesBeside (members : Record Json) : Json → Regex → Prop where
  | empty {literal : Record Json} {regex : Regex} (beside : members.get? "regex" = some (.object literal))
      (writes : WritesRegex literal regex) : WritesBeside members (.object []) regex

/-- The document that writes a literal, always with its flags. -/
def Regex.document (regex : Regex) : Json :=
  .object [("pattern", .string regex.pattern), ("flags", .string regex.flags)]

/-- The literal that members write. -/
def regexWritten (members : Record Json) :
    { found : Option Regex // ∀ regex, found = some regex ↔ WritesRegex members regex } where
  val := match members.get? "pattern", members.get? "flags" with
    | some (.string pattern), none => some ⟨pattern, ""⟩
    | some (.string pattern), some (.string flags) => some ⟨pattern, flags⟩
    | _, _ => none
  property regex := by
    constructor
    · intro found
      split at found
      · next isPattern unflagged =>
        cases found
        exact .bare isPattern unflagged
      · next isPattern isFlags =>
        cases found
        exact .flagged isPattern isFlags
      · contradiction
    · rintro (⟨isPattern, unflagged⟩ | ⟨isPattern, isFlags⟩)
      · rw [isPattern, unflagged]
      · rw [isPattern, isFlags]

/-- The literal that a document among the members stands for. -/
def regexBeside (members : Record Json) (raw : Json) :
    { found : Option Regex // ∀ regex, found = some regex ↔ WritesBeside members raw regex } where
  val := match raw, members.get? "regex" with
    | .object [], some (.object literal) => (regexWritten literal).1
    | _, _ => none
  property regex := by
    constructor
    · intro found
      split at found
      · next beside => exact .empty beside (((regexWritten _).2 regex).mp found)
      · contradiction
    · rintro ⟨beside, writes⟩
      rw [beside]
      exact ((regexWritten _).2 regex).mpr writes

theorem regexOf?_eq_some_iff {members : Record Json} {regex : Regex} :
    regexOf? members = some regex ↔ WritesRegex members regex := by
  rw [regexOf?]
  constructor
  · intro found
    obtain ⟨pattern, isPattern, found⟩ := Option.bind_eq_some_iff.mp found
    obtain ⟨written, isWritten, isString⟩ := Option.bind_eq_some_iff.mp isPattern
    obtain rfl := Json.string?_eq_some_iff.mp isString
    split at found
    · next unflagged =>
      cases found
      exact .bare isWritten unflagged
    · next flags isFlags =>
      obtain ⟨text, isText, rfl⟩ := Option.map_eq_some_iff.mp found
      obtain rfl := Json.string?_eq_some_iff.mp isText
      exact .flagged isWritten isFlags
  · rintro (⟨isPattern, unflagged⟩ | ⟨isPattern, isFlags⟩)
    · simp [isPattern, unflagged, Json.string?]
    · simp [isPattern, isFlags, Json.string?]

theorem siblingRegex?_eq_some_iff {members : Record Json} {raw : Json} {regex : Regex} :
    siblingRegex? members raw = some regex ↔ WritesBeside members raw regex := by
  constructor
  · intro found
    rw [siblingRegex?.eq_def] at found
    split at found
    · split at found
      · next literal beside => exact .empty beside (regexOf?_eq_some_iff.mp found)
      · contradiction
    · contradiction
  · rintro ⟨beside, writes⟩
    simp only [siblingRegex?, beside]
    exact regexOf?_eq_some_iff.mpr writes

/-- What is built from members without a type is the literal that they write. -/
@[simp]
theorem regexWritten_eq (members : Record Json) : (regexWritten members).1 = regexOf? members :=
  Option.ext fun regex => ((regexWritten members).2 regex).trans regexOf?_eq_some_iff.symm

/-- What is built in place of a member is the literal that it stands for. -/
@[simp]
theorem regexBeside_eq (members : Record Json) (raw : Json) :
    (regexBeside members raw).1 = siblingRegex? members raw :=
  Option.ext fun regex => ((regexBeside members raw).2 regex).trans siblingRegex?_eq_some_iff.symm

end Literals

namespace Json

def isNull : Json → Bool
  | .null => true
  | _ => false

/-- The scalar a document writes. An object without a type can only be a regular-expression literal. -/
def scalar? : Json → Option Scalar
  | .null => some .null
  | .bool b => some (.boolean b)
  | .number n => some (.number n.toFloat)
  | .string s => some (.string s)
  | .array _ => none
  | .object members =>
    if Record.contains members typeKey then none else (regexWritten members).1.map .regex

private theorem isNull_iff {json : Json} : json.isNull = true ↔ json = .null := by
  cases json <;> simp [isNull]

theorem sizeOf_lt_array {json : Json} {documents : List Json} (isDocument : json ∈ documents) :
    sizeOf json < sizeOf (Json.array documents) := by
  have less := List.sizeOf_lt_of_mem isDocument
  rw [Json.array.sizeOf_spec]
  omega

/-- What holds of an array if it holds of its documents, and of an object if it holds of whatever is smaller
than its members, holds of every document. -/
@[elab_as_elim]
theorem document_induction {motive : Json → Prop} (null : motive .null) (bool : ∀ b, motive (.bool b))
    (number : ∀ n, motive (.number n)) (string : ∀ s, motive (.string s))
    (array : ∀ documents, (∀ json ∈ documents, motive json) → motive (.array documents))
    (object : ∀ members : Record Json, (∀ json, sizeOf json < sizeOf members → motive json) →
      motive (.object members)) (json : Json) : motive json := by
  induction bound : sizeOf json using Nat.strongRecOn generalizing json with
  | _ bound ih =>
    subst bound
    cases json with
    | null => exact null
    | bool b => exact bool b
    | number n => exact number n
    | string s => exact string s
    | array documents =>
      apply array documents
      intro json isDocument
      exact ih _ (sizeOf_lt_array isDocument) json rfl
    | object members =>
      apply object members
      intro json smaller
      exact ih _ (by rw [Json.object.sizeOf_spec]; omega) json rfl

end Json

/-- The members of an object beyond its type and what the fields of the type name. -/
def NodeType.unclaimed (type : NodeType) (members : Record Json) : Record Json :=
  members.filter fun member =>
    member.1 != typeKey && !(type.fields.map (·.name)).contains member.1

namespace Catalogue

variable (catalogue : Catalogue)

/-- The concrete type an object names. -/
def taggedType? (members : Record Json) : Option (TypeId × NodeType) := do
  let name ← (members.get? typeKey).bind Json.string?
  let id ← catalogue.typeId? name
  let type ← catalogue.type? id
  if type.isAbstract then none else some (id, type)

mutual

/-- The type of the node a document describes; none if it describes no node that conforms. -/
def describedType? (json : Json) : Option TypeId :=
  match json with
  | .object members =>
    match catalogue.taggedType? members with
    | some (id, type) =>
      if type.fields.all fun field => conformsMember members field then some id else none
    | none => none
  | _ => none
termination_by (sizeOf json, 0)

/-- The document can be an item of a list that belongs to the given field, or of a free list. -/
def conformsItem (owner : Option Field) (json : Json) : Bool :=
  json.isNull && owner.all Field.admitsNull ||
    (describedType? json).any fun id => owner.all (catalogue.admitsNode · id)
termination_by (sizeOf json, 1)

/-- The document lists items of the field; null stands for none. -/
def conformsList (field : Field) (json : Json) : Bool :=
  match json with
  | .null => true
  | .array items => items.attach.all fun item => conformsItem (some field) item.1
  | _ => false
termination_by (sizeOf json, 2)
decreasing_by
  have smaller := List.sizeOf_lt_of_mem item.2
  exact Prod.Lex.left _ _ (by rw [Json.array.sizeOf_spec]; omega)

/-- The member an object has for the field, if it has one, is what the field admits. -/
def conformsMember (members : List (String × Json)) (field : Field) : Bool :=
  match _ : Record.get? members field.name with
  | none => true
  | some raw =>
    match field.kind with
    | .list => conformsList field raw
    | .node => conformsItem (some field) raw
    | .native | .strict =>
      (((regexBeside members raw).1.map .regex).or raw.scalar?).any field.admitsScalar
termination_by (sizeOf members, 0)
decreasing_by
  · exact Prod.Lex.left _ _ (Record.sizeOf_get?_lt ‹_›)
  · exact Prod.Lex.left _ _ (Record.sizeOf_get?_lt ‹_›)

end

variable {catalogue} {members : Record Json} {field : Field}

theorem taggedType?_eq_some_iff {id : TypeId} {type : NodeType} :
    catalogue.taggedType? members = some (id, type) ↔
      ∃ name, members.get? typeKey = some (.string name) ∧
        Tree.concreteType catalogue name = .ok (id, type) := by
  rw [taggedType?]
  constructor
  · intro found
    obtain ⟨name, isName, found⟩ := Option.bind_eq_some_iff.mp found
    obtain ⟨tag, isTag, isString⟩ := Option.bind_eq_some_iff.mp isName
    obtain rfl := Json.string?_eq_some_iff.mp isString
    obtain ⟨other, named, found⟩ := Option.bind_eq_some_iff.mp found
    obtain ⟨declared, isDeclared, found⟩ := Option.bind_eq_some_iff.mp found
    refine ⟨name, isTag, ?_⟩
    split at found
    · contradiction
    · next concrete =>
      cases found
      simp [Tree.concreteType, Tree.concreteAt, named, isDeclared, concrete]
  · rintro ⟨name, isTag, named⟩
    rw [Tree.concreteType] at named
    split at named
    · contradiction
    next other isId =>
    rw [Tree.concreteAt] at named
    split at named
    · contradiction
    next declared isDeclared =>
    split at named
    · contradiction
    · next concrete =>
      cases named
      simp [isTag, Json.string?, isId, isDeclared, concrete]

theorem describedType?_eq_some_iff {json : Json} {id : TypeId} :
    catalogue.describedType? json = some id ↔ ∃ members type, json = .object members ∧
      catalogue.taggedType? members = some (id, type) ∧
        ∀ field ∈ type.fields, catalogue.conformsMember members field = true := by
  rw [describedType?.eq_def]
  constructor
  · intro found
    split at found
    · next members =>
      split at found
      · next other type tagged =>
        split at found
        · next each =>
          cases found
          exact ⟨members, type, rfl, tagged, List.all_eq_true.mp each⟩
        · contradiction
      · contradiction
    · contradiction
  · rintro ⟨members, type, rfl, tagged, each⟩
    simp only [tagged]
    rw [if_pos (List.all_eq_true.mpr each)]

/-- An item is null or describes a node, and the field it is for admits it. -/
theorem conformsItem_iff {owner : Option Field} {json : Json} :
    catalogue.conformsItem owner json = true ↔
      json = .null ∧ (∀ field, owner = some field → field.admitsNull = true) ∨
      ∃ id, catalogue.describedType? json = some id ∧
        ∀ field, owner = some field → catalogue.admitsNode field id = true := by
  rw [conformsItem, Bool.or_eq_true, Bool.and_eq_true, Json.isNull_iff, Option.all_eq_true,
    Option.any_eq_true]
  simp only [Option.all_eq_true]

theorem conformsList_array {items : List Json} :
    catalogue.conformsList field (.array items) = true ↔
      ∀ item ∈ items, catalogue.conformsItem (some field) item = true := by
  simp [conformsList]

theorem conformsMember_of_none (missing : members.get? field.name = none) :
    catalogue.conformsMember members field = true := by
  rw [conformsMember.eq_def]
  split
  · rfl
  · next found =>
    rw [missing] at found
    contradiction

theorem conformsMember_of_some {raw : Json} (found : members.get? field.name = some raw) :
    catalogue.conformsMember members field =
      match field.kind with
      | .list => catalogue.conformsList field raw
      | .node => catalogue.conformsItem (some field) raw
      | .native | .strict =>
        (((siblingRegex? members raw).map .regex).or raw.scalar?).any field.admitsScalar := by
  rw [conformsMember.eq_def]
  split
  · next missing =>
    rw [found] at missing
    contradiction
  · next other isOther =>
    rw [found] at isOther
    cases isOther
    rw [regexBeside_eq]

variable (catalogue)

/-- The document conforms to the catalogue: it is a scalar, a node, or an array of nodes and null. -/
def conforms : Json → Bool
  | .array items => items.all (catalogue.conformsItem none)
  | json => json.scalar?.isSome || (catalogue.describedType? json).isSome

end Catalogue

/-- What an object says a field holds, as a document of its own: a list field is empty where nothing else
is said, and an empty object stands for the literal beside it. -/
def Field.stated? (field : Field) (members : Record Json) : Option Json :=
  match members.get? field.name with
  | none => if field.kind = .list then some (.array []) else none
  | some raw =>
    if field.kind = .list then some (if raw.isNull then .array [] else raw)
    else match (regexBeside members raw).1 with
      | some regex => some regex.document
      | none => some raw

end Arbor
