import Arbor.Proofs.Acceptance

/-! # The canonical form of a document

A document has a canonical form, said of the document alone: numbers are doubles, a literal has both its
members, and the members of an object with a type stand in the order of the fields, followed by the
members that no field claims. What is built from a document is written as its canonical form, so building
loses nothing that the document says. -/

namespace Arbor

namespace Catalogue

variable (catalogue : Catalogue)

mutual

/-- The canonical form of a document. The members no field claims stand as they are, unless a name is
repeated. -/
def canonical (json : Json) : Json :=
  match json with
  | .null => .null
  | .bool b => .bool b
  | .number n => Json.ofFloat n.toFloat
  | .string s => .string s
  | .array items => .array (items.map fun item => canonical item)
  | .object members =>
    match catalogue.taggedType? members with
    | some (_, type) => .object ((typeKey, .string type.name) ::
        type.fields.filterMap (fun field => (canonicalMember members field).map (field.name, ·)) ++
          Record.unseen [] (type.unclaimed members))
    | none =>
      match (regexWritten members).1 with
      | some regex => regex.document
      | none => .object members
termination_by (sizeOf json, 0)

/-- The canonical form of the member an object has for the field. Lists always have one. -/
def canonicalMember (members : List (String × Json)) (field : Field) : Option Json :=
  match _ : Record.get? members field.name with
  | none => if field.kind = .list then some (.array []) else none
  | some raw =>
    if field.kind = .list then some (if raw.isNull then .array [] else canonical raw)
    else match (regexBeside members raw).1 with
      | some regex => some regex.document
      | none => some (canonical raw)
termination_by (sizeOf members, 0)
decreasing_by
  · exact Prod.Lex.left _ _ (Record.sizeOf_get?_lt ‹_›)
  · exact Prod.Lex.left _ _ (Record.sizeOf_get?_lt ‹_›)

end

variable {catalogue}

private theorem taggedType?_of_untyped {members : Record Json}
    (untyped : ¬ members.contains typeKey = true) : catalogue.taggedType? members = none := by
  rw [Record.contains_iff, ← Record.get?_eq_none_iff] at untyped
  simp [taggedType?, untyped]

private theorem canonical_of_scalar? {json : Json} {s : Scalar} (written : json.scalar? = some s) :
    catalogue.canonical json = s.toJson := by
  cases json with
  | null | bool | number | string =>
    cases written
    rw [canonical]
    rfl
  | array => contradiction
  | object members =>
    rw [Json.scalar?] at written
    split at written
    · contradiction
    · next untyped =>
      obtain ⟨regex, literal, rfl⟩ := Option.map_eq_some_iff.mp written
      rw [canonical, taggedType?_of_untyped untyped]
      simp only [literal]
      rfl

/-- The canonical form of a member is the one of what the object states for the field. -/
theorem canonicalMember_eq (members : Record Json) (field : Field) :
    catalogue.canonicalMember members field = (field.stated? members).map catalogue.canonical := by
  have empty : catalogue.canonical (.array []) = .array [] := by
    rw [canonical, List.map_nil]
  rw [canonicalMember.eq_def, Field.stated?]
  split
  · next missing =>
    rw [missing]
    split
    · rw [Option.map_some, empty]
    · rfl
  · next raw found =>
    rw [found]
    split
    · rw [Option.map_some]
      split
      · rw [empty]
      · rfl
    · cases beside : (regexBeside members raw).1 with
      | none => simp only [beside, Option.map_some]
      | some regex =>
        simp only [beside, Option.map_some]
        rw [canonical_of_scalar? (Tree.scalar?_document regex)]
        rfl

end Catalogue

namespace Tree

variable {catalogue : Catalogue}

/-- The members for assigned fields, read off field by field. -/
theorem map_filter_zip_eq_filterMap {fields : List Field} {values : List Value} {write : Handle → Json}
    {member : Field → Option Json}
    (agree : List.Forall₂ (fun field value =>
      member field = if value.isSet then some (valueJson write value) else none) fields values) :
    ((fields.zip values).filter (·.2.isSet)).map (fun entry => (entry.1.name, valueJson write entry.2))
      = fields.filterMap fun field => (member field).map (field.name, ·) := by
  induction agree with
  | nil => rfl
  | @cons field value fields values same _ ih =>
    rw [List.zip_cons_cons, List.filter_cons, List.filterMap_cons, same]
    split
    · rw [List.map_cons, ih]
      rfl
    · exact ih

section Mirrors

variable {now : Tree catalogue} (formed : now.WellFormed) (compiled : catalogue.Compiled)
  (untyped : ∀ id type, catalogue.type? id = some type → ∀ field ∈ type.fields, field.name ≠ typeKey)
include formed compiled untyped

/-- A node whose metadata is what its type leaves over is written with its type first, then its fields
and then the metadata. -/
theorem nodeMembers_of_unclaimed {n : NodeId} {type : NodeType} {members : Record Json}
    (present : now.hasNode n = true) (found : catalogue.type? (now.typeOf n) = some type)
    (metadata : now.metadata n = type.unclaimed members) (write : Handle → Json) :
    now.nodeMembers write n = (typeKey, .string type.name) :: now.fieldMembers write n
      ++ Record.unseen [] (type.unclaimed members) := by
  have named : now.typeName n = type.name := by
    rw [typeName, Catalogue.typeName, found]
    rfl
  rw [nodeMembers_of_distinct (nodup_ownNames compiled found (untyped _ type found))
    (formed.owned.slots_length present) write, named, metadata]
  intro name extra own
  rw [metadata] at extra
  obtain ⟨member, isMember, rfl⟩ := List.mem_map.mp extra
  have left := (List.mem_filter.mp isMember).2
  rw [Bool.and_eq_true, bne_iff_ne, Bool.not_eq_true', List.contains_eq_mem, decide_eq_false_iff_not,
    ← fields_eq_of_type? found] at left
  rcases List.mem_cons.mp own with isType | isField
  · exact left.1 isType
  · exact left.2 isField

/-- What mirrors a document is written as its canonical form. -/
theorem Mirrors.valueToJson_eq {json : Json} {value : Value} (mirrors : now.Mirrors json value) :
    now.valueToJson value = catalogue.canonical json := by
  induction mirrors with
  | scalar written => exact (Catalogue.canonical_of_scalar? written).symm
  | @list documents l present length items ih =>
    rw [valueToJson, valueJson, formed.toJson_list, Catalogue.canonical]
    congr 1
    apply List.ext_getElem (by simp [length])
    intro i bound otherBound
    rw [List.length_map] at bound otherBound
    rw [List.getElem_map, List.getElem_map]
    exact ih i _ _ (List.getElem?_eq_getElem otherBound) (List.getElem?_eq_getElem bound)
  | @node members n id type present tagged isType metadata unset slots ih =>
    obtain ⟨name, -, named⟩ := Catalogue.taggedType?_eq_some_iff.mp tagged
    have found : catalogue.type? (now.typeOf n) = some type := isType ▸ (concreteType_eq_ok named).1
    have lengths := formed.owned.slots_length present
    rw [fields_eq_of_type? found] at lengths
    have agree : List.Forall₂ (fun field value => catalogue.canonicalMember members field =
        if value.isSet then some (valueJson now.toJson value) else none) type.fields (now.slots n) := by
      rw [List.forall₂_iff_get]
      refine ⟨lengths.symm, fun i bound otherBound => ?_⟩
      have declared := List.getElem?_eq_getElem bound
      have held := List.getElem?_eq_getElem otherBound
      rw [List.get_eq_getElem, List.get_eq_getElem, Catalogue.canonicalMember_eq]
      cases stated : (type.fields[i]).stated? members with
      | none =>
        rw [unset i _ _ declared held stated]
        rfl
      | some raw =>
        rw [if_pos (slots i _ _ raw declared held stated).isSet, Option.map_some,
          ← ih i _ _ raw declared held stated]
        rfl
    rw [valueToJson, valueJson, formed.toJson_node,
      nodeMembers_of_unclaimed formed compiled untyped present found metadata, fieldMembers, assigned,
      fields_eq_of_type? found, map_filter_zip_eq_filterMap agree, Catalogue.canonical, tagged]

end Mirrors

/-- What is built from a document is written as the canonical form of the document, as long as no field
is named like the member for the type. -/
theorem built_is_written_canonically (compiled : catalogue.Compiled)
    (untyped : ∀ id type, catalogue.type? id = some type → ∀ field ∈ type.fields, field.name ≠ typeKey)
    {tree : Tree catalogue} (reachable : tree.Reachable) {json : Json} {value : Value}
    {after : Tree catalogue} (built : build json tree = (.ok value, after)) :
    after.valueToJson value = catalogue.canonical json := by
  have formed := reachable.wellFormed
  have conforms := sound_of_compiled compiled json "input" tree after value formed built
  have mirrors := (mirrors_of_built compiled conforms formed built).1
  exact mirrors.valueToJson_eq (formed.of_buildValue built).1 compiled untyped

/-- The type comes first, the list that was left out is empty, and the title is kept. -/
theorem built_is_written_canonically_weighedNotes :
    notes.Compiled ∧ weighedNotes.Reachable ∧ ∃ value after,
      build (.object [("title", .string "second"),
        ("parts", .array [.null, .object [("type", .string "Note")]]), ("type", .string "Note")])
        weighedNotes = (.ok value, after) ∧
      after.valueToJson value = .object [("type", .string "Note"),
        ("parts", .array [.null, .object [("type", .string "Note"), ("parts", .array [])]]),
        ("title", .string "second")] := by
  have reachable : weighedNotes.Reachable := ⟨1, _, rfl⟩
  have untyped : ∀ type ∈ notes.types.toList, ∀ field ∈ type.fields, field.name ≠ typeKey := by
    decide +kernel
  have conforms : notes.conforms (.object [("title", .string "second"),
      ("parts", .array [.null, .object [("type", .string "Note")]]), ("type", .string "Note")]) = true := by
    cbv
  obtain ⟨value, after, built, -⟩ :=
    builds_of_conforms compiled_notes conforms "input" weighedNotes reachable.wellFormed
  refine ⟨compiled_notes, reachable, value, after, built, ?_⟩
  rw [built_is_written_canonically compiled_notes _ reachable built]
  · cbv
  · exact fun id type found => untyped type (Array.mem_toList_iff.mpr (Array.mem_of_getElem? found))

end Tree
end Arbor
