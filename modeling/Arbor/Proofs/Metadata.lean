import Arbor.Proofs.Acceptance

/-! # Metadata in copies

A copy is built from the written form of its original. There the metadata stands in one record with the
type and the assigned fields, which hide metadata of their names, and what a copy takes from the record is
told by the names its type declares. So metadata comes back as it was except under the names that a node
uses for its own data, and fields that share no name with it come back set or unset as they were. -/

namespace Arbor

theorem Field.isSome_stated?_iff {field : Field} {members : Record Json} :
    (field.stated? members).isSome = true ↔ field.kind = .list ∨ field.name ∈ members.keys := by
  rw [Field.stated?]
  cases found : members.get? field.name with
  | none =>
    have absent := Record.get?_eq_none_iff.mp found
    by_cases isList : field.kind = .list <;> simp [isList, absent]
  | some raw =>
    have named : field.name ∈ members.keys := Record.contains_iff.mp (Record.contains_of_get? found)
    by_cases isList : field.kind = .list
    · simp [isList]
    · cases beside : siblingRegex? members raw <;> simp [isList, named, beside]

namespace Tree

variable {catalogue : Catalogue} {tree after : Tree catalogue} {n : NodeId}

/-- The names of the fields of a node that something is assigned to. -/
def assignedNames (tree : Tree catalogue) (id : NodeId) : List String :=
  (tree.assigned id).map (·.1.name)

private theorem mem_assignedNames_iff {name : String} : name ∈ tree.assignedNames n ↔
    ∃ (place : Nat) (field : Field) (value : Value), (tree.fields n)[place]? = some field ∧
      (tree.slots n)[place]? = some value ∧ value.isSet = true ∧ field.name = name := by
  constructor
  · intro assigned
    obtain ⟨⟨field, value⟩, entry, named⟩ := List.mem_map.mp assigned
    obtain ⟨zipped, isSet⟩ := List.mem_filter.mp entry
    obtain ⟨place, found⟩ := List.mem_iff_getElem?.mp zipped
    obtain ⟨declared, held⟩ := List.getElem?_zip_eq_some.mp found
    exact ⟨place, field, value, declared, held, isSet, named⟩
  · rintro ⟨place, field, value, declared, held, isSet, rfl⟩
    have zipped : (field, value) ∈ (tree.fields n).zip (tree.slots n) :=
      List.mem_of_getElem? (List.getElem?_zip_eq_some.mpr ⟨declared, held⟩)
    exact List.mem_map.mpr ⟨(field, value), List.mem_filter.mpr ⟨zipped, isSet⟩, rfl⟩

private theorem keys_ownMembers_eq (write : Handle → Json) :
    (tree.ownMembers write n).keys = typeKey :: tree.assignedNames n := by
  simp [ownMembers, fieldMembers, assignedNames, Record.keys, Function.comp_def]

section Written

variable (distinct : (tree.ownNames n).Nodup)
  (lengths : (tree.slots n).length = (tree.fields n).length) (write : Handle → Json)
include distinct lengths

private theorem mem_keys_nodeMembers_iff {name : String} : name ∈ (tree.nodeMembers write n).keys ↔
    name = typeKey ∨ name ∈ tree.assignedNames n ∨ name ∈ (tree.metadata n).keys := by
  rw [← not_iff_not, ← Record.get?_eq_none_iff, get?_nodeMembers distinct lengths,
    Option.or_eq_none_iff, Record.get?_eq_none_iff, Record.get?_eq_none_iff, keys_ownMembers_eq,
    List.mem_cons]
  tauto

private theorem get?_typeKey_nodeMembers :
    (tree.nodeMembers write n).get? typeKey = some (.string (tree.typeName n)) := by
  rw [get?_nodeMembers distinct lengths, ownMembers, Record.get?, if_pos (beq_self_eq_true _)]
  rfl

/-- Under the names that a node does not use for itself, the metadata is written as it is. -/
theorem get?_nodeMembers_of_not_own {name : String} (other : name ∉ tree.ownNames n) :
    (tree.nodeMembers write n).get? name = (tree.metadata n).get? name := by
  have unhidden : (tree.ownMembers write n).get? name = none :=
    Record.get?_eq_none_iff.mpr fun own => other ((keys_ownMembers lengths write).mem own)
  rw [get?_nodeMembers distinct lengths, unhidden, Option.none_or]

end Written

/-- What the type leaves over has none of the names the node uses for itself. -/
theorem get?_unclaimed {type : NodeType} (found : catalogue.type? (tree.typeOf n) = some type)
    (members : Record Json) (name : String) : (type.unclaimed members).get? name =
      if name ∈ tree.ownNames n then none else members.get? name := by
  have kept := Record.get?_filter
    (fun name => name != typeKey && !(type.fields.map (·.name)).contains name) members name
  rw [NodeType.unclaimed, kept, ownNames, fields_eq_of_type? found]
  by_cases isType : name = typeKey <;> by_cases isField : name ∈ type.fields.map (·.name) <;>
    simp [isType, isField]

section Cloned

variable (compiled : catalogue.Compiled) (formed : tree.WellFormed) (conforms : tree.Conforms)
  (present : tree.hasNode n = true) (untyped : ∀ field ∈ tree.fields n, field.name ≠ typeKey)

include formed conforms present in
/-- The list of a field is always there. -/
theorem mem_assignedNames_of_list {place : Nat} {field : Field}
    (declared : (tree.fields n)[place]? = some field) (isList : field.kind = .list) :
    field.name ∈ tree.assignedNames n := by
  obtain ⟨bound, -⟩ := List.getElem?_eq_some_iff.mp declared
  rw [← formed.owned.slots_length present] at bound
  have held := List.getElem?_eq_getElem bound
  obtain ⟨l, isHere⟩ := (conforms.fits present declared held).exists_list isList
  exact mem_assignedNames_iff.mpr ⟨place, field, _, declared, held, isHere ▸ rfl, rfl⟩

include compiled formed conforms present untyped

/-- The copy of a node is a node of the same type. It has the metadata under the names the node does not
use for itself, and a slot of it is set if its field was set or metadata has the name of the field. -/
theorem exists_copy_of_cloned {value : Value}
    (cloned : cloneSubtree (.node n) tree = (.ok value, after)) :
    ∃ copy, value = .node copy ∧ after.typeOf copy = tree.typeOf n ∧ after.hasNode copy = true ∧
      (∀ name, (after.metadata copy).get? name =
        if name ∈ tree.ownNames n then none else (tree.metadata n).get? name) ∧
      ∀ (place : Nat) (field : Field) (held : Value), (tree.fields n)[place]? = some field →
        (after.slots copy)[place]? = some held → (held.isSet = true ↔
          field.name ∈ tree.assignedNames n ∨ field.name ∈ (tree.metadata n).keys) := by
  obtain ⟨type, found, concrete⟩ := conforms.concrete present
  have distinct := nodup_ownNames compiled found (fields_eq_of_type? found ▸ untyped)
  have lengths := formed.owned.slots_length present
  have tag := get?_typeKey_nodeMembers distinct lengths tree.toJson
  have tagged : catalogue.taggedType? (tree.nodeMembers tree.toJson n) = some (tree.typeOf n, type) :=
    Catalogue.taggedType?_eq_some_iff.mpr ⟨_, tag, concreteType_typeName compiled found concrete⟩
  rw [cloneSubtree, formed.toJson_node] at cloned
  have fits := sound_of_compiled compiled _ "clone" tree after value formed cloned
  have mirrors := (mirrors_of_built compiled fits formed cloned).1
  cases mirrors with
  | scalar written =>
    rw [Json.scalar?, if_pos (Record.contains_of_get? tag)] at written
    contradiction
  | @node _ copy id other presentCopy otherTagged isType metadata unset slots =>
    rw [tagged] at otherTagged
    cases otherTagged
    refine ⟨copy, rfl, isType, presentCopy, fun name => ?_, ?_⟩
    · rw [metadata, get?_unclaimed found]
      split
      · rfl
      · next other => exact get?_nodeMembers_of_not_own distinct lengths _ other
    · intro place field held declared inSlot
      have notType := untyped field (List.mem_of_getElem? declared)
      have stated : (field.stated? (tree.nodeMembers tree.toJson n)).isSome = true ↔
          field.name ∈ tree.assignedNames n ∨ field.name ∈ (tree.metadata n).keys := by
        rw [Field.isSome_stated?_iff, mem_keys_nodeMembers_iff distinct lengths]
        simp only [notType, false_or, or_iff_right_iff_imp]
        exact fun isList => .inl (mem_assignedNames_of_list formed conforms present declared isList)
      rw [fields_eq_of_type? found] at declared
      rw [← stated]
      cases raw : field.stated? (tree.nodeMembers tree.toJson n) with
      | none =>
        rw [unset place field held declared inSlot raw]
        decide
      | some json => simp [(slots place field held json declared inSlot raw).isSet]

private theorem mem_assignedNames_of_cloned {copy : NodeId}
    (cloned : cloneSubtree (.node n) tree = (.ok (.node copy), after)) (name : String) :
    name ∈ after.assignedNames copy ↔ name ∈ tree.assignedNames n ∨
      name ∈ (tree.fields n).map (·.name) ∧ name ∈ (tree.metadata n).keys := by
  obtain ⟨_, same, sameType, presentCopy, -, isSetIff⟩ :=
    exists_copy_of_cloned compiled formed conforms present untyped cloned
  cases same
  have sameFields : after.fields copy = tree.fields n := by rw [fields, fields, sameType]
  have lengths := (formed.of_buildValue cloned).1.owned.slots_length presentCopy
  constructor
  · intro assigned
    obtain ⟨place, field, held, declared, inSlot, isSet, rfl⟩ := mem_assignedNames_iff.mp assigned
    rw [sameFields] at declared
    have isField := List.mem_map_of_mem (f := (·.name)) (List.mem_of_getElem? declared)
    exact ((isSetIff place field held declared inSlot).mp isSet).imp_right (And.intro isField)
  · intro either
    obtain ⟨place, field, declared, rfl⟩ : ∃ (place : Nat) (field : Field),
        (tree.fields n)[place]? = some field ∧ field.name = name := by
      rcases either with wasSet | ⟨isField, -⟩
      · obtain ⟨place, field, -, declared, -, -, named⟩ := mem_assignedNames_iff.mp wasSet
        exact ⟨place, field, declared, named⟩
      · obtain ⟨field, member, named⟩ := List.mem_map.mp isField
        obtain ⟨place, declared⟩ := List.mem_iff_getElem?.mp member
        exact ⟨place, field, declared, named⟩
    obtain ⟨bound, -⟩ := List.getElem?_eq_some_iff.mp declared
    rw [← sameFields, ← lengths] at bound
    have inSlot := List.getElem?_eq_getElem bound
    have isSet := (isSetIff place field _ declared inSlot).mpr (either.imp_right And.right)
    exact mem_assignedNames_iff.mpr ⟨place, field, _, sameFields ▸ declared, inSlot, isSet, rfl⟩

end Cloned

/-- The copy of a node whose type has no field named like the member for the type is of that type too. Its
metadata is the same under all names the node does not use for itself; it has nothing under the names of
the members that hide metadata when the node is written, which are the type and the fields that are set.
What was set is set in the copy, and of the fields whose names the metadata does not use nothing else is.
Metadata with the name of a field that is not set becomes what the field of the copy holds. -/
theorem copy_keeps_unhidden_metadata (compiled : catalogue.Compiled) (reachable : tree.Reachable)
    (present : tree.hasNode n = true) (untyped : ∀ field ∈ tree.fields n, field.name ≠ typeKey)
    {value : Value} (cloned : cloneSubtree (.node n) tree = (.ok value, after)) :
    ∃ copy, value = .node copy ∧ after.typeOf copy = tree.typeOf n ∧
      (∀ name, name ∉ tree.ownNames n →
        (after.metadata copy).get? name = (tree.metadata n).get? name) ∧
      (∀ name, name = typeKey ∨ name ∈ tree.assignedNames n →
        (after.metadata copy).get? name = none) ∧
      (∀ name ∈ tree.assignedNames n, name ∈ after.assignedNames copy) ∧
      (∀ name ∉ (tree.metadata n).keys,
        (name ∈ after.assignedNames copy ↔ name ∈ tree.assignedNames n)) ∧
      ∀ field ∈ tree.fields n, field.name ∉ tree.assignedNames n →
        field.name ∈ (tree.metadata n).keys →
          (after.metadata copy).get? field.name = none ∧ field.name ∈ after.assignedNames copy := by
  have formed := reachable.wellFormed
  have conforms := reachable.conforms
  obtain ⟨copy, rfl, sameType, -, metadata, -⟩ :=
    exists_copy_of_cloned compiled formed conforms present untyped cloned
  have setIff := mem_assignedNames_of_cloned compiled formed conforms present untyped cloned
  refine ⟨copy, rfl, sameType, fun name other => ?_, fun name hidden => ?_, fun name wasSet => ?_,
    fun name unused => ?_, fun field declared _ named => ⟨?_, ?_⟩⟩
  · rw [metadata, if_neg other]
  · have own : name ∈ tree.ownNames n := by
      apply (keys_ownMembers (formed.owned.slots_length present) tree.toJson).mem
      rwa [keys_ownMembers_eq, List.mem_cons]
    rw [metadata, if_pos own]
  · exact (setIff name).mpr (.inl wasSet)
  · rw [setIff]
    exact or_iff_left fun both => unused both.2
  · have own : field.name ∈ tree.ownNames n := List.mem_cons_of_mem _ (List.mem_map_of_mem declared)
    rw [metadata, if_pos own]
  · exact (setIff field.name).mpr (.inr ⟨List.mem_map_of_mem declared, named⟩)

end Tree

/-- A catalogue with labels, which have a text, and with tags, which have a field named like the member
for the type. -/
def labels : Catalogue where
  name := "labels"
  types := #[⟨"Node", none, true, []⟩,
    ⟨"Label", some ⟨0⟩, false, [⟨"text", .native, [.primitive .string], "string", .undefined⟩]⟩,
    ⟨"Tag", some ⟨0⟩, false, [⟨"type", .native, [.primitive .string], "string", .undefined⟩]⟩]
  categories := #[]

private theorem compiled_labels : labels.Compiled := by
  have given : Catalogue.ofDecl ⟨"labels", [],
      [⟨"Label", none, false, [⟨"text", false, ["string"], [], none⟩]⟩,
        ⟨"Tag", none, false, [⟨"type", false, ["string"], [], none⟩]⟩]⟩ = .ok labels := by
    cbv
  exact .of_ofDecl given

namespace Tree

/-- A label with metadata of its own and metadata named like its text, and a blank tag. -/
def labelAndTag : Tree labels :=
  (empty labels 1).run [.createNode "Label", .set ⟨0⟩ "text" (.scalar (.string "a")),
    .setMetadata ⟨0⟩ [("text", .string "b"), ("lang", .string "en")], .createNode "Tag"]

/-- A label without a text, with metadata in its place. -/
def blankLabel : Tree labels :=
  (empty labels 1).run [.createNode "Label", .setMetadata ⟨0⟩ [("text", .string "b")]]

/-- The text of the label hides metadata, which is then not in the copy; the type of the tag is taken for
the field of that name, which is set in the copy although it was not; and metadata in the place of a text
is no metadata of the copy but its text. -/
theorem copy_loses_hidden_metadata :
    labels.Compiled ∧ labelAndTag.Reachable ∧ blankLabel.Reachable ∧
    (∃ after, cloneSubtree (.node ⟨0⟩) labelAndTag = (.ok (.node ⟨2⟩), after) ∧
      (labelAndTag.metadata ⟨0⟩).get? "text" = some (.string "b") ∧
      (after.metadata ⟨2⟩).get? "text" = none) ∧
    (∃ after, cloneSubtree (.node ⟨1⟩) labelAndTag = (.ok (.node ⟨2⟩), after) ∧
      "type" ∉ labelAndTag.assignedNames ⟨1⟩ ∧ "type" ∈ after.assignedNames ⟨2⟩) ∧
    ∃ after, cloneSubtree (.node ⟨0⟩) blankLabel = (.ok (.node ⟨1⟩), after) ∧
      "text" ∉ blankLabel.assignedNames ⟨0⟩ ∧ "text" ∈ after.assignedNames ⟨1⟩ ∧
      (blankLabel.metadata ⟨0⟩).get? "text" = some (.string "b") ∧
      (after.metadata ⟨1⟩).get? "text" = none := by
  have label : (cloneSubtree (.node ⟨0⟩) labelAndTag).1 = .ok (.node ⟨2⟩) := by cbv
  have tag : (cloneSubtree (.node ⟨1⟩) labelAndTag).1 = .ok (.node ⟨2⟩) := by cbv
  have unset : labelAndTag.assignedNames ⟨1⟩ = [] := by cbv
  have isSet : (cloneSubtree (.node ⟨1⟩) labelAndTag).2.assignedNames ⟨2⟩ = ["type"] := by cbv
  have blank : (cloneSubtree (.node ⟨0⟩) blankLabel).1 = .ok (.node ⟨1⟩) := by cbv
  have textUnset : blankLabel.assignedNames ⟨0⟩ = [] := by cbv
  have textSet : (cloneSubtree (.node ⟨0⟩) blankLabel).2.assignedNames ⟨1⟩ = ["text"] := by cbv
  refine ⟨compiled_labels, ⟨1, _, rfl⟩, ⟨1, _, rfl⟩, ⟨_, Prod.ext label rfl, by cbv, by cbv⟩,
    ⟨_, Prod.ext tag rfl, ?_, ?_⟩, _, Prod.ext blank rfl, ?_, ?_, by cbv, by cbv⟩
  · rw [unset]
    exact List.not_mem_nil
  · rw [isSet]
    exact List.mem_singleton_self _
  · rw [textUnset]
    exact List.not_mem_nil
  · rw [textSet]
    exact List.mem_singleton_self _

theorem copy_keeps_unhidden_metadata_label :
    labels.Compiled ∧ labelAndTag.Reachable ∧ labelAndTag.hasNode ⟨0⟩ = true ∧
    ∃ copy after, cloneSubtree (.node ⟨0⟩) labelAndTag = (.ok (.node copy), after) ∧
      (after.metadata copy).get? "lang" = some (.string "en") ∧
      (after.metadata copy).get? "text" = none ∧ "text" ∈ after.assignedNames copy := by
  have reachable : labelAndTag.Reachable := ⟨1, _, rfl⟩
  have present : labelAndTag.hasNode ⟨0⟩ = true := by cbv
  have fields : labelAndTag.fields ⟨0⟩ =
      [⟨"text", .native, [.primitive .string], "string", .undefined⟩] := by cbv
  have untyped : ∀ field ∈ labelAndTag.fields ⟨0⟩, field.name ≠ typeKey := by
    rw [fields]
    decide
  have other : "lang" ∉ labelAndTag.ownNames ⟨0⟩ := by
    rw [ownNames, fields]
    decide
  have isSet : "text" ∈ labelAndTag.assignedNames ⟨0⟩ := by
    rw [show labelAndTag.assignedNames ⟨0⟩ = ["text"] by cbv]
    decide
  have cloned : cloneSubtree (.node ⟨0⟩) labelAndTag =
      (.ok (.node ⟨2⟩), (cloneSubtree (.node ⟨0⟩) labelAndTag).2) := Prod.ext (by cbv) rfl
  obtain ⟨copy, same, -, unhidden, hidden, kept, -⟩ :=
    copy_keeps_unhidden_metadata compiled_labels reachable present untyped cloned
  cases same
  refine ⟨compiled_labels, reachable, present, _, _, cloned, ?_, hidden _ (.inr isSet), kept _ isSet⟩
  rw [unhidden _ other]
  cbv

end Tree
end Arbor
