import Arbor.Proofs.Compiled
import Arbor.Proofs.Filling

/-! # Rebuilding gives a copy

What is written for a node or list, built again, is a copy of it that is new throughout and held
nowhere. A new node of the same type is filled in field by field and gets the metadata; going down a
level leaves less room, so this reaches the leaves. -/

namespace Arbor

namespace Tree

variable {catalogue : Catalogue}

open Arbor.Action

section Rebuilds

variable {old : Tree catalogue}

section Filled

/-- The slot of a new node has a list exactly if its field is a list field. -/
theorem getElem?_allocSlots (tree : Tree catalogue) (id : NodeId) (start : Nat) {fields : List Field}
    {i : Nat} {field : Field} {value : Value} (declared : fields[i]? = some field)
    (held : (tree.allocSlots id start fields).1[i]? = some value) :
    if field.kind = .list then ∃ l, value = .list l else value = .undefined := by
  induction fields generalizing tree start i with
  | nil => simp at declared
  | cons first rest ih =>
    rw [allocSlots] at held
    cases i with
    | zero =>
      obtain rfl : first = field := by simpa using declared
      split
      · next isList =>
        rw [if_pos isList] at held
        exact ⟨_, (Option.some.inj held).symm⟩
      · next noList =>
        rw [if_neg noList] at held
        exact (Option.some.inj held).symm
    | succ i =>
      rw [List.getElem?_cons_succ] at declared
      split at held
      · exact ih _ _ declared held
      · exact ih _ _ declared held

/-- A new node of the same type is a copy of which nothing is filled in yet. -/
theorem filling_allocNode {now : Tree catalogue} (formed : now.WellFormed) {n : NodeId}
    {type : NodeType} (found : catalogue.type? (old.typeOf n) = some type)
    (concrete : type.isAbstract = false) {made : Tree catalogue}
    (isMade : made = (now.allocNode (old.typeOf n) type.fields).2) :
    Filling old made made n ⟨now.nodes.size⟩ 0 := by
  have madeFormed : made.WellFormed := isMade ▸ formed.edit (.node _ type found concrete)
  have fresh := freshSlots_newSlots now (old.typeOf n) type.fields
  have slots : made.slots ⟨now.nodes.size⟩ = now.newSlots (old.typeOf n) type.fields := by
    rw [isMade, slots_allocNode, if_pos rfl]
  constructor
  · exact madeFormed
  · exact fun _ present => present
  · exact isMade ▸ hasNode_newNode ..
  · exact fun i l held => hasList_of_owner? (madeFormed.owned.owner_iff.mpr held)
  · rw [isMade, typeOf_allocNode, if_pos rfl]
  · rw [isMade, parent?_allocNode, parent?, missing_newNode]
    rfl
  · intro i _ _ none
    omega
  · intro i field value _ declared held
    rw [fields_eq_of_type? found] at declared
    rw [slots] at held
    have kind := getElem?_allocSlots _ _ _ declared held
    split at kind
    · next isList =>
      obtain ⟨l, rfl⟩ := kind
      have missing : now.list? l = none := by
        apply list?_of_not_hasList
        have new : now.lists.size ≤ l.index := (fresh.list_slot i l held).1
        simpa [hasList] using new
      apply Blank.list l isList
      rw [isMade, items_allocNode, items, missing]
      rfl
    · next noList =>
      subst kind
      exact .unset noList

theorem concreteType_typeName {type : NodeType} {id : TypeId}
    (compiled : catalogue.Compiled) (found : catalogue.type? id = some type)
    (concrete : type.isAbstract = false) :
    concreteType catalogue (catalogue.typeName id) = .ok (id, type) := by
  rw [Catalogue.typeName, found, Option.map_some, Option.getD_some, concreteType,
    compiled.typeId?_name found]
  simp only [concreteAt, found, concrete, Bool.false_eq_true, if_false]

theorem makeNode_of_concreteType {name : String} {id : TypeId} {type : NodeType}
    (found : concreteType catalogue name = .ok (id, type)) (now : Tree catalogue) :
    makeNode name now = (.ok ⟨now.nodes.size⟩, (now.allocNode id type.fields).2) := by
  rw [makeNode, makeFound_eq_whole, found]
  exact whole_of_ok rfl

/-- A copy that is filled is a copy, once it has the metadata. -/
theorem Filling.copied {now final base filled : Tree catalogue} {n copy : NodeId}
    (filling : Filling old filled base n copy (old.fields n).length)
    (formed : now.WellFormed) (finalFormed : final.WellFormed) (kept : now.Keeps final)
    (grown : ∀ handle, now.hasHandle handle = true → base.hasHandle handle = true)
    (isNew : now.Lacks (.node copy)) (legible : old.Legible n)
    (isFinal : final = filled.setMetadata copy (Record.unseen [] (old.metadata n))) :
    Copied old final now.Lacks (.node n) (.node copy) := by
  have inFilled := filling.hasNode_copy
  have same : filled.SameBut final (.node copy) := by
    rw [isFinal]
    exact (SameBut.refl filled _).modifyNode fun _ => rfl
  have slots : final.slots copy = filled.slots copy := by
    rw [isFinal, setMetadata, slots_modifyNode]
    exact fun _ => rfl
  have metadata : final.metadata copy = Record.unseen [] (old.metadata n) := by
    obtain ⟨entry, there⟩ := hasNode_iff.mp inFilled
    rw [isFinal, Tree.metadata, setMetadata, node?_modifyNode, if_pos rfl, there]
    rfl
  have lengths := filling.formed.owned.slots_length inFilled
  rw [filling.fields_eq, ← legible.slots] at lengths
  refine .node isNew (same.hasHandle (.node copy) inFilled) ?_ ?_ ?_ ?_
  · rw [same.typeOf inFilled, filling.type]
  · rw [metadata]
    exact Record.same_unseen _
  · rw [slots, lengths]
  · intro i value other inOld inFinal
    have bound := (List.getElem?_eq_some_iff.mp inOld).1
    rw [legible.slots] at bound
    rw [slots] at inFinal
    have done : Filled old final base.Lacks value other := by
      apply (filling.filled i value other bound inOld inFinal).sameBut same (not_lacks filling.present)
      rintro l rfl
      exact ⟨filling.hasList_of_slot inFinal, by simp⟩
    apply done.copied fun _ missing => missing.of_grown grown
    -- A list of the copy belongs to it, and what belongs to something new is new.
    rintro l rfl
    have owner : final.owner? l = some (copy, i) := finalFormed.owned.owner_iff.mpr (slots ▸ inFinal)
    have held : final.parent? (.list l) = some (.node copy) := by
      rw [parent?, owner]
      rfl
    constructor
    · exact (kept.new_iff_of_held formed.owned finalFormed.owned held).mpr isNew
    · exact hasList_of_owner? owner

/-- A node of which all parts can be rebuilt can be rebuilt itself. -/
theorem rebuilds_node (compiled : catalogue.Compiled) (formed : old.WellFormed)
    (conforms : old.Conforms) {n : NodeId} (present : old.hasNode n = true)
    (legible : old.Legible n) (parts : old.RebuildsParts n) : old.Rebuilds (.node n) := by
  intro context now nowFormed
  obtain ⟨type, found, concrete⟩ := conforms.concrete present
  have made := makeNode_of_concreteType (concreteType_typeName compiled found concrete) now
  have start := filling_allocNode nowFormed found concrete rfl
  obtain ⟨filled, built, filling⟩ :=
    start.buildFields formed conforms present legible parts (old.typeName n) (List.drop_zero ..)
  rw [Nat.zero_add] at filling
  have typed := Record.contains_of_get? (legible.get?_typeKey old.toJson)
  have keeps : keepMetadata ⟨now.nodes.size⟩ (old.nodeMembers old.toJson n) filled
      = (.ok (), filled.setMetadata ⟨now.nodes.size⟩ (Record.unseen [] (old.metadata n))) := by
    rw [← legible.filter_nodeMembers old.toJson, keepMetadata, filling.fields_eq]
  have tagged : buildNode (old.nodeMembers old.toJson n) now
      = (.ok ⟨now.nodes.size⟩, (now.allocNode (old.typeOf n) type.fields).2) := by
    rw [buildNode, legible.get?_typeKey]
    exact made
  have whole : buildValue context (old.valueToJson (.node n)) now = (.ok (.node ⟨now.nodes.size⟩),
      filled.setMetadata ⟨now.nodes.size⟩ (Record.unseen [] (old.metadata n))) := by
    rw [valueToJson, valueJson, formed.toJson_node, buildValue, if_pos typed, bind_of_ok _ tagged,
      look_bind, look_bind, start.fields_eq, typeName, start.type, ← typeName, bind_of_ok _ built,
      bind_of_ok _ keeps]
    rfl
  obtain ⟨finalFormed, kept, isNew⟩ := nowFormed.of_buildValue whole
  refine ⟨_, _, whole, ?_, ?_⟩
  · exact filling.copied nowFormed finalFormed kept
      (fun _ => ((Keeps.refl now).allocNode _ _).hasHandle) (isNew _ rfl).2 legible rfl
  · rintro _ ⟨⟩
    rw [setMetadata, parent?_modifyNode]
    · exact filling.unheld
    · exact fun _ => rfl

end Filled

section Inside

variable (compiled : catalogue.Compiled) (formed : old.WellFormed) (conforms : old.Conforms)
include compiled formed conforms

/-- Below a node there is less room, so its parts can be assumed to be rebuilt. -/
theorem rebuilds_node_of_inside {n : NodeId} (present : old.hasNode n = true)
    (legible : ∀ inner, old.Inside (.node n) (.node inner) → old.Legible inner) :
    old.Rebuilds (.node n) := by
  induction bound : old.room (.node n) using Nat.strong_induction_on generalizing n with
  | _ bound ih =>
    subst bound
    apply rebuilds_node compiled formed conforms present (legible n .refl)
    constructor
    · intro c inSlots
      obtain ⟨key, step⟩ := formed.owned.exists_childAt (.node c) inSlots
      apply ih _ (formed.room_lt step) (formed.owned.of_childAt step).1 _ rfl
      exact fun inner inside => legible inner (.head ⟨key, step⟩ inside)
    · intro l inSlots c isItem
      obtain ⟨key, step⟩ := formed.owned.exists_childAt (.list l) inSlots
      obtain ⟨index, itemStep⟩ := exists_childAt_of_item isItem
      have less := formed.room_lt step
      have lessAgain := formed.room_lt itemStep
      apply ih _ (by omega) (formed.owned.of_childAt itemStep).1 _ rfl
      exact fun inner inside => legible inner (.head ⟨key, step⟩ (.head ⟨index, itemStep⟩ inside))

/-- A list is rebuilt as a free list of copies of its items. -/
theorem rebuilds_list_of_inside {l : ListId}
    (legible : ∀ inner, old.Inside (.list l) (.node inner) → old.Legible inner) :
    old.Rebuilds (.list l) := by
  intro context now nowFormed
  have rebuilds (item : Option NodeId) (isItem : item ∈ old.items l) : old.Rebuilds (.ofItem item) := by
    apply rebuilds_ofItem
    rintro c rfl
    obtain ⟨key, step⟩ := exists_childAt_of_item isItem
    apply rebuilds_node_of_inside compiled formed conforms (formed.owned.of_childAt step).1
    exact fun inner inside => legible inner (.head ⟨key, step⟩ inside)
  have kept : now.Keeps (now.createListOf []).2 := createList_eq now ▸ (Keeps.refl now).createList
  have free := now.owner?_createListOf_self []
  have present := now.hasList_createListOf_self []
  obtain ⟨copies, after, built, afterFormed, same, links, items, copied⟩ :=
    buildItems_rebuilds rebuilds context (nowFormed.edit (.list [] rfl)) present fun field belongs => by
      rw [ownerField?, free] at belongs
      contradiction
  rw [items_createListOf, if_pos rfl, List.nil_append] at items
  refine ⟨.list ⟨now.lists.size⟩, after, ?_, ?_, ?_⟩
  · rw [valueToJson, valueJson, formed.toJson_list, buildValue, bind_of_ok _ (make_createList now),
      bind_of_ok _ built]
    rfl
  · have weaker : CopiedItems old after now.Lacks (old.items l) (after.items ⟨now.lists.size⟩) := by
      rw [items]
      exact copied.imp fun _ _ copied => copied.weaken fun _ missing =>
        missing.of_grown fun _ => kept.hasHandle
    apply weaker.list
    · simp [Lacks, hasHandle, hasList]
    · exact same.hasHandle (.list _) present
  · rintro _ ⟨⟩
    rw [links.parent (.list _) present, parent?, free]
    rfl

end Inside

end Rebuilds

/-- The action makes a copy of the node or list that is new throughout and held nowhere, and leaves
every node and list that was there before as it was. -/
def Duplicates (tree : Tree catalogue) (handle : Handle) (action : Action catalogue Value) : Prop :=
  ∃ copy after, action tree = (.ok (.ofHandle copy), after) ∧
    Copied tree after tree.Lacks (.ofHandle handle) (.ofHandle copy) ∧
    (∀ inner, after.Inside copy inner → tree.hasHandle inner = false) ∧
    after.parent? copy = none ∧ tree.Keeps after

private theorem duplicates_of_rebuilds {tree : Tree catalogue} (formed : tree.WellFormed)
    {handle : Handle} (rebuilds : tree.Rebuilds (.ofHandle handle)) (context : String) :
    tree.Duplicates handle (buildValue context (tree.toJson handle)) := by
  obtain ⟨value, after, built, copied, unheld⟩ := rebuilds context tree formed
  obtain ⟨-, kept, -⟩ := formed.of_buildValue built
  obtain ⟨copy, rfl⟩ : ∃ copy, value = .ofHandle copy := by
    cases handle <;> cases copied
    · exact ⟨.node _, rfl⟩
    · exact ⟨.list _, rfl⟩
  have written : tree.valueToJson (.ofHandle handle) = tree.toJson handle := by
    cases handle <;> rfl
  rw [written] at built
  exact ⟨copy, after, built, copied, fun _ inside => copied.new_of_inside inside,
    unheld copy (handle?_ofHandle copy), kept⟩

theorem Owned.hasHandle_of_inside {tree : Tree catalogue} (owned : tree.Owned) {handle inner : Handle}
    (present : tree.hasHandle handle = true) (inside : tree.Inside handle inner) :
    tree.hasHandle inner = true := by
  induction inside with
  | refl => exact present
  | tail _ step =>
    obtain ⟨key, step⟩ := step
    exact (owned.of_childAt step).1

theorem nodup_ownNames (compiled : catalogue.Compiled) {tree : Tree catalogue} {n : NodeId}
    {type : NodeType} (found : catalogue.type? (tree.typeOf n) = some type)
    (untyped : ∀ field ∈ type.fields, field.name ≠ typeKey) : (tree.ownNames n).Nodup := by
  rw [ownNames, fields_eq_of_type? found, List.nodup_cons]
  refine ⟨fun isField => ?_, compiled.nodup_fields found⟩
  obtain ⟨field, member, named⟩ := List.mem_map.mp isField
  exact untyped field member named

theorem Conforms.legible {tree : Tree catalogue} (conforms : tree.Conforms) (owned : tree.Owned)
    (compiled : catalogue.Compiled)
    (untyped : ∀ id type, catalogue.type? id = some type → ∀ field ∈ type.fields, field.name ≠ typeKey)
    {n : NodeId} (present : tree.hasNode n = true)
    (finite : ∀ value ∈ tree.slots n, value.isFinite = true)
    (apart : ∀ name ∈ (tree.metadata n).keys,
      name ≠ typeKey ∧ ∀ field ∈ tree.fields n, field.name ≠ name) : tree.Legible n := by
  obtain ⟨type, found, -⟩ := conforms.concrete present
  constructor
  · exact nodup_ownNames compiled found (untyped _ type found)
  · exact owned.slots_length present
  · exact finite
  · intro name extra own
    obtain ⟨notType, notField⟩ := apart name extra
    rcases List.mem_cons.mp own with isType | isField
    · exact notType isType
    · obtain ⟨field, member, named⟩ := List.mem_map.mp isField
      exact notField field member named

/-- Building what is written for a node or list, or cloning it, makes a copy of it, as long as its
numbers are finite, no field is named like the member for the type, and its metadata uses neither that
name nor the name of a field. -/
theorem rebuilding_makes_copy (compiled : catalogue.Compiled)
    (untyped : ∀ id type, catalogue.type? id = some type → ∀ field ∈ type.fields, field.name ≠ typeKey)
    {tree : Tree catalogue} (reachable : tree.Reachable) {handle : Handle}
    (present : tree.hasHandle handle = true)
    (finite : ∀ n, tree.Inside handle (.node n) → ∀ value ∈ tree.slots n, value.isFinite = true)
    (apart : ∀ n, tree.Inside handle (.node n) → ∀ name ∈ (tree.metadata n).keys,
      name ≠ typeKey ∧ ∀ field ∈ tree.fields n, field.name ≠ name) :
    tree.Duplicates handle (build (tree.toJson handle)) ∧
      tree.Duplicates handle (cloneSubtree handle) := by
  have formed := reachable.wellFormed
  have conforms := reachable.conforms
  have legible (n : NodeId) (inside : tree.Inside handle (.node n)) : tree.Legible n :=
    conforms.legible formed.owned compiled untyped (formed.owned.hasHandle_of_inside present inside)
      (finite n inside) (apart n inside)
  have rebuilds : tree.Rebuilds (.ofHandle handle) := by
    cases handle with
    | node n => exact rebuilds_node_of_inside compiled formed conforms present legible
    | list l => exact rebuilds_list_of_inside compiled formed conforms legible
  exact ⟨duplicates_of_rebuilds formed rebuilds "input", duplicates_of_rebuilds formed rebuilds "clone"⟩

end Tree

/-- A catalogue with one concrete type, which has a list with holes and a number. -/
def notes : Catalogue where
  name := "notes"
  types := #[⟨"Node", none, true, []⟩,
    ⟨"Note", some ⟨0⟩, false, [⟨"parts", .list, [.type ⟨1⟩, .null], "Note|null", .undefined⟩,
      ⟨"weight", .native, [.primitive .number], "number", .undefined⟩]⟩]
  categories := #[]

theorem compiled_notes : notes.Compiled := by
  have given : Catalogue.ofDecl ⟨"notes", [], [⟨"Note", none, false,
      [⟨"parts", true, ["Note", "null"], [], none⟩, ⟨"weight", false, ["number"], [], none⟩]⟩]⟩ =
      .ok notes := by
    cbv
  exact .of_ofDecl given

namespace Tree

/-- A note with metadata whose parts are another note, of weight minus zero, and a hole. -/
def weighedNotes : Tree notes :=
  (empty notes 1).run [.createNode "Note", .createNode "Note", .push ⟨0⟩ (.node ⟨1⟩), .push ⟨0⟩ .null,
    .set ⟨1⟩ "weight" (.scalar (.number (-0.0))), .setMetadata ⟨0⟩ [("title", .string "first")]]

theorem rebuilding_makes_copy_weighedNotes :
    notes.Compiled ∧ weighedNotes.Reachable ∧ weighedNotes.hasHandle (.node ⟨0⟩) = true ∧
      weighedNotes.Duplicates (.node ⟨0⟩) (build (weighedNotes.toJson (.node ⟨0⟩))) ∧
      weighedNotes.Duplicates (.node ⟨0⟩) (cloneSubtree (.node ⟨0⟩)) := by
  have reachable : weighedNotes.Reachable := ⟨1, _, rfl⟩
  have present : weighedNotes.hasHandle (.node ⟨0⟩) = true := by decide +kernel
  have untyped : ∀ type ∈ notes.types.toList, ∀ field ∈ type.fields, field.name ≠ typeKey := by
    decide +kernel
  have finite : ∀ n ∈ weighedNotes.nodeIds, ∀ value ∈ weighedNotes.slots n, value.isFinite = true := by
    decide +kernel
  have apart : ∀ n ∈ weighedNotes.nodeIds, ∀ name ∈ (weighedNotes.metadata n).keys,
      name ≠ typeKey ∧ ∀ field ∈ weighedNotes.fields n, field.name ≠ name := by
    decide +kernel
  have inTree (n : NodeId) (inside : weighedNotes.Inside (.node ⟨0⟩) (.node n)) :
      n ∈ weighedNotes.nodeIds := by
    have bound := of_decide_eq_true (reachable.wellFormed.owned.hasHandle_of_inside present inside)
    exact List.mem_map.mpr ⟨n.index, List.mem_range.mpr bound, rfl⟩
  refine ⟨compiled_notes, reachable, present, ?_⟩
  apply rebuilding_makes_copy compiled_notes _ reachable present
  · exact fun n inside => finite n (inTree n inside)
  · exact fun n inside => apart n (inTree n inside)
  · exact fun id type found => untyped type (Array.mem_toList_iff.mpr (Array.mem_of_getElem? found))

end Tree
end Arbor
