import Arbor.Proofs.Records
import Arbor.Proofs.Walks
import Arbor.Tree.Serialise

/-! # What a node is written as

The written form of a node or list is made of the written forms of its children; the bound on the depth
does not show, because a tree has room for all its levels. The members of a node are its type, its
assigned fields and its metadata, one after the other, as long as their names do not clash; so each of
the three can be told from the others by name. -/

namespace Arbor

/-- The value is no number beyond the finite ones. -/
def Value.isFinite : Value → Bool
  | .scalar (.number x) => x.isFinite
  | _ => true

namespace Tree

variable {catalogue : Catalogue} {tree : Tree catalogue}

private theorem nodeMembers_congr {id : NodeId} {write other : Handle → Json}
    (same : ∀ key child, tree.ChildAt (.node id) key child → write child = other child) :
    tree.nodeMembers write id = tree.nodeMembers other id := by
  have sameValue (entry : Field × Value) (member : entry ∈ (tree.fields id).zip (tree.slots id)) :
      valueJson write entry.2 = valueJson other entry.2 := by
    obtain ⟨place, zipped⟩ := List.mem_iff_getElem?.mp member
    obtain ⟨declared, held⟩ := List.getElem?_zip_eq_some.mp zipped
    rcases entry with ⟨field, s | n | l⟩
    · rfl
    · exact same _ _ (.slot declared held rfl)
    · exact same _ _ (.slot declared held rfl)
  rw [nodeMembers, nodeMembers]
  congr 1
  apply List.foldl_ext
  intro record entry assigned
  show record.insert _ (valueJson write entry.2) = record.insert _ (valueJson other entry.2)
  rw [sameValue entry (List.mem_of_mem_filter assigned)]

namespace WellFormed

variable (formed : tree.WellFormed)
include formed

/-- The bound on the depth does not show where there is room enough. -/
theorem toJsonUpTo_eq {handle : Handle} (present : tree.hasHandle handle = true) {bound more : Nat}
    (enough : tree.room handle ≤ bound) (enoughMore : tree.room handle ≤ more) :
    tree.toJsonUpTo bound handle = tree.toJsonUpTo more handle := by
  induction bound generalizing handle more with
  | zero =>
    have some := formed.room_pos present
    omega
  | succ bound ih =>
    cases more with
    | zero =>
      have some := formed.room_pos present
      omega
    | succ more =>
      have below (key : Key) (child : Handle) (step : tree.ChildAt handle key child) :
          tree.toJsonUpTo bound child = tree.toJsonUpTo more child := by
        have less := formed.room_lt step
        exact ih (formed.owned.of_childAt step).1 (by omega) (by omega)
      cases handle with
      | node id =>
        rw [toJsonUpTo, toJsonUpTo, nodeMembers_congr below]
      | list l =>
        rw [toJsonUpTo, toJsonUpTo]
        congr 1
        apply List.map_congr_left
        intro item member
        obtain ⟨place, held⟩ := List.mem_iff_getElem?.mp member
        cases item with
        | none => rfl
        | some c => exact below _ _ (.item held)

theorem toJsonUpTo_of_childAt {handle child : Handle} {key : Key}
    (step : tree.ChildAt handle key child) : tree.toJsonUpTo tree.size child = tree.toJson child := by
  have less := formed.room_lt step
  have bound := tree.room_le handle
  exact formed.toJsonUpTo_eq (formed.owned.of_childAt step).1 (by omega) (by omega)

theorem toJson_node (id : NodeId) :
    tree.toJson (.node id) = .object (tree.nodeMembers tree.toJson id) := by
  rw [toJson, toJsonUpTo]
  congr 1
  exact nodeMembers_congr fun key child step => formed.toJsonUpTo_of_childAt step

theorem toJson_list (l : ListId) :
    tree.toJson (.list l) = .array ((tree.items l).map fun item => tree.valueToJson (.ofItem item)) := by
  rw [toJson, toJsonUpTo]
  congr 1
  apply List.map_congr_left
  intro item member
  obtain ⟨place, held⟩ := List.mem_iff_getElem?.mp member
  cases item with
  | none => rfl
  | some c => exact formed.toJsonUpTo_of_childAt (.item held)

end WellFormed

/-- The names a written node uses for its own data. -/
def ownNames (tree : Tree catalogue) (id : NodeId) : List String :=
  typeKey :: (tree.fields id).map (·.name)

/-- The members of the node can be told apart by name, and its numbers can be written. -/
structure Legible (tree : Tree catalogue) (id : NodeId) : Prop where
  distinct : (tree.ownNames id).Nodup
  slots : (tree.slots id).length = (tree.fields id).length
  finite : ∀ value ∈ tree.slots id, value.isFinite = true
  metadata : ∀ name ∈ (tree.metadata id).keys, name ∉ tree.ownNames id

/-- The assigned fields of a node with what they hold. -/
def assigned (tree : Tree catalogue) (id : NodeId) : List (Field × Value) :=
  ((tree.fields id).zip (tree.slots id)).filter (·.2.isSet)

/-- The members of a node for its assigned fields. -/
def fieldMembers (tree : Tree catalogue) (write : Handle → Json) (id : NodeId) : Record Json :=
  (tree.assigned id).map fun entry => (entry.1.name, valueJson write entry.2)

theorem map_name_zip {id : NodeId} (lengths : (tree.slots id).length = (tree.fields id).length) :
    ((tree.fields id).zip (tree.slots id)).map (·.1.name) = (tree.fields id).map (·.name) := by
  calc ((tree.fields id).zip (tree.slots id)).map (·.1.name)
      = (((tree.fields id).zip (tree.slots id)).map Prod.fst).map (·.name) := by rw [List.map_map]; rfl
    _ = (tree.fields id).map (·.name) := by rw [List.map_fst_zip (Nat.le_of_eq lengths.symm)]

private theorem keys_fieldMembers {id : NodeId}
    (lengths : (tree.slots id).length = (tree.fields id).length) (write : Handle → Json) :
    (tree.fieldMembers write id).keys.Sublist ((tree.fields id).map (·.name)) := by
  rw [← map_name_zip lengths, Record.keys, fieldMembers, List.map_map]
  exact List.filter_sublist.map _

/-- The members of a node for its type and its assigned fields. -/
def ownMembers (tree : Tree catalogue) (write : Handle → Json) (id : NodeId) : Record Json :=
  (typeKey, .string (tree.typeName id)) :: tree.fieldMembers write id

section Distinct

variable {id : NodeId} (distinct : (tree.ownNames id).Nodup)
  (lengths : (tree.slots id).length = (tree.fields id).length) (write : Handle → Json)

include lengths in
theorem keys_ownMembers : (tree.ownMembers write id).keys.Sublist (tree.ownNames id) :=
  (keys_fieldMembers lengths write).cons_cons _

include distinct lengths

/-- A node whose own members have different names is written as these, followed by the metadata that none
of them hides. -/
theorem nodeMembers_eq_append : tree.nodeMembers write id =
    tree.ownMembers write id ++ Record.unseen (tree.ownMembers write id).keys (tree.metadata id) := by
  have folded : tree.nodeMembers write id = (tree.metadata id).foldl
      (fun record member => if Record.contains record member.1 then record
        else Record.insert member.1 member.2 record)
      ((tree.fieldMembers write id).foldl
        (fun record member => Record.insert member.1 member.2 record)
        [(typeKey, .string (tree.typeName id))]) := by
    rw [fieldMembers, List.foldl_map]
    rfl
  have own : (tree.ownMembers write id).keys.Nodup := (keys_ownMembers lengths write).nodup distinct
  rw [folded, Record.foldl_insert own, Record.foldl_insert_missing]
  rfl

/-- A name leads to the member of the node itself, and to the metadata where there is none. -/
theorem get?_nodeMembers (name : String) : (tree.nodeMembers write id).get? name =
    ((tree.ownMembers write id).get? name).or ((tree.metadata id).get? name) := by
  rw [nodeMembers_eq_append distinct lengths, Record.get?_append]
  cases own : (tree.ownMembers write id).get? name with
  | some json => rfl
  | none => rw [Record.get?_unseen (Record.get?_eq_none_iff.mp own)]

/-- The name of a field leads to what it holds, if something is assigned to it. -/
theorem get?_ownMembers {place : Nat} {field : Field} {value : Value}
    (declared : (tree.fields id)[place]? = some field) (held : (tree.slots id)[place]? = some value) :
    (tree.ownMembers write id).get? field.name
      = if value.isSet then some (valueJson write value) else none := by
  obtain ⟨noType, distinct⟩ := List.nodup_cons.mp distinct
  have member : field.name ∈ (tree.fields id).map (·.name) :=
    List.mem_map_of_mem (List.mem_of_getElem? declared)
  have zipped : (field, value) ∈ (tree.fields id).zip (tree.slots id) :=
    List.mem_of_getElem? (List.getElem?_zip_eq_some.mpr ⟨declared, held⟩)
  have isType : ¬ (typeKey == field.name) = true := by
    rw [beq_iff_eq]
    rintro same
    exact noType (same ▸ member)
  rw [ownMembers, Record.get?, if_neg isType, fieldMembers, assigned]
  rw [← map_name_zip lengths] at distinct
  exact Record.get?_written (·.1.name) (valueJson write ·.2) (·.2.isSet) distinct zipped

/-- A node whose members have different names is written as its type, its assigned fields and its
metadata. -/
theorem nodeMembers_of_distinct
    (metadata : ∀ name ∈ (tree.metadata id).keys, name ∉ tree.ownNames id) :
    tree.nodeMembers write id = (typeKey, .string (tree.typeName id)) :: tree.fieldMembers write id
      ++ Record.unseen [] (tree.metadata id) := by
  have apart (name : String) (extra : name ∈ (tree.metadata id).keys) :
      name ∉ (tree.ownMembers write id).keys :=
    fun known => metadata name extra ((keys_ownMembers lengths write).mem known)
  rw [nodeMembers_eq_append distinct lengths, ← List.append_nil (Record.keys _),
    Record.unseen_append apart]
  rfl

end Distinct

namespace Legible

variable {id : NodeId} (legible : tree.Legible id) (write : Handle → Json)
include legible

theorem nodeMembers_eq : tree.nodeMembers write id =
    (typeKey, .string (tree.typeName id)) :: tree.fieldMembers write id
      ++ Record.unseen [] (tree.metadata id) :=
  nodeMembers_of_distinct legible.distinct legible.slots write legible.metadata

theorem get?_typeKey :
    (tree.nodeMembers write id).get? typeKey = some (.string (tree.typeName id)) := by
  rw [legible.nodeMembers_eq write, List.cons_append, Record.get?, if_pos (beq_self_eq_true _)]

/-- The name of a field leads to what it holds, if something is assigned to it. -/
theorem get?_name {place : Nat} {field : Field} {value : Value}
    (declared : (tree.fields id)[place]? = some field) (held : (tree.slots id)[place]? = some value) :
    (tree.nodeMembers write id).get? field.name
      = if value.isSet then some (valueJson write value) else none := by
  have noMetadata : (tree.metadata id).get? field.name = none := by
    rw [Record.get?_eq_none_iff]
    intro extra
    exact legible.metadata _ extra
      (List.mem_cons_of_mem _ (List.mem_map_of_mem (List.mem_of_getElem? declared)))
  rw [get?_nodeMembers legible.distinct legible.slots, noMetadata, Option.or_none,
    get?_ownMembers legible.distinct legible.slots write declared held]

/-- What is neither the type nor a field is the metadata. -/
theorem filter_nodeMembers : (tree.nodeMembers write id).filter (fun member =>
      member.1 != typeKey && !((tree.fields id).map (·.name)).contains member.1)
    = Record.unseen [] (tree.metadata id) := by
  have extra (member : String × Json) : (member.1 != typeKey &&
      !((tree.fields id).map (·.name)).contains member.1) = !decide (member.1 ∈ tree.ownNames id) := by
    rw [Bool.eq_iff_iff]
    simp [ownNames]
  simp only [extra]
  rw [legible.nodeMembers_eq write, List.filter_append, List.filter_eq_nil_iff.mpr,
    List.filter_eq_self.mpr, List.nil_append]
  · intro member inMetadata
    have name := List.mem_map_of_mem (f := Prod.fst) ((Record.sublist_unseen ..).mem inMetadata)
    simpa using legible.metadata _ name
  · intro member own
    have name := List.mem_map_of_mem (f := Prod.fst) own
    have known : member.1 ∈ tree.ownNames id :=
      ((keys_fieldMembers legible.slots write).cons_cons typeKey).mem name
    simpa using known

end Legible

end Tree
end Arbor
