import Arbor.Proofs.Assigning
import Arbor.Proofs.Hierarchy

/-! # What is read can be written back

A field that holds no list reads as what its slot holds, or as its default while the slot is unset. Either
way the field accepts what was read: what a slot holds was checked when it was put there, and a default is
checked, or chosen so as to pass the check, when the catalogue is compiled. Writing it back leaves all
fields reading as before. A node that is written back leaves its slot and comes into it again, which gives
the same tree. -/

namespace Arbor

/-- The field accepts its own default. A list field has no use for one. -/
structure Field.Defaulted (field : Field) : Prop where
  ofList : field.kind = .list → field.default = .undefined
  ofNode : field.kind = .node →
    field.default = .undefined ∨ field.default = .null ∧ field.admitsNull = true
  ofScalar : field.kind = .native ∨ field.kind = .strict → field.admitsScalar field.default = true

namespace Draft

private theorem defaulted_impliedDefault (field : Field) :
    Field.Defaulted { field with default := impliedDefault field } := by
  unfold impliedDefault
  split
  · exact ⟨fun _ => rfl, fun _ => .inl rfl, fun _ => rfl⟩
  next noList =>
  split
  · next nullable =>
    exact ⟨fun isList => absurd isList noList, fun _ => .inr ⟨rfl, nullable⟩, fun _ => nullable⟩
  split
  · next isNative onlyBooleans =>
    refine ⟨fun isList => absurd isList noList, fun isNode => ?_, fun _ => ?_⟩
    · rw [isNative] at isNode
      contradiction
    · simp only [Field.admitsScalar, onlyBooleans]
      rfl
  · exact ⟨fun _ => rfl, fun _ => .inl rfl, fun _ => rfl⟩

private theorem defaulted_of_compileField {scope : Scope} {type : String} {decl : FieldDecl}
    {field : Field} (compiled : compileField scope type decl = .ok field) : field.Defaulted := by
  rw [compileField] at compiled
  split at compiled
  · contradiction
  split at compiled
  · contradiction
  next kind _ =>
  rw [withDefault.eq_def] at compiled
  split at compiled
  · cases compiled
    exact defaulted_impliedDefault _
  · dsimp only at compiled
    split at compiled
    · next valid =>
      cases compiled
      obtain ⟨holdsScalars, admitted⟩ := Bool.and_eq_true_iff.mp valid
      have isScalar : kind = .native ∨ kind = .strict := by simpa using holdsScalars
      refine ⟨fun isList => ?_, fun isNode => ?_, fun _ => admitted⟩
      · obtain rfl | rfl := isScalar <;> contradiction
      · obtain rfl | rfl := isScalar <;> contradiction
    · contradiction

end Draft

/-- Every field of a compiled catalogue, inherited or not, accepts its default. -/
theorem Catalogue.Compiled.defaulted {catalogue : Catalogue} (compiled : catalogue.Compiled) {id : TypeId}
    {type : NodeType} (found : catalogue.type? id = some type) {field : Field}
    (isField : field ∈ type.fields) : field.Defaulted := by
  obtain ⟨draft, made, success⟩ := compiled
  obtain ⟨name, decl, isCompiled⟩ := made.exists_compileField success found isField
  exact Draft.defaulted_of_compileField isCompiled

/-- What a field reads as is also what it reads as once it holds that. -/
theorem Field.read_read (field : Field) (value : Value) :
    field.read (field.read value) = field.read value := by
  by_cases unset : value = .undefined
  · subst unset
    by_cases noDefault : field.read .undefined = .undefined
    · rw [noDefault, noDefault]
    · exact Tree.Field.read_of_ne field noDefault
  · rw [Tree.Field.read_of_ne field unset, Tree.Field.read_of_ne field unset]

namespace Tree

variable {catalogue : Catalogue}

theorem Fits.default (tree : Tree catalogue) {field : Field} (defaulted : field.Defaulted)
    (noList : field.kind ≠ .list) : tree.Fits field (.scalar field.default) := by
  cases kind : field.kind with
  | list => exact absurd kind noList
  | node =>
    obtain isUndefined | ⟨isNull, nullable⟩ := defaulted.ofNode kind
    · rw [isUndefined]
      exact .unset kind
    · rw [isNull]
      exact .null kind nullable
  | native => exact .scalar _ (.inl kind) (defaulted.ofScalar (.inl kind))
  | strict => exact .scalar _ (.inr kind) (defaulted.ofScalar (.inr kind))

theorem Fits.read {tree : Tree catalogue} {field : Field} {held : Value} (fits : tree.Fits field held)
    (defaulted : field.Defaulted) (noList : field.kind ≠ .list) : tree.Fits field (field.read held) := by
  by_cases isSet : held = .undefined
  · subst isSet
    exact .default tree defaulted noList
  · rw [Field.read_of_ne field isSet]
    exact fits

section PutBack

private theorem set_releaseSlot {c : NodeId} {slots : List Value} {place : Nat}
    (distinct : (slots.filterMap Value.node?).Nodup) (held : slots[place]? = some (.node c)) :
    (releaseSlot c slots).set place (.node c) = slots := by
  induction slots generalizing place with
  | nil => rfl
  | cons value rest ih =>
    cases place with
    | zero =>
      obtain rfl : value = .node c := by simpa using held
      simp [releaseSlot, Value.node?]
    | succ place =>
      have inRest : rest[place]? = some (.node c) := by simpa using held
      have other : value.node? ≠ some c := by
        intro same
        rw [List.filterMap_cons_some same] at distinct
        have member : .node c ∈ rest := List.mem_of_getElem? inRest
        exact (List.nodup_cons.mp distinct).1 (List.mem_filterMap.mpr ⟨_, member, rfl⟩)
      have restDistinct : (rest.filterMap Value.node?).Nodup :=
        distinct.sublist ((List.sublist_cons_self value rest).filterMap _)
      rw [releaseSlot, if_neg other, List.set_cons_succ, ih restDistinct inRest]

private theorem setSlotValue_of_held {tree : Tree catalogue} {n : NodeId} {place : Nat}
    {value : Value} (held : (tree.slots n)[place]? = some value) :
    tree.setSlotValue n place value = tree := by
  refine Rearranges.eq (.setSlotValue ..) (fun x => parent?_setSlotValue ..) (fun x => ?_) fun l => rfl
  rw [slots_setSlotValue]
  split
  · next same =>
    subst same
    obtain ⟨bound, rfl⟩ := List.getElem?_eq_some_iff.mp held
    exact List.set_getElem_self bound
  · rfl

/-- Where no node comes or goes, an assignment only records the value. -/
theorem afterAssign_of_no_node {tree : Tree catalogue} {n : NodeId} {place : Nat} {held value : Value}
    (isHeld : (tree.slots n)[place]? = some held) (noneGoes : held.node? = none)
    (noneComes : value.node? = none) :
    tree.afterAssign n place value = tree.setSlotValue n place value := by
  rw [← putScalar_eq_afterAssign tree n place noneComes, putScalar, isHeld, Option.bind_some, noneGoes]

/-- A node that is put into the slot that holds it leaves that slot and comes back. -/
theorem Owned.afterAssign_of_held_node {tree : Tree catalogue} (owned : tree.Owned) {n c : NodeId}
    {place : Nat} (held : (tree.slots n)[place]? = some (.node c)) :
    tree.afterAssign n place (.node c) = tree := by
  have parent := owned.mem_slot_iff.mp (List.mem_of_getElem? held)
  have present : tree.hasValue (.node c) = true := hasNode_of_parent? parent
  have isOnly : (Value.node c).node?.toList = [c] := rfl
  refine Rearranges.eq ((Rearranges.transfer ..).trans (.setSlotValue ..)) (fun x => ?_) (fun x => ?_)
    fun l => ?_
  · rw [parent?_afterAssign present]
    split
    · next moved =>
      cases mem_node?_toList.mp moved
      exact parent.symm
    · next stays =>
      have notDisplaced : x ∉ tree.displaced n place := by
        rw [mem_displaced, held, Option.some.injEq]
        exact fun same => stays (mem_node?_toList.mpr same)
      rw [if_neg notDisplaced]
  · rw [slots_afterAssign, isOnly]
    split
    · next same =>
      have distinct : ((tree.slots n).filterMap Value.node?).Nodup := owned.nodup (.node n)
      rw [same, ← releaseSlot_eq_vacate distinct, set_releaseSlot distinct held]
    · next other =>
      apply vacate_of_not_mem
      intro member
      rw [owned.mem_slot_iff, parent] at member
      cases member
      exact other rfl
  · refine (items_transfer tree (tree.displaced n place) [c] (.node n) l).trans ?_
    split
    · next isOwned =>
      apply without_of_not_mem
      intro member
      cases parent.symm.trans (owned.mem_item_iff.mp ⟨isOwned, member⟩)
    · rfl

/-- Assigning what a field reads as comes to recording it in the slot. -/
theorem Owned.afterAssign_read {tree : Tree catalogue} (owned : tree.Owned) {n : NodeId} {place : Nat}
    (field : Field) {held : Value} (isHeld : (tree.slots n)[place]? = some held) :
    tree.afterAssign n place (field.read held) = tree.setSlotValue n place (field.read held) := by
  by_cases unset : held = .undefined
  · subst unset
    exact afterAssign_of_no_node isHeld rfl rfl
  · rw [Field.read_of_ne field unset]
    cases held with
    | node c => rw [owned.afterAssign_of_held_node isHeld, setSlotValue_of_held isHeld]
    | scalar s => exact afterAssign_of_no_node isHeld rfl rfl
    | list l => exact afterAssign_of_no_node isHeld rfl rfl

end PutBack

private theorem readings_setSlotValue_read {tree : Tree catalogue} {n : NodeId} {place : Nat}
    {field : Field} {held : Value} (declared : (tree.fields n)[place]? = some field)
    (isHeld : (tree.slots n)[place]? = some held) (m : NodeId) :
    (tree.setSlotValue n place (field.read held)).readings m = tree.readings m := by
  refine List.ext_getElem? fun i => Option.ext fun entry => ?_
  obtain ⟨other, value⟩ := entry
  rw [getElem?_readings_iff, getElem?_readings_iff, fields_setSlotValue, slots_setSlotValue]
  split
  · next same =>
    subst same
    by_cases there : place = i
    · subst there
      have bound := (List.getElem?_eq_some_iff.mp isHeld).1
      rw [List.getElem?_set_self bound, isHeld, declared]
      simp only [Option.some.injEq, exists_eq_left']
      refine and_congr_right ?_
      rintro rfl
      rw [Field.read_read]
    · rw [List.getElem?_set_ne there]
  · rfl

private theorem get_setSlotValue_read {tree : Tree catalogue} {n : NodeId} {place : Nat}
    {field : Field} {held : Value} (declared : (tree.fields n)[place]? = some field)
    (isHeld : (tree.slots n)[place]? = some held) (m : NodeId) (name : String) :
    (tree.setSlotValue n place (field.read held)).get m name = tree.get m name := by
  rw [get, get, readings_setSlotValue_read declared isHeld, typeName, typeOf_setSlotValue, typeName]

theorem Fits.hasValue {tree : Tree catalogue} {field : Field} {value : Value} (fits : tree.Fits field value)
    (noList : field.kind ≠ .list) : tree.hasValue value = true := by
  cases fits with
  | list l isList => exact absurd isList noList
  | node c isNode present admitted => exact present
  | scalar | unset | null => rfl

private theorem eq_of_read_eq_node {field : Field} {held : Value} {c : NodeId}
    (read : field.read held = .node c) : held = .node c := by
  by_cases unset : held = .undefined
  · subst unset
    contradiction
  · rwa [Field.read_of_ne field unset] at read

/-- In a catalogue whose fields accept their defaults a field may take what it reads as. -/
theorem WellFormed.takes_read {tree : Tree catalogue} (formed : tree.WellFormed) {n : NodeId} {place : Nat}
    {field : Field} {held : Value} (fits : tree.Fits field held)
    (isHeld : (tree.slots n)[place]? = some held) (defaulted : field.Defaulted)
    (noList : field.kind ≠ .list) : tree.Takes n field (field.read held) := by
  refine ⟨noList, fits.read defaulted noList, fun c read => ?_⟩
  -- The node is already right below the one that gets it, and so not around that.
  obtain rfl := eq_of_read_eq_node read
  have inside : tree.HeldBy (.node c) (.node n) :=
    formed.owned.mem_slot_iff.mp (List.mem_of_getElem? isHeld)
  constructor
  · rintro rfl
    exact formed.acyclic _ (.single inside)
  · intro around
    exact formed.acyclic _ (.tail around inside)

/-- The names of fields differ, so every field is the one its name leads to. -/
theorem Conforms.exists_declares {tree : Tree catalogue} (conforms : tree.Conforms)
    (compiled : catalogue.Compiled) {n : NodeId} (present : tree.hasNode n = true) {field : Field}
    (isField : field ∈ tree.fields n) : ∃ place, tree.Declares n field.name place field := by
  obtain ⟨type, found, -⟩ := conforms.concrete present
  have distinct := compiled.nodup_fields found
  rw [← fields_eq_of_type? found] at distinct
  obtain ⟨place, declared⟩ := List.mem_iff_getElem?.mp isField
  refine ⟨place, declared, rfl, fun earlier other before isOther same => ?_⟩
  have bound : earlier < ((tree.fields n).map (·.name)).length := by
    rw [List.length_map]
    exact (List.getElem?_eq_some_iff.mp isOther).1
  have sameName : ((tree.fields n).map (·.name))[earlier]? = ((tree.fields n).map (·.name))[place]? := by
    rw [List.getElem?_map, List.getElem?_map, isOther, declared, Option.map_some, Option.map_some, same]
  exact Nat.ne_of_lt before ((List.getElem?_inj bound distinct).mp sameName)

/-- Every field of a compiled catalogue accepts its default, unless it holds a list. So whatever such a
field reads as, in a tree of the catalogue, can be assigned to it; and after that all fields of all nodes
read as before, and all parent links and lists are the same. -/
theorem reading_is_assignable (compiled : catalogue.Compiled) :
    (∀ id type, catalogue.type? id = some type → ∀ field ∈ type.fields,
      (field.kind = .list → field.default = .undefined) ∧
      (field.kind ≠ .list →
        ∀ tree : Tree catalogue, tree.admits field (.scalar field.default) = true)) ∧
    ∀ tree : Tree catalogue, tree.Reachable → ∀ n, tree.hasNode n = true → ∀ field ∈ tree.fields n,
      field.kind ≠ .list →
      ∃ value after, tree.get n field.name = .ok value ∧
        (Operation.set n field.name value).perform tree = (.ok .done, after) ∧
        (∀ m name, after.get m name = tree.get m name) ∧
        (∀ handle, after.parent? handle = tree.parent? handle) ∧
        ∀ l, after.list? l = tree.list? l := by
  refine ⟨fun id type found field isField => ?_, fun tree reachable n present field isField noList => ?_⟩
  · have defaulted := compiled.defaulted found isField
    exact ⟨defaulted.ofList, fun noList tree => (Fits.default tree defaulted noList).admits noList⟩
  · have formed := reachable.wellFormed
    have conforms := reachable.conforms
    obtain ⟨type, found, -⟩ := conforms.concrete present
    have defaulted := compiled.defaulted found (fields_eq_of_type? found ▸ isField)
    obtain ⟨place, declares⟩ := conforms.exists_declares compiled present isField
    have bound : place < (tree.slots n).length := by
      rw [formed.owned.slots_length present]
      exact (List.getElem?_eq_some_iff.mp declares.declared).1
    have isHeld := List.getElem?_eq_getElem bound
    have takes := formed.takes_read (conforms.fits present declares.declared isHeld) isHeld defaulted noList
    have written := (formed.set_eq_ok_iff (takes.fits.hasValue noList)).mpr
      ⟨place, field, declares, takes, rfl⟩
    rw [formed.owned.afterAssign_read field isHeld] at written
    refine ⟨_, _, declares.get_eq isHeld, perform_set_eq_ok_iff.mpr ⟨rfl, written⟩,
      get_setSlotValue_read declares.declared isHeld, fun handle => ?_, fun l => rfl⟩
    cases handle with
    | node x => exact parent?_setSlotValue ..
    | list l => rfl

open Draft (budded)

def tippedBud : Tree budded :=
  (empty budded 1).run [.createNode "Bud", .createNode "Twig", .set ⟨0⟩ "tip" (.node ⟨1⟩)]

/-- The bud gets its tip once more, and a field of the twig, which is unset, what it reads as. -/
theorem reading_is_assignable_tippedBud :
    budded.Compiled ∧ tippedBud.Reachable ∧
    (∃ after, (Operation.set ⟨0⟩ "tip" (.node ⟨1⟩)).perform tippedBud = (.ok .done, after) ∧
      after.get ⟨0⟩ "tip" = .ok (.node ⟨1⟩) ∧ after.parent? (.node ⟨1⟩) = some (.node ⟨0⟩)) ∧
    ∃ after, (Operation.set ⟨1⟩ "bend" (.scalar (.boolean false))).perform tippedBud = (.ok .done, after) ∧
      after.get ⟨1⟩ "bend" = .ok (.scalar (.boolean false)) := by
  have compiled : budded.Compiled := ⟨_, Draft.made_new_declareAll .., Draft.compile_budding⟩
  have reachable : tippedBud.Reachable := ⟨1, _, rfl⟩
  have tip : tippedBud.get ⟨0⟩ "tip" = .ok (.node ⟨1⟩) := by cbv
  have bend : tippedBud.get ⟨1⟩ "bend" = .ok (.scalar (.boolean false)) := by cbv
  have inside : tippedBud.parent? (.node ⟨1⟩) = some (.node ⟨0⟩) := by cbv
  have ofBud : (tippedBud.fields ⟨0⟩)[3]? = some ⟨"tip", .node, [.type ⟨1⟩], "Leaf", .undefined⟩ := by cbv
  have ofTwig : (tippedBud.fields ⟨1⟩)[2]? =
      some ⟨"bend", .native, [.primitive .boolean], "boolean", .boolean false⟩ := by cbv
  have assignable := (reading_is_assignable compiled).2 tippedBud reachable
  obtain ⟨_, after, read, written, reads, parents, -⟩ :=
    assignable ⟨0⟩ (by cbv) _ (List.mem_of_getElem? ofBud) (by simp)
  obtain ⟨_, other, readBend, writtenBend, readsBend, -⟩ :=
    assignable ⟨1⟩ (by cbv) _ (List.mem_of_getElem? ofTwig) (by simp)
  cases tip.symm.trans read
  cases bend.symm.trans readBend
  exact ⟨compiled, reachable, ⟨after, written, (reads ..).trans tip, (parents _).trans inside⟩, other,
    writtenBend, (readsBend ..).trans bend⟩

end Tree
end Arbor
