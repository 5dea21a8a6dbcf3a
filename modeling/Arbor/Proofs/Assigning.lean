import Arbor.Proofs.Conformance
import Arbor.Proofs.Transfer

/-! # Assignments to fields

An assignment is refused exactly if the type declares no such field, the field holds a list, the field
does not accept the value, or the value is a node around the one that is to get it. Otherwise the slot
holds the value, a node that stood there is held by nothing, and a node that comes leaves its former
place; that place may be a list, another slot of the same node, or the very slot that is assigned. -/

namespace Arbor.Tree

variable {catalogue : Catalogue}

open Arbor.Action

/-- The field is the first of the given name among those of the node, and stands at the place. -/
structure Declares (tree : Tree catalogue) (n : NodeId) (name : String) (place : Nat) (field : Field) :
    Prop where
  declared : (tree.fields n)[place]? = some field
  named : field.name = name
  first : ∀ (earlier : Nat) (other : Field), earlier < place →
    (tree.fields n)[earlier]? = some other → other.name ≠ name

private theorem fieldPlace_eq_ok_iff {tree : Tree catalogue} {n : NodeId} {name : String}
    {place : Nat} :
    tree.fieldPlace n name = .ok place ↔ ∃ field, tree.Declares n name place field := by
  rw [fieldPlace]
  constructor
  · intro found
    split at found
    · next place isPlace =>
      cases found
      obtain ⟨bound, named, first⟩ := List.findIdx?_eq_some_iff_getElem.mp isPlace
      refine ⟨(tree.fields n)[place], List.getElem?_eq_getElem bound, by simpa using named, ?_⟩
      intro earlier other before isOther
      obtain ⟨-, rfl⟩ := List.getElem?_eq_some_iff.mp isOther
      simpa using first earlier before
    · contradiction
  · rintro ⟨field, declared, named, first⟩
    obtain ⟨bound, isField⟩ := List.getElem?_eq_some_iff.mp declared
    have isPlace : (tree.fields n).findIdx? (·.name == name) = some place := by
      rw [List.findIdx?_eq_some_iff_getElem]
      refine ⟨bound, by simp [isField, named], fun earlier before => ?_⟩
      simpa using first earlier _ before (List.getElem?_eq_getElem (by omega))
    rw [isPlace]

/-- A field reads as what its slot holds, or as its default. -/
theorem Declares.get_eq {tree : Tree catalogue} {n : NodeId} {name : String} {place : Nat}
    {field : Field} (declares : tree.Declares n name place field) {value : Value}
    (held : (tree.slots n)[place]? = some value) : tree.get n name = .ok (field.read value) := by
  obtain ⟨declared, named, first⟩ := declares
  have found : (tree.readings n).find? (fun entry => entry.1.name == name) =
      some (field, field.read value) := by
    obtain ⟨bound, isEntry⟩ :=
      List.getElem?_eq_some_iff.mp (getElem?_readings_iff.mpr ⟨declared, value, held, rfl⟩)
    rw [List.find?_eq_some_iff_getElem]
    refine ⟨by simp [named], place, bound, isEntry, fun earlier before => ?_⟩
    have isEarlier : earlier < (tree.readings n).length := by omega
    have isOther := (getElem?_readings_iff.mp (List.getElem?_eq_getElem isEarlier)).1
    simpa using first earlier _ before isOther
  simp only [get, found]

/-- The value may be assigned to the field of a node: the field holds no list and accepts the value, and
a node is neither the one that gets it nor around that. -/
structure Takes (tree : Tree catalogue) (n : NodeId) (field : Field) (value : Value) : Prop where
  noList : field.kind ≠ .list
  fits : tree.Fits field value
  outside : ∀ c, value = .node c → c ≠ n ∧ ¬ tree.Below (.node n) (.node c)

theorem Fits.admits {tree : Tree catalogue} {field : Field} {value : Value}
    (fits : tree.Fits field value) (noList : field.kind ≠ .list) : tree.admits field value = true := by
  cases fits with
  | list l isList => exact absurd isList noList
  | scalar s holdsScalars admitted =>
    obtain kind | kind := holdsScalars <;> simpa [Tree.admits, kind, Field.admitsValue] using admitted
  | unset isNode => simp [Tree.admits, isNode, Value.undefined]
  | null isNode admitted => simpa [Tree.admits, isNode, Value.null] using admitted
  | node c isNode present admitted => simpa [Tree.admits, isNode] using admitted

/-- A field that holds no list can be unset. -/
theorem fits_undefined (tree : Tree catalogue) {field : Field} (noList : field.kind ≠ .list) :
    tree.Fits field .undefined := by
  cases kind : field.kind with
  | list => exact absurd kind noList
  | node => exact .unset kind
  | native => exact .scalar _ (.inl kind) rfl
  | strict => exact .scalar _ (.inr kind) rfl

section Put

variable (tree : Tree catalogue) (n : NodeId) (place : Nat) (value : Value)

theorem Rearranges.putScalar : tree.Rearranges (tree.putScalar n place value) := by
  rw [Tree.putScalar]
  split
  · exact (setSlotValue ..).trans (setParent ..)
  · exact setSlotValue ..

private theorem parent?_putScalar (x : NodeId) : (tree.putScalar n place value).parent? (.node x) =
    if x ∈ tree.displaced n place then none else tree.parent? (.node x) := by
  unfold putScalar displaced
  cases (tree.slots n)[place]?.bind (·.node?) with
  | none => simp
  | some q => simp [parent?_setParent]

private theorem slots_putScalar (x : NodeId) : (tree.putScalar n place value).slots x =
    if x = n then (tree.slots x).set place value else tree.slots x := by
  rw [putScalar, ← slots_setSlotValue]
  split
  · exact slots_setParent ..
  · rfl

private theorem items_putScalar (l : ListId) :
    (tree.putScalar n place value).items l = tree.items l := by
  rw [putScalar]
  split <;> rfl

end Put

/-- The tree after the value, a scalar or a node, is put into a slot. -/
def afterAssign (tree : Tree catalogue) (n : NodeId) (place : Nat) (value : Value) : Tree catalogue :=
  (tree.transfer (tree.displaced n place) value.node?.toList (.node n)).setSlotValue n place value

theorem putScalar_eq_afterAssign (tree : Tree catalogue) (n : NodeId) (place : Nat) {value : Value}
    (noNode : value.node? = none) : tree.putScalar n place value = tree.afterAssign n place value := by
  rw [afterAssign, noNode]
  refine Rearranges.eq (((Rearranges.transfer ..).trans (.setSlotValue ..)).symm.trans
    (.putScalar ..)) (fun x => ?_) (fun x => ?_) fun l => ?_
  · rw [parent?_putScalar, parent?_setSlotValue, parent?_transfer _ _ _ _ (by simp)]
    rfl
  · rw [slots_putScalar, slots_setSlotValue, slots_transfer]
    simp
  · rw [items_putScalar]
    refine Eq.symm (Eq.trans (items_transfer tree (tree.displaced n place) [] (.node n) l) ?_)
    simp

theorem Owned.mem_displaced_detach {tree : Tree catalogue} (owned : tree.Owned) {c x : NodeId}
    (other : x ≠ c) (n : NodeId) (place : Nat) :
    x ∈ (tree.detach c).displaced n place ↔ x ∈ tree.displaced n place := by
  rw [mem_displaced, mem_displaced, owned.slots_detach_eq_vacate, getElem?_vacate_eq_node_iff]
  exact and_iff_left (by simpa using other)

theorem Owned.putNode_eq_afterAssign {tree : Tree catalogue} (owned : tree.Owned) {c : NodeId}
    (present : tree.hasNode c = true) (n : NodeId) (place : Nat) :
    tree.putNode n place c = tree.afterAssign n place (.node c) := by
  have isOnly : (Value.node c).node?.toList = [c] := rfl
  rw [afterAssign, isOnly, putNode]
  refine Rearranges.eq (((Rearranges.transfer ..).trans (.setSlotValue ..)).symm.trans
    ((Rearranges.detach tree c).trans ((Rearranges.putScalar ..).trans (.setParent ..))))
    (fun x => ?_) (fun x => ?_) fun l => ?_
  · have inTree : ((tree.detach c).putScalar n place (.node c)).hasNode c = true :=
      (((Rearranges.detach tree c).trans (.putScalar ..)).hasNode c).trans present
    rw [parent?_setParent_of_hasNode _ _ _ _ inTree, parent?_putScalar, parent?_setSlotValue,
      parent?_transfer _ _ _ _ (by simpa using present), parent?_detach]
    by_cases same : x = c
    · simp [same]
    · simp [same, owned.mem_displaced_detach same]
  · rw [slots_setParent, slots_putScalar, owned.slots_detach_eq_vacate, slots_setSlotValue,
      slots_transfer]
  · calc _ = (tree.detach c).items l := items_putScalar ..
      _ = if tree.isOwned l = true then without [c] (tree.items l) else tree.items l := by
        split
        · next isOwned => exact owned.items_detach_eq_without isOwned c
        · next isFree =>
          exact owned.items_foldl_detach_of_free (by simpa using isFree) [c]
      _ = _ := (items_transfer tree (tree.displaced n place) [c] (.node n) l).symm

theorem WellFormed.checkAcyclic_eq_ok_iff {tree : Tree catalogue} (formed : tree.WellFormed)
    {n c : NodeId} : tree.checkAcyclic c (.node n) = .ok () ↔
      c ≠ n ∧ ¬ tree.Below (.node n) (.node c) := by
  rw [← not_or, ← Handle.node.injEq, ← within_iff]
  exact ⟨formed.outside_of_checkAcyclic, formed.checkAcyclic_eq_ok⟩

theorem WellFormed.setSlot_eq_ok_iff {tree after : Tree catalogue} (formed : tree.WellFormed)
    {n : NodeId} {place : Nat} {value : Value} (present : tree.hasValue value = true) :
    tree.setSlot n place value = .ok after ↔
      (∃ field, (tree.fields n)[place]? = some field ∧ tree.Takes n field value) ∧
        after = tree.afterAssign n place value := by
  constructor
  · intro success
    rw [setSlot.eq_def] at success
    split at success
    · contradiction
    next passed =>
    obtain ⟨field, declared, noList, admitted⟩ := checkPlace_eq_ok_iff.mp passed
    have fits := fits_of_admits admitted present
    split at success
    · next c =>
      split at success
      · contradiction
      next apart =>
      cases success
      refine ⟨⟨field, declared, noList, fits, ?_⟩, formed.owned.putNode_eq_afterAssign present n place⟩
      rintro _ ⟨⟩
      exact formed.checkAcyclic_eq_ok_iff.mp apart
    · next noNode =>
      cases success
      obtain ⟨s, rfl⟩ := scalar_of_admits admitted noNode
      exact ⟨⟨field, declared, noList, fits, fun c isNode => absurd isNode (noNode c)⟩,
        putScalar_eq_afterAssign tree n place rfl⟩
  · rintro ⟨⟨field, declared, noList, fits, outside⟩, rfl⟩
    have passed := checkPlace_eq_ok_iff.mpr ⟨field, declared, noList, fits.admits noList⟩
    rw [setSlot.eq_def, passed]
    cases value with
    | node c =>
      simp only [formed.checkAcyclic_eq_ok_iff.mpr (outside c rfl),
        formed.owned.putNode_eq_afterAssign present]
    | scalar s =>
      have put := putScalar_eq_afterAssign tree n place (show (Value.scalar s).node? = none from rfl)
      simp only [put]
    | list l => exact absurd fits.kind_of_list noList

theorem perform_set_eq_ok_iff {tree : Tree catalogue} {n : NodeId} {name : String} {value : Value}
    {answer : Answer} {after : Tree catalogue} :
    (Operation.set n name value).perform tree = (.ok answer, after) ↔
      answer = .done ∧ tree.set n name value = .ok after := by
  rw [Operation.perform, Operation.outcome, assign_eq_whole]
  cases result : tree.set n name value with
  | error error =>
    rw [whole_of_error (by rw [result]; rfl)]
    simp [Except.map]
  | ok made =>
    rw [whole_of_ok (by rw [result]; rfl)]
    simp [Except.map, eq_comm]

theorem WellFormed.set_eq_ok_iff {tree after : Tree catalogue} (formed : tree.WellFormed)
    {n : NodeId} {name : String} {value : Value} (present : tree.hasValue value = true) :
    tree.set n name value = .ok after ↔
      ∃ place field, tree.Declares n name place field ∧ tree.Takes n field value ∧
        after = tree.afterAssign n place value := by
  constructor
  · intro success
    rw [set.eq_def] at success
    split at success
    · contradiction
    next place found =>
    obtain ⟨field, declares⟩ := fieldPlace_eq_ok_iff.mp found
    obtain ⟨⟨other, declared, takes⟩, isAfter⟩ := (formed.setSlot_eq_ok_iff present).mp success
    obtain rfl : field = other := Option.some.inj (declares.declared.symm.trans declared)
    exact ⟨place, field, declares, takes, isAfter⟩
  · rintro ⟨place, field, declares, takes, isAfter⟩
    rw [set.eq_def, fieldPlace_eq_ok_iff.mpr ⟨field, declares⟩]
    exact (formed.setSlot_eq_ok_iff present).mpr ⟨⟨field, declares.declared, takes⟩, isAfter⟩

/-- What the slot and the rest of the tree are after a value is assigned to the field at a place. -/
structure Assigned (tree : Tree catalogue) (n : NodeId) (name : String) (place : Nat) (field : Field)
    (value : Value) (after : Tree catalogue) : Prop where
  slot : (after.slots n)[place]? = some value
  reads : value ≠ .undefined → after.get n name = .ok value
  readsDefault : value = .undefined → after.get n name = .ok (.scalar field.default)
  released : ∀ q, (tree.slots n)[place]? = some (.node q) → value ≠ .node q →
    after.parent? (.node q) = none
  held : ∀ c, value = .node c → after.parent? (.node c) = some (.node n)
  unset : ∀ (p : NodeId) (i : Nat) (c : NodeId), value = .node c →
    (tree.slots p)[i]? = some (.node c) → (p, i) ≠ (n, place) →
    (after.slots p)[i]? = some .undefined
  withdrawn : ∀ l c, value = .node c → tree.isOwned l = true →
    after.items l = without [c] (tree.items l)
  exact : after = (tree.transfer (tree.displaced n place) value.node?.toList (.node n)).setSlotValue n
    place value

theorem Field.read_of_ne (field : Field) {value : Value} (isSet : value ≠ .undefined) :
    field.read value = value := by
  unfold Field.read
  split
  · exact absurd rfl isSet
  · rfl

theorem Declares.rearranges {tree after : Tree catalogue} (same : tree.Rearranges after) {n : NodeId}
    {name : String} {place : Nat} {field : Field} (declares : tree.Declares n name place field) :
    after.Declares n name place field := by
  obtain ⟨declared, named, first⟩ := declares
  rw [← same.fields] at declared first
  exact ⟨declared, named, first⟩

theorem Declares.unique {tree : Tree catalogue} {n : NodeId} {name : String} {place other : Nat}
    {field another : Field} (first : tree.Declares n name place field)
    (second : tree.Declares n name other another) : place = other ∧ field = another := by
  have isPlace := fieldPlace_eq_ok_iff.mpr ⟨field, first⟩
  rw [fieldPlace_eq_ok_iff.mpr ⟨another, second⟩] at isPlace
  obtain rfl : other = place := Except.ok.inj isPlace
  exact ⟨rfl, Option.some.inj (first.declared.symm.trans second.declared)⟩

theorem slots_afterAssign (tree : Tree catalogue) (n : NodeId) (place : Nat) (value : Value)
    (x : NodeId) : (tree.afterAssign n place value).slots x =
      if x = n then (vacate value.node?.toList (tree.slots x)).set place value
      else vacate value.node?.toList (tree.slots x) := by
  rw [afterAssign, slots_setSlotValue, slots_transfer]

theorem parent?_afterAssign {tree : Tree catalogue} {value : Value} (present : tree.hasValue value = true)
    (n : NodeId) (place : Nat) (x : NodeId) : (tree.afterAssign n place value).parent? (.node x) =
      if x ∈ value.node?.toList then some (.node n)
      else if x ∈ tree.displaced n place then none else tree.parent? (.node x) := by
  rw [afterAssign, parent?_setSlotValue, parent?_transfer]
  intro c member
  obtain rfl := mem_node?_toList.mp member
  exact present

theorem Owned.assigned {tree : Tree catalogue} (owned : tree.Owned) {n : NodeId}
    (present : tree.hasNode n = true) {name : String} {place : Nat} {field : Field}
    (declares : tree.Declares n name place field) {value : Value}
    (valuePresent : tree.hasValue value = true) :
    tree.Assigned n name place field value (tree.afterAssign n place value) := by
  have bound : place < (vacate value.node?.toList (tree.slots n)).length := by
    rw [vacate, List.length_map, owned.slots_length present]
    exact (List.getElem?_eq_some_iff.mp declares.declared).1
  have slot : ((tree.afterAssign n place value).slots n)[place]? = some value := by
    rw [slots_afterAssign, if_pos rfl, List.getElem?_set_self bound]
  have reads : (tree.afterAssign n place value).get n name = .ok (field.read value) :=
    (declares.rearranges ((Rearranges.transfer ..).trans (.setSlotValue ..))).get_eq slot
  refine ⟨slot, fun isSet => ?_, ?_, fun q held other => ?_, ?_, ?_, ?_, rfl⟩
  · rw [reads, Field.read_of_ne field isSet]
  · rintro rfl
    exact reads
  · rw [parent?_afterAssign valuePresent, if_neg (mt mem_node?_toList.mp other),
      if_pos (mem_displaced.mpr held)]
  · rintro c rfl
    rw [parent?_afterAssign valuePresent, if_pos (mem_node?_toList.mpr rfl)]
  · rintro p i c rfl held elsewhere
    have cleared : (vacate (Value.node c).node?.toList (tree.slots p))[i]? = some .undefined :=
      getElem?_vacate_of_mem held (mem_node?_toList.mpr rfl)
    rw [slots_afterAssign]
    split
    · next same =>
      subst same
      rw [List.getElem?_set_ne, cleared]
      rintro rfl
      exact elsewhere rfl
    · exact cleared
  · rintro l c rfl isOwned
    refine (items_transfer tree (tree.displaced n place) [c] (.node n) l).trans ?_
    rw [if_pos isOwned]

/-- An assignment succeeds exactly if the type of the node declares the field and the field may take the
value; a field that holds no list can always be unset. It then does nothing beyond what `Assigned` says. -/
theorem assignment_is_exact {tree : Tree catalogue} (reachable : tree.Reachable) {n : NodeId}
    (present : tree.hasNode n = true) (name : String) {value : Value}
    (valuePresent : tree.hasValue value = true) :
    ((∃ answer after, (Operation.set n name value).perform tree = (.ok answer, after)) ↔
      ∃ place field, tree.Declares n name place field ∧ tree.Takes n field value) ∧
    (∀ field : Field, field.kind ≠ .list → tree.Takes n field .undefined) ∧
    ∀ answer after, (Operation.set n name value).perform tree = (.ok answer, after) →
      answer = .done ∧ ∀ place field, tree.Declares n name place field →
        tree.Assigned n name place field value after := by
  have formed := reachable.wellFormed
  refine ⟨?_, fun field noList => ?_, fun answer after performed => ?_⟩
  · simp only [perform_set_eq_ok_iff, formed.set_eq_ok_iff valuePresent]
    constructor
    · rintro ⟨answer, after, -, place, field, declares, takes, -⟩
      exact ⟨place, field, declares, takes⟩
    · rintro ⟨place, field, declares, takes⟩
      exact ⟨_, _, rfl, place, field, declares, takes, rfl⟩
  · exact ⟨noList, fits_undefined tree noList, fun c isNode => Value.noConfusion isNode⟩
  · obtain ⟨isDone, success⟩ := perform_set_eq_ok_iff.mp performed
    refine ⟨isDone, fun place field declares => ?_⟩
    obtain ⟨other, another, found, -, rfl⟩ := (formed.set_eq_ok_iff valuePresent).mp success
    obtain ⟨rfl, rfl⟩ := declares.unique found
    exact formed.owned.assigned present declares valuePresent

/-- A block moves from the list of another into its field, out of which a third falls. -/
theorem assignment_is_exact_fullBlock :
    fullBlock.Reachable ∧ fullBlock.hasNode ⟨0⟩ = true ∧ fullBlock.hasValue (.node ⟨1⟩) = true ∧
    ∃ answer after, (Operation.set ⟨0⟩ "next" (.node ⟨1⟩)).perform fullBlock = (.ok answer, after) ∧
      after.get ⟨0⟩ "next" = .ok (.node ⟨1⟩) ∧ after.parent? (.node ⟨1⟩) = some (.node ⟨0⟩) ∧
      after.parent? (.node ⟨3⟩) = none ∧ after.items ⟨0⟩ = [some ⟨2⟩] := by
  have reachable : fullBlock.Reachable := ⟨1, _, rfl⟩
  have present : fullBlock.hasNode ⟨0⟩ = true := by decide +kernel
  have valuePresent : fullBlock.hasValue (.node ⟨1⟩) = true := by decide +kernel
  have isOwned : fullBlock.isOwned ⟨0⟩ = true := by decide +kernel
  have items : fullBlock.items ⟨0⟩ = [some ⟨1⟩, some ⟨2⟩] := by decide +kernel
  have inField : ⟨3⟩ ∈ fullBlock.displaced ⟨0⟩ 1 := by decide +kernel
  have found : (fullBlock.fields ⟨0⟩).findIdx? (·.name == "next") = some 1 := by decide +kernel
  have isPlace : fullBlock.fieldPlace ⟨0⟩ "next" = .ok 1 := by rw [fieldPlace, found]
  obtain ⟨field, declares⟩ := fieldPlace_eq_ok_iff.mp isPlace
  have succeeds : ((Operation.set ⟨0⟩ "next" (.node ⟨1⟩)).perform fullBlock).1.toBool = true := by
    decide +kernel
  obtain ⟨-, -, exact⟩ := assignment_is_exact reachable present "next" valuePresent
  cases performed : (Operation.set ⟨0⟩ "next" (.node ⟨1⟩)).perform fullBlock with
  | mk result after =>
    cases result with
    | error error =>
      rw [performed] at succeeds
      contradiction
    | ok answer =>
      have assigned := (exact answer after performed).2 1 field declares
      refine ⟨reachable, present, valuePresent, answer, after, rfl, assigned.reads Value.noConfusion,
        assigned.held ⟨1⟩ rfl, assigned.released ⟨3⟩ (mem_displaced.mp inField) (by simp), ?_⟩
      rw [assigned.withdrawn ⟨0⟩ ⟨1⟩ rfl isOwned, items]
      rfl

end Arbor.Tree
