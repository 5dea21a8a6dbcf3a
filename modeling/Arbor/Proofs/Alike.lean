import Arbor.Proofs.Rebuilding
import Arbor.Proofs.Simulation

/-! # Trees that are alike

Two trees are alike below a node or list if a renaming keeps the types, slots, items and metadata of all
that lies there. Then children go to children under the same keys, walks downwards show the same one after
the other, and each value passes the same tests: as long as nothing looks upwards, the one tree simulates
the other. Numbers of nodes and lists, identities and the sizes of the trees may all differ. -/

namespace Arbor

/-- The combinator leads to what lies below. -/
def Combinator.isDownward : Combinator → Bool
  | .parent | .ancestor => false
  | .descendant | .child | .outsideBlocks | .outsideFunctions | .outsideClasses => true

/-- The part only looks at a candidate itself and at what lies below. -/
def Part.looksDown (part : Part) : Bool := part.combinator.isDownward && part.pseudos.isEmpty

def Selector.looksDown (selector : Selector) : Bool := selector.chains.all (·.all Part.looksDown)

theorem Renaming.value_read (rename : Renaming) (field : Field) (value : Value) :
    field.read (rename.value value) = rename.value (field.read value) := by
  rcases value with s | n | l
  · cases s <;> rfl
  · rfl
  · rfl

namespace Tree

variable {catalogue : Catalogue}

/-- The renaming keeps the structure of all that lies at or below a node or list, and no two things there
get the same name. It thereby reaches all that lies below the renamed node or list. -/
structure Alike (first second : Tree catalogue) (rename : Renaming) (start : Handle) : Prop where
  injective : Set.InjOn rename.handle {inner | first.Inside start inner}
  typeOf : ∀ {n : NodeId}, first.Inside start (.node n) →
    second.typeOf (rename.node n) = first.typeOf n
  slots : ∀ {n : NodeId}, first.Inside start (.node n) →
    second.slots (rename.node n) = (first.slots n).map rename.value
  metadata : ∀ {n : NodeId}, first.Inside start (.node n) → ∀ name,
    (second.metadata (rename.node n)).get? name = (first.metadata n).get? name
  items : ∀ {l : ListId}, first.Inside start (.list l) →
    second.items (rename.list l) = (first.items l).map (Option.map rename.node)

/-- The bound on a walk downwards does not show where there is room enough. -/
theorem WellFormed.belowUpTo_eq {tree : Tree catalogue} (formed : tree.WellFormed)
    (boundary : List String) {handle : Handle} (present : tree.hasHandle handle = true)
    {bound more : Nat} (enough : tree.room handle ≤ bound) (enoughMore : tree.room handle ≤ more) :
    tree.belowUpTo boundary bound handle = tree.belowUpTo boundary more handle := by
  induction bound generalizing handle more with
  | zero =>
    have some := formed.room_pos present
    omega
  | succ bound ih =>
    cases more with
    | zero =>
      have some := formed.room_pos present
      omega
    | succ more =>
      rw [belowUpTo, belowUpTo]
      apply List.flatMap_congr
      rintro ⟨value, key⟩ isChild
      dsimp only
      cases isHandle : value.handle? with
      | none => rfl
      | some child =>
        have step : tree.ChildAt handle key child :=
          mem_children_iff.mp (handle?_eq_some.mp isHandle ▸ isChild)
        have less := formed.room_lt step
        have same : tree.belowUpTo boundary bound child = tree.belowUpTo boundary more child :=
          ih (formed.owned.of_childAt step).1 (by omega) (by omega)
        rw [Option.map_some, Option.map_some, same]

namespace Alike

variable {first second : Tree catalogue} {rename : Renaming} {start : Handle}
  (alike : first.Alike second rename start)
include alike

theorem fields {n : NodeId} (inside : first.Inside start (.node n)) :
    second.fields (rename.node n) = first.fields n := by
  rw [Tree.fields, Tree.fields, alike.typeOf inside]

theorem readings {n : NodeId} (inside : first.Inside start (.node n)) :
    second.readings (rename.node n) =
      (first.readings n).map fun entry => (entry.1, rename.value entry.2) := by
  rw [Tree.readings, Tree.readings, alike.fields inside, alike.slots inside, List.zip_map_right,
    List.map_map, List.map_map]
  apply List.map_congr_left
  intro entry _
  exact Prod.ext rfl (rename.value_read entry.1 entry.2)

theorem children {handle : Handle} (inside : first.Inside start handle) :
    second.children (rename.handle handle) =
      (first.children handle).map fun entry => (rename.value entry.1, entry.2) := by
  cases handle with
  | node n =>
    rw [Renaming.handle, Tree.children, Tree.children, alike.readings inside, List.map_map, List.map_map]
    rfl
  | list l =>
    rw [Renaming.handle, Tree.children, Tree.children, alike.items inside]
    apply List.ext_getElem?
    intro i
    simp only [List.getElem?_mapIdx, List.getElem?_map, Option.map_map, Function.comp_def,
      rename.value_ofItem]

omit alike in
theorem inside_of_child {handle child : Handle} (inside : first.Inside start handle) {value : Value}
    {key : Key} (isChild : (value, key) ∈ first.children handle) (isHandle : value.handle? = some child) :
    first.Inside start child :=
  inside.tail ⟨key, mem_children_iff.mp (handle?_eq_some.mp isHandle ▸ isChild)⟩

theorem atBoundary (boundary : List String) {value : Value}
    (inside : ∀ handle, value.handle? = some handle → first.Inside start handle) :
    second.atBoundary boundary (rename.value value) = first.atBoundary boundary value := by
  cases value with
  | scalar s => rfl
  | list l => rfl
  | node n =>
    have sameInstances : second.instanceOf (rename.node n) = first.instanceOf n := by
      funext name
      rw [instanceOf, instanceOf, alike.typeOf (inside (.node n) rfl)]
    rw [Renaming.value, Tree.atBoundary, Tree.atBoundary, sameInstances]

theorem belowUpTo (boundary : List String) (bound : Nat) {handle : Handle}
    (inside : first.Inside start handle) :
    second.belowUpTo boundary bound (rename.handle handle) =
      (first.belowUpTo boundary bound handle).map rename.candidate := by
  induction bound generalizing handle with
  | zero => rfl
  | succ bound ih =>
    rw [Tree.belowUpTo, Tree.belowUpTo, alike.children inside, List.flatMap_map, List.map_flatMap]
    apply List.flatMap_congr
    intro entry isChild
    have childInside (child : Handle) (isHandle : entry.1.handle? = some child) :=
      inside_of_child inside isChild isHandle
    simp only [alike.atBoundary boundary childInside, rename.handle?_value]
    split
    · rfl
    · rw [List.map_cons]
      congr 1
      cases isHandle : entry.1.handle? with
      | none => rfl
      | some child => exact ih (childInside child isHandle)

omit alike in
/-- What a walk downwards shows has a key and lies below. -/
theorem of_mem_belowUpTo {boundary : List String} {bound : Nat} {handle : Handle}
    (inside : first.Inside start handle) {value : Value} {key : Option Key}
    (found : (value, key) ∈ first.belowUpTo boundary bound handle) :
    key.isSome = true ∧ ∀ inner, value.handle? = some inner → first.Inside start inner := by
  induction bound generalizing handle with
  | zero => exact absurd found List.not_mem_nil
  | succ bound ih =>
    obtain ⟨⟨child, place⟩, isChild, found⟩ := List.mem_flatMap.mp found
    dsimp only at found
    split at found
    · exact absurd found List.not_mem_nil
    · rcases List.mem_cons.mp found with here | deeper
      · cases here
        exact ⟨rfl, fun inner => inside_of_child inside isChild⟩
      · cases isHandle : child.handle? with
        | none => simp [isHandle] at deeper
        | some next =>
          rw [isHandle] at deeper
          exact ih (inside_of_child inside isChild isHandle) deeper

section Present

variable (formed : first.WellFormed) (otherFormed : second.WellFormed)
  (present : first.hasHandle start = true) (otherPresent : second.hasHandle (rename.handle start) = true)

include otherFormed otherPresent in
theorem hasHandle {handle : Handle} (inside : first.Inside start handle) :
    second.hasHandle (rename.handle handle) = true := by
  induction inside with
  | refl => exact otherPresent
  | @tail outer inner outerInside step ih =>
    obtain ⟨key, step⟩ := step
    have isChild : (.ofHandle (rename.handle inner), key) ∈ second.children (rename.handle outer) := by
      rw [alike.children outerInside, ← rename.value_ofHandle]
      exact List.mem_map_of_mem (mem_children_iff.mpr step)
    exact (otherFormed.owned.of_childAt (mem_children_iff.mp isChild)).1

include formed otherFormed present otherPresent

/-- The walks are bounded by the sizes of the trees, which may differ; neither bound cuts them short. -/
theorem descend (boundary : List String) {handle : Handle} (inside : first.Inside start handle) :
    second.descend boundary (rename.handle handle) =
      (first.descend boundary handle).map rename.candidate := by
  have inFirst := formed.owned.hasHandle_of_inside present inside
  have inSecond := alike.hasHandle otherFormed otherPresent inside
  have room := first.room_le handle
  have otherRoom := second.room_le (rename.handle handle)
  calc second.descend boundary (rename.handle handle)
      = second.belowUpTo boundary (max first.size second.size + 1) (rename.handle handle) := by
        rw [descend_eq]
        exact otherFormed.belowUpTo_eq boundary inSecond otherRoom (by omega)
    _ = (first.belowUpTo boundary (max first.size second.size + 1) handle).map rename.candidate :=
        alike.belowUpTo boundary _ inside
    _ = (first.descend boundary handle).map rename.candidate := by
        rw [descend_eq, formed.belowUpTo_eq boundary inFirst _ room]
        omega

theorem expandItem {combinator : Combinator} (downward : combinator.isDownward = true) {handle : Handle}
    (inside : first.Inside start handle) :
    second.expandItem (rename.handle handle) combinator =
      (first.expandItem handle combinator).map rename.candidate := by
  cases combinator with
  | parent | ancestor => contradiction
  | child =>
    rw [Tree.expandItem, Tree.expandItem, alike.children inside, List.map_map, List.map_map]
    rfl
  | descendant | outsideBlocks | outsideFunctions | outsideClasses =>
    exact alike.descend formed otherFormed present otherPresent _ inside

end Present

omit alike in
/-- What a combinator leads to downwards has a key and lies below. -/
theorem of_mem_expandItem {combinator : Combinator} (downward : combinator.isDownward = true)
    {handle : Handle} (inside : first.Inside start handle) {value : Value} {key : Option Key}
    (found : (value, key) ∈ first.expandItem handle combinator) :
    key.isSome = true ∧ ∀ inner, value.handle? = some inner → first.Inside start inner := by
  cases combinator with
  | parent | ancestor => contradiction
  | child =>
    obtain ⟨⟨child, place⟩, isChild, same⟩ := List.mem_map.mp found
    cases same
    exact ⟨rfl, fun inner => inside_of_child inside isChild⟩
  | descendant | outsideBlocks | outsideFunctions | outsideClasses =>
    change (value, key) ∈ first.descend _ handle at found
    rw [descend_eq] at found
    exact of_mem_belowUpTo inside found

section Tests

theorem get {n : NodeId} (inside : first.Inside start (.node n)) (name : String) :
    second.get (rename.node n) name = (first.get n name).map rename.value := by
  have sameName : second.typeName (rename.node n) = first.typeName n := by
    rw [typeName, typeName, alike.typeOf inside]
  simp only [Tree.get, alike.readings inside, List.find?_map, Function.comp_def, sameName]
  cases (first.readings n).find? fun entry => entry.1.name == name <;> rfl

theorem hasClass {n : NodeId} (inside : first.Inside start (.node n)) (name : String) :
    second.hasClass (rename.node n) name = first.hasClass n name := by
  rw [Tree.hasClass, Tree.hasClass, alike.get inside, alike.metadata inside]
  cases first.get n name with
  | error => rfl
  | ok value => cases value <;> rfl

theorem attributeScalar? {n : NodeId} (inside : first.Inside start (.node n)) (name : String) :
    second.attributeScalar? (rename.node n) name = first.attributeScalar? n name := by
  rw [Tree.attributeScalar?, Tree.attributeScalar?, alike.get inside, alike.metadata inside]
  cases first.get n name with
  | error => rfl
  | ok value => cases value <;> rfl

theorem passesAttribute {n : NodeId} (inside : first.Inside start (.node n)) (test : Attribute) :
    second.passesAttribute (rename.node n) test = first.passesAttribute n test := by
  have sameKeys : (second.metadata (rename.node n)).contains test.name =
      (first.metadata n).contains test.name := by
    rw [Bool.eq_iff_iff, Record.contains_iff, Record.contains_iff, ← not_iff_not,
      ← Record.get?_eq_none_iff, ← Record.get?_eq_none_iff, alike.metadata inside]
  rw [Tree.passesAttribute, Tree.passesAttribute, alike.fields inside, sameKeys,
    alike.attributeScalar? inside]

theorem passesTests {n : NodeId} (inside : first.Inside start (.node n)) {part : Part}
    (noPseudos : part.pseudos = []) :
    second.passesTests (rename.node n) part = first.passesTests n part := by
  have sameClasses : second.hasClass (rename.node n) = first.hasClass n :=
    funext (alike.hasClass inside)
  have sameAttributes : second.passesAttribute (rename.node n) = first.passesAttribute n :=
    funext (alike.passesAttribute inside)
  rw [Tree.passesTests, Tree.passesTests, alike.typeOf inside, sameClasses, sameAttributes, noPseudos]
  rfl

/-- A candidate that has a key passes a part in one tree if it does in the other: the key is not looked
up. -/
theorem passesPart {value : Value} {key : Option Key} (hasKey : key.isSome = true)
    (inside : ∀ handle, value.handle? = some handle → first.Inside start handle) {part : Part}
    (noPseudos : part.pseudos = []) :
    second.passesPart (rename.value value) key part = first.passesPart value key part := by
  obtain ⟨k, rfl⟩ := Option.isSome_iff_exists.mp hasKey
  cases value with
  | scalar s => rfl
  | list l => rfl
  | node n =>
    rw [Renaming.value, Tree.passesPart, Tree.passesPart, alike.passesTests (inside _ rfl) noPseudos]
    rfl

theorem simulates (formed : first.WellFormed) (otherFormed : second.WellFormed)
    (identified : first.Identified) (otherIdentified : second.Identified)
    (present : first.hasHandle start = true)
    (otherPresent : second.hasHandle (rename.handle start) = true) :
    first.Simulates second rename (first.Inside start) (·.looksDown = true) where
  injective a b same := alike.injective a b same
  uid_iff := by
    intro a b aInside bInside
    constructor
    · intro same
      have renamed := otherIdentified.distinct
        (alike.hasHandle otherFormed otherPresent aInside)
        (alike.hasHandle otherFormed otherPresent bInside) same
      rw [alike.injective aInside bInside renamed]
    · intro same
      rw [identified.distinct (formed.owned.hasHandle_of_inside present aInside)
        (formed.owned.hasHandle_of_inside present bInside) same]
  items := alike.items
  item_within := by
    intro l c inside isItem
    obtain ⟨place, held⟩ := List.mem_iff_getElem?.mp isItem
    exact inside.tail ⟨_, .item held⟩
  candidates := by
    intro part handle looksDown inside
    rw [Part.looksDown, Bool.and_eq_true, List.isEmpty_iff] at looksDown
    obtain ⟨downward, noPseudos⟩ := looksDown
    constructor
    · exact alike.expandItem formed otherFormed present otherPresent downward inside
    · exact fun value key found => (of_mem_expandItem downward inside found).2
    · intro value key found
      obtain ⟨hasKey, below⟩ := of_mem_expandItem downward inside found
      exact alike.passesPart hasKey below noPseudos

end Tests

end Alike

end Tree
end Arbor
