import Arbor.Proofs.Atomic
import Arbor.Proofs.Frame

/-! # Building is a run of edits to what is new

A step of building changes the tree even when it fails, so what is said of it has three parts: edits
lead from the tree before to the tree after in any case; whatever was there before building began is
left alone; and a result, if there is one, is in the tree after and new. The recursion of building over a
document is followed once, with this as what each of its functions does. With it every operation is a
run of edits, and every tree that operations make is well formed. -/

namespace Arbor

/-- Edits lead from the tree to the one the action leaves, which keeps the old one, and where its
result, if any, is as stated. -/
structure Action.Extends {catalogue : Catalogue} {α : Type} (action : Action catalogue α)
    (old tree : Tree catalogue) (result : Tree catalogue → α → Prop) : Prop where
  evolves : tree.Evolves (action tree).2
  kept : old.Keeps (action tree).2
  result : ∀ a, (action tree).1 = .ok a → result (action tree).2 a

namespace Action

variable {catalogue : Catalogue} {α β : Type} {old tree : Tree catalogue}

private theorem extends_done (kept : old.Keeps tree) {result : Tree catalogue → α → Prop} {a : α}
    (holds : result tree a) : Extends (done a) old tree result where
  evolves := .refl
  kept := kept
  result b isResult := by
    cases isResult
    exact holds

private theorem extends_fail (kept : old.Keeps tree) (error : TreeError)
    {result : Tree catalogue → α → Prop} : Extends (fail error) old tree result where
  evolves := .refl
  kept := kept
  result _ isResult := by contradiction

private theorem extends_whole (kept : old.Keeps tree)
    {edit : Tree catalogue → Except TreeError (α × Tree catalogue)}
    {result : Tree catalogue → α → Prop} (success : ∀ a after, edit tree = .ok (a, after) →
      tree.Evolves after ∧ old.Keeps after ∧ result after a) :
    Extends (whole edit) old tree result := by
  cases made : edit tree with
  | error error =>
    constructor <;> rw [whole_of_error made]
    · exact .refl
    · exact kept
    · intro a isResult
      contradiction
  | ok pair =>
    obtain ⟨evolves, kept, holds⟩ := success pair.1 pair.2 made
    constructor <;> rw [whole_of_ok made]
    · exact evolves
    · exact kept
    · intro a isResult
      cases isResult
      exact holds

private theorem extends_check (kept : old.Keeps tree) {test : Tree catalogue → Except TreeError α}
    {result : Tree catalogue → α → Prop} (passed : ∀ a, test tree = .ok a → result tree a) :
    Extends (check test) old tree result where
  evolves := .refl
  kept := kept
  result := passed

theorem Extends.bind {first : Action catalogue α} {next : α → Action catalogue β}
    {middle : Tree catalogue → α → Prop} {result : Tree catalogue → β → Prop}
    (firstExtends : first.Extends old tree middle)
    (nextExtends : ∀ a after, tree.Evolves after → old.Keeps after → middle after a →
      (next a).Extends old after result) :
    (first >>= next).Extends old tree result := by
  obtain ⟨evolves, kept, holds⟩ := firstExtends
  rcases made : first tree with ⟨outcome, after⟩
  rw [made] at evolves kept holds
  cases outcome with
  | error error =>
    constructor <;> rw [bind_of_error tree made]
    · exact evolves
    · exact kept
    · intro b isResult
      contradiction
  | ok a =>
    obtain ⟨evolvesThen, keptThen, holdsThen⟩ := nextExtends a after evolves kept (holds a rfl)
    constructor <;> rw [bind_of_ok tree made]
    · exact Relation.ReflTransGen.trans evolves evolvesThen
    · exact keptThen
    · exact holdsThen

end Action

namespace Tree

variable {catalogue : Catalogue}

open Arbor.Action

/-- If the value is a node or list, it is in the tree now but not in the old one. -/
def NewValue (old now : Tree catalogue) (value : Value) : Prop :=
  ∀ handle, value.handle? = some handle → now.hasHandle handle = true ∧ old.hasHandle handle = false

section Steps

variable {old tree : Tree catalogue}

theorem NewValue.hasValue {value : Value} (new : old.NewValue tree value) :
    tree.hasValue value = true := by
  rw [Tree.hasValue, Option.all_eq_true]
  exact fun handle isHandle => (new handle isHandle).1

theorem NewValue.node {value : Value} (new : old.NewValue tree value) (c : NodeId)
    (isNode : value = .node c) : old.hasNode c = false := by
  subst isNode
  exact (new _ rfl).2

theorem newValue_scalar (s : Scalar) : old.NewValue tree (.scalar s) := by
  rintro _ ⟨⟩

/-- Looking at the tree makes nothing old. -/
theorem extends_look {α : Type} (kept : old.Keeps tree) (view : Tree catalogue → α) {value : Value}
    (new : old.NewValue tree value) :
    Extends (look view) old tree fun after _ => old.NewValue after value where
  evolves := .refl
  kept := kept
  result _ _ := new

theorem concreteAt_eq_ok {id type : TypeId} {declared : NodeType}
    (found : concreteAt catalogue id = .ok (type, declared)) :
    catalogue.type? type = some declared ∧ declared.isAbstract = false := by
  rw [concreteAt] at found
  split at found
  · contradiction
  next there =>
  split at found
  · contradiction
  · next concrete =>
    cases found
    exact ⟨there, by simpa using concrete⟩

theorem concreteType_eq_ok {name : String} {type : TypeId} {declared : NodeType}
    (found : concreteType catalogue name = .ok (type, declared)) :
    catalogue.type? type = some declared ∧ declared.isAbstract = false := by
  rw [concreteType] at found
  split at found
  · contradiction
  · exact concreteAt_eq_ok found

/-- A node that is made is the next one of the tree. -/
theorem createFound_eq_ok {found : Except TreeError (TypeId × NodeType)} {id : NodeId}
    {after : Tree catalogue} (success : tree.createFound found = .ok (id, after)) :
    ∃ type declared, found = .ok (type, declared) ∧
      id = ⟨tree.nodes.size⟩ ∧ after = (tree.allocNode type declared.fields).2 := by
  obtain ⟨⟨type, declared⟩, isFound, made⟩ := map_eq_ok.mp success
  obtain ⟨rfl, rfl⟩ := Prod.mk.inj made
  exact ⟨type, declared, isFound, rfl, rfl⟩

private theorem extends_makeFound (kept : old.Keeps tree)
    {found : Except TreeError (TypeId × NodeType)}
    (concrete : ∀ type declared, found = .ok (type, declared) →
      catalogue.type? type = some declared ∧ declared.isAbstract = false) :
    (makeFound found).Extends old tree fun after id => old.NewValue after (.node id) := by
  rw [makeFound_eq_whole]
  refine extends_whole kept fun id after success => ?_
  obtain ⟨type, declared, isFound, rfl, rfl⟩ := createFound_eq_ok success
  obtain ⟨there, notAbstract⟩ := concrete type declared isFound
  refine ⟨.single (.node type declared there notAbstract), kept.allocNode type declared.fields, ?_⟩
  rintro _ ⟨⟩
  refine ⟨hasNode_newNode .., kept.new_of_missing ?_⟩
  simp [hasHandle, hasNode]

theorem extends_makeNode (kept : old.Keeps tree) (name : String) :
    (makeNode name).Extends old tree fun after id => old.NewValue after (.node id) :=
  extends_makeFound kept fun _ _ => concreteType_eq_ok

theorem extends_makeNodeOf (kept : old.Keeps tree) (type : TypeId) :
    (makeNodeOf type).Extends old tree fun after id => old.NewValue after (.node id) :=
  extends_makeFound kept fun _ _ => concreteAt_eq_ok

private theorem extends_buildNode (kept : old.Keeps tree) (members : Record Json) :
    (buildNode members).Extends old tree fun after id => old.NewValue after (.node id) := by
  rw [buildNode.eq_def]
  split
  · exact extends_makeNode kept _
  · exact extends_fail kept _
  · exact extends_fail kept _

theorem make_createList (tree : Tree catalogue) :
    make createList tree = (.ok ⟨tree.lists.size⟩, (tree.createListOf []).2) := by
  rw [make, createList_eq]
  rfl

private theorem extends_createList (kept : old.Keeps tree) :
    Extends (make createList) old tree fun after l => old.NewValue after (.list l) where
  evolves := by
    show tree.Evolves tree.createList.2
    rw [createList_eq]
    exact .single (.list [] rfl)
  kept := kept.createList
  result l isResult := by
    cases isResult
    rintro _ ⟨⟩
    refine ⟨?_, kept.new_of_missing ?_⟩
    · simp [make, createList, allocList, hasHandle, hasList]
    · simp [createList, allocList, hasHandle, hasList]

private theorem extends_keepMetadata (kept : old.Keeps tree) {id : NodeId}
    (new : old.hasNode id = false) (members : Record Json) :
    (keepMetadata id members).Extends old tree fun _ _ => True where
  evolves := .single (.metadata id _)
  kept := kept.modifyNode new _
  result _ _ := trivial

private theorem extends_assignSlot (oldFormed : old.WellFormed) (formed : tree.WellFormed)
    (kept : old.Keeps tree) {id : NodeId} (new : old.NewValue tree (.node id)) (place : Nat)
    {value : Value} (valueNew : old.NewValue tree value) :
    (assignSlot id place value).Extends old tree fun _ _ => True := by
  rw [assignSlot_eq_whole]
  refine extends_whole kept fun _ after success => ?_
  obtain ⟨changed, put, same⟩ := map_eq_ok.mp success
  cases same
  refine ⟨formed.evolves_setSlot (new _ rfl).1 valueNew.hasValue put, ?_, trivial⟩
  exact kept.setSlot oldFormed.owned formed.owned (new _ rfl).2 valueNew.node put

private theorem extends_pushValue (oldFormed : old.WellFormed) (formed : tree.WellFormed)
    (kept : old.Keeps tree) {l : ListId} (new : old.NewValue tree (.list l)) {value : Value}
    (valueNew : old.NewValue tree value) :
    (pushValue l value).Extends old tree fun _ _ => True := by
  rw [pushValue_eq_whole]
  refine extends_whole kept fun _ after success => ?_
  refine ⟨formed.evolves_push valueNew.hasValue success, ?_, trivial⟩
  exact kept.push oldFormed.owned formed.owned (new _ rfl).2 valueNew.node success

/-- The list of a field is held by its node. -/
theorem Owned.parent?_of_list (owned : tree.Owned) {id : NodeId} {name : String} {l : ListId}
    (found : tree.list id name = .ok l) : tree.parent? (.list l) = some (.node id) := by
  rw [Tree.list] at found
  split at found
  · next got =>
    cases found
    obtain ⟨place, field, held, -, -, inSlot, read⟩ := exists_of_get got
    have isList : held = .list l := by
      rw [Field.read.eq_def] at read
      split at read
      · contradiction
      · exact read
    rw [parent?, owned.owner_iff.mpr (isList ▸ inSlot)]
    rfl
  · contradiction
  · contradiction

private theorem extends_list (oldFormed : old.WellFormed) (formed : tree.WellFormed)
    (kept : old.Keeps tree) {id : NodeId} (new : old.NewValue tree (.node id)) (name : String) :
    Extends (check fun tree => tree.list id name) old tree
      fun after l => old.NewValue after (.list l) := by
  refine extends_check kept fun l found => ?_
  rintro _ ⟨⟩
  have held := formed.owned.parent?_of_list found
  exact ⟨hasHandle_of_held held,
    (kept.new_iff_of_held oldFormed.owned formed.owned held).mpr (new _ rfl).2⟩

theorem NewValue.evolves {value : Value} {after : Tree catalogue} (new : old.NewValue tree value)
    (run : tree.Evolves after) : old.NewValue after value :=
  fun handle isHandle => ⟨run.hasHandle (new handle isHandle).1, (new handle isHandle).2⟩

end Steps

section Documents

mutual

theorem extends_buildValue (context : String) (json : Json) {old tree : Tree catalogue}
    (oldFormed : old.WellFormed) (formed : tree.WellFormed) (kept : old.Keeps tree) :
    (buildValue context json).Extends old tree fun after value => old.NewValue after value := by
  cases json with
  | null | bool | number | string =>
    rw [buildValue]
    exact extends_done kept (newValue_scalar _)
  | array items =>
    rw [buildValue]
    refine (extends_createList kept).bind fun l made toMade keptMade new => ?_
    have madeFormed := formed.evolves toMade
    refine (extends_buildItems context l items oldFormed madeFormed keptMade new).bind ?_
    exact fun _ filled toFilled keptFilled _ => extends_done keptFilled (new.evolves toFilled)
  | object members =>
    rw [buildValue]
    split
    · refine (extends_buildNode kept members).bind fun id made toMade keptMade new => ?_
      refine (extends_look keptMade _ new).bind fun fields looked toLooked keptLooked new => ?_
      refine (extends_look keptLooked _ new).bind fun name named toNamed keptNamed new => ?_
      have namedFormed := ((formed.evolves toMade).evolves toLooked).evolves toNamed
      refine (extends_buildFields id name members 0 fields oldFormed namedFormed keptNamed new).bind ?_
      intro _ built toBuilt keptBuilt _
      refine (extends_keepMetadata keptBuilt (new _ rfl).2 members).bind ?_
      intro _ described toDescribed keptDescribed _
      exact extends_done keptDescribed ((new.evolves toBuilt).evolves toDescribed)
    · split
      · exact extends_done kept (newValue_scalar _)
      · exact extends_fail kept _
termination_by (sizeOf json, 0)

theorem extends_buildItems (context : String) (l : ListId) (items : List Json)
    {old tree : Tree catalogue} (oldFormed : old.WellFormed) (formed : tree.WellFormed)
    (kept : old.Keeps tree) (new : old.NewValue tree (.list l)) :
    (buildItems context l items).Extends old tree fun _ _ => True := by
  cases items with
  | nil =>
    rw [buildItems]
    exact extends_done kept trivial
  | cons item rest =>
    rw [buildItems]
    refine (extends_buildValue context item oldFormed formed kept).bind ?_
    intro value made toMade keptMade valueNew
    have madeFormed := formed.evolves toMade
    have madeNew := new.evolves toMade
    refine (extends_pushValue oldFormed madeFormed keptMade madeNew valueNew).bind ?_
    intro _ pushed toPushed keptPushed _
    exact extends_buildItems context l rest oldFormed (madeFormed.evolves toPushed) keptPushed
      (madeNew.evolves toPushed)
termination_by (sizeOf items, 0)

theorem extends_buildFields (id : NodeId) (type : String) (members : List (String × Json))
    (place : Nat) (fields : List Field) {old tree : Tree catalogue} (oldFormed : old.WellFormed)
    (formed : tree.WellFormed) (kept : old.Keeps tree) (new : old.NewValue tree (.node id)) :
    (buildFields id type members place fields).Extends old tree fun _ _ => True := by
  cases fields with
  | nil =>
    rw [buildFields]
    exact extends_done kept trivial
  | cons field rest =>
    rw [buildFields]
    split
    · exact extends_buildFields id type members (place + 1) rest oldFormed formed kept new
    · next raw found =>
      have smaller : sizeOf raw < sizeOf members := Record.sizeOf_get?_lt found
      refine (extends_buildField id _ members place field raw oldFormed formed kept new).bind ?_
      intro _ after evolves keptAfter _
      exact extends_buildFields id type members (place + 1) rest oldFormed (formed.evolves evolves)
        keptAfter (new.evolves evolves)
termination_by (sizeOf members, fields.length + 1)
decreasing_by
  · exact Prod.Lex.right _ (by simp)
  · exact Prod.Lex.left _ _ ‹_›
  · exact Prod.Lex.right _ (by simp)

theorem extends_buildField (id : NodeId) (context : String) (members : List (String × Json))
    (place : Nat) (field : Field) (raw : Json) {old tree : Tree catalogue}
    (oldFormed : old.WellFormed) (formed : tree.WellFormed) (kept : old.Keeps tree)
    (new : old.NewValue tree (.node id)) :
    (buildField id context members place field raw).Extends old tree fun _ _ => True := by
  rw [buildField.eq_def]
  split
  · split
    · exact extends_done kept trivial
    · next items =>
      refine (extends_list oldFormed formed kept new field.name).bind ?_
      intro l after evolves keptAfter listNew
      exact extends_buildItems context l items oldFormed (formed.evolves evolves) keptAfter listNew
    · exact extends_fail kept _
  · split
    · exact extends_assignSlot oldFormed formed kept new place (newValue_scalar _)
    · refine (extends_buildValue context raw oldFormed formed kept).bind ?_
      intro value after evolves keptAfter valueNew
      exact extends_assignSlot oldFormed (formed.evolves evolves) keptAfter (new.evolves evolves)
        place valueNew
termination_by (sizeOf raw, 1)

end

theorem extends_parse (text : String) {old tree : Tree catalogue} (oldFormed : old.WellFormed)
    (formed : tree.WellFormed) (kept : old.Keeps tree) :
    (parse text).Extends old tree fun after value => old.NewValue after value := by
  rw [parse]
  split
  · exact extends_buildValue "input" _ oldFormed formed kept
  · exact extends_fail kept _

end Documents

section Operations

theorem WellFormed.evolves_set {tree : Tree catalogue} (formed : tree.WellFormed) {id : NodeId}
    {name : String} {value : Value} (present : tree.hasNode id = true)
    (valuePresent : tree.hasValue value = true) {after : Tree catalogue}
    (success : tree.set id name value = .ok after) : tree.Evolves after := by
  rw [set] at success
  split at success
  · contradiction
  · exact formed.evolves_setSlot present valuePresent success

/-- Every operation on nodes and lists of the tree is a run of edits, also one that fails. -/
theorem WellFormed.evolves_perform {tree : Tree catalogue} (formed : tree.WellFormed)
    {operation : Operation} (present : tree.hasOperands operation = true) :
    tree.Evolves (operation.perform tree).2 := by
  cases operation with
  | createNode type => exact (extends_makeNode (.refl tree) type).evolves
  | createNodeOf type => exact (extends_makeNodeOf (.refl tree) type).evolves
  | createList => exact (extends_createList (.refl tree)).evolves
  | set node field value =>
    rw [hasOperands, Bool.and_eq_true] at present
    rw [Operation.perform, Operation.outcome, assign_eq_whole]
    refine whole_snd .refl fun _ after success => ?_
    obtain ⟨changed, put, same⟩ := map_eq_ok.mp success
    cases same
    exact formed.evolves_set present.1 present.2 put
  | detach node => exact .single (.detach node)
  | removeChild parent child => exact formed.evolves_removeChild parent child
  | replaceChild parent child value =>
    simp only [hasOperands, Bool.and_eq_true] at present
    rw [Operation.perform, Operation.outcome, exchangeChild_eq_whole]
    exact whole_snd .refl fun _ _ => formed.evolves_replaceChild present.1.1 present.2
  | splice list start delete items =>
    rw [hasOperands, Bool.and_eq_true] at present
    rw [Operation.perform, Operation.outcome, spliceItems_eq_whole]
    exact whole_snd .refl fun _ _ => formed.evolves_splice present.2
  | push list value =>
    rw [hasOperands, Bool.and_eq_true] at present
    rw [Operation.perform, Operation.outcome, pushValue_eq_whole]
    exact whole_snd .refl fun _ _ => formed.evolves_push present.2
  | append list items =>
    rw [hasOperands, Bool.and_eq_true] at present
    rw [Operation.perform, Operation.outcome, appendItems_eq_whole]
    exact whole_snd .refl fun _ _ => formed.evolves_append present.2
  | unshift list value =>
    rw [hasOperands, Bool.and_eq_true] at present
    rw [Operation.perform, Operation.outcome, unshiftValue_eq_whole]
    exact whole_snd .refl fun _ _ => formed.evolves_unshift present.2
  | pop list => exact formed.evolves_take list _
  | shift list => exact formed.evolves_take list 0
  | clear list => exact WellFormed.evolves_clear tree list
  | slice list start stop =>
    exact .single (.list _ (formed.hasItems_of_sublist
      ((List.drop_sublist ..).trans (List.take_sublist ..))))
  | filter list keep =>
    have kept : (((tree.items list).zipIdx.filter fun entry => keep entry.1 entry.2).map (·.1)).Sublist
        (tree.items list) := by
      conv_rhs => rw [← List.zipIdx_map_fst 0 (tree.items list)]
      exact List.filter_sublist.map _
    exact .single (.list _ (formed.hasItems_of_sublist kept))
  | build json => exact (extends_buildValue "input" json formed formed (.refl tree)).evolves
  | parse text => exact (extends_parse text formed formed (.refl tree)).evolves
  | cloneSubtree handle =>
    exact (extends_buildValue "clone" (tree.toJson handle) formed formed (.refl tree)).evolves
  | setMetadata node metadata => exact .single (.metadata node metadata)
  | copy => exact .single .copy

theorem WellFormed.evolves_step {tree : Tree catalogue} (formed : tree.WellFormed)
    (operation : Operation) : tree.Evolves (tree.step operation) := by
  rw [step]
  split
  · next present => exact formed.evolves_perform present
  · exact .refl

theorem WellFormed.evolves_run {tree : Tree catalogue} (formed : tree.WellFormed)
    (operations : List Operation) : tree.Evolves (tree.run operations) := by
  induction operations generalizing tree with
  | nil => exact .refl
  | cons operation rest ih =>
    have first := formed.evolves_step operation
    exact Relation.ReflTransGen.trans first (ih (formed.evolves first))

/-- The trees that operations make come from an empty tree by edits. -/
theorem Reachable.evolves {tree : Tree catalogue} (reachable : tree.Reachable) :
    ∃ firstUid, (empty catalogue firstUid).Evolves tree := by
  obtain ⟨firstUid, operations, rfl⟩ := reachable
  exact ⟨firstUid, (wellFormed_empty firstUid).evolves_run operations⟩

theorem Reachable.wellFormed {tree : Tree catalogue} (reachable : tree.Reachable) :
    tree.WellFormed := by
  obtain ⟨firstUid, run⟩ := reachable.evolves
  exact (wellFormed_empty firstUid).evolves run

end Operations

end Tree
end Arbor
