import Arbor.Proofs.Decompose
import Arbor.Query.Expand

/-! # What combinators lead to

The candidates of a combinator, said in terms of what is held where: a child sits in a slot or is an
item, a descendant is reached by child steps, of which none enters the boundary, and a parent or
ancestor is reached by parent links. The walks that collect candidates find exactly these. The walk
downwards is bounded by the number of nodes and lists; every level of it is one further from the root,
so the bound never cuts it short. -/

namespace Arbor.Tree

variable {catalogue : Catalogue}

/-- The node or list sits directly below another, under the given key. -/
inductive ChildAt (tree : Tree catalogue) : Handle → Key → Handle → Prop where
  | slot {n : NodeId} {i : Nat} {field : Field} {value : Value} {child : Handle}
      (declared : (tree.fields n)[i]? = some field) (held : (tree.slots n)[i]? = some value)
      (isHandle : value.handle? = some child) : ChildAt tree (.node n) (.field field.name) child
  | item {l : ListId} {i : Nat} {c : NodeId} (held : (tree.items l)[i]? = some (some c)) :
      ChildAt tree (.list l) (.index i) (.node c)

/-- The node or list is no node of one of the types and categories. -/
def Clears (tree : Tree catalogue) (boundary : List String) (handle : Handle) : Prop :=
  ∀ n, handle = .node n → ∀ name ∈ boundary, tree.instanceOf n name = false

/-- Child steps, none of which enters the boundary, lead from the first to the second, the last of them
under the given key. -/
inductive Descends (tree : Tree catalogue) (boundary : List String) :
    Handle → Key → Handle → Prop where
  | direct {handle child : Handle} {key : Key} (step : tree.ChildAt handle key child)
      (clear : tree.Clears boundary child) : Descends tree boundary handle key child
  | deeper {handle child inner : Handle} {first key : Key} (step : tree.ChildAt handle first child)
      (clear : tree.Clears boundary child) (rest : Descends tree boundary child key inner) :
      Descends tree boundary handle key inner

/-- The combinator leads from the first to the second, which it finds under the given key. -/
def Candidate (tree : Tree catalogue) (combinator : Combinator) (handle : Handle) (key : Option Key)
    (candidate : Handle) : Prop :=
  match combinator with
  | .child => ∃ k, key = some k ∧ tree.ChildAt handle k candidate
  | .parent => tree.HeldBy handle candidate ∧ key = tree.keyOf? candidate
  | .ancestor => tree.Below handle candidate ∧ key = tree.keyOf? candidate
  | combinator => ∃ k, key = some k ∧ tree.Descends combinator.boundary handle k candidate

theorem handle?_eq_some {value : Value} {handle : Handle} :
    value.handle? = some handle ↔ value = .ofHandle handle := by
  cases value <;> cases handle <;> simp [Value.handle?, Value.ofHandle]

@[simp] theorem handle?_ofHandle (handle : Handle) : (Value.ofHandle handle).handle? = some handle :=
  handle?_eq_some.mpr rfl

theorem handle?_read (field : Field) (value : Value) (handle : Handle) :
    (field.read value).handle? = some handle ↔ value.handle? = some handle := by
  rw [Field.read.eq_def]
  split
  · simp [Value.handle?]
  · rfl

section Walk

variable {tree : Tree catalogue}

theorem mem_children_iff {handle child : Handle} {key : Key} :
    (.ofHandle child, key) ∈ tree.children handle ↔ tree.ChildAt handle key child := by
  cases handle with
  | node n =>
    simp only [children, readings, List.map_map, List.mem_map, Function.comp_apply, Prod.mk.injEq]
    constructor
    · rintro ⟨⟨field, value⟩, member, read, rfl⟩
      obtain ⟨i, zipped⟩ := List.mem_iff_getElem?.mp member
      obtain ⟨declared, held⟩ := List.getElem?_zip_eq_some.mp zipped
      exact .slot declared held ((handle?_read field value child).mp (by rw [read, handle?_ofHandle]))
    · intro step
      cases step with
      | @slot _ i field value _ declared held isHandle =>
        have zipped : ((tree.fields n).zip (tree.slots n))[i]? = some (field, value) :=
          List.getElem?_zip_eq_some.mpr ⟨declared, held⟩
        exact ⟨(field, value), List.mem_of_getElem? zipped,
          handle?_eq_some.mp ((handle?_read field value child).mpr isHandle), rfl⟩
  | list l =>
    rw [children, List.mem_mapIdx]
    constructor
    · rintro ⟨i, bound, found⟩
      obtain ⟨isItem, rfl⟩ := Prod.mk.inj found
      cases item : (tree.items l)[i] with
      | none => rw [item] at isItem; cases child <;> cases isItem
      | some c =>
        rw [item] at isItem
        cases child with
        | list k => cases isItem
        | node x =>
          cases isItem
          exact .item (List.getElem?_eq_some_iff.mpr ⟨bound, item⟩)
    · intro step
      cases step with
      | @item _ i c held =>
        obtain ⟨bound, item⟩ := List.getElem?_eq_some_iff.mp held
        exact ⟨i, bound, by rw [item]; rfl⟩

theorem Owned.exists_childAt (owned : tree.Owned) {n : NodeId} (child : Handle)
    (held : .ofHandle child ∈ tree.slots n) : ∃ key, tree.ChildAt (.node n) key child := by
  obtain ⟨place, inSlot⟩ := List.mem_iff_getElem?.mp held
  have bound := (List.getElem?_eq_some_iff.mp inSlot).1
  rw [owned.slots_length (hasNode_of_slot inSlot)] at bound
  exact ⟨_, .slot (List.getElem?_eq_getElem bound) inSlot (handle?_ofHandle child)⟩

theorem exists_childAt_of_item {l : ListId} {c : NodeId} (isItem : some c ∈ tree.items l) :
    ∃ key, tree.ChildAt (.list l) key (.node c) := by
  obtain ⟨place, held⟩ := List.mem_iff_getElem?.mp isItem
  exact ⟨_, .item held⟩

private theorem atBoundary_eq_false_iff {boundary : List String} {handle : Handle} :
    tree.atBoundary boundary (.ofHandle handle) = false ↔ tree.Clears boundary handle := by
  cases handle with
  | node n => simp [atBoundary, Value.ofHandle, Clears]
  | list l => simp [atBoundary, Value.ofHandle, Clears]

section Downwards

/-- The values up to the given number of levels below a node or list, with their keys, without entering
the boundary. -/
def belowUpTo (tree : Tree catalogue) (boundary : List String) : Nat → Handle → Candidates
  | 0, _ => []
  | bound + 1, handle => (tree.children handle).flatMap fun (value, key) =>
    if tree.atBoundary boundary value then []
    else (value, some key) :: (value.handle?.map (tree.belowUpTo boundary bound)).getD []

/-- A visitor that collects what it is shown meets the values below each value right after it. -/
theorem visitEach_collect {boundary : List String} {visitor : Visitor Candidates Empty}
    {below : Value → Candidates → Candidates × Option Empty} (inner : Value → Candidates)
    (visits : ∀ found value key, visitor found value key =
      if tree.atBoundary boundary value then (found, .skip) else ((value, some key) :: found, .goOn))
    (collects : ∀ value found, below value found = ((inner value).reverse ++ found, none))
    (values : List (Value × Key)) (found : Candidates) :
    visitEach visitor below values found =
      ((values.flatMap fun (value, key) =>
        if tree.atBoundary boundary value then [] else (value, some key) :: inner value).reverse ++
        found, none) := by
  induction values generalizing found with
  | nil => rfl
  | cons first rest ih =>
    obtain ⟨value, key⟩ := first
    rw [visitEach, visits]
    cases atBoundary : tree.atBoundary boundary value with
    | true => simp [ih, atBoundary]
    | false => simp [ih, atBoundary, collects]

private theorem traverseUpTo_collect {boundary : List String} {visitor : Visitor Candidates Empty}
    (visits : ∀ found value key, visitor found value key =
      if tree.atBoundary boundary value then (found, .skip) else ((value, some key) :: found, .goOn))
    (bound : Nat) (handle : Handle) (found : Candidates) :
    tree.traverseUpTo visitor bound handle found =
      ((tree.belowUpTo boundary bound handle).reverse ++ found, none) := by
  induction bound generalizing handle found with
  | zero => rfl
  | succ bound ih =>
    rw [traverseUpTo, belowUpTo]
    apply visitEach_collect fun value => (value.handle?.map (tree.belowUpTo boundary bound)).getD []
    · exact visits
    intro value found
    cases value.handle? with
    | none => rfl
    | some inner => exact ih inner found

theorem descend_eq (boundary : List String) (handle : Handle) :
    tree.descend boundary handle = tree.belowUpTo boundary (tree.size + 1) handle := by
  rw [descend, traverseDeep, traverseUpTo_collect (fun _ _ _ => rfl)]
  simp

private theorem descends_of_mem_belowUpTo {boundary : List String} {bound : Nat}
    {handle candidate : Handle}
    {key : Option Key} (member : (.ofHandle candidate, key) ∈ tree.belowUpTo boundary bound handle) :
    ∃ k, key = some k ∧ tree.Descends boundary handle k candidate := by
  induction bound generalizing handle with
  | zero => simp [belowUpTo] at member
  | succ bound ih =>
    obtain ⟨⟨value, first⟩, isChild, found⟩ := List.mem_flatMap.mp member
    dsimp only at found
    split at found
    · simp at found
    next inside =>
    have clear : tree.atBoundary boundary value = false := by simpa using inside
    obtain here | deeper := List.mem_cons.mp found
    · cases here
      exact ⟨first, rfl, .direct (mem_children_iff.mp isChild) (atBoundary_eq_false_iff.mp clear)⟩
    · cases isHandle : value.handle? with
      | none => simp [isHandle] at deeper
      | some child =>
        obtain rfl := handle?_eq_some.mp isHandle
        rw [isHandle] at deeper
        obtain ⟨k, rfl, rest⟩ := ih deeper
        exact ⟨k, rfl, .deeper (mem_children_iff.mp isChild) (atBoundary_eq_false_iff.mp clear) rest⟩

private theorem mem_belowUpTo_child {boundary : List String} {handle child : Handle} {key : Key}
    (step : tree.ChildAt handle key child) (clear : tree.Clears boundary child) (bound : Nat) :
    (.ofHandle child, some key) ∈ tree.belowUpTo boundary (bound + 1) handle := by
  refine List.mem_flatMap.mpr ⟨_, mem_children_iff.mpr step, ?_⟩
  simp [atBoundary_eq_false_iff.mpr clear]

private theorem mem_belowUpTo_below {boundary : List String} {handle child : Handle} {first : Key}
    {found : Value × Option Key} {bound : Nat} (step : tree.ChildAt handle first child)
    (clear : tree.Clears boundary child) (rest : found ∈ tree.belowUpTo boundary bound child) :
    found ∈ tree.belowUpTo boundary (bound + 1) handle := by
  refine List.mem_flatMap.mpr ⟨_, mem_children_iff.mpr step, ?_⟩
  simp only [atBoundary_eq_false_iff.mpr clear, Bool.false_eq_true, if_false, handle?_ofHandle,
    Option.map_some, Option.getD_some]
  exact List.mem_cons_of_mem _ rest

end Downwards

/-- If it is a list, it belongs to a field. -/
def Settled (tree : Tree catalogue) (handle : Handle) : Prop :=
  ∀ l, handle = .list l → tree.isOwned l = true

/-- What sits below a node or list is in the tree and settled. Below what is settled it is also held;
only a free list has items that it does not hold. -/
theorem Owned.of_childAt (owned : tree.Owned) {handle child : Handle} {key : Key}
    (step : tree.ChildAt handle key child) :
    tree.hasHandle child = true ∧ tree.Settled child ∧
      (tree.Settled handle → tree.HeldBy child handle) := by
  cases step with
  | @slot n i field value _ declared held isHandle =>
    obtain rfl := handle?_eq_some.mp isHandle
    cases child with
    | node c =>
      have link := owned.parent?_of_slot held
      exact ⟨hasNode_of_parent? link, fun l isList => Handle.noConfusion isList, fun _ => link⟩
    | list l =>
      have owner := owned.owner_iff.mpr held
      refine ⟨hasList_of_owner? owner, ?_, fun _ => ?_⟩
      · rintro k ⟨⟩
        simp [isOwned, owner]
      · simp [HeldBy, parent?, owner]
  | @item l i c held =>
    have isItem := List.mem_of_getElem? held
    refine ⟨owned.item_present isItem, fun k isList => Handle.noConfusion isList, fun settled => ?_⟩
    exact owned.mem_item_iff.mp ⟨settled l rfl, isItem⟩

theorem Owned.of_descends (owned : tree.Owned) {boundary : List String} {handle candidate : Handle}
    {key : Key} (descends : tree.Descends boundary handle key candidate) :
    tree.hasHandle candidate = true := by
  induction descends with
  | direct step clear => exact (owned.of_childAt step).1
  | deeper step clear rest ih => exact ih

/-- Every child step leads one level down, so levels measure how far a walk has to go. -/
theorem WellFormed.mem_belowUpTo (formed : tree.WellFormed) {boundary : List String} {bound : Nat}
    {handle candidate : Handle} {key : Key} (settled : tree.Settled handle)
    (descends : tree.Descends boundary handle key candidate)
    (room : (tree.ancestors candidate).length ≤ (tree.ancestors handle).length + bound) :
    (.ofHandle candidate, some key) ∈ tree.belowUpTo boundary bound handle := by
  induction descends generalizing bound with
  | direct step clear =>
    have held := (formed.owned.of_childAt step).2.2 settled
    rw [formed.acyclic.ancestors_of_held formed.owned held, List.length_cons] at room
    obtain ⟨less, rfl⟩ := Nat.exists_eq_add_of_le' (show 1 ≤ bound by omega)
    exact mem_belowUpTo_child step clear less
  | @deeper handle child inner first key step clear rest ih =>
    obtain ⟨-, childSettled, held⟩ := formed.owned.of_childAt step
    have level : (tree.ancestors child).length = (tree.ancestors handle).length + 1 := by
      rw [formed.acyclic.ancestors_of_held formed.owned (held settled), List.length_cons]
    cases bound with
    | zero => exact absurd (ih childSettled (by omega) : _ ∈ tree.belowUpTo boundary 0 child) (by
        simp [belowUpTo])
    | succ less => exact mem_belowUpTo_below step clear (ih childSettled (by omega))

/-- The walk downwards finds exactly what child steps lead to. -/
theorem WellFormed.mem_descend_iff (formed : tree.WellFormed) {boundary : List String}
    {handle candidate : Handle} {key : Option Key} :
    (.ofHandle candidate, key) ∈ tree.descend boundary handle ↔
      ∃ k, key = some k ∧ tree.Descends boundary handle k candidate := by
  rw [descend_eq]
  refine ⟨descends_of_mem_belowUpTo, ?_⟩
  rintro ⟨k, rfl, descends⟩
  have level := formed.acyclic.length_ancestors_lt formed.owned (formed.owned.of_descends descends)
  -- The start may be a free list, which is above nothing; from the first step on, all is settled.
  cases descends with
  | direct step clear => exact mem_belowUpTo_child step clear tree.size
  | deeper step clear rest =>
    have childSettled := (formed.owned.of_childAt step).2.1
    exact mem_belowUpTo_below step clear (formed.mem_belowUpTo childSettled rest (by omega))

theorem ofHandle_inj {a b : Handle} : Value.ofHandle a = Value.ofHandle b ↔ a = b := by
  cases a <;> cases b <;> simp [Value.ofHandle]

theorem WellFormed.mem_ascend_iff (formed : tree.WellFormed) {handle candidate : Handle}
    {key : Option Key} : (.ofHandle candidate, key) ∈ tree.ascend handle ↔
      tree.Below handle candidate ∧ key = tree.keyOf? candidate := by
  rw [ascend, List.mem_map, ← formed.acyclic.mem_ancestors_iff formed.owned]
  constructor
  · rintro ⟨outer, above, found⟩
    obtain ⟨same, rfl⟩ := Prod.mk.inj found
    rw [ofHandle_inj.mp same] at above ⊢
    exact ⟨above, rfl⟩
  · rintro ⟨above, rfl⟩
    exact ⟨candidate, above, rfl⟩

theorem WellFormed.take_ascend (formed : tree.WellFormed) (handle : Handle) :
    (tree.ascend handle).take 1 =
      ((tree.parent? handle).map fun outer => (Value.ofHandle outer, tree.keyOf? outer)).toList := by
  cases held : tree.parent? handle with
  | none => simp [ascend, ancestors_of_unheld held]
  | some outer => simp [ascend, formed.acyclic.ancestors_of_held formed.owned held]

/-- The candidates that are collected are those the combinator leads to. -/
theorem WellFormed.mem_expandItem_iff (formed : tree.WellFormed) {combinator : Combinator}
    {handle candidate : Handle} {key : Option Key} :
    (.ofHandle candidate, key) ∈ tree.expandItem handle combinator ↔
      tree.Candidate combinator handle key candidate := by
  cases combinator with
  | child =>
    simp only [expandItem, Candidate, List.mem_map, Prod.mk.injEq]
    constructor
    · rintro ⟨⟨value, k⟩, isChild, rfl, rfl⟩
      exact ⟨k, rfl, mem_children_iff.mp isChild⟩
    · rintro ⟨k, rfl, step⟩
      exact ⟨(.ofHandle candidate, k), mem_children_iff.mpr step, rfl, rfl⟩
  | parent =>
    simp only [expandItem, Candidate, formed.take_ascend, Option.mem_toList,
      Option.map_eq_some_iff, Prod.mk.injEq, ofHandle_inj]
    constructor
    · rintro ⟨outer, held, rfl, rfl⟩
      exact ⟨held, rfl⟩
    · rintro ⟨held, rfl⟩
      exact ⟨candidate, held, rfl, rfl⟩
  | ancestor => exact formed.mem_ascend_iff
  | descendant | outsideBlocks | outsideFunctions | outsideClasses => exact formed.mem_descend_iff

theorem WellFormed.hasHandle_of_candidate (formed : tree.WellFormed) {combinator : Combinator}
    {handle candidate : Handle} {key : Option Key}
    (leads : tree.Candidate combinator handle key candidate) : tree.hasHandle candidate = true := by
  cases combinator with
  | child =>
    obtain ⟨k, -, step⟩ := leads
    exact (formed.owned.of_childAt step).1
  | parent => exact formed.owned.hasHandle_of_parent? leads.1
  | ancestor => exact formed.owned.hasHandle_of_below leads.1
  | descendant | outsideBlocks | outsideFunctions | outsideClasses =>
    obtain ⟨k, -, descends⟩ := leads
    exact formed.owned.of_descends descends

theorem WellFormed.hasHandle_of_expandDocument (formed : tree.WellFormed) {root : Handle}
    (present : tree.hasHandle root = true) {combinator : Combinator} {handle : Handle}
    {key : Option Key} (found : (.ofHandle handle, key) ∈ tree.expandDocument root combinator) :
    tree.hasHandle handle = true := by
  cases combinator with
  | parent | ancestor => exact absurd found List.not_mem_nil
  | child =>
    obtain ⟨same, -⟩ := Prod.mk.inj (List.mem_singleton.mp found)
    rwa [ofHandle_inj.mp same]
  | descendant | outsideBlocks | outsideFunctions | outsideClasses =>
    rw [expandDocument] at found
    · split at found
      · exact absurd found List.not_mem_nil
      · rcases List.mem_cons.mp found with isRoot | below
        · obtain ⟨same, -⟩ := Prod.mk.inj isRoot
          rwa [ofHandle_inj.mp same]
        · obtain ⟨_, -, descends⟩ := formed.mem_descend_iff.mp below
          exact formed.owned.of_descends descends
    all_goals exact fun other => Combinator.noConfusion other

theorem WellFormed.hasHandle_ancestor (formed : tree.WellFormed) {handle outer : Handle}
    (above : outer ∈ tree.ancestors handle) : tree.hasHandle outer = true :=
  formed.owned.hasHandle_of_below ((formed.acyclic.mem_ancestors_iff formed.owned).mp above)

theorem WellFormed.hasHandle_root (formed : tree.WellFormed) {handle : Handle}
    (present : tree.hasHandle handle = true) : tree.hasHandle (tree.root handle) = true := by
  have last : tree.root handle ∈ handle :: tree.ancestors handle := List.getLastD_mem_cons
  rcases List.mem_cons.mp last with same | above
  · rwa [same]
  · exact formed.hasHandle_ancestor above

end Walk

end Arbor.Tree
