import Arbor.Proofs.Candidates
import Arbor.Proofs.SingleOwner

/-! # Walks come to an end

Upwards, a walk follows parent links one at a time; `climb` says where it is after a number of steps. As
nothing holds itself, no walk takes as many steps as there are nodes and lists.

Downwards, `Visits` says what a traversal does without any bound on its depth: it has a derivation
exactly if the traversal comes to an end. Every level down leaves less room, so the bounded traversal is
such a derivation. Below a node, or a list that belongs to a field, the values under different siblings
are different, so nothing is shown twice. -/

namespace Arbor.Tree

variable {catalogue : Catalogue}

/-- The node or list the given number of steps up from another. -/
def climb (tree : Tree catalogue) : Nat → Handle → Option Handle
  | 0, handle => some handle
  | n + 1, handle => (tree.parent? handle).bind (tree.climb n)

section Climb

variable {tree : Tree catalogue} {handle : Handle}

private theorem climb_succ (n : Nat) (handle : Handle) :
    tree.climb (n + 1) handle = (tree.climb n handle).bind tree.parent? := by
  induction n generalizing handle with
  | zero =>
    rw [climb, climb, Option.bind_some]
    cases tree.parent? handle <;> rfl
  | succ n ih =>
    rw [climb]
    conv_rhs => rw [climb]
    cases tree.parent? handle with
    | none => rfl
    | some parent => exact ih parent

private theorem getElem?_ancestorsUpTo {n bound : Nat} (inBound : n < bound) :
    (tree.ancestorsUpTo bound handle)[n]? = tree.climb (n + 1) handle := by
  induction bound generalizing n handle with
  | zero => omega
  | succ bound ih =>
    rw [ancestorsUpTo, climb]
    cases held : tree.parent? handle with
    | none => rfl
    | some parent =>
      cases n with
      | zero => rfl
      | succ n => exact ih (by omega)

namespace WellFormed

variable (formed : tree.WellFormed) (present : tree.hasHandle handle = true)
include formed present

/-- The size of a tree bounds every walk upwards. -/
theorem climb_size : tree.climb tree.size handle = none := by
  have level := formed.acyclic.length_ancestors_lt formed.owned present
  obtain ⟨last, size⟩ := Nat.exists_eq_add_of_lt (Nat.zero_lt_of_lt level)
  rw [Nat.zero_add] at size
  rw [size, ← getElem?_ancestorsUpTo (Nat.lt_add_one last), ← size, ← ancestors,
    List.getElem?_eq_none_iff]
  omega

theorem climb_eq_none {n : Nat} (beyond : tree.size ≤ n) : tree.climb n handle = none := by
  obtain ⟨more, rfl⟩ := Nat.exists_eq_add_of_le beyond
  clear beyond
  induction more with
  | zero => exact formed.climb_size present
  | succ more ih => rw [← Nat.add_assoc, climb_succ, ih, Option.bind_none]

/-- The ancestors are what a walk upwards meets. -/
theorem getElem?_ancestors (n : Nat) : (tree.ancestors handle)[n]? = tree.climb (n + 1) handle := by
  by_cases inBound : n < tree.size
  · exact getElem?_ancestorsUpTo inBound
  · have level := formed.acyclic.length_ancestors_lt formed.owned present
    rw [formed.climb_eq_none present (by omega), List.getElem?_eq_none_iff]
    omega

/-- The root is where the walk upwards ends. -/
theorem climb_root : ∃ n < tree.size, tree.climb n handle = some (tree.root handle) ∧
    tree.parent? (tree.root handle) = none := by
  have level := formed.acyclic.length_ancestors_lt formed.owned present
  have last : tree.climb (tree.ancestors handle).length handle = some (tree.root handle) := by
    rw [root]
    cases above : tree.ancestors handle with
    | nil => rfl
    | cons parent rest =>
      rw [List.length_cons, ← formed.getElem?_ancestors present, above, List.getLastD_cons,
        List.getLastD_eq_getLast?, ← List.getLast?_cons]
      exact (List.getLast?_eq_getElem? ..).symm
  refine ⟨_, level, last, ?_⟩
  have ended : tree.climb ((tree.ancestors handle).length + 1) handle = none := by
    rw [← formed.getElem?_ancestors present]
    exact List.getElem?_eq_none (Nat.le_refl _)
  rwa [climb_succ, last] at ended

theorem isAncestorOrSelf_iff_climb (ancestor : Handle) :
    tree.isAncestorOrSelf ancestor handle = true ↔
      ∃ n < tree.size, tree.climb n handle = some ancestor := by
  have level := formed.acyclic.length_ancestors_lt formed.owned present
  rw [isAncestorOrSelf, Bool.or_eq_true, beq_iff_eq, List.contains_iff_mem, List.mem_iff_getElem?]
  constructor
  · rintro (rfl | ⟨n, found⟩)
    · exact ⟨0, by omega, rfl⟩
    · have bound := (List.getElem?_eq_some_iff.mp found).1
      exact ⟨n + 1, by omega, (formed.getElem?_ancestors present n) ▸ found⟩
  · rintro ⟨n, -, found⟩
    cases n with
    | zero => exact .inl (Option.some.inj found)
    | succ n => exact .inr ⟨n, (formed.getElem?_ancestors present n).trans found⟩

/-- The first node on the walk upwards is the innermost node around. -/
theorem parentNode?_iff_climb (id : NodeId) : tree.parentNode? handle = some id ↔
    ∃ n < tree.size, tree.climb (n + 1) handle = some (.node id) ∧
      ∀ m < n, ∀ other, tree.climb (m + 1) handle ≠ some (.node other) := by
  have level := formed.acyclic.length_ancestors_lt formed.owned present
  simp only [← formed.getElem?_ancestors present, parentNode?, List.findSome?_eq_some_iff]
  constructor
  · rintro ⟨before, outer, behind, split, isNode, noNode⟩
    obtain rfl : outer = .node id := by
      cases outer with
      | node other => rw [Handle.node?, Option.some.injEq] at isNode; rw [isNode]
      | list l => contradiction
    refine ⟨before.length, ?_, by simp [split], fun m earlier other found => ?_⟩
    · rw [split] at level
      simp only [List.length_append, List.length_cons] at level
      omega
    · rw [split, List.getElem?_append_left earlier] at found
      exact absurd (noNode _ (List.mem_of_getElem? found)) (by simp [Handle.node?])
  · rintro ⟨n, -, found, noNode⟩
    obtain ⟨bound, isNode⟩ := List.getElem?_eq_some_iff.mp found
    refine ⟨(tree.ancestors handle).take n, .node id, (tree.ancestors handle).drop (n + 1), ?_, rfl, ?_⟩
    · rw [← isNode, List.getElem_cons_drop, List.take_append_drop]
    · intro outer earlier
      obtain ⟨m, isOuter⟩ := List.mem_iff_getElem?.mp earlier
      rw [List.getElem?_take] at isOuter
      split at isOuter
      · next less =>
        cases outer with
        | node other => exact absurd isOuter (noNode m less other)
        | list l => rfl
      · contradiction

end WellFormed

end Climb

/-- The most levels there can be from a node or list downwards, itself included. -/
def room (tree : Tree catalogue) : Handle → Nat
  | .node id => tree.size - (tree.ancestors (.node id)).length
  | .list id =>
    if tree.isOwned id then tree.size - (tree.ancestors (.list id)).length else tree.size + 1

section Room

variable {tree : Tree catalogue} {handle child : Handle}

theorem room_le (tree : Tree catalogue) (handle : Handle) : tree.room handle ≤ tree.size + 1 := by
  cases handle with
  | node id => rw [room]; omega
  | list id => rw [room]; split <;> omega

private theorem room_of_settled (settled : tree.Settled handle) :
    tree.room handle = tree.size - (tree.ancestors handle).length := by
  cases handle with
  | node id => rfl
  | list id => rw [room, if_pos (settled id rfl)]

theorem WellFormed.room_pos (formed : tree.WellFormed) (present : tree.hasHandle handle = true) :
    0 < tree.room handle := by
  have level := formed.acyclic.length_ancestors_lt formed.owned present
  cases handle with
  | node id => rw [room]; omega
  | list id => rw [room]; split <;> omega

/-- There is less room below. -/
theorem WellFormed.room_lt (formed : tree.WellFormed) {key : Key}
    (step : tree.ChildAt handle key child) : tree.room child < tree.room handle := by
  obtain ⟨present, settled, held⟩ := formed.owned.of_childAt step
  have level := formed.acyclic.length_ancestors_lt formed.owned present
  rw [room_of_settled settled]
  by_cases outerSettled : tree.Settled handle
  · rw [formed.acyclic.ancestors_of_held formed.owned (held outerSettled), List.length_cons] at level ⊢
    rw [room_of_settled outerSettled]
    omega
  · obtain ⟨l, rfl, free⟩ : ∃ l, handle = .list l ∧ ¬ tree.isOwned l = true := by
      simpa only [Settled, not_forall, exists_prop] using outerSettled
    rw [room, if_neg free]
    omega

end Room

section Visits

variable {σ β : Type}

/-- A traversal of the values, from the given state, shows the visitor the given values one after the
other and has the given outcome. There is no bound on how deep it goes. -/
inductive Visits (tree : Tree catalogue) (visitor : Visitor σ β) :
    List (Value × Key) → σ → List (Value × Key) → σ × Option β → Prop where
  | done (state : σ) : Visits tree visitor [] state [] (state, none)
  | stop {state next : σ} {value : Value} {key : Key} {rest : List (Value × Key)} {result : β}
      (visit : visitor state value key = (next, .stop result)) :
      Visits tree visitor ((value, key) :: rest) state [(value, key)] (next, some result)
  | skip {state next : σ} {value : Value} {key : Key} {rest shown : List (Value × Key)}
      {outcome : σ × Option β} (visit : visitor state value key = (next, .skip))
      (others : Visits tree visitor rest next shown outcome) :
      Visits tree visitor ((value, key) :: rest) state ((value, key) :: shown) outcome
  | leaf {state next : σ} {value : Value} {key : Key} {rest shown : List (Value × Key)}
      {outcome : σ × Option β} (visit : visitor state value key = (next, .goOn))
      (isScalar : value.handle? = none) (others : Visits tree visitor rest next shown outcome) :
      Visits tree visitor ((value, key) :: rest) state ((value, key) :: shown) outcome
  | enter {state next middle : σ} {value : Value} {key : Key} {child : Handle}
      {rest inner shown : List (Value × Key)} {outcome : σ × Option β}
      (visit : visitor state value key = (next, .goOn)) (isHandle : value.handle? = some child)
      (inside : Visits tree visitor (tree.children child) next inner (middle, none))
      (others : Visits tree visitor rest middle shown outcome) :
      Visits tree visitor ((value, key) :: rest) state ((value, key) :: inner ++ shown) outcome
  | stopInside {state next last : σ} {value : Value} {key : Key} {child : Handle}
      {rest inner : List (Value × Key)} {result : β}
      (visit : visitor state value key = (next, .goOn)) (isHandle : value.handle? = some child)
      (inside : Visits tree visitor (tree.children child) next inner (last, some result)) :
      Visits tree visitor ((value, key) :: rest) state ((value, key) :: inner) (last, some result)

variable {tree : Tree catalogue} {visitor : Visitor σ β}

/-- Where going below each value is a traversal that ends, so is showing the values. -/
theorem exists_visits_visitEach {below : Value → σ → σ × Option β} {values : List (Value × Key)}
    (scalar : ∀ value state, value.handle? = none → below value state = (state, none))
    (inside : ∀ value key child, (value, key) ∈ values → value.handle? = some child → ∀ state,
      ∃ inner, tree.Visits visitor (tree.children child) state inner (below value state))
    (state : σ) :
    ∃ shown, tree.Visits visitor values state shown (visitEach visitor below values state) := by
  induction values generalizing state with
  | nil => exact ⟨[], .done state⟩
  | cons first rest ih =>
    obtain ⟨value, key⟩ := first
    have others := ih fun value key child member => inside value key child (List.mem_cons_of_mem _ member)
    rw [visitEach]
    rcases visit : visitor state value key with ⟨next, answer⟩
    cases answer with
    | stop result => exact ⟨_, .stop visit⟩
    | skip =>
      obtain ⟨shown, visits⟩ := others next
      exact ⟨_, .skip visit visits⟩
    | goOn =>
      cases isHandle : value.handle? with
      | none =>
        obtain ⟨shown, visits⟩ := others next
        simp only [scalar value next isHandle]
        exact ⟨_, .leaf visit isHandle visits⟩
      | some child =>
        obtain ⟨inner, visitsInside⟩ := inside value key child (List.mem_cons_self ..) isHandle next
        rcases went : below value next with ⟨middle, result⟩
        rw [went] at visitsInside
        simp only [went]
        cases result with
        | some result => exact ⟨_, .stopInside visit isHandle visitsInside⟩
        | none =>
          obtain ⟨shown, visits⟩ := others middle
          exact ⟨_, .enter visit isHandle visitsInside visits⟩

/-- A bounded traversal that has room enough is not cut short. -/
theorem WellFormed.exists_visits_traverseUpTo (formed : tree.WellFormed) {bound : Nat}
    {handle : Handle} (present : tree.hasHandle handle = true) (enough : tree.room handle ≤ bound)
    (state : σ) : ∃ shown, tree.Visits visitor (tree.children handle) state shown
      (tree.traverseUpTo visitor bound handle state) := by
  induction bound generalizing handle state with
  | zero =>
    have some := formed.room_pos present
    omega
  | succ bound ih =>
    rw [traverseUpTo]
    refine exists_visits_visitEach (fun value state isScalar => by rw [isScalar]) ?_ state
    intro value key child member isHandle state
    obtain rfl := handle?_eq_some.mp isHandle
    have step := mem_children_iff.mp member
    have less := formed.room_lt step
    rw [handle?_ofHandle]
    exact ih (formed.owned.of_childAt step).1 (by omega) state

section Spread

def shownHandles (shown : List (Value × Key)) : List Handle := shown.filterMap (·.1.handle?)

private theorem shownHandles_cons_of_handle {value : Value} {key : Key} {child : Handle}
    (isHandle : value.handle? = some child) (rest : List (Value × Key)) :
    shownHandles ((value, key) :: rest) = child :: shownHandles rest :=
  List.filterMap_cons_some isHandle

private theorem shownHandles_cons_of_scalar {value : Value} {key : Key}
    (isScalar : value.handle? = none) (rest : List (Value × Key)) :
    shownHandles ((value, key) :: rest) = shownHandles rest :=
  List.filterMap_cons_none isScalar

private theorem shownHandles_append (first second : List (Value × Key)) :
    shownHandles (first ++ second) = shownHandles first ++ shownHandles second :=
  List.filterMap_append

theorem mem_shownHandles_children {handle child : Handle} :
    child ∈ shownHandles (tree.children handle) ↔ ∃ key, tree.ChildAt handle key child := by
  simp only [shownHandles, List.mem_filterMap, Prod.exists, handle?_eq_some, ← mem_children_iff]
  constructor
  · rintro ⟨value, key, member, rfl⟩
    exact ⟨key, member⟩
  · rintro ⟨key, member⟩
    exact ⟨_, key, member, rfl⟩

theorem handle?_ofItem (item : Option NodeId) : (Value.ofItem item).handle? = item.map .node := by
  cases item <;> rfl

/-- Each slot holds a node or list of its own. -/
theorem Owned.nodup_slots (owned : tree.Owned) (id : NodeId) :
    ((tree.slots id).filterMap Value.handle?).Nodup := by
  rw [List.Nodup, List.pairwise_filterMap, List.pairwise_iff_getElem]
  rintro i j iBound jBound less held isFirst _ isSecond rfl
  have first : (tree.slots id)[i]? = some (.ofHandle held) := by
    rw [List.getElem?_eq_getElem iBound, handle?_eq_some.mp isFirst]
  have second : (tree.slots id)[j]? = some (.ofHandle held) := by
    rw [List.getElem?_eq_getElem jBound, handle?_eq_some.mp isSecond]
  cases held with
  | node c =>
    have same := eq_of_nodup_filterMap (owned.nodup (.node id)) first rfl second rfl
    omega
  | list l =>
    have owner := owned.owner_iff.mpr first
    rw [owned.owner_iff.mpr second] at owner
    simp only [Option.some.injEq, Prod.mk.injEq, true_and] at owner
    omega

/-- What a node holds is what its slots hold. -/
theorem Owned.shownHandles_node (owned : tree.Owned) (id : NodeId) :
    shownHandles (tree.children (.node id)) = (tree.slots id).filterMap Value.handle? := by
  have read (entry : Field × Value) : (entry.1.read entry.2).handle? = entry.2.handle? :=
    Option.ext fun child => handle?_read entry.1 entry.2 child
  have slots : ((tree.fields id).zip (tree.slots id)).map (·.2) = tree.slots id := by
    by_cases present : tree.hasNode id = true
    · exact List.map_snd_zip (Nat.le_of_eq (owned.slots_length present))
    · simp [Tree.slots, node?_of_not_hasNode present]
  conv_rhs => rw [← slots]
  simp only [shownHandles, children, readings, List.map_map, List.filterMap_map, Function.comp_def, read]

/-- What a list shows below itself are its nodes. -/
theorem shownHandles_list (tree : Tree catalogue) (l : ListId) :
    shownHandles (tree.children (.list l)) = (itemNodes (tree.items l)).map .node := by
  rw [shownHandles, children, itemNodes, List.mapIdx_eq_zipIdx_map, List.filterMap_map,
    List.map_filterMap]
  conv_rhs => rw [← List.zipIdx_map_fst 0 (tree.items l), List.filterMap_map]
  simp only [Function.comp_def, handle?_ofItem, id]

theorem Owned.nodup_children (owned : tree.Owned) {handle : Handle} (settled : tree.Settled handle) :
    (shownHandles (tree.children handle)).Nodup := by
  cases handle with
  | node id =>
    rw [owned.shownHandles_node]
    exact owned.nodup_slots id
  | list id =>
    have distinct := owned.nodup (.list id)
    rw [members, if_pos (settled id rfl)] at distinct
    rw [shownHandles_list]
    exact distinct.map fun _ _ => Handle.node.inj

/-- What lies within two different things that one thing holds would hold itself. -/
theorem Acyclic.eq_of_within_siblings (acyclic : tree.Acyclic) {first second outer inner : Handle}
    (firstHeld : tree.HeldBy first outer) (secondHeld : tree.HeldBy second outer)
    (inFirst : tree.Within inner first) (inSecond : tree.Within inner second) : first = second := by
  have oneHolder : Relator.RightUnique tree.HeldBy := fun a b c toB toC =>
    Option.some.inj (toB.symm.trans toC)
  have apart {a b : Handle} (aHeld : tree.HeldBy a outer) (bHeld : tree.HeldBy b outer)
      (within : tree.Within a b) : a = b := by
    obtain rfl | ⟨holder, held, above⟩ := Relation.ReflTransGen.cases_head within
    · rfl
    · obtain rfl := oneHolder aHeld held
      exact absurd (Relation.TransGen.head' bHeld above) (acyclic b)
  obtain within | within := Relation.ReflTransGen.total_of_right_unique oneHolder inFirst inSecond
  · exact apart firstHeld secondHeld within
  · exact (apart secondHeld firstHeld within).symm

/-- The nodes and lists are different, and each lies within one of the roots. -/
structure Spread (tree : Tree catalogue) (roots found : List Handle) : Prop where
  nodup : found.Nodup
  within : ∀ x ∈ found, ∃ root ∈ roots, tree.Within x root

theorem Spread.nil (tree : Tree catalogue) (roots : List Handle) : tree.Spread roots [] where
  nodup := .nil
  within := fun _ member => absurd member List.not_mem_nil

/-- What is found at and below the first of several things that one thing holds is apart from what is
found at and below the others. -/
theorem Spread.cons (acyclic : tree.Acyclic) {outer child : Handle}
    {rest children inner others : List Handle} (held : ∀ x ∈ child :: rest, tree.HeldBy x outer)
    (distinct : (child :: rest).Nodup) (childrenHeld : ∀ x ∈ children, tree.HeldBy x child)
    (inside : tree.Spread children inner) (outside : tree.Spread rest others) :
    tree.Spread (child :: rest) (child :: (inner ++ others)) := by
  have below (x : Handle) (inInner : x ∈ inner) : tree.Below x child := by
    obtain ⟨grandchild, isChild, within⟩ := inside.within x inInner
    exact Relation.TransGen.tail' within (childrenHeld grandchild isChild)
  have apart (x : Handle) (inOthers : x ∈ others) (within : tree.Within x child) : False := by
    obtain ⟨sibling, inRest, inSibling⟩ := outside.within x inOthers
    have same := acyclic.eq_of_within_siblings (held child (List.mem_cons_self ..))
      (held sibling (List.mem_cons_of_mem _ inRest)) within inSibling
    exact (List.nodup_cons.mp distinct).1 (same ▸ inRest)
  constructor
  · refine List.nodup_cons.mpr ⟨fun member => ?_, List.nodup_append.mpr
      ⟨inside.nodup, outside.nodup, ?_⟩⟩
    · obtain inInner | inOthers := List.mem_append.mp member
      · exact acyclic child (below child inInner)
      · exact apart child inOthers .refl
    · rintro x inInner _ inOthers rfl
      exact apart x inOthers (below x inInner).to_reflTransGen
  · intro x member
    obtain rfl | member := List.mem_cons.mp member
    · exact ⟨x, List.mem_cons_self .., .refl⟩
    obtain inInner | inOthers := List.mem_append.mp member
    · exact ⟨child, List.mem_cons_self .., (below x inInner).to_reflTransGen⟩
    · obtain ⟨sibling, inRest, within⟩ := outside.within x inOthers
      exact ⟨sibling, List.mem_cons_of_mem _ inRest, within⟩

theorem Owned.held_of_shown (owned : tree.Owned) {handle child : Handle} (settled : tree.Settled handle)
    (shown : child ∈ shownHandles (tree.children handle)) :
    tree.HeldBy child handle ∧ tree.Settled child := by
  obtain ⟨key, step⟩ := mem_shownHandles_children.mp shown
  obtain ⟨-, childSettled, held⟩ := owned.of_childAt step
  exact ⟨held settled, childSettled⟩

/-- A traversal of different things that one thing holds meets nothing twice, and nothing outside them. -/
theorem Visits.spread (formed : tree.WellFormed) {values shown : List (Value × Key)} {state : σ}
    {outcome : σ × Option β} (visits : tree.Visits visitor values state shown outcome) {outer : Handle}
    (held : ∀ child ∈ shownHandles values, tree.HeldBy child outer ∧ tree.Settled child)
    (distinct : (shownHandles values).Nodup) :
    tree.Spread (shownHandles values) (shownHandles shown) := by
  induction visits generalizing outer with
  | done state => exact .nil tree _
  | @stop _ _ value _ _ _ visit =>
    cases isHandle : value.handle? with
    | none =>
      rw [shownHandles_cons_of_scalar isHandle [], shownHandles]
      exact .nil tree _
    | some child =>
      rw [shownHandles_cons_of_handle isHandle] at held distinct ⊢
      rw [shownHandles_cons_of_handle isHandle]
      exact .cons formed.acyclic (fun x member => (held x member).1) distinct
        (fun x member => absurd member List.not_mem_nil) (.nil tree []) (.nil tree _)
  | @skip _ _ value _ _ _ _ visit others ih =>
    cases isHandle : value.handle? with
    | none =>
      rw [shownHandles_cons_of_scalar isHandle] at held distinct ⊢
      rw [shownHandles_cons_of_scalar isHandle]
      exact ih held distinct
    | some child =>
      rw [shownHandles_cons_of_handle isHandle] at held distinct ⊢
      rw [shownHandles_cons_of_handle isHandle]
      exact .cons formed.acyclic (fun x member => (held x member).1) distinct
        (fun x member => absurd member List.not_mem_nil) (.nil tree [])
        (ih (fun x member => held x (List.mem_cons_of_mem _ member)) distinct.of_cons)
  | leaf visit isScalar others ih =>
    rw [shownHandles_cons_of_scalar isScalar] at held distinct ⊢
    rw [shownHandles_cons_of_scalar isScalar]
    exact ih held distinct
  | enter visit isHandle inside others ihInside ih =>
    rw [shownHandles_cons_of_handle isHandle] at held distinct ⊢
    rw [List.cons_append, shownHandles_cons_of_handle isHandle, shownHandles_append]
    have settled := (held _ (List.mem_cons_self ..)).2
    exact .cons formed.acyclic (fun x member => (held x member).1) distinct
      (fun x member => (formed.owned.held_of_shown settled member).1)
      (ihInside (fun x member => formed.owned.held_of_shown settled member)
        (formed.owned.nodup_children settled))
      (ih (fun x member => held x (List.mem_cons_of_mem _ member)) distinct.of_cons)
  | stopInside visit isHandle inside ihInside =>
    rw [shownHandles_cons_of_handle isHandle] at held distinct ⊢
    rw [shownHandles_cons_of_handle isHandle]
    have settled := (held _ (List.mem_cons_self ..)).2
    have spread := Spread.cons formed.acyclic (fun x member => (held x member).1) distinct
      (fun x member => (formed.owned.held_of_shown settled member).1)
      (ihInside (fun x member => formed.owned.held_of_shown settled member)
        (formed.owned.nodup_children settled)) (.nil tree _)
    rwa [List.append_nil] at spread

/-- Below a node, or a list that belongs to a field, a traversal shows nothing twice and never comes back
to where it started. -/
theorem WellFormed.nodup_shown (formed : tree.WellFormed) {handle : Handle}
    (settled : tree.Settled handle) {shown : List (Value × Key)} {state : σ} {outcome : σ × Option β}
    (visits : tree.Visits visitor (tree.children handle) state shown outcome) :
    (handle :: shownHandles shown).Nodup := by
  have spread := visits.spread formed (fun x => formed.owned.held_of_shown settled)
    (formed.owned.nodup_children settled)
  refine List.nodup_cons.mpr ⟨fun back => ?_, spread.nodup⟩
  obtain ⟨child, isChild, within⟩ := spread.within handle back
  have held := (formed.owned.held_of_shown settled isChild).1
  exact formed.acyclic handle (Relation.TransGen.tail' within held)

end Spread

end Visits

/-- Nothing in a tree that operations made lies below itself. From anything in it, the walk upwards takes
fewer steps than there are nodes and lists, ends at the root, meets the innermost node around first among
nodes, and meets exactly the ancestors; a deep traversal ends, whatever the visitor does, and below a node
or a list that belongs to a field it shows nothing twice. -/
theorem walks_end {tree : Tree catalogue} (reachable : tree.Reachable) :
    (∀ handle, ¬ tree.Below handle handle) ∧
    ∀ handle, tree.hasHandle handle = true →
      tree.climb tree.size handle = none ∧
      (∃ n < tree.size, tree.climb n handle = some (tree.root handle) ∧
        tree.parent? (tree.root handle) = none) ∧
      (∀ id, tree.parentNode? handle = some id ↔
        ∃ n < tree.size, tree.climb (n + 1) handle = some (.node id) ∧
          ∀ m < n, ∀ other, tree.climb (m + 1) handle ≠ some (.node other)) ∧
      (∀ ancestor, tree.isAncestorOrSelf ancestor handle = true ↔
        ∃ n < tree.size, tree.climb n handle = some ancestor) ∧
      ∀ (σ β : Type) (visitor : Visitor σ β) (state : σ), ∃ shown,
        tree.Visits visitor (tree.children handle) state shown
          (tree.traverseDeep visitor handle state) ∧
        (tree.Settled handle → (handle :: shownHandles shown).Nodup) := by
  have formed := reachable.wellFormed
  refine ⟨formed.acyclic, fun handle present => ⟨formed.climb_size present, formed.climb_root present,
    formed.parentNode?_iff_climb present, formed.isAncestorOrSelf_iff_climb present, ?_⟩⟩
  intro σ β visitor state
  obtain ⟨shown, visits⟩ : ∃ shown, tree.Visits visitor (tree.children handle) state shown
      (tree.traverseDeep visitor handle state) :=
    formed.exists_visits_traverseUpTo present (tree.room_le handle) state
  exact ⟨shown, visits, fun settled => formed.nodup_shown settled visits⟩

theorem walks_end_movedBlock :
    movedBlock.Reachable ∧ movedBlock.hasHandle (.list ⟨0⟩) = true ∧
      movedBlock.Settled (.list ⟨0⟩) ∧ movedBlock.climb 1 (.list ⟨0⟩) = some (.node ⟨0⟩) ∧
      movedBlock.climb movedBlock.size (.list ⟨0⟩) = none ∧
      movedBlock.isAncestorOrSelf (.node ⟨0⟩) (.list ⟨0⟩) = true ∧
      ∃ shown, movedBlock.Visits (fun count _ _ => (count + 1, (Visit.goOn : Visit Empty)))
          (movedBlock.children (.list ⟨0⟩)) 0 shown
          (movedBlock.traverseDeep (fun count _ _ => (count + 1, .goOn)) (.list ⟨0⟩) 0) ∧
        (.list ⟨0⟩ :: shownHandles shown).Nodup := by
  have reachable : movedBlock.Reachable := ⟨1, _, rfl⟩
  have present : movedBlock.hasHandle (.list ⟨0⟩) = true := by decide +kernel
  have settled : movedBlock.Settled (.list ⟨0⟩) := by
    rintro l ⟨⟩
    decide +kernel
  have above : movedBlock.climb 1 (.list ⟨0⟩) = some (.node ⟨0⟩) := by decide +kernel
  have several : 1 < movedBlock.size := by decide +kernel
  obtain ⟨top, -, -, around, deep⟩ := (walks_end reachable).2 _ present
  obtain ⟨shown, visits, distinct⟩ := deep Nat Empty (fun count _ _ => (count + 1, .goOn)) 0
  exact ⟨reachable, present, settled, above, top, (around _).mpr ⟨1, several, above⟩, shown, visits,
    distinct settled⟩

end Arbor.Tree
