import Arbor.Proofs.Rewriting

/-! # Free lists are snapshots

A slice or a selection of a list is a new free list with the items that were there at the time. It takes
no part in what happens to the tree: an operation about anything else leaves its items alone, because no
node is held by a free list and so none is ever taken out of it; and an operation about a free list changes
nothing but its items. -/

namespace Arbor.Tree

variable {catalogue : Catalogue}

open Arbor.Action

section Ranges

/-- A range that starts at the bound may have the place in it. -/
def Bound.admitsFrom : Bound → Nat → Bool
  | .included first, n => first ≤ n
  | .excluded before, n => before < n
  | .unbounded, _ => true

/-- A range that ends at the bound may have the place in it. -/
def Bound.admitsTo : Bound → Nat → Bool
  | .included last, n => n ≤ last
  | .excluded behind, n => n < behind
  | .unbounded, _ => true

theorem clamp_mem_range {low high : Nat} (ordered : low ≤ high) (place : Nat) :
    low ≤ clamp low high place ∧ clamp low high place ≤ high := by
  rw [clamp]
  split
  · omega
  · split <;> omega

/-- What is between the limits is before a place exactly if it is before the nearest place to it. -/
theorem lt_clamp_iff {low high n : Nat} (late : low ≤ n) (early : n < high) (place : Nat) :
    n < clamp low high place ↔ n < place := by
  rw [clamp]
  split
  · omega
  · split <;> omega

/-- A range lies in the list, whatever its bounds. -/
theorem Bound.range_inside (start stop : Bound) (length : Nat) :
    start.first length ≤ stop.stop length (start.first length) ∧
      stop.stop length (start.first length) ≤ length :=
  clamp_mem_range (Nat.min_le_right ..) _

/-- The last place that can be asked for is behind every place of the list, so stopping there does not
show. -/
theorem Bound.admitsFrom_iff {bound : Bound} {length n : Nat} (inside : n < length) :
    bound.admitsFrom n = true ↔ bound.first length ≤ n := by
  cases bound with
  | included first =>
    simp only [admitsFrom, Bound.first, decide_eq_true_eq]
    omega
  | excluded before =>
    simp only [admitsFrom, Bound.first, furtherOn, decide_eq_true_eq]
    omega
  | unbounded => simp only [admitsFrom, Bound.first, Nat.zero_min, Nat.zero_le]

theorem Bound.admitsTo_iff {bound : Bound} {length start n : Nat} (inside : n < length) (late : start ≤ n) :
    bound.admitsTo n = true ↔ n < bound.stop length start := by
  change _ ↔ n < clamp start length _
  rw [lt_clamp_iff late inside]
  cases bound with
  | included last =>
    simp only [admitsTo, furtherOn, decide_eq_true_eq]
    omega
  | excluded behind => simp only [admitsTo, decide_eq_true_eq]
  | unbounded => simp only [admitsTo, inside]

/-- The second list consists of those items of the first that are wanted at their places, in order. -/
def Picks {α : Type} (wanted : α → Nat → Bool) (all picked : List α) : Prop :=
  ∃ places : List Nat, places.Pairwise (· < ·) ∧
    (∀ n, n ∈ places ↔ ∃ item, all[n]? = some item ∧ wanted item n = true) ∧
    picked.map some = places.map (all[·]?)

private theorem picks_of_sublist {α : Type} {wanted : α → Nat → Bool} {all : List α}
    {entries : List (α × Nat)} (inOrder : entries.Sublist all.zipIdx)
    (chosen : ∀ item n, all[n]? = some item → ((item, n) ∈ entries ↔ wanted item n = true)) :
    Picks wanted all (entries.map (·.1)) := by
  have held (entry : α × Nat) (member : entry ∈ entries) : all[entry.2]? = some entry.1 :=
    List.mem_zipIdx_iff_getElem?.mp (inOrder.mem member)
  refine ⟨entries.map (·.2), ?_, fun n => ⟨fun isPlace => ?_, ?_⟩, ?_⟩
  · have sorted : (all.zipIdx.map (·.2)).Pairwise (· < ·) := by
      rw [List.zipIdx_map_snd]
      exact List.pairwise_lt_range'
    exact sorted.sublist (inOrder.map _)
  · obtain ⟨⟨item, n⟩, member, rfl⟩ := List.mem_map.mp isPlace
    exact ⟨item, held _ member, (chosen item n (held _ member)).mp member⟩
  · rintro ⟨item, isItem, isWanted⟩
    exact List.mem_map.mpr ⟨(item, n), (chosen item n isItem).mpr isWanted, rfl⟩
  · rw [List.map_map, List.map_map]
    exact List.map_congr_left fun entry member => (held entry member).symm

private theorem picks_range {α : Type} (start stop : Bound) (all : List α) :
    Picks (fun _ n => start.admitsFrom n && stop.admitsTo n) all
      ((all.take (stop.stop all.length (start.first all.length))).drop (start.first all.length)) := by
  generalize isFirst : start.first all.length = first
  generalize isEnd : stop.stop all.length first = behind
  have inOrder : ((all.zipIdx.take behind).drop first).Sublist all.zipIdx :=
    (List.drop_sublist ..).trans (List.take_sublist ..)
  have same : (all.take behind).drop first = ((all.zipIdx.take behind).drop first).map (·.1) := by
    rw [List.map_drop, List.map_take, List.zipIdx_map_fst]
  rw [same]
  apply picks_of_sublist inOrder
  intro item n isItem
  obtain ⟨inside, -⟩ := List.getElem?_eq_some_iff.mp isItem
  have admitted : (start.admitsFrom n && stop.admitsTo n) = true ↔ first ≤ n ∧ n < behind := by
    rw [Bool.and_eq_true, Bound.admitsFrom_iff inside, isFirst, ← isEnd]
    exact and_congr_right fun late => Bound.admitsTo_iff inside late
  rw [admitted, List.mem_iff_getElem?]
  simp only [List.getElem?_drop, List.getElem?_take, List.getElem?_zipIdx]
  constructor
  · rintro ⟨i, found⟩
    split at found
    · obtain ⟨other, -, same⟩ := Option.map_eq_some_iff.mp found
      cases same
      omega
    · contradiction
  · rintro ⟨late, early⟩
    refine ⟨n - first, ?_⟩
    rw [Nat.add_sub_cancel' late, if_pos early, isItem, Nat.zero_add]
    rfl

theorem picks_filter {α : Type} (keep : α → Nat → Bool) (all : List α) :
    Picks keep all ((all.zipIdx.filter fun entry => keep entry.1 entry.2).map (·.1)) := by
  apply picks_of_sublist List.filter_sublist
  intro item n isItem
  have listed : (item, n) ∈ all.zipIdx := List.mem_zipIdx_iff_getElem?.mpr isItem
  rw [List.mem_filter]
  exact and_iff_right listed

/-- The second of the pair has a new free list, the first of the pair, with those items of a list that are
wanted; everything else is as it was. -/
structure Snapshot (tree : Tree catalogue) (l : ListId) (wanted : Option NodeId → Nat → Bool)
    (made : ListId × Tree catalogue) : Prop where
  new : tree.hasList made.1 = false
  present : made.2.hasList made.1 = true
  free : made.2.owner? made.1 = none
  items : Picks wanted (tree.items l) (made.2.items made.1)
  kept : tree.Keeps made.2

private theorem snapshot_createListOf {tree : Tree catalogue} {l : ListId}
    {wanted : Option NodeId → Nat → Bool} {items : List (Option NodeId)}
    (picked : Picks wanted (tree.items l) items) :
    tree.Snapshot l wanted (tree.createListOf items) where
  new := by simp [createListOf, createList, allocList, hasList]
  present := hasList_createListOf_self tree items
  free := owner?_createListOf_self tree items
  items := by
    have sameItems := items_createListOf tree items ⟨tree.lists.size⟩
    rw [if_pos rfl] at sameItems
    exact sameItems.symm ▸ picked
  kept := keeps_createListOf tree items

end Ranges

/-- The list is there and free, has the given items, and holds no node. -/
structure Aside (tree : Tree catalogue) (k : ListId) (items : List (Option NodeId)) : Prop where
  present : tree.hasList k = true
  free : tree.owner? k = none
  items : tree.items k = items
  holdsNone : ∀ c, tree.parent? (.node c) ≠ some (.list k)

private theorem isOwned_eq_false {tree : Tree catalogue} {k : ListId}
    (free : tree.owner? k = none) : tree.isOwned k = false := by
  rw [isOwned, free]
  rfl

theorem WellFormed.aside {tree : Tree catalogue} (formed : tree.WellFormed) {k : ListId}
    (present : tree.hasList k = true) (free : tree.owner? k = none) :
    tree.Aside k (tree.items k) where
  present := present
  free := free
  items := rfl
  holdsNone := by
    intro c held
    have isOwned := (formed.owned.mem_item_iff.mpr held).1
    rw [isOwned_eq_false free] at isOwned
    contradiction

namespace Aside

variable {tree after : Tree catalogue} {k : ListId} {items : List (Option NodeId)}

/-- Detaching a node only changes what holds it, and that is never the list. -/
theorem rewrite (aside : tree.Aside k items) (write : Rewrite (· ≠ k) tree after) :
    after.Aside k items := by
  cases write with
  | parent parent id among =>
    refine ⟨aside.present, aside.free, aside.items, fun c held => ?_⟩
    rw [parent?_setParent] at held
    split at held
    · obtain ⟨-, -, isList⟩ := Option.bind_eq_some_iff.mp held
      exact among k isList rfl
    · exact aside.holdsNone c held
  | slot id place value =>
    refine ⟨aside.present, aside.free, aside.items, fun c held => ?_⟩
    rw [parent?_setSlotValue] at held
    exact aside.holdsNone c held
  | metadata id metadata =>
    refine ⟨aside.present, aside.free, aside.items, fun c held => ?_⟩
    rw [setMetadata, parent?_modifyNode] at held
    · exact aside.holdsNone c held
    · exact fun _ => rfl
  | detach id =>
    refine ⟨?_, ?_, ?_, fun c held => ?_⟩
    · rw [hasList_detach, aside.present]
    · rw [owner?_detach, aside.free]
    · rw [items_detach, if_neg (aside.holdsNone id), aside.items]
    · rw [parent?_detach] at held
      split at held
      · contradiction
      · exact aside.holdsNone c held
  | items l others among =>
    refine ⟨?_, ?_, ?_, fun c held => ?_⟩
    · rw [hasList_setItems, aside.present]
    · rw [owner?_setItems, aside.free]
    · rw [setItems, items_modifyList_of_ne _ _ _ _ (Ne.symm among), aside.items]
    · rw [parent?_setItems] at held
      exact aside.holdsNone c held

theorem rewrites (aside : tree.Aside k items) (writes : tree.Rewrites (· ≠ k) after) :
    after.Aside k items := by
  induction writes with
  | refl => exact aside
  | tail _ write ih => exact ih.rewrite write

theorem keeps (aside : tree.Aside k items) (kept : tree.Keeps after) (formed : after.WellFormed) :
    after.Aside k items := by
  have present : after.hasHandle (.list k) = true := kept.hasHandle aside.present
  have free : after.owner? k = none := (kept.owner?_eq aside.present).trans aside.free
  have sameItems : after.items k = items := (kept.items_eq aside.present).trans aside.items
  exact sameItems ▸ formed.aside present free

theorem copy (aside : tree.Aside k items) : tree.copy.Aside k items where
  present := (hasList_copy tree k).trans aside.present
  free := (owner?_copy tree k).trans aside.free
  items := (items_copy tree k).trans aside.items
  holdsNone := by
    intro c
    rw [parent?_copy]
    exact aside.holdsNone c

theorem step (aside : tree.Aside k items) (formed : tree.WellFormed) {operation : Operation}
    (elsewhere : operation.changedList? ≠ some k) : (tree.step operation).Aside k items := by
  have stepFormed := formed.evolves (formed.evolves_step operation)
  rw [Tree.step] at stepFormed ⊢
  split
  · next hasOperands =>
    rw [if_pos hasOperands] at stepFormed
    by_cases isCopy : operation = .copy
    · subst isCopy
      exact aside.copy
    have among (l : ListId) (isChanged : operation.changedList? = some l) : l ≠ k := by
      rintro rfl
      exact elsewhere isChanged
    rcases formed.rewrites_or_keeps isCopy among with writes | kept
    · exact aside.rewrites writes
    · exact aside.keeps kept stepFormed
  · exact aside

theorem run (aside : tree.Aside k items) (formed : tree.WellFormed) {operations : List Operation}
    (elsewhere : ∀ operation ∈ operations, operation.changedList? ≠ some k) :
    (tree.run operations).Aside k items := by
  induction operations generalizing tree with
  | nil => exact aside
  | cons operation rest ih =>
    have first := aside.step formed (elsewhere operation (List.mem_cons_self ..))
    have firstFormed := formed.evolves (formed.evolves_step operation)
    exact ih first firstFormed fun other later => elsewhere other (List.mem_cons_of_mem _ later)

end Aside

/-- The second tree is the first but for the items of a list. -/
def Refills (tree : Tree catalogue) (k : ListId) (after : Tree catalogue) : Prop :=
  ∃ items, after = tree.setItems k items

namespace Refills

variable {tree after : Tree catalogue} {k : ListId}

theorem refl (tree : Tree catalogue) (k : ListId) : tree.Refills k tree :=
  ⟨tree.items k, (setItems_self tree k).symm⟩

theorem node? (refills : tree.Refills k after) (id : NodeId) : after.node? id = tree.node? id := by
  obtain ⟨items, rfl⟩ := refills
  rfl

theorem list? (refills : tree.Refills k after) {l : ListId} (other : l ≠ k) :
    after.list? l = tree.list? l := by
  obtain ⟨items, rfl⟩ := refills
  rw [setItems, list?_modifyList, if_neg other]

end Refills

/-- Places past the end count as the end, however far they are. -/
theorem splice_of_free {tree : Tree catalogue} {k : ListId} (free : tree.owner? k = none)
    (start delete : Nat) (items : List (Option NodeId)) :
    tree.splice k start delete items =
      .ok (((tree.items k).take (min (start + delete) (tree.length k))).drop (min start (tree.length k)),
        tree.setItems k ((tree.items k).take (min start (tree.length k)) ++ items ++
          (tree.items k).drop (min (start + delete) (tree.length k)))) := by
  have sameStop : min (min start (tree.items k).length + delete) (tree.items k).length =
      min (start + delete) (tree.items k).length := by omega
  simp only [splice, isOwned_eq_false free, Bool.false_eq_true, if_false, replaceFree, length, min_furtherOn,
    sameStop]

private theorem perform_splice_of_free {tree : Tree catalogue} {k : ListId}
    (free : tree.owner? k = none) (start delete : Nat) (items : List (Option NodeId)) :
    (Operation.splice k start delete items).perform tree =
      (.ok (.items (((tree.items k).take (min (start + delete) (tree.length k))).drop
        (min start (tree.length k)))),
        tree.setItems k ((tree.items k).take (min start (tree.length k)) ++ items ++
          (tree.items k).drop (min (start + delete) (tree.length k)))) := by
  rw [Operation.perform, Operation.outcome, spliceItems_eq_whole,
    whole_of_ok (splice_of_free free start delete items)]
  rfl

theorem ListChange.refills {tree after : Tree catalogue} {k : ListId} (change : tree.ListChange k after)
    (free : tree.owner? k = none) : tree.Refills k after := by
  have isFree := isOwned_eq_false free
  cases change with
  | unchanged => exact .refl tree k
  | splice spliced =>
    rw [splice_of_free free] at spliced
    cases spliced
    exact ⟨_, rfl⟩
  | take place =>
    rw [Tree.take]
    split
    · exact .refl tree k
    next item found =>
    cases item with
    | none => exact ⟨_, rfl⟩
    | some c =>
      dsimp only
      rw [isFree]
      exact ⟨_, rfl⟩
  | clear =>
    rw [Tree.clear, isFree]
    exact ⟨[], rfl⟩

private theorem refills_step {tree : Tree catalogue} {k : ListId} (free : tree.owner? k = none)
    {operation : Operation} (isList : operation.changedList? = some k) :
    tree.Refills k (tree.step operation) := by
  rw [step]
  split
  · exact (ListChange.perform tree isList).refills free
  · exact .refl tree k

/-- Of a tree that operations made, a slice or a selection of a list is a new free list with just the items
in the range, or those the test accepts, in order. Operations that are not to change a free list leave its
items alone, one after the other. One that is to change a free list changes no node and no other list, and
a splice of it is exact: items may repeat, and places past the end count as the end. -/
theorem free_lists_are_snapshots {tree : Tree catalogue} (reachable : tree.Reachable) :
    (∀ (l : ListId) (start stop : Bound),
      tree.Snapshot l (fun _ n => start.admitsFrom n && stop.admitsTo n) (tree.slice l start stop)) ∧
    (∀ (l : ListId) (keep : Option NodeId → Nat → Bool), tree.Snapshot l keep (tree.filter l keep)) ∧
    ∀ k, tree.hasList k = true → tree.owner? k = none →
      (∀ operations, (∀ operation ∈ operations, operation.changedList? ≠ some k) →
        (tree.run operations).items k = tree.items k ∧ (tree.run operations).owner? k = none) ∧
      (∀ operation, operation.changedList? = some k →
        (∀ id, (tree.step operation).node? id = tree.node? id) ∧
        ∀ l, l ≠ k → (tree.step operation).list? l = tree.list? l) ∧
      ∀ start delete items, ∃ removed after,
        (Operation.splice k start delete items).perform tree = (.ok (.items removed), after) ∧
        after.items k = (tree.items k).take (min start (tree.length k)) ++ items ++
          (tree.items k).drop (min (start + delete) (tree.length k)) := by
  refine ⟨fun l start stop => snapshot_createListOf (picks_range start stop _),
    fun l keep => snapshot_createListOf (picks_filter keep _), fun k present free => ⟨?_, ?_, ?_⟩⟩
  · intro operations elsewhere
    have formed := reachable.wellFormed
    have aside := (formed.aside present free).run formed elsewhere
    exact ⟨aside.items, aside.free⟩
  · intro operation isList
    have refills := refills_step free isList
    exact ⟨refills.node?, fun l other => refills.list? other⟩
  · intro start delete items
    have spliced := perform_splice_of_free free start delete items
    refine ⟨_, _, spliced, ?_⟩
    rw [items_setItems _ _ _ _ present, if_pos rfl]

/-- Two blocks in the list of another, and a free list that has the second of them twice. -/
def notedBlock : Tree blocks :=
  (empty blocks 1).run [.createNode "Block", .createNode "Block", .createNode "Block",
    .append ⟨0⟩ [some ⟨1⟩, some ⟨2⟩], .slice ⟨0⟩ (.excluded 0) (.included (18446744073709551615)),
    .push ⟨3⟩ (.node ⟨2⟩)]

theorem free_lists_are_snapshots_notedBlock :
    notedBlock.Reachable ∧ notedBlock.hasList ⟨3⟩ = true ∧ notedBlock.owner? ⟨3⟩ = none ∧
    (notedBlock.run [.detach ⟨2⟩, .clear ⟨0⟩, .copy]).items ⟨3⟩ = [some ⟨2⟩, some ⟨2⟩] ∧
    (notedBlock.step (.clear ⟨3⟩)).list? ⟨0⟩ = notedBlock.list? ⟨0⟩ ∧
    ∃ removed after,
      (Operation.splice ⟨3⟩ 1 (18446744073709551615) [some ⟨2⟩, none]).perform notedBlock =
        (.ok (.items removed), after) ∧
      after.items ⟨3⟩ = [some ⟨2⟩, some ⟨2⟩, none] := by
  have reachable : notedBlock.Reachable := ⟨1, _, rfl⟩
  have present : notedBlock.hasList ⟨3⟩ = true := by decide +kernel
  have free : notedBlock.owner? ⟨3⟩ = none := by decide +kernel
  have held : notedBlock.items ⟨3⟩ = [some ⟨2⟩, some ⟨2⟩] := by decide +kernel
  have length : notedBlock.length ⟨3⟩ = 2 := by rw [Tree.length, held]; rfl
  obtain ⟨-, -, snapshots⟩ := free_lists_are_snapshots reachable
  obtain ⟨kept, spares, splices⟩ := snapshots ⟨3⟩ present free
  refine ⟨reachable, present, free, ?_, (spares (.clear ⟨3⟩) rfl).2 ⟨0⟩ (by decide), ?_⟩
  · rw [(kept [.detach ⟨2⟩, .clear ⟨0⟩, .copy] (by simp [Operation.changedList?])).1, held]
  · obtain ⟨removed, after, spliced, items⟩ := splices 1 (18446744073709551615) [some ⟨2⟩, none]
    refine ⟨removed, after, spliced, ?_⟩
    rw [items, held, length]
    rfl

end Arbor.Tree
