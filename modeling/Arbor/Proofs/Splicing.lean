import Arbor.Proofs.Conformance
import Arbor.Proofs.Snapshot
import Arbor.Proofs.Transfer

/-! # Splices of lists that belong to fields

A splice of a list that belongs to a field is refused exactly if the field does not accept one of the
items or one of them is around the list. Otherwise it takes out the stretch, drops repetitions of nodes
from what comes, and puts the rest where the stretch was; the nodes that come leave their former places,
this list included, so what stands around the stretch may get shorter. `transfer` says what becomes of
the rest of the tree. -/

namespace Arbor.Tree

variable {catalogue : Catalogue}

open Arbor.Action

section PutIn

/-- The item is a hole, or a node that is neither in `seen` nor among the items before the place. -/
def isFirst (seen : List NodeId) (items : List (Option NodeId)) (item : Option NodeId) (n : Nat) :
    Bool :=
  item.all fun c => !seen.contains c && !(items.take n).contains (some c)

private theorem filter_zipIdx_cons {α : Type} (keep : α → Nat → Bool) (a : α) (rest : List α) :
    ((a :: rest).zipIdx.filter fun entry => keep entry.1 entry.2).map (·.1) =
      (if keep a 0 then [a] else []) ++
        (rest.zipIdx.filter fun entry => keep entry.1 (entry.2 + 1)).map (·.1) := by
  rw [List.zipIdx_cons, List.zipIdx_succ, List.filter_cons]
  split <;> simp [List.filter_map, Function.comp_def]

private theorem isFirst_cons_succ (seen : List NodeId) (c : NodeId) (rest : List (Option NodeId))
    (item : Option NodeId) (n : Nat) :
    isFirst seen (some c :: rest) item (n + 1) = isFirst (c :: seen) rest item n := by
  cases item with
  | none => rfl
  | some x => by_cases same : x = c <;> simp [isFirst, same]

private theorem isFirst_cons_of_mem {seen : List NodeId} {c : NodeId} (known : c ∈ seen)
    (items : List (Option NodeId)) (item : Option NodeId) (n : Nat) :
    isFirst (c :: seen) items item n = isFirst seen items item n := by
  cases item with
  | none => rfl
  | some x => by_cases same : x = c <;> simp [isFirst, same, known]

private theorem distinctItems_eq_filter (seen : List NodeId) (items : List (Option NodeId)) :
    distinctItems seen items =
      (items.zipIdx.filter fun entry => isFirst seen items entry.1 entry.2).map (·.1) := by
  fun_induction distinctItems seen items with
  | case1 => rfl
  | case2 seen rest ih =>
    rw [filter_zipIdx_cons, ih]
    simp [isFirst]
  | case3 seen c rest known ih =>
    have notFirst : isFirst seen (some c :: rest) (some c) 0 = false := by simpa [isFirst] using known
    rw [filter_zipIdx_cons, notFirst, ih]
    simp only [isFirst_cons_succ, isFirst_cons_of_mem (List.contains_iff_mem.mp known)]
    rfl
  | case4 seen c rest unknown ih =>
    have first : isFirst seen (some c :: rest) (some c) 0 = true := by simpa [isFirst] using unknown
    rw [filter_zipIdx_cons, first, ih]
    simp only [isFirst_cons_succ]
    rfl

/-- Of the items, holes stay and of each node the first occurrence does. -/
theorem picks_distinctItems (items : List (Option NodeId)) :
    Picks (isFirst [] items) items (distinctItems [] items) := by
  rw [distinctItems_eq_filter]
  exact picks_filter ..

private theorem mem_distinctItems_or_seen (seen : List NodeId) {items : List (Option NodeId)}
    {item : Option NodeId} (member : item ∈ items) :
    item ∈ distinctItems seen items ∨ ∃ c ∈ seen, item = some c := by
  fun_induction distinctItems seen items with
  | case1 => simp at member
  | case2 seen rest ih =>
    obtain rfl | later := List.mem_cons.mp member
    · exact .inl (List.mem_cons_self ..)
    · exact (ih later).imp_left (List.mem_cons_of_mem _)
  | case3 seen c rest known ih =>
    obtain rfl | later := List.mem_cons.mp member
    · exact .inr ⟨c, List.contains_iff_mem.mp known, rfl⟩
    · exact ih later
  | case4 seen c rest unknown ih =>
    obtain rfl | later := List.mem_cons.mp member
    · exact .inl (List.mem_cons_self ..)
    · obtain kept | ⟨x, isSeen, rfl⟩ := ih later
      · exact .inl (List.mem_cons_of_mem _ kept)
      · obtain rfl | before := List.mem_cons.mp isSeen
        · exact .inl (List.mem_cons_self ..)
        · exact .inr ⟨x, before, rfl⟩

/-- Dropping repetitions drops no item altogether. -/
theorem mem_distinctItems_iff {items : List (Option NodeId)} {item : Option NodeId} :
    item ∈ distinctItems [] items ↔ item ∈ items := by
  refine ⟨mem_of_mem_distinctItems, fun member => ?_⟩
  obtain kept | ⟨c, isSeen, -⟩ := mem_distinctItems_or_seen [] member
  · exact kept
  · simp at isSeen

end PutIn

/-- The items may go into a list of the field: it accepts each, and none is around the list. -/
structure Receives (tree : Tree catalogue) (l : ListId) (field : Field)
    (items : List (Option NodeId)) : Prop where
  fits : ∀ item ∈ items, tree.FitsItem field item
  outside : ∀ c, some c ∈ items → ¬ tree.Below (.list l) (.node c)

private theorem within_list_iff {tree : Tree catalogue} {l : ListId} {c : NodeId} :
    tree.Within (.list l) (.node c) ↔ tree.Below (.list l) (.node c) := by
  rw [within_iff]
  exact or_iff_right Handle.noConfusion

private theorem checkItems_of_checkItem {tree : Tree catalogue} {l : ListId}
    {items : List (Option NodeId)} (passed : ∀ item ∈ items, tree.checkItem l item = .ok ()) :
    tree.checkItems l items = .ok () := by
  induction items with
  | nil => rfl
  | cons item rest ih =>
    rw [checkItems, passed item (List.mem_cons_self ..)]
    exact ih fun other later => passed other (List.mem_cons_of_mem _ later)

theorem FitsItem.admitsItem {tree : Tree catalogue} {field : Field} {item : Option NodeId}
    (fits : tree.FitsItem field item) : tree.admitsItem field item = true := by
  cases fits with
  | hole admitted => exact admitted
  | node c present admitted => exact admitted

theorem WellFormed.checkItems_eq_ok_iff {tree : Tree catalogue} (formed : tree.WellFormed) {l : ListId}
    {field : Field} (declared : tree.ownerField? l = some field) {items : List (Option NodeId)}
    (present : tree.hasItems items = true) :
    tree.checkItems l items = .ok () ↔ tree.Receives l field items := by
  constructor
  · intro passed
    obtain ⟨admitted, outside⟩ := formed.accepted_of_checkItems declared passed
    refine ⟨fun item member => ?_, fun c member => ?_⟩
    · refine fitsItem_of_admitsItem (admitted item member) ?_
      rintro c rfl
      exact hasNode_of_hasItems present member
    · exact within_list_iff.not.mp (outside c (mem_itemNodes.mpr member))
  · intro receives
    refine checkItems_of_checkItem fun item member => formed.checkItem_eq_ok ?_ ?_
    · intro other found
      obtain rfl : field = other := Option.some.inj (declared.symm.trans found)
      exact (receives.fits item member).admitsItem
    · rintro c rfl
      exact within_list_iff.not.mpr (receives.outside c member)

theorem Receives.distinctItems_iff {tree : Tree catalogue} {l : ListId} {field : Field}
    {items : List (Option NodeId)} :
    tree.Receives l field (distinctItems [] items) ↔ tree.Receives l field items := by
  constructor
  · exact fun receives => ⟨fun item member => receives.fits item (mem_distinctItems_iff.mpr member),
      fun c member => receives.outside c (mem_distinctItems_iff.mpr member)⟩
  · exact fun receives => ⟨fun item member => receives.fits item (mem_distinctItems_iff.mp member),
      fun c member => receives.outside c (mem_distinctItems_iff.mp member)⟩

section Cut

variable {tree : Tree catalogue} {l : ListId} (start stop : Nat)

theorem Rearranges.cut : tree.Rearranges (tree.replaceOwned l start stop []) := by
  rw [replaceOwned_nil]
  exact (foldl_setParent _ none tree).trans (setItems _ l _)

private theorem slots_cut (n : NodeId) :
    (tree.replaceOwned l start stop []).slots n = tree.slots n := by
  rw [replaceOwned_nil]
  exact slots_foldl_setParent ..

private theorem items_cut_of_ne {k : ListId} (other : k ≠ l) :
    (tree.replaceOwned l start stop []).items k = tree.items k := by
  rw [replaceOwned_nil, setItems, items_modifyList_of_ne _ _ _ _ other, items_foldl_setParent]

theorem Owned.parent?_cut (owned : tree.Owned) (n : NodeId) :
    (tree.replaceOwned l start stop []).parent? (.node n) =
      if n ∈ itemNodes (((tree.items l).take stop).drop start) then none
      else tree.parent? (.node n) := by
  rw [replaceOwned_nil, parent?_setItems, parent?_foldl_setParent]
  intro c member
  exact owned.item_present (List.mem_of_mem_take (List.mem_of_mem_drop (mem_itemNodes.mp member)))

end Cut

/-- A stretch of a list is replaced by a transfer of the nodes that come. -/
theorem Owned.replaceOwned_eq_transfer {tree : Tree catalogue} (owned : tree.Owned) {l : ListId}
    (isOwned : tree.isOwned l = true) {start stop : Nat} (ordered : start ≤ stop)
    (inside : start ≤ (tree.items l).length) {items : List (Option NodeId)}
    (present : tree.hasItems items = true) :
    tree.replaceOwned l start stop items =
      (tree.transfer (itemNodes (((tree.items l).take stop).drop start)) (itemNodes items)
        (.list l)).setItems l (without (itemNodes items) ((tree.items l).take start) ++ items ++
          without (itemNodes items) ((tree.items l).drop stop)) := by
  have cut : tree.Rearranges (tree.replaceOwned l start stop []) := .cut start stop
  have cutOwned := owned.cut isOwned ordered
  have detached := cut.trans (.foldl_detach (itemNodes items) _)
  have coming (c : NodeId) (member : c ∈ itemNodes items) : tree.hasNode c = true :=
    hasNode_of_hasItems present (mem_itemNodes.mp member)
  have hasList := hasList_of_isOwned isOwned
  rw [owned.replaceOwned_eq isOwned ordered inside, insertItems]
  refine Rearranges.eq (((Rearranges.transfer ..).trans (.setItems ..)).symm.trans
    (detached.trans ((Rearranges.foldl_setParent ..).trans (.setItems ..)))) (fun n => ?_)
    (fun n => ?_) fun k => ?_
  · rw [parent?_setItems, parent?_setItems, parent?_foldl_setParent, parent?_transfer _ _ _ _ coming]
    · split
      · rfl
      · next notComing => rw [parent?_foldl_detach_of_not_mem notComing, owned.parent?_cut]
    · intro c member
      rw [detached.hasNode]
      exact coming c member
  · calc _ = ((itemNodes items).foldl Tree.detach (tree.replaceOwned l start stop [])).slots n :=
          slots_foldl_setParent ..
      _ = vacate (itemNodes items) (tree.slots n) := by rw [cutOwned.slots_foldl_detach, slots_cut]
      _ = _ := (slots_transfer ..).symm
  · have hasListThen := ((detached.trans (.foldl_setParent (itemNodes items)
      (some (.list l)) _)).hasList l).trans hasList
    rw [items_setItems _ _ _ _ hasListThen, items_setItems _ _ _ _ (by
      rw [(Rearranges.transfer ..).hasList]; exact hasList), items_foldl_setParent, items_transfer]
    by_cases same : k = l
    · rw [if_pos same, if_pos same]
    · rw [if_neg same, if_neg same]
      split
      · next listOwned =>
        rw [cutOwned.items_foldl_detach (by rwa [cut.isOwned]), items_cut_of_ne start stop same]
      · next listFree =>
        rw [cutOwned.items_foldl_detach_of_free (by rw [cut.isOwned]; simpa using listFree),
          items_cut_of_ne start stop same]

private theorem splice_of_owned {tree : Tree catalogue} {l : ListId}
    (isOwned : tree.isOwned l = true) (start delete : Nat) (items : List (Option NodeId)) :
    tree.splice l start delete items =
      (tree.checkItems l (distinctItems [] items)).map fun _ =>
        (((tree.items l).take (min (min start (tree.length l) + delete) (tree.length l))).drop
            (min start (tree.length l)),
          tree.replaceOwned l (min start (tree.length l))
            (min (min start (tree.length l) + delete) (tree.length l)) (distinctItems [] items)) := by
  simp only [splice, isOwned, if_true, length, min_furtherOn]
  cases tree.checkItems l (distinctItems [] items) <;> rfl

private theorem perform_splice_of_owned {tree : Tree catalogue} {l : ListId}
    (isOwned : tree.isOwned l = true)
    (start delete : Nat) (items : List (Option NodeId)) (answer : Answer) (after : Tree catalogue) :
    (Operation.splice l start delete items).perform tree = (.ok answer, after) ↔
      tree.checkItems l (distinctItems [] items) = .ok () ∧
      answer = .items (((tree.items l).take (min (min start (tree.length l) + delete)
        (tree.length l))).drop (min start (tree.length l))) ∧
      after = tree.replaceOwned l (min start (tree.length l))
        (min (min start (tree.length l) + delete) (tree.length l)) (distinctItems [] items) := by
  rw [Operation.perform, Operation.outcome, spliceItems_eq_whole]
  have spliced := splice_of_owned isOwned start delete items
  cases passed : tree.checkItems l (distinctItems [] items) with
  | error error =>
    rw [passed] at spliced
    rw [whole_of_error spliced]
    simp [Except.map]
  | ok _ =>
    rw [passed] at spliced
    rw [whole_of_ok spliced]
    simp [Except.map, eq_comm]

/-- What the list and the rest of the tree are after a splice that takes out the items from `start` up
to `stop` and puts in others, of which no node comes twice. -/
structure Spliced (tree : Tree catalogue) (l : ListId) (start stop : Nat)
    (inserted : List (Option NodeId)) (answer : Answer) (after : Tree catalogue) : Prop where
  returned : answer = .items (((tree.items l).take stop).drop start)
  items : after.items l = without (itemNodes inserted) ((tree.items l).take start) ++ inserted ++
    without (itemNodes inserted) ((tree.items l).drop stop)
  held : ∀ c, some c ∈ inserted → after.parent? (.node c) = some (.list l)
  released : ∀ c, some c ∈ ((tree.items l).take stop).drop start → some c ∉ inserted →
    after.parent? (.node c) = none
  unset : ∀ (p : NodeId) (n : Nat) (c : NodeId), some c ∈ inserted → (tree.slots p)[n]? = some (.node c) →
    (after.slots p)[n]? = some .undefined
  withdrawn : ∀ k, k ≠ l → tree.isOwned k = true →
    after.items k = without (itemNodes inserted) (tree.items k)
  exact : after = (tree.transfer (itemNodes (((tree.items l).take stop).drop start))
    (itemNodes inserted) (.list l)).setItems l (after.items l)

theorem Owned.spliced {tree : Tree catalogue} (owned : tree.Owned) {l : ListId}
    (isOwned : tree.isOwned l = true) {start stop : Nat} (ordered : start ≤ stop)
    (inside : start ≤ (tree.items l).length) {inserted : List (Option NodeId)}
    (present : tree.hasItems inserted = true) :
    tree.Spliced l start stop inserted (.items (((tree.items l).take stop).drop start))
      (tree.replaceOwned l start stop inserted) := by
  have coming (c : NodeId) (member : c ∈ itemNodes inserted) : tree.hasNode c = true :=
    hasNode_of_hasItems present (mem_itemNodes.mp member)
  have hasList : (tree.transfer (itemNodes (((tree.items l).take stop).drop start))
      (itemNodes inserted) (.list l)).hasList l = true :=
    ((Rearranges.transfer ..).hasList l).trans (hasList_of_isOwned isOwned)
  rw [owned.replaceOwned_eq_transfer isOwned ordered inside present]
  refine ⟨rfl, ?_, fun c isItem => ?_, fun c isTaken notItem => ?_, fun p n c isItem held => ?_,
    fun k other listOwned => ?_, ?_⟩
  · rw [items_setItems _ _ _ _ hasList, if_pos rfl]
  · rw [parent?_setItems, parent?_transfer _ _ _ _ coming, if_pos (mem_itemNodes.mpr isItem)]
  · rw [parent?_setItems, parent?_transfer _ _ _ _ coming, if_neg (mt mem_itemNodes.mp notItem),
      if_pos (mem_itemNodes.mpr isTaken)]
  · refine Eq.trans (congrArg (·[n]?) (slots_transfer ..)) ?_
    exact getElem?_vacate_of_mem held (mem_itemNodes.mpr isItem)
  · rw [items_setItems _ _ _ _ hasList, if_neg other, items_transfer, if_pos listOwned]
  · rw [items_setItems _ _ _ _ hasList, if_pos rfl]

/-- A splice of a list that belongs to a field succeeds exactly if the field accepts all items and none
of them is around the list. It then puts in the holes and the first occurrences of the nodes, and does
nothing beyond what `Spliced` says. -/
theorem splice_is_exact {tree : Tree catalogue} (reachable : tree.Reachable) {l : ListId}
    (isOwned : tree.isOwned l = true) (start delete : Nat) {items : List (Option NodeId)}
    (present : tree.hasItems items = true) :
    Picks (isFirst [] items) items (distinctItems [] items) ∧
    ∃ field, tree.ownerField? l = some field ∧
      ((∃ answer after, (Operation.splice l start delete items).perform tree = (.ok answer, after)) ↔
        tree.Receives l field items) ∧
      ∀ answer after, (Operation.splice l start delete items).perform tree = (.ok answer, after) →
        tree.Spliced l (min start (tree.length l))
          (min (min start (tree.length l) + delete) (tree.length l)) (distinctItems [] items) answer
          after := by
  have formed := reachable.wellFormed
  obtain ⟨field, declared, -⟩ := formed.owned.ownerField? isOwned
  have distinctPresent := hasItems_distinctItems present []
  refine ⟨picks_distinctItems items, field, declared, ?_, fun answer after performed => ?_⟩
  · simp only [perform_splice_of_owned isOwned, exists_and_left, exists_eq, and_true]
    rw [formed.checkItems_eq_ok_iff declared distinctPresent, Receives.distinctItems_iff]
  · obtain ⟨-, rfl, rfl⟩ := (perform_splice_of_owned isOwned ..).mp performed
    have inside : min start (tree.length l) ≤ tree.length l := Nat.min_le_right ..
    exact formed.owned.spliced isOwned (Nat.le_min.mpr ⟨Nat.le_add_right .., inside⟩) inside
      distinctPresent

/-- The second item is replaced by the node in the field, which comes twice, and by the first item. -/
theorem splice_is_exact_fullBlock :
    fullBlock.Reachable ∧ fullBlock.isOwned ⟨0⟩ = true ∧
    fullBlock.hasItems [some ⟨3⟩, some ⟨1⟩, some ⟨3⟩] = true ∧
    ∃ answer after,
      (Operation.splice ⟨0⟩ 1 (18446744073709551615) [some ⟨3⟩, some ⟨1⟩, some ⟨3⟩]).perform fullBlock =
        (.ok answer, after) ∧
      answer = .items [some ⟨2⟩] ∧ after.items ⟨0⟩ = [some ⟨3⟩, some ⟨1⟩] ∧
      after.parent? (.node ⟨3⟩) = some (.list ⟨0⟩) ∧ after.parent? (.node ⟨2⟩) = none ∧
      (after.slots ⟨0⟩)[1]? = some .undefined := by
  have reachable : fullBlock.Reachable := ⟨1, _, rfl⟩
  have isOwned : fullBlock.isOwned ⟨0⟩ = true := by decide +kernel
  have present : fullBlock.hasItems [some ⟨3⟩, some ⟨1⟩, some ⟨3⟩] = true := by decide +kernel
  have held : fullBlock.items ⟨0⟩ = [some ⟨1⟩, some ⟨2⟩] := by decide +kernel
  have length : fullBlock.length ⟨0⟩ = 2 := by rw [Tree.length, held]; rfl
  have inField : ⟨3⟩ ∈ fullBlock.displaced ⟨0⟩ 1 := by decide +kernel
  have succeeds : ((Operation.splice ⟨0⟩ 1 (18446744073709551615)
      [some ⟨3⟩, some ⟨1⟩, some ⟨3⟩]).perform fullBlock).1.toBool = true := by decide +kernel
  obtain ⟨-, field, -, -, exact⟩ := splice_is_exact reachable isOwned 1 (18446744073709551615) present
  cases performed : (Operation.splice ⟨0⟩ 1 (18446744073709551615)
    [some ⟨3⟩, some ⟨1⟩, some ⟨3⟩]).perform fullBlock with
  | mk result after =>
    cases result with
    | error error =>
      rw [performed] at succeeds
      contradiction
    | ok answer =>
      have spliced := exact answer after performed
      rw [length] at spliced
      refine ⟨reachable, isOwned, present, answer, after, rfl, ?_, ?_, ?_, ?_, ?_⟩
      · rw [spliced.returned, held]
        rfl
      · rw [spliced.items, held]
        rfl
      · exact spliced.held ⟨3⟩ (by decide)
      · exact spliced.released ⟨2⟩ (by rw [held]; decide) (by decide)
      · exact spliced.unset ⟨0⟩ 1 ⟨3⟩ (by decide) (mem_displaced.mp inField)

end Arbor.Tree
