import Arbor.Proofs.Decompose

/-! # Every operation is a run of edits

Each operation, whether it succeeds or is refused, leads from a well-formed tree to another by
elementary edits. Building a value does so even when it fails halfway, and what it makes stays in the
tree. So every tree that operations make is well formed. -/

namespace Arbor.Tree

variable {catalogue : Catalogue}

theorem mem_of_mem_distinctItems {seen : List NodeId} {items : List (Option NodeId)}
    {item : Option NodeId} (member : item ∈ distinctItems seen items) : item ∈ items := by
  fun_induction distinctItems seen items with
  | case1 => exact member
  | case2 seen rest ih =>
    obtain rfl | later := List.mem_cons.mp member
    · exact List.mem_cons_self ..
    · exact List.mem_cons_of_mem _ (ih later)
  | case3 seen c rest known ih => exact List.mem_cons_of_mem _ (ih member)
  | case4 seen c rest unknown ih =>
    obtain rfl | later := List.mem_cons.mp member
    · exact List.mem_cons_self ..
    · exact List.mem_cons_of_mem _ (ih later)

/-- The nodes that are left are different from each other and from those seen before. -/
theorem nodup_distinctItems (seen : List NodeId) (items : List (Option NodeId)) :
    (itemNodes (distinctItems seen items)).Nodup ∧
      ∀ c ∈ itemNodes (distinctItems seen items), c ∉ seen := by
  fun_induction distinctItems seen items with
  | case1 => simp [itemNodes]
  | case2 seen rest ih => simpa [itemNodes] using ih
  | case3 seen c rest known ih => exact ih
  | case4 seen c rest unknown ih =>
    obtain ⟨distinct, unseen⟩ := ih
    have first : c ∉ seen := by simpa using unknown
    refine ⟨List.nodup_cons.mpr ⟨fun member => ?_, distinct⟩, ?_⟩
    · exact unseen c member (List.mem_cons_self ..)
    · intro x member
      obtain rfl | later := List.mem_cons.mp member
      · exact first
      · exact fun isSeen => unseen x later (List.mem_cons_of_mem _ isSeen)

theorem hasItems_distinctItems {tree : Tree catalogue} {items : List (Option NodeId)}
    (present : tree.hasItems items = true) (seen : List NodeId) :
    tree.hasItems (distinctItems seen items) = true := by
  rw [hasItems, List.all_eq_true] at present ⊢
  exact fun item member => present item (mem_of_mem_distinctItems member)

private theorem checkItem_of_checkItems {tree : Tree catalogue} {l : ListId}
    {items : List (Option NodeId)} (passed : tree.checkItems l items = .ok ()) :
    ∀ item ∈ items, tree.checkItem l item = .ok () := by
  induction items with
  | nil => simp
  | cons first rest ih =>
    rw [checkItems] at passed
    split at passed
    · contradiction
    · next firstPassed =>
      intro item member
      obtain rfl | later := List.mem_cons.mp member
      · exact firstPassed
      · exact ih passed item later

namespace WellFormed

variable {tree : Tree catalogue}

/-- Items pass the check of a list only if its field accepts them and none of them is around it. -/
theorem accepted_of_checkItems (formed : tree.WellFormed) {l : ListId} {field : Field}
    {items : List (Option NodeId)} (declared : tree.ownerField? l = some field)
    (passed : tree.checkItems l items = .ok ()) :
    (∀ item ∈ items, tree.admitsItem field item = true) ∧
      ∀ c ∈ itemNodes items, ¬ tree.Within (.list l) (.node c) := by
  have each (item : Option NodeId) (member : item ∈ items) : tree.admitsItem field item = true ∧
      ∀ c, item = some c → ¬ tree.Within (.list l) (.node c) := by
    have itemPassed := checkItem_of_checkItems passed item member
    simp only [checkItem, declared] at itemPassed
    split at itemPassed
    · next admitted =>
      refine ⟨admitted, ?_⟩
      rintro c rfl
      exact formed.outside_of_checkAcyclic itemPassed
    · contradiction
  exact ⟨fun item member => (each item member).1,
    fun c member => (each _ (mem_itemNodes.mp member)).2 c rfl⟩

theorem evolves_replaceOwned (formed : tree.WellFormed) {l : ListId} {start stop : Nat}
    {items : List (Option NodeId)} (isOwned : tree.isOwned l = true) (ordered : start ≤ stop)
    (inside : start ≤ (tree.items l).length) (present : tree.hasItems items = true)
    (distinct : (itemNodes items).Nodup)
    (passed : tree.checkItems l items = .ok ()) :
    tree.Evolves (tree.replaceOwned l start stop items) := by
  obtain ⟨field, declared, -⟩ := formed.owned.ownerField? isOwned
  obtain ⟨admitted, outside⟩ := formed.accepted_of_checkItems declared passed
  have cut : tree.Loosened (tree.replaceOwned l start stop []) :=
    .cut formed.owned isOwned ordered
  have cutOwned : (tree.replaceOwned l start stop []).Owned :=
    formed.owned.edit (.cut l start stop isOwned ordered)
  have both := cut.trans (.foldl_detach (itemNodes items))
  rw [formed.owned.replaceOwned_eq isOwned ordered inside]
  refine both.evolves.tail (.insert l field _ items _ ?_ ?_ ?_ ?_ ?_ distinct ?_ ?_)
  · rw [both.isOwned_eq]
    exact isOwned
  · rw [cutOwned.items_foldl_detach (by rw [cut.isOwned_eq]; exact isOwned), items_cut isOwned,
      without_append]
  · rw [both.ownerField?_eq]
    exact declared
  · intro item member
    rw [both.admitsItem_eq]
    exact admitted item member
  · rw [hasItems, List.all_eq_true]
    intro item member
    cases item with
    | none => rfl
    | some c => exact both.evolves.hasNode (hasNode_of_hasItems present member)
  · exact fun c member => parent?_foldl_detach member
  · exact fun c member => both.outside (outside c member)

section Lists

theorem hasItems_of_sublist (formed : tree.WellFormed) {l : ListId} {items : List (Option NodeId)}
    (sublist : items.Sublist (tree.items l)) : tree.hasItems items = true := by
  rw [hasItems, List.all_eq_true]
  intro item member
  cases item with
  | none => rfl
  | some c => exact formed.owned.item_present (sublist.subset member)

theorem evolves_splice (formed : tree.WellFormed) {l : ListId} {start delete : Nat}
    {items removed : List (Option NodeId)} (present : tree.hasItems items = true)
    {after : Tree catalogue} (success : tree.splice l start delete items = .ok (removed, after)) :
    tree.Evolves after := by
  simp only [splice, min_furtherOn] at success
  split at success
  · next isOwned =>
    split at success
    · contradiction
    · next passed =>
      cases success
      exact formed.evolves_replaceOwned isOwned (by omega) (by omega)
        (hasItems_distinctItems present []) (nodup_distinctItems [] items).1 passed
  · next free =>
    cases success
    refine .single (.refill l _ (by simpa using free) ?_)
    have before := formed.hasItems_of_sublist (List.take_sublist (min start (tree.items l).length)
      (tree.items l))
    have behind := formed.hasItems_of_sublist (List.drop_sublist
      (min (min start (tree.items l).length + delete) (tree.items l).length) (tree.items l))
    simp only [hasItems, List.all_append, Bool.and_eq_true] at before behind present ⊢
    exact ⟨⟨before, present⟩, behind⟩

theorem evolves_append (formed : tree.WellFormed) {l : ListId} {items : List (Option NodeId)}
    (present : tree.hasItems items = true) {length : Nat} {after : Tree catalogue}
    (success : tree.append l items = .ok (length, after)) : tree.Evolves after := by
  rw [append] at success
  split at success
  · contradiction
  · next spliced =>
    cases success
    exact formed.evolves_splice present spliced

theorem hasItems_of_listItem {l : ListId} {value : Value} {item : Option NodeId}
    (present : tree.hasValue value = true) (made : tree.listItem l value = .ok item) :
    tree.hasItems [item] = true := by
  rw [listItem.eq_def] at made
  split at made
  · cases made
    have inTree : tree.hasNode _ = true := present
    simpa [hasItems] using inTree
  · cases made
    rfl
  · contradiction

theorem evolves_push (formed : tree.WellFormed) {l : ListId} {value : Value}
    (present : tree.hasValue value = true) {length : Nat} {after : Tree catalogue}
    (success : tree.push l value = .ok (length, after)) : tree.Evolves after := by
  rw [push] at success
  split at success
  · contradiction
  · next made => exact formed.evolves_append (hasItems_of_listItem present made) success

theorem evolves_unshift (formed : tree.WellFormed) {l : ListId} {value : Value}
    (present : tree.hasValue value = true) {length : Nat} {after : Tree catalogue}
    (success : tree.unshift l value = .ok (length, after)) : tree.Evolves after := by
  rw [unshift] at success
  split at success
  · contradiction
  next made =>
  split at success
  · contradiction
  · next spliced =>
    cases success
    exact formed.evolves_splice (hasItems_of_listItem present made) spliced

theorem evolves_take (formed : tree.WellFormed) (l : ListId) (place : Nat) :
    tree.Evolves (tree.take l place).2 := by
  rw [take]
  split
  · exact .refl
  next item found =>
  have taken : ((tree.items l).take (place + 1)).drop place = [item] := by
    obtain ⟨bound, rfl⟩ := List.getElem?_eq_some_iff.mp found
    rw [List.drop_take, Nat.add_sub_cancel_left, List.drop_eq_getElem_cons bound, List.take_one]
    rfl
  cases isOwned : tree.isOwned l with
  | true =>
    have cut : tree.Evolves (tree.replaceOwned l place (place + 1) []) :=
      .single (.cut l place (place + 1) isOwned (by omega))
    rw [replaceOwned_nil, taken, ← List.eraseIdx_eq_take_drop_succ] at cut
    cases item with
    | none => simpa [itemNodes] using cut
    | some c =>
      -- The parent link and the items are stored apart, so the order of the two changes is free.
      exact cut
  | false =>
    have refilled : tree.Evolves (tree.setItems l ((tree.items l).eraseIdx place)) :=
      .single (.refill l _ isOwned (formed.hasItems_of_sublist (List.eraseIdx_sublist ..)))
    cases item with
    | none => exact refilled
    | some c => simpa using refilled

theorem evolves_clear (tree : Tree catalogue) (l : ListId) : tree.Evolves (tree.clear l).2 := by
  rw [clear]
  split
  · next isOwned =>
    have cut : tree.Evolves (tree.replaceOwned l 0 (tree.items l).length []) :=
      .single (.cut l 0 _ isOwned (by omega))
    rw [replaceOwned_nil] at cut
    simpa [foldl_setParent_setItems] using cut
  · next free => exact .single (.refill l [] (by simpa using free) rfl)

end Lists

theorem evolves_removeChild (formed : tree.WellFormed) (parent : Handle) (child : NodeId) :
    tree.Evolves (tree.removeChild parent child).2 := by
  cases parent with
  | node id =>
    rw [removeChild]
    split
    · exact .refl
    · next place found =>
      obtain ⟨bound, isChild, -⟩ := List.findIdx?_eq_some_iff_getElem.mp found
      have held : (tree.slots id)[place]? = some (.node child) := by
        rw [List.getElem?_eq_getElem bound]
        generalize (tree.slots id)[place] = value at isChild
        cases value with
        | node c => simpa [Value.node?] using isChild
        | scalar s => simp [Value.node?] at isChild
        | list l => simp [Value.node?] at isChild
      rw [setParent_setSlotValue, ← formed.owned.detach_of_slot held]
      exact .single (.detach child)
  | list id =>
    rw [removeChild]
    split
    · exact .refl
    next place found =>
    split
    · next spliced => exact formed.evolves_splice rfl spliced
    · exact .refl

theorem evolves_replaceChild (formed : tree.WellFormed) {parent : Handle} {child : NodeId}
    {value : Value} (present : tree.hasHandle parent = true)
    (valuePresent : tree.hasValue value = true) {held : Bool} {after : Tree catalogue}
    (success : tree.replaceChild parent child value = .ok (held, after)) : tree.Evolves after := by
  cases parent with
  | node id =>
    rw [replaceChild] at success
    split at success
    · cases success
      exact .refl
    · next place found =>
      obtain ⟨changed, put, same⟩ := map_eq_ok.mp success
      cases same
      exact formed.evolves_setSlot present valuePresent put
  | list id =>
    rw [replaceChild] at success
    split at success
    · cases success
      exact .refl
    next place found =>
    split at success
    · contradiction
    next item made =>
    obtain ⟨result, spliced, same⟩ := map_eq_ok.mp success
    cases same
    exact formed.evolves_splice (hasItems_of_listItem valuePresent made) spliced

end WellFormed

end Arbor.Tree
