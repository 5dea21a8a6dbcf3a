import Arbor.Proofs.Ownership
import Mathlib.Data.List.Perm.Subperm

/-! # Nothing holds itself

Links from a node or list to what holds it never lead back to where they started. An edit removes links,
or adds links to one target that lies below none of the nodes it gets; the second cannot close a cycle,
since a cycle would have to leave the target by old links only.

Walks along the links are bounded by the number of nodes and lists. As nothing holds itself, they meet
no node or list twice, so the bound never cuts a walk short. -/

namespace Arbor.Tree

variable {catalogue : Catalogue}

/-- No node or list lies below itself. -/
def Acyclic (tree : Tree catalogue) : Prop := ∀ handle, ¬ tree.Below handle handle

theorem acyclic_empty (firstUid : Nat) : (empty catalogue firstUid).Acyclic := by
  intro handle cycle
  obtain ⟨outer, held, -⟩ := Relation.TransGen.head'_iff.mp cycle
  cases handle <;> simp [HeldBy, parent?, owner?, node?, list?, empty] at held

section Links

variable {tree after : Tree catalogue}

theorem Within.mono (links : ∀ a b, after.HeldBy a b → tree.HeldBy a b) {a b : Handle}
    (within : after.Within a b) : tree.Within a b :=
  Relation.ReflTransGen.mono links _ _ within

theorem Acyclic.of_links_kept (acyclic : tree.Acyclic)
    (links : ∀ a b, after.HeldBy a b → tree.HeldBy a b) : after.Acyclic :=
  fun handle cycle => acyclic handle (Relation.TransGen.mono links _ _ cycle)

/-- New links to one target, from what the target does not lie within, close no cycle. -/
theorem Acyclic.of_links_added (acyclic : tree.Acyclic) (target : Handle)
    (links : ∀ a b, after.HeldBy a b →
      tree.HeldBy a b ∨ b = target ∧ ¬ tree.Within target a) : after.Acyclic := by
  -- From the target on, only old links can be followed.
  have fromTarget {x : Handle} (path : after.Within target x) : tree.Within target x := by
    induction path with
    | refl => exact .refl
    | tail _ link ih =>
      obtain old | ⟨-, outside⟩ := links _ _ link
      · exact ih.tail old
      · exact absurd ih outside
  have throughTarget {a b : Handle} (path : after.Below a b) : tree.Below a b ∨
      ∃ x, after.Within a x ∧ ¬ tree.Within target x ∧ after.Within target b := by
    induction path with
    | single link =>
      obtain old | ⟨rfl, outside⟩ := links _ _ link
      · exact .inl (.single old)
      · exact .inr ⟨a, .refl, outside, .refl⟩
    | tail path link ih =>
      obtain below | ⟨x, toX, outside, fromB⟩ := ih
      · obtain old | ⟨rfl, outside⟩ := links _ _ link
        · exact .inl (below.tail old)
        · exact .inr ⟨_, path.to_reflTransGen, outside, .refl⟩
      · exact .inr ⟨x, toX, outside, fromB.tail link⟩
  intro handle cycle
  obtain old | ⟨x, toX, outside, back⟩ := throughTarget cycle
  · exact acyclic handle old
  · exact outside (fromTarget (back.trans toX))

end Links

section Parents

variable {tree after : Tree catalogue}

/-- Links are kept where parent links and owners are. -/
theorem links_of_parent_owner (parent : ∀ x b, after.parent? (.node x) = some b →
      tree.parent? (.node x) = some b) (owner : ∀ l, after.owner? l = tree.owner? l)
    (a b : Handle) (link : after.HeldBy a b) : tree.HeldBy a b := by
  cases a with
  | node x => exact parent x b link
  | list l =>
    rw [HeldBy, parent?, owner] at link
    exact link

theorem links_detach (tree : Tree catalogue) (c : NodeId) (a b : Handle)
    (link : (tree.detach c).HeldBy a b) : tree.HeldBy a b := by
  refine links_of_parent_owner (fun x b held => ?_) (fun l => owner?_detach _ _ _) a b link
  rw [parent?_detach] at held
  split at held
  · contradiction
  · exact held

theorem links_cut (owned : tree.Owned) (l : ListId) (start stop : Nat) (a b : Handle)
    (link : (tree.replaceOwned l start stop []).HeldBy a b) :
    tree.HeldBy a b := by
  refine links_of_parent_owner (fun x b held => ?_) (fun k => ?_) a b link
  · rw [replaceOwned_nil, parent?_setItems, parent?_foldl_setParent] at held
    · split at held
      · contradiction
      · exact held
    · intro id isRemoved
      exact owned.item_present
        (List.mem_of_mem_take (List.mem_of_mem_drop (mem_itemNodes.mp isRemoved)))
  · rw [replaceOwned_nil, owner?_setItems, owner?_foldl_setParent]

/-- A node that is held nowhere lies within nothing but itself. -/
theorem eq_of_within_unheld {inner outer : Handle} (unheld : tree.parent? inner = none)
    (within : tree.Within inner outer) : outer = inner := by
  induction within with
  | refl => rfl
  | tail _ link ih =>
    subst ih
    rw [HeldBy, unheld] at link
    contradiction

theorem Acyclic.node (acyclic : tree.Acyclic) (type : TypeId) (fields : List Field) :
    (tree.allocNode type fields).2.Acyclic := by
  refine acyclic.of_links_added (.node ⟨tree.nodes.size⟩) ?_
  intro a b link
  cases a with
  | node x =>
    rw [HeldBy, parent?_allocNode] at link
    exact .inl link
  | list l =>
    by_cases old : tree.hasList l = true
    · rw [HeldBy, parent?, owner?_of_list?_eq (list?_allocNode tree type fields old)] at link
      exact .inl link
    · have late : tree.lists.size ≤ l.index := by simpa [hasList] using old
      obtain ⟨owner, owned, rfl⟩ := Option.map_eq_some_iff.mp link
      obtain ⟨i, rfl, -⟩ := (freshSlots_newSlots tree type fields).owner_slot l owner late owned
      refine .inr ⟨rfl, fun within => ?_⟩
      have unheld : tree.parent? (.node ⟨tree.nodes.size⟩) = none := by
        simp [parent?, missing_newNode]
      exact Handle.noConfusion (eq_of_within_unheld unheld within)

theorem Acyclic.attach (acyclic : tree.Acyclic) {id child : NodeId} (place : Nat)
    (present : tree.hasNode child = true) (outside : ¬ tree.Within (.node id) (.node child)) :
    ((tree.setSlotValue id place (.node child)).setParent (some (.node id)) child).Acyclic := by
  refine acyclic.of_links_added (.node id) ?_
  intro a b link
  cases a with
  | list l => exact .inl link
  | node x =>
    rw [HeldBy, parent?_setParent_of_hasNode _ _ _ _ ((hasNode_setSlotValue _ _ _ _ _).trans present),
      parent?_setSlotValue] at link
    split at link
    · next same =>
      subst same
      exact .inr ⟨(Option.some.inj link).symm, outside⟩
    · exact .inl link

theorem Acyclic.insert (acyclic : tree.Acyclic) {l : ListId}
    {before items after : List (Option NodeId)} (present : tree.hasItems items = true)
    (outside : ∀ child ∈ itemNodes items, ¬ tree.Within (.list l) (.node child)) :
    (tree.insertItems l before items after).Acyclic := by
  refine acyclic.of_links_added (.list l) ?_
  intro a b link
  cases a with
  | list k =>
    rw [HeldBy, insertItems, parent?_setItems, parent?, owner?_foldl_setParent] at link
    exact .inl link
  | node x =>
    rw [HeldBy, insertItems, parent?_setItems, parent?_foldl_setParent] at link
    · split at link
      · next isNew => exact .inr ⟨(Option.some.inj link).symm, outside x isNew⟩
      · exact .inl link
    · exact fun child isItem => hasNode_of_hasItems present (mem_itemNodes.mp isItem)

/-- No edit closes a cycle. -/
theorem Acyclic.edit (acyclic : tree.Acyclic) (owned : tree.Owned) (edit : Edit tree after) :
    after.Acyclic := by
  cases edit with
  | node type declared found concrete => exact acyclic.node type declared.fields
  | list items present =>
    exact acyclic.of_links_kept (links_of_parent_owner (fun _ _ held => held)
      fun l => owner?_createListOf _ _ _)
  | metadata id metadata =>
    refine acyclic.of_links_kept (links_of_parent_owner (fun x b held => ?_) fun l => rfl)
    rw [setMetadata, parent?_modifyNode] at held
    · exact held
    · exact fun _ => rfl
  | copy =>
    refine acyclic.of_links_kept fun a b link => ?_
    rw [HeldBy, parent?_copy] at link
    exact link
  | detach id => exact acyclic.of_links_kept (links_detach tree id)
  | write id place field old new held declared admitted =>
    refine acyclic.of_links_kept (links_of_parent_owner (fun x b held => ?_) fun l => rfl)
    rw [parent?_setSlotValue] at held
    exact held
  | attach id child place field old held declared admitted present unheld outside =>
    exact acyclic.attach place present outside
  | cut l start stop isOwned ordered => exact acyclic.of_links_kept (links_cut owned l start stop)
  | insert l field before items after isOwned held declared admitted present distinct unheld outside =>
    exact acyclic.insert present outside
  | refill l items free present =>
    refine acyclic.of_links_kept fun a b link => ?_
    rw [HeldBy, parent?_setItems] at link
    exact link

end Parents

section Walks

variable {tree : Tree catalogue}

def handles (tree : Tree catalogue) : List Handle :=
  (List.range tree.nodes.size).map (Handle.node ⟨·⟩) ++
    (List.range tree.lists.size).map (Handle.list ⟨·⟩)

private theorem mem_handles_of_hasHandle {handle : Handle}
    (present : tree.hasHandle handle = true) : handle ∈ tree.handles := by
  cases handle with
  | node id =>
    refine List.mem_append_left _ (List.mem_map.mpr ⟨id.index, ?_, rfl⟩)
    simpa [hasHandle, hasNode] using present
  | list id =>
    refine List.mem_append_right _ (List.mem_map.mpr ⟨id.index, ?_, rfl⟩)
    simpa [hasHandle, hasList] using present

/-- There are no more different nodes and lists than the size of the tree. -/
theorem length_le_size {handles : List Handle} (distinct : handles.Nodup)
    (present : ∀ handle ∈ handles, tree.hasHandle handle = true) : handles.length ≤ tree.size := by
  have inTree : handles ⊆ tree.handles := fun handle member =>
    mem_handles_of_hasHandle (present handle member)
  have bound := (List.subperm_of_subset distinct inTree).length_le
  simpa [Tree.handles, size] using bound

private theorem below_of_mem_ancestorsUpTo {bound : Nat} {handle ancestor : Handle}
    (member : ancestor ∈ tree.ancestorsUpTo bound handle) : tree.Below handle ancestor := by
  induction bound generalizing handle with
  | zero => simp [ancestorsUpTo] at member
  | succ bound ih =>
    rw [ancestorsUpTo] at member
    split at member
    · next parent held =>
      obtain rfl | above := List.mem_cons.mp member
      · exact .single held
      · exact .head held (ih above)
    · simp at member

/-- A walk that ends before its bound misses nothing. -/
theorem mem_ancestorsUpTo_of_below {bound : Nat} {handle ancestor : Handle}
    (ended : (tree.ancestorsUpTo bound handle).length < bound)
    (below : tree.Below handle ancestor) : ancestor ∈ tree.ancestorsUpTo bound handle := by
  induction bound generalizing handle with
  | zero => simp at ended
  | succ bound ih =>
    obtain ⟨parent, held, above⟩ := Relation.TransGen.head'_iff.mp below
    have held : tree.parent? handle = some parent := held
    simp only [ancestorsUpTo, held, List.length_cons, Nat.add_lt_add_iff_right] at ended ⊢
    obtain rfl | further := Relation.reflTransGen_iff_eq_or_transGen.mp above
    · exact List.mem_cons_self ..
    · exact List.mem_cons_of_mem _ (ih ended further)

theorem pairwise_below_ancestorsUpTo (bound : Nat) (handle : Handle) :
    (handle :: tree.ancestorsUpTo bound handle).Pairwise tree.Below := by
  induction bound generalizing handle with
  | zero => simp [ancestorsUpTo]
  | succ bound ih =>
    refine List.pairwise_cons.mpr ⟨fun _ => below_of_mem_ancestorsUpTo, ?_⟩
    rw [ancestorsUpTo]
    split
    · exact ih _
    · exact .nil

theorem Acyclic.nodup_ancestorsUpTo (acyclic : tree.Acyclic) (bound : Nat) (handle : Handle) :
    (handle :: tree.ancestorsUpTo bound handle).Nodup := by
  refine (pairwise_below_ancestorsUpTo bound handle).imp ?_
  rintro a _ below rfl
  exact acyclic a below

theorem Owned.hasHandle_of_below (owned : tree.Owned) {inner outer : Handle}
    (below : tree.Below inner outer) : tree.hasHandle outer = true := by
  obtain ⟨middle, -, held⟩ := Relation.TransGen.tail'_iff.mp below
  exact owned.hasHandle_of_parent? held

theorem hasHandle_of_held {inner outer : Handle} (held : tree.parent? inner = some outer) :
    tree.hasHandle inner = true := by
  cases inner with
  | node c => exact hasNode_of_parent? held
  | list l =>
    obtain ⟨owner, owned, -⟩ := Option.map_eq_some_iff.mp held
    exact hasList_of_owner? owned

theorem Acyclic.length_ancestors_lt (acyclic : tree.Acyclic) (owned : tree.Owned) {handle : Handle}
    (present : tree.hasHandle handle = true) : (tree.ancestors handle).length < tree.size := by
  have inTree (x : Handle) (member : x ∈ handle :: tree.ancestors handle) :
      tree.hasHandle x = true := by
    obtain rfl | above := List.mem_cons.mp member
    · exact present
    · exact owned.hasHandle_of_below (below_of_mem_ancestorsUpTo above)
  exact length_le_size (acyclic.nodup_ancestorsUpTo tree.size handle) inTree

/-- The bound of a walk upwards never cuts it short. -/
theorem Acyclic.mem_ancestors_iff (acyclic : tree.Acyclic) (owned : tree.Owned)
    {handle ancestor : Handle} : ancestor ∈ tree.ancestors handle ↔ tree.Below handle ancestor := by
  refine ⟨below_of_mem_ancestorsUpTo, fun below => mem_ancestorsUpTo_of_below ?_ below⟩
  obtain ⟨parent, held, -⟩ := Relation.TransGen.head'_iff.mp below
  exact acyclic.length_ancestors_lt owned (hasHandle_of_held held)

private theorem ancestorsUpTo_succ_of_length_lt {bound : Nat} {handle : Handle}
    (ended : (tree.ancestorsUpTo bound handle).length < bound) :
    tree.ancestorsUpTo (bound + 1) handle = tree.ancestorsUpTo bound handle := by
  induction bound generalizing handle with
  | zero => simp at ended
  | succ bound ih =>
    rw [ancestorsUpTo, ancestorsUpTo]
    cases held : tree.parent? handle with
    | none => rfl
    | some parent =>
      simp only [ancestorsUpTo, held, List.length_cons, Nat.add_lt_add_iff_right] at ended
      simp only [ih ended]

/-- Nothing is above what is held nowhere. -/
theorem ancestors_of_unheld {handle : Handle} (unheld : tree.parent? handle = none) :
    tree.ancestors handle = [] := by
  rw [ancestors]
  cases tree.size with
  | zero => rfl
  | succ bound => rw [ancestorsUpTo, unheld]

/-- Above what is held lie its holder and what is above that. -/
theorem Acyclic.ancestors_of_held (acyclic : tree.Acyclic) (owned : tree.Owned)
    {inner outer : Handle} (held : tree.parent? inner = some outer) :
    tree.ancestors inner = outer :: tree.ancestors outer := by
  have ended := acyclic.length_ancestors_lt owned (hasHandle_of_held held)
  rw [ancestors, ancestors] at *
  cases size : tree.size with
  | zero => omega
  | succ bound =>
    rw [size] at ended
    simp only [ancestorsUpTo, held, List.length_cons, Nat.add_lt_add_iff_right] at ended
    rw [ancestorsUpTo_succ_of_length_lt ended]
    simp only [ancestorsUpTo, held]

theorem Acyclic.isAncestorOrSelf_iff (acyclic : tree.Acyclic) (owned : tree.Owned)
    {ancestor handle : Handle} :
    tree.isAncestorOrSelf ancestor handle = true ↔ tree.Within handle ancestor := by
  rw [isAncestorOrSelf, Bool.or_eq_true, List.contains_iff_mem, acyclic.mem_ancestors_iff owned,
    beq_iff_eq, within_iff, eq_comm]

end Walks

end Arbor.Tree
