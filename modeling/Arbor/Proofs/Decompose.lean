import Arbor.Proofs.Acyclic

/-! # Operations as runs of edits

Assigning to a field and replacing a stretch of a list each do several things at once. Here they are
taken apart: the node that comes leaves its former place, what stood there before is released, and only
then is the place filled. The equations between the trees hold because a node is held in one place
only, so this is also where the invariants are first used. -/

namespace Arbor.Tree

variable {catalogue : Catalogue}

/-- What holds of every tree that operations make. -/
structure WellFormed (tree : Tree catalogue) : Prop where
  owned : tree.Owned
  acyclic : tree.Acyclic

theorem wellFormed_empty (firstUid : Nat) : (empty catalogue firstUid).WellFormed :=
  ⟨owned_empty firstUid, acyclic_empty firstUid⟩

theorem WellFormed.edit {tree after : Tree catalogue} (formed : tree.WellFormed)
    (edit : Edit tree after) : after.WellFormed :=
  ⟨formed.owned.edit edit, formed.acyclic.edit formed.owned edit⟩

theorem WellFormed.evolves {tree after : Tree catalogue} (formed : tree.WellFormed)
    (run : tree.Evolves after) : after.WellFormed := by
  induction run with
  | refl => exact formed
  | tail _ edit ih => exact ih.edit edit

/-- The second tree comes from the first by releasing nodes. -/
structure Loosened (tree after : Tree catalogue) : Prop where
  evolves : tree.Evolves after
  typeOf_eq : ∀ n, after.typeOf n = tree.typeOf n
  owner?_eq : ∀ l, after.owner? l = tree.owner? l
  links : ∀ a b, after.HeldBy a b → tree.HeldBy a b

namespace Loosened

variable {tree middle after : Tree catalogue}

theorem refl : tree.Loosened tree := ⟨.refl, fun _ => rfl, fun _ => rfl, fun _ _ link => link⟩

theorem trans (first : tree.Loosened middle) (second : middle.Loosened after) :
    tree.Loosened after where
  evolves := Relation.ReflTransGen.trans first.evolves second.evolves
  typeOf_eq n := (second.typeOf_eq n).trans (first.typeOf_eq n)
  owner?_eq l := (second.owner?_eq l).trans (first.owner?_eq l)
  links a b link := first.links a b (second.links a b link)

theorem detach (c : NodeId) : tree.Loosened (tree.detach c) where
  evolves := .single (.detach c)
  typeOf_eq n := typeOf_detach tree c n
  owner?_eq l := owner?_detach tree c l
  links := links_detach tree c

theorem foldl_detach (ids : List NodeId) : tree.Loosened (ids.foldl Tree.detach tree) := by
  induction ids generalizing tree with
  | nil => exact refl
  | cons id rest ih => exact (detach id).trans ih

theorem cut (owned : tree.Owned) {l : ListId} {start stop : Nat} (isOwned : tree.isOwned l = true)
    (ordered : start ≤ stop) : tree.Loosened (tree.replaceOwned l start stop []) where
  evolves := .single (.cut l start stop isOwned ordered)
  typeOf_eq n := by rw [replaceOwned_nil]; exact typeOf_foldl_setParent ..
  owner?_eq k := by rw [replaceOwned_nil, owner?_setItems, owner?_foldl_setParent]
  links := links_cut owned l start stop

theorem fields_eq (loosened : tree.Loosened after) (n : NodeId) : after.fields n = tree.fields n := by
  rw [fields, fields, loosened.typeOf_eq]

theorem isOwned_eq (loosened : tree.Loosened after) (l : ListId) :
    after.isOwned l = tree.isOwned l := by
  rw [isOwned, isOwned, loosened.owner?_eq]

theorem ownerField?_eq (loosened : tree.Loosened after) (l : ListId) :
    after.ownerField? l = tree.ownerField? l := by
  simp only [ownerField?, loosened.owner?_eq, loosened.fields_eq]

theorem admits_eq (loosened : tree.Loosened after) (field : Field) (value : Value) :
    after.admits field value = tree.admits field value := by
  simp only [admits, loosened.typeOf_eq]

theorem admitsItem_eq (loosened : tree.Loosened after) (field : Field) (item : Option NodeId) :
    after.admitsItem field item = tree.admitsItem field item := by
  cases item with
  | none => rfl
  | some c => rw [admitsItem, admitsItem, loosened.typeOf_eq]

theorem unheld (loosened : tree.Loosened after) {handle : Handle}
    (unheld : tree.parent? handle = none) : after.parent? handle = none := by
  cases held : after.parent? handle with
  | none => rfl
  | some outer =>
    have link := loosened.links handle outer held
    rw [HeldBy, unheld] at link
    contradiction

theorem outside (loosened : tree.Loosened after) {a b : Handle} (outside : ¬ tree.Within a b) :
    ¬ after.Within a b :=
  fun within => outside (within.mono loosened.links)

end Loosened

section Equations

variable (tree : Tree catalogue)

private theorem modifyNode_congr {id : NodeId} {first second : Node → Node}
    (same : ∀ node, tree.node? id = some node → first node = second node) :
    tree.modifyNode id first = tree.modifyNode id second := by
  refine eq_of_entries (fun x => ?_) (fun _ => rfl) rfl
  rw [node?_modifyNode, node?_modifyNode]
  split
  · next is =>
    subst is
    cases found : tree.node? x with
    | none => rfl
    | some node => rw [Option.map_some, Option.map_some, same node found]
  · rfl

theorem setParent_setSlotValue (id child : NodeId) (place : Nat) (value : Value)
    (parent : Option Handle) :
    (tree.setSlotValue id place value).setParent parent child =
      (tree.setParent parent child).setSlotValue id place value := by
  refine eq_of_entries (fun x => ?_) (fun _ => rfl) rfl
  simp only [setParent, setSlotValue, node?_modifyNode]
  by_cases isChild : x = child
  · subst isChild
    by_cases isParent : x = id
    · simp [isParent, Function.comp_def]
    · simp [isParent]
  · simp [isChild]

private theorem setSlotValue_setSlotValue (id : NodeId) (place : Nat) (first second : Value) :
    (tree.setSlotValue id place first).setSlotValue id place second =
      tree.setSlotValue id place second := by
  refine eq_of_entries (fun x => ?_) (fun _ => rfl) rfl
  simp only [setSlotValue, node?_modifyNode]
  by_cases same : x = id <;> simp [same, Function.comp_def]

end Equations

private theorem releaseSlot_eq_set {slots : List Value} {place : Nat} {c : NodeId}
    (distinct : (slots.filterMap Value.node?).Nodup) (held : slots[place]? = some (.node c)) :
    releaseSlot c slots = slots.set place .undefined := by
  induction slots generalizing place with
  | nil => simp at held
  | cons value rest ih =>
    cases place with
    | zero =>
      obtain rfl : value = .node c := by simpa using held
      simp [releaseSlot, Value.node?]
    | succ place =>
      have inRest : rest[place]? = some (.node c) := by simpa using held
      have member : c ∈ rest.filterMap Value.node? :=
        List.mem_filterMap.mpr ⟨_, List.mem_of_getElem? inRest, rfl⟩
      have tail : releaseSlot c rest = rest.set place .undefined := by
        refine ih ?_ inRest
        cases value with
        | node x => exact (List.nodup_cons.mp (by simpa [Value.node?] using distinct)).2
        | scalar s => simpa [Value.node?, List.filterMap_cons] using distinct
        | list l => simpa [Value.node?, List.filterMap_cons] using distinct
      have other : value.node? ≠ some c := by
        intro isNode
        rw [List.filterMap_cons_some isNode, List.nodup_cons] at distinct
        exact distinct.1 member
      simp [releaseSlot, other, tail]

namespace Owned

variable {tree : Tree catalogue}

theorem parent?_of_slot (owned : tree.Owned) {n c : NodeId} {place : Nat}
    (held : (tree.slots n)[place]? = some (.node c)) : tree.parent? (.node c) = some (.node n) :=
  owned.mem_slot_iff.mp (List.mem_of_getElem? held)

/-- Detaching a node from a slot clears that slot. -/
theorem detach_of_slot (owned : tree.Owned) {n c : NodeId} {place : Nat}
    (held : (tree.slots n)[place]? = some (.node c)) :
    tree.detach c = (tree.setParent none c).setSlotValue n place .undefined := by
  rw [detach.eq_def, owned.parent?_of_slot held]
  refine modifyNode_congr _ fun node found => ?_
  have sameSlots : node.slots = tree.slots n := by
    rw [← slots_setParent tree c n none, slots, found]
    rfl
  have distinct : (node.slots.filterMap Value.node?).Nodup := by
    rw [sameSlots]
    exact owned.nodup (.node n)
  rw [releaseSlot_eq_set distinct (by rw [sameSlots]; exact held)]

/-- A slot of a field that holds no list holds a scalar or a node. -/
theorem slot_cases (owned : tree.Owned) {n : NodeId} {place : Nat} {field : Field}
    (present : tree.hasNode n = true) (declared : (tree.fields n)[place]? = some field)
    (noList : field.kind ≠ .list) :
    (∃ s, (tree.slots n)[place]? = some (.scalar s)) ∨
      ∃ c, (tree.slots n)[place]? = some (.node c) := by
  have bound : place < (tree.slots n).length := by
    rw [owned.slots_length present]
    exact (List.getElem?_eq_some_iff.mp declared).1
  cases held : (tree.slots n)[place]? with
  | none =>
    rw [List.getElem?_eq_none_iff] at held
    omega
  | some value =>
    cases value with
    | scalar s => exact .inl ⟨s, rfl⟩
    | node c => exact .inr ⟨c, rfl⟩
    | list l =>
      obtain ⟨other, found, isList⟩ := owned.list_field held
      rw [declared, Option.some.injEq] at found
      subst found
      exact absurd isList noList

/-- What putting a value into a slot does: a node that stands there leaves, and then the slot, which
now holds a scalar, is rewritten. -/
theorem putScalar_eq (owned : tree.Owned) {n : NodeId} {place : Nat} {field : Field}
    (present : tree.hasNode n = true) (declared : (tree.fields n)[place]? = some field)
    (noList : field.kind ≠ .list) (value : Value) :
    ∃ cleared old, tree.Loosened cleared ∧ (cleared.slots n)[place]? = some (.scalar old) ∧
      tree.putScalar n place value = cleared.setSlotValue n place value := by
  obtain ⟨old, held⟩ | ⟨c, held⟩ := owned.slot_cases present declared noList
  · refine ⟨tree, old, .refl, held, ?_⟩
    simp [putScalar, held, Value.node?]
  · refine ⟨tree.detach c, .undefined, .detach c, ?_, ?_⟩
    · have bound := (List.getElem?_eq_some_iff.mp held).1
      rw [owned.detach_of_slot held, slots_setSlotValue, if_pos rfl, slots_setParent]
      simp [bound]
    · rw [owned.detach_of_slot held, setSlotValue_setSlotValue, ← setParent_setSlotValue]
      simp [putScalar, held, Value.node?]

end Owned

theorem scalar_of_admits {tree : Tree catalogue} {field : Field} {value : Value}
    (admitted : tree.admits field value = true) (noNode : ∀ c, value ≠ .node c) :
    ∃ s, value = .scalar s := by
  cases value with
  | scalar s => exact ⟨s, rfl⟩
  | node c => exact absurd rfl (noNode c)
  | list l => cases kind : field.kind <;> simp [admits, Field.admitsValue, kind] at admitted

theorem checkPlace_eq_ok_iff {tree : Tree catalogue} {n : NodeId} {place : Nat} {value : Value} :
    tree.checkPlace n place value = .ok () ↔
      ∃ field, (tree.fields n)[place]? = some field ∧ field.kind ≠ .list ∧
        tree.admits field value = true := by
  rw [checkPlace]
  cases declared : (tree.fields n)[place]? with
  | none => simp
  | some field =>
    simp only [checkSlot, Option.some.injEq, exists_eq_left']
    split_ifs with isList admitted <;> simp_all

namespace WellFormed

variable {tree : Tree catalogue}

theorem evolves_putScalar (formed : tree.WellFormed) {n : NodeId} {place : Nat} {field : Field}
    (present : tree.hasNode n = true) (declared : (tree.fields n)[place]? = some field)
    (noList : field.kind ≠ .list) {s : Scalar} (admitted : tree.admits field (.scalar s) = true) :
    tree.Evolves (tree.putScalar n place (.scalar s)) := by
  obtain ⟨cleared, old, loosened, held, put⟩ :=
    formed.owned.putScalar_eq present declared noList (.scalar s)
  rw [put]
  refine loosened.evolves.tail (.write n place field old s held ?_ ?_)
  · rw [loosened.fields_eq]
    exact declared
  · rw [loosened.admits_eq]
    exact admitted

theorem evolves_putNode (formed : tree.WellFormed) {n c : NodeId} {place : Nat} {field : Field}
    (present : tree.hasNode n = true) (declared : (tree.fields n)[place]? = some field)
    (noList : field.kind ≠ .list) (admitted : tree.admits field (.node c) = true)
    (childPresent : tree.hasNode c = true) (outside : ¬ tree.Within (.node n) (.node c)) :
    tree.Evolves (tree.putNode n place c) := by
  have detached : tree.Loosened (tree.detach c) := .detach c
  have declaredThen : ((tree.detach c).fields n)[place]? = some field := by
    rw [detached.fields_eq]
    exact declared
  obtain ⟨cleared, old, loosened, held, put⟩ := (formed.owned.detach c).putScalar_eq
    (detached.evolves.hasNode present) declaredThen noList (.node c)
  have both := detached.trans loosened
  rw [putNode, put]
  refine both.evolves.tail (.attach n c place field old held ?_ ?_ ?_ ?_ (both.outside outside))
  · rw [both.fields_eq]
    exact declared
  · rw [both.admits_eq]
    exact admitted
  · exact both.evolves.hasNode childPresent
  · refine loosened.unheld ?_
    rw [parent?_detach, if_pos rfl]

theorem outside_of_checkAcyclic (formed : tree.WellFormed) {c : NodeId} {parent : Handle}
    (passed : tree.checkAcyclic c parent = .ok ()) : ¬ tree.Within parent (.node c) := by
  rw [checkAcyclic] at passed
  split at passed
  · contradiction
  · next apart => rwa [formed.acyclic.isAncestorOrSelf_iff formed.owned] at apart

theorem evolves_setSlot (formed : tree.WellFormed) {n : NodeId} {place : Nat} {value : Value}
    (present : tree.hasNode n = true) (valuePresent : tree.hasValue value = true)
    {after : Tree catalogue} (success : tree.setSlot n place value = .ok after) :
    tree.Evolves after := by
  rw [setSlot.eq_def] at success
  split at success
  · contradiction
  next passed =>
  obtain ⟨field, declared, noList, admitted⟩ := checkPlace_eq_ok_iff.mp passed
  split at success
  · next c =>
    split at success
    · contradiction
    · next apart =>
      cases success
      exact formed.evolves_putNode present declared noList admitted valuePresent
        (formed.outside_of_checkAcyclic apart)
  · next noNode =>
    cases success
    obtain ⟨s, rfl⟩ := scalar_of_admits admitted noNode
    exact formed.evolves_putScalar present declared noList admitted

end WellFormed

section Items

def without (nodes : List NodeId) (items : List (Option NodeId)) : List (Option NodeId) :=
  items.filter fun item => !(item.any nodes.contains)

@[simp] theorem without_nil (items : List (Option NodeId)) : without [] items = items := by
  rw [without, List.filter_eq_self]
  intro item _
  cases item <;> rfl

theorem without_append (nodes : List NodeId) (first second : List (Option NodeId)) :
    without nodes (first ++ second) = without nodes first ++ without nodes second :=
  List.filter_append ..

private theorem without_cons (c : NodeId) (rest : List NodeId) (items : List (Option NodeId)) :
    without (c :: rest) items = without rest (without [c] items) := by
  rw [without, without, without, List.filter_filter]
  refine List.filter_congr fun item _ => ?_
  cases item <;> simp [Bool.and_comm]

theorem without_of_not_mem {c : NodeId} {items : List (Option NodeId)} (absent : some c ∉ items) :
    without [c] items = items := by
  rw [without, List.filter_eq_self]
  intro item member
  cases item with
  | none => rfl
  | some x =>
    have other : x ≠ c := by
      rintro rfl
      exact absent member
    simpa using other

private theorem erase_eq_without {c : NodeId} {items : List (Option NodeId)}
    (distinct : (itemNodes items).Nodup) : items.erase (some c) = without [c] items := by
  induction items with
  | nil => rfl
  | cons item rest ih =>
    cases item with
    | none =>
      rw [List.erase_cons_tail (by simp), ih (by simpa [itemNodes] using distinct)]
      rfl
    | some x =>
      obtain ⟨fresh, restDistinct⟩ := List.nodup_cons.mp (show (x :: itemNodes rest).Nodup from distinct)
      by_cases same : x = c
      · subst same
        have absent : some x ∉ rest := fun member => fresh (mem_itemNodes.mpr member)
        rw [List.erase_cons_head, ← without_of_not_mem absent]
        simp [without]
      · rw [List.erase_cons_tail (by simpa using same), ih restDistinct]
        simp [without, same]

theorem Owned.items_detach_eq_without {tree : Tree catalogue} (owned : tree.Owned) {l : ListId}
    (isOwned : tree.isOwned l = true) (c : NodeId) :
    (tree.detach c).items l = without [c] (tree.items l) := by
  rw [items_detach]
  split
  · refine erase_eq_without ?_
    have distinct := owned.nodup (.list l)
    rwa [members, if_pos isOwned] at distinct
  · next elsewhere =>
    refine (without_of_not_mem fun member => elsewhere ?_).symm
    exact owned.mem_item_iff.mp ⟨isOwned, member⟩

theorem Owned.items_foldl_detach {tree : Tree catalogue} (owned : tree.Owned) {l : ListId}
    (isOwned : tree.isOwned l = true) (ids : List NodeId) :
    (ids.foldl Tree.detach tree).items l = without ids (tree.items l) := by
  induction ids generalizing tree with
  | nil => simp
  | cons c rest ih =>
    rw [List.foldl_cons, ih (owned.detach c) (by rwa [isOwned_detach]),
      owned.items_detach_eq_without isOwned, ← without_cons]

theorem parent?_foldl_detach {tree : Tree catalogue} {ids : List NodeId} {c : NodeId}
    (member : c ∈ ids) : (ids.foldl detach tree).parent? (.node c) = none := by
  induction ids generalizing tree with
  | nil => simp at member
  | cons id rest ih =>
    obtain rfl | later := List.mem_cons.mp member
    · refine (Loosened.foldl_detach rest).unheld ?_
      rw [parent?_detach, if_pos rfl]
    · exact ih later

end Items

private theorem detach_of_item {tree : Tree catalogue} {l : ListId} {c : NodeId}
    (held : tree.parent? (.node c) = some (.list l)) :
    tree.detach c = (tree.setItems l ((tree.items l).erase (some c))).setParent none c := by
  rw [detach.eq_def, held]
  refine eq_of_entries (fun _ => rfl) (fun k => ?_) rfl
  simp only [setItems, setParent, list?_modifyList, list?_modifyNode]
  split
  · next same =>
    subst same
    rw [items]
    cases tree.list? k <;> rfl
  · rfl

/-- Once a stretch is cut, the nodes that come are fetched and the items are put at the place. -/
theorem replaceOwned_eq_fetchAll (tree : Tree catalogue) (l : ListId) (start stop : Nat)
    (items : List (Option NodeId)) :
    tree.replaceOwned l start stop items =
      ((itemNodes items).foldl (setParent · (some (.list l))) ((tree.replaceOwned l start stop
        []).fetchAll l start (itemNodes items)).2).insertAt l ((tree.replaceOwned l start stop
        []).fetchAll l start (itemNodes items)).1 items := by
  rw [replaceOwned_nil, ← foldl_setParent_setItems]
  rfl

theorem items_cut {tree : Tree catalogue} {l : ListId} (isOwned : tree.isOwned l = true)
    (start stop : Nat) : (tree.replaceOwned l start stop []).items l =
      (tree.items l).take start ++ (tree.items l).drop stop := by
  rw [replaceOwned_nil, items_setItems, if_pos rfl]
  rw [hasList_foldl_setParent]
  exact hasList_of_isOwned isOwned

section Fetch

variable {tree : Tree catalogue} (owned : tree.Owned) {l : ListId} (isOwned : tree.isOwned l = true)
include owned isOwned

/-- A node is fetched by detaching it, and the place moves along with the items before it. -/
theorem Owned.fetch_eq {before after : List (Option NodeId)} (held : tree.items l = before ++ after)
    (c : NodeId) : tree.fetch l before.length c = ((without [c] before).length, tree.detach c) := by
  have distinct := owned.nodup (.list l)
  rw [members, if_pos isOwned, held, itemNodes_append] at distinct
  rw [fetch]
  split
  · next inList =>
    have isItem : some c ∈ tree.items l := (owned.mem_item_iff.mpr inList).2
    have found : tree.position? l (some c) = some ((tree.items l).idxOf (some c)) :=
      List.findIdx?_eq_some_iff_findIdx_eq.mpr ⟨List.idxOf_lt_length_of_mem isItem, rfl⟩
    simp only [found, List.eraseIdx_idxOf_eq_erase, ← detach_of_item inList, Prod.mk.injEq, and_true]
    by_cases isBefore : some c ∈ before
    · rw [held, List.idxOf_append_of_mem isBefore, if_pos (List.idxOf_lt_length_of_mem isBefore),
        ← erase_eq_without distinct.of_append_left, List.length_erase_of_mem isBefore]
    · rw [held, List.idxOf_append_of_notMem isBefore, if_neg (by omega), without_of_not_mem isBefore]
  · next elsewhere =>
    have absent : some c ∉ before := fun isBefore =>
      elsewhere (owned.mem_item_iff.mp ⟨isOwned, held ▸ List.mem_append_left after isBefore⟩)
    rw [without_of_not_mem absent]

/-- The loop of fetches keeps the place at the end of what is left of the items before it. -/
theorem Owned.fetchAll_eq {before after : List (Option NodeId)} (held : tree.items l = before ++ after)
    (nodes : List NodeId) : tree.fetchAll l before.length nodes =
      ((without nodes before).length, nodes.foldl Tree.detach tree) := by
  induction nodes generalizing tree before after with
  | nil => simp [fetchAll]
  | cons c rest ih =>
    have left : (tree.detach c).items l = without [c] before ++ without [c] after := by
      rw [owned.items_detach_eq_without isOwned, held, without_append]
    rw [fetchAll, owned.fetch_eq isOwned held, List.foldl_cons, without_cons c rest]
    exact ih (owned.detach c) (by rwa [isOwned_detach]) left

/-- Replacing a stretch of a list: the stretch is cut, the nodes leave their places, and the items
are put between what is left. -/
theorem Owned.replaceOwned_eq {start stop : Nat} (ordered : start ≤ stop)
    (inside : start ≤ (tree.items l).length) (items : List (Option NodeId)) :
    tree.replaceOwned l start stop items =
      ((itemNodes items).foldl Tree.detach (tree.replaceOwned l start stop [])).insertItems l
        (without (itemNodes items) ((tree.items l).take start)) items
        (without (itemNodes items) ((tree.items l).drop stop)) := by
  have cutOwned := owned.cut isOwned ordered
  have stillOwned : (tree.replaceOwned l start stop []).isOwned l = true := by
    rw [replaceOwned_nil, isOwned_setItems, isOwned_foldl_setParent, isOwned]
  have left := items_cut isOwned start stop
  have fetched := cutOwned.fetchAll_eq stillOwned left (itemNodes items)
  rw [List.length_take_of_le inside] at fetched
  rw [replaceOwned_eq_fetchAll, fetched, insertAt, items_foldl_setParent,
    cutOwned.items_foldl_detach stillOwned, left, without_append]
  dsimp only
  rw [List.take_left, List.drop_left]
  rfl

end Fetch

end Arbor.Tree
