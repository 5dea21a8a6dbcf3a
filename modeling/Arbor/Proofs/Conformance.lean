import Arbor.Proofs.SingleOwner
import Mathlib.Data.List.Forall2

/-! # Trees conform to their catalogue

Every node of a tree has a concrete type, one slot for each field of it, and in each slot something the
field accepts; and every item of a list that belongs to a field is accepted by the field. Accepting
looks at nothing but the types of nodes, which never change, so an edit has to be looked at only for
what it writes: a slot or a list gets what was checked, or a node leaves a slot of a field that holds
nodes, which may be unset. -/

namespace Arbor.Tree

variable {catalogue : Catalogue}

/-- What a slot of the field may hold. -/
inductive Fits (tree : Tree catalogue) (field : Field) : Value → Prop where
  | list (l : ListId) (isList : field.kind = .list) : Fits tree field (.list l)
  | scalar (s : Scalar) (holdsScalars : field.kind = .native ∨ field.kind = .strict)
      (admitted : field.admitsScalar s = true) : Fits tree field (.scalar s)
  | unset (isNode : field.kind = .node) : Fits tree field .undefined
  | null (isNode : field.kind = .node) (admitted : field.admitsNull = true) : Fits tree field .null
  | node (c : NodeId) (isNode : field.kind = .node) (present : tree.hasNode c = true)
      (admitted : catalogue.admitsNode field (tree.typeOf c) = true) : Fits tree field (.node c)

/-- What may be an item of a list of the field. -/
inductive FitsItem (tree : Tree catalogue) (field : Field) : Option NodeId → Prop where
  | hole (admitted : field.admitsNull = true) : FitsItem tree field none
  | node (c : NodeId) (present : tree.hasNode c = true)
      (admitted : catalogue.admitsNode field (tree.typeOf c) = true) : FitsItem tree field (some c)

/-- Nodes have concrete types and slots that fit their fields, and lists of fields have items that fit. -/
structure Conforms (tree : Tree catalogue) : Prop where
  concrete : ∀ {n : NodeId}, tree.hasNode n = true →
    ∃ type, catalogue.type? (tree.typeOf n) = some type ∧ type.isAbstract = false
  slots : ∀ {n : NodeId}, tree.hasNode n = true → List.Forall₂ tree.Fits (tree.fields n) (tree.slots n)
  items : ∀ {l : ListId} {field : Field}, tree.ownerField? l = some field →
    ∀ item ∈ tree.items l, tree.FitsItem field item

theorem conforms_empty (firstUid : Nat) : (empty catalogue firstUid).Conforms where
  concrete := by simp [hasNode, empty]
  slots := by simp [hasNode, empty]
  items := by simp [ownerField?, owner?, list?, empty]

theorem Conforms.fits {tree : Tree catalogue} (conforms : tree.Conforms) {n : NodeId}
    (present : tree.hasNode n = true) {place : Nat} {field : Field} {value : Value}
    (declared : (tree.fields n)[place]? = some field) (held : (tree.slots n)[place]? = some value) :
    tree.Fits field value := by
  obtain ⟨bound, rfl⟩ := List.getElem?_eq_some_iff.mp declared
  obtain ⟨slotBound, rfl⟩ := List.getElem?_eq_some_iff.mp held
  exact (conforms.slots present).get bound slotBound

theorem Fits.exists_list {tree : Tree catalogue} {field : Field} {value : Value}
    (fits : tree.Fits field value) (isList : field.kind = .list) : ∃ l, value = .list l := by
  cases fits with
  | list l => exact ⟨l, rfl⟩
  | scalar s holdsScalars => simp [isList] at holdsScalars
  | unset isNode | null isNode | node _ isNode => simp [isList] at isNode

theorem Conforms.exists_list {tree : Tree catalogue} (conforms : tree.Conforms) {n : NodeId}
    (present : tree.hasNode n = true) {place : Nat} {field : Field}
    (declared : (tree.fields n)[place]? = some field) (isList : field.kind = .list) :
    ∃ l, (tree.slots n)[place]? = some (.list l) := by
  obtain ⟨inFields, -⟩ := List.getElem?_eq_some_iff.mp declared
  have inSlots : place < (tree.slots n).length := (conforms.slots present).length_eq ▸ inFields
  have held := List.getElem?_eq_getElem inSlots
  obtain ⟨l, same⟩ := (conforms.fits present declared held).exists_list isList
  exact ⟨l, held.trans (congrArg some same)⟩

theorem Fits.kind_of_list {tree : Tree catalogue} {field : Field} {l : ListId}
    (fits : tree.Fits field (.list l)) : field.kind = .list := by
  cases fits with
  | list _ isList => exact isList

theorem fields_eq_of_type? {tree : Tree catalogue} {n : NodeId} {type : NodeType}
    (found : catalogue.type? (tree.typeOf n) = some type) : tree.fields n = type.fields := by
  rw [fields, found]
  rfl

section Kept

variable {tree after : Tree catalogue} {field : Field}

theorem Fits.kept (kept : ∀ n, tree.hasNode n = true →
      after.hasNode n = true ∧ after.typeOf n = tree.typeOf n)
    {value : Value} (fits : tree.Fits field value) : after.Fits field value := by
  cases fits with
  | list l isList => exact .list l isList
  | scalar s holdsScalars admitted => exact .scalar s holdsScalars admitted
  | unset isNode => exact .unset isNode
  | null isNode admitted => exact .null isNode admitted
  | node c isNode present admitted =>
    obtain ⟨stays, sameType⟩ := kept c present
    exact .node c isNode stays (by rw [sameType]; exact admitted)

theorem FitsItem.kept (kept : ∀ n, tree.hasNode n = true →
      after.hasNode n = true ∧ after.typeOf n = tree.typeOf n)
    {item : Option NodeId} (fits : tree.FitsItem field item) : after.FitsItem field item := by
  cases fits with
  | hole admitted => exact .hole admitted
  | node c present admitted =>
    obtain ⟨stays, sameType⟩ := kept c present
    exact .node c stays (by rw [sameType]; exact admitted)

/-- An edit that makes no node has to be looked at only for what it writes into slots and lists. -/
theorem Conforms.of_written (conforms : tree.Conforms)
    (hasNode : ∀ n, after.hasNode n = tree.hasNode n)
    (typeOf : ∀ n, after.typeOf n = tree.typeOf n) (owner : ∀ l, after.owner? l = tree.owner? l)
    (slots : ∀ n, tree.hasNode n = true → List.Forall₂ tree.Fits (tree.fields n) (tree.slots n) →
      List.Forall₂ tree.Fits (tree.fields n) (after.slots n))
    (items : ∀ l field, tree.ownerField? l = some field → ∀ item ∈ after.items l,
      item ∈ tree.items l ∨ tree.FitsItem field item) : after.Conforms := by
  have kept (n : NodeId) (present : tree.hasNode n = true) :
      after.hasNode n = true ∧ after.typeOf n = tree.typeOf n :=
    ⟨(hasNode n).trans present, typeOf n⟩
  have fields (n : NodeId) : after.fields n = tree.fields n := by rw [Tree.fields, Tree.fields, typeOf]
  have ownerField (l : ListId) : after.ownerField? l = tree.ownerField? l := by
    simp only [ownerField?, owner, fields]
  refine ⟨fun {n} present => ?_, fun {n} present => ?_, fun {l field} declared item isItem => ?_⟩
  · rw [hasNode] at present
    rw [typeOf]
    exact conforms.concrete present
  · rw [hasNode] at present
    rw [fields]
    exact (slots n present (conforms.slots present)).imp fun _ _ fits => fits.kept kept
  · rw [ownerField] at declared
    obtain old | fits := items l field declared item isItem
    · exact (conforms.items declared item old).kept kept
    · exact fits.kept kept

end Kept

section Written

variable {tree : Tree catalogue} {field : Field}

/-- What passes the check of an assignment fits. -/
theorem fits_of_admits {value : Value} (admitted : tree.admits field value = true)
    (present : tree.hasValue value = true) : tree.Fits field value := by
  cases kind : field.kind with
  | list => simp [admits, kind] at admitted
  | node =>
    cases value with
    | list l => simp [admits, kind] at admitted
    | node c =>
      simp only [admits, kind] at admitted
      exact .node c kind present admitted
    | scalar s =>
      cases s with
      | undefined => exact .unset kind
      | null =>
        simp only [admits, kind] at admitted
        exact .null kind admitted
      | boolean | number | string | regex => simp [admits, kind] at admitted
  | native | strict =>
    obtain ⟨s, rfl⟩ : ∃ s, value = .scalar s := by
      cases value with
      | scalar s => exact ⟨s, rfl⟩
      | node c => simp [admits, kind, Field.admitsValue] at admitted
      | list l => simp [admits, kind, Field.admitsValue] at admitted
    simp only [admits, kind, Field.admitsValue] at admitted
    exact .scalar s (by simp [kind]) admitted

theorem fitsItem_of_admitsItem {item : Option NodeId} (admitted : tree.admitsItem field item = true)
    (present : ∀ c, item = some c → tree.hasNode c = true) : tree.FitsItem field item := by
  cases item with
  | none => exact .hole admitted
  | some c => exact .node c (present c rfl) admitted

/-- A slot that holds a node may as well be unset. -/
theorem Fits.undefined_of_node {c : NodeId} (fits : tree.Fits field (.node c)) :
    tree.Fits field .undefined := by
  cases fits with
  | node _ isNode => exact .unset isNode

private theorem forall₂_fits_releaseSlot {fields : List Field} {slots : List Value} (c : NodeId)
    (fits : List.Forall₂ tree.Fits fields slots) :
    List.Forall₂ tree.Fits fields (releaseSlot c slots) := by
  induction fits with
  | nil => exact .nil
  | @cons field value fields slots first rest ih =>
    rw [releaseSlot]
    split
    · next held =>
      cases value with
      | node x => exact .cons first.undefined_of_node rest
      | scalar s => contradiction
      | list l => contradiction
    · exact .cons first ih

private theorem forall₂_fits_set {fields : List Field} {slots : List Value} {place : Nat}
    {value : Value} (fits : List.Forall₂ tree.Fits fields slots)
    (declared : fields[place]? = some field)
    (fitsThere : tree.Fits field value) : List.Forall₂ tree.Fits fields (slots.set place value) := by
  induction fits generalizing place with
  | nil => exact .nil
  | @cons first held fields slots fitsFirst rest ih =>
    cases place with
    | zero =>
      obtain rfl : first = field := by simpa using declared
      exact .cons fitsThere rest
    | succ place => exact .cons fitsFirst (ih (by simpa using declared))

/-- The slots of a new node fit: list fields have their lists, and nothing else is set. -/
theorem forall₂_fits_allocSlots (any : Tree catalogue) (id : NodeId) (place : Nat)
    (fields : List Field) :
    List.Forall₂ tree.Fits fields (any.allocSlots id place fields).1 := by
  induction fields generalizing any place with
  | nil => exact .nil
  | cons field rest ih =>
    simp only [allocSlots]
    split
    · next isList => exact .cons (.list _ isList) (ih _ _)
    · next noList =>
      refine .cons ?_ (ih _ _)
      cases kind : field.kind with
      | list => exact absurd kind noList
      | node => exact .unset kind
      | native => exact .scalar _ (.inl kind) rfl
      | strict => exact .scalar _ (.inr kind) rfl

end Written

namespace Conforms

variable {tree : Tree catalogue}

theorem node (conforms : tree.Conforms) (owned : tree.Owned) {type : TypeId} {declared : NodeType}
    (found : catalogue.type? type = some declared) (concrete : declared.isAbstract = false) :
    (tree.allocNode type declared.fields).2.Conforms := by
  have kept (n : NodeId) (present : tree.hasNode n = true) :
      (tree.allocNode type declared.fields).2.hasNode n = true ∧
        (tree.allocNode type declared.fields).2.typeOf n = tree.typeOf n := by
    refine ⟨hasNode_allocNode _ _ _ present, ?_⟩
    have other : n ≠ ⟨tree.nodes.size⟩ := by
      rintro rfl
      simp [Tree.hasNode] at present
    rw [typeOf_allocNode, if_neg other]
  -- Whatever node there is, it is the new one or one from before.
  have cases {n : NodeId} (present : (tree.allocNode type declared.fields).2.hasNode n = true) :
      n = ⟨tree.nodes.size⟩ ∨ n ≠ ⟨tree.nodes.size⟩ ∧ tree.hasNode n = true := by
    obtain ⟨entry, isEntry⟩ := hasNode_iff.mp present
    rw [node?_allocNode] at isEntry
    split at isEntry
    · next new => exact .inl new
    · next other => exact .inr ⟨other, hasNode_iff.mpr ⟨entry, isEntry⟩⟩
  refine ⟨fun {n} present => ?_, fun {n} present => ?_, fun {l field} owner item isItem => ?_⟩
  · rw [typeOf_allocNode]
    obtain rfl | ⟨other, old⟩ := cases present
    · rw [if_pos rfl]
      exact ⟨declared, found, concrete⟩
    · rw [if_neg other]
      exact conforms.concrete old
  · obtain rfl | ⟨other, old⟩ := cases present
    · have newType : (tree.allocNode type declared.fields).2.typeOf ⟨tree.nodes.size⟩ = type := by
        rw [typeOf_allocNode, if_pos rfl]
      rw [fields_eq_of_type? (newType.symm ▸ found), slots_allocNode, if_pos rfl]
      exact forall₂_fits_allocSlots _ _ _ _
    · rw [slots_allocNode, if_neg other, fields, (kept n old).2, ← fields]
      exact (conforms.slots old).imp fun _ _ fits => fits.kept kept
  · rw [items_allocNode] at isItem
    have sameOwner := owner?_of_list?_eq
      (list?_allocNode tree type declared.fields (hasList_of_item isItem))
    obtain ⟨⟨n, i⟩, owns, declaredThere⟩ := Option.bind_eq_some_iff.mp owner
    rw [sameOwner] at owns
    have sameType := (kept n (hasNode_of_slot (owned.owner_iff.mp owns))).2
    refine (conforms.items (Option.bind_eq_some_iff.mpr ⟨(n, i), owns, ?_⟩) item isItem).kept kept
    simpa only [fields, sameType] using declaredThere

theorem edit (conforms : tree.Conforms) (owned : tree.Owned) {after : Tree catalogue}
    (edit : Edit tree after) : after.Conforms := by
  cases edit with
  | node type declared found concrete => exact conforms.node owned found concrete
  | list items present =>
    refine conforms.of_written (fun _ => rfl) (fun _ => rfl) (fun l => owner?_createListOf _ _ _)
      (fun _ _ fits => fits) fun l field declared item isItem => ?_
    rw [items_createListOf] at isItem
    split at isItem
    · next new =>
      obtain ⟨owner, owns, -⟩ := Option.bind_eq_some_iff.mp declared
      exact absurd (Nat.le_of_eq new.symm) (not_lt_of_owner? owns)
    · exact .inl isItem
  | metadata id metadata =>
    refine conforms.of_written (fun _ => hasNode_modifyNode _ _ _ _)
      (fun _ => typeOf_modifyNode _ _ _ fun _ => rfl) (fun _ => rfl) (fun n _ fits => ?_)
      fun _ _ _ _ isItem => .inl isItem
    rw [setMetadata, slots_modifyNode]
    · exact fits
    · exact fun _ => rfl
  | copy =>
    refine conforms.of_written (hasNode_copy tree) (typeOf_copy tree) (owner?_copy tree)
      (fun n _ fits => ?_) fun l _ _ item isItem => ?_
    · rw [slots_copy]
      exact fits
    · rw [items_copy] at isItem
      exact .inl isItem
  | detach id =>
    refine conforms.of_written (hasNode_detach tree id) (typeOf_detach tree id) (owner?_detach tree id)
      (fun n _ fits => ?_) fun l _ _ item isItem => ?_
    · rw [slots_detach]
      split
      · exact forall₂_fits_releaseSlot id fits
      · exact fits
    · rw [items_detach] at isItem
      split at isItem
      · exact .inl (List.mem_of_mem_erase isItem)
      · exact .inl isItem
  | write id place field old new held declared admitted =>
    refine conforms.of_written (fun n => hasNode_setSlotValue _ _ _ _ _)
      (fun n => typeOf_setSlotValue _ _ _ _ _) (fun _ => rfl) (fun n _ fits => ?_)
      fun _ _ _ _ isItem => .inl isItem
    rw [slots_setSlotValue]
    split
    · next same =>
      subst same
      exact forall₂_fits_set fits declared (fits_of_admits admitted rfl)
    · exact fits
  | attach id child place field old held declared admitted present unheld outside =>
    refine conforms.of_written
      (fun n => (hasNode_setParent _ _ _ _).trans (hasNode_setSlotValue _ _ _ _ _))
      (fun n => (typeOf_setParent _ _ _ _).trans (typeOf_setSlotValue _ _ _ _ _)) (fun _ => rfl)
      (fun n _ fits => ?_) fun _ _ _ _ isItem => .inl isItem
    rw [slots_setParent, slots_setSlotValue]
    split
    · next same =>
      subst same
      exact forall₂_fits_set fits declared (fits_of_admits admitted present)
    · exact fits
  | cut l start stop isOwned ordered =>
    rw [replaceOwned_nil]
    refine conforms.of_written (fun n => hasNode_foldl_setParent _ _ _ _)
      (fun n => typeOf_foldl_setParent _ _ _ _)
      (fun k => (owner?_setItems _ _ _ _).trans (owner?_foldl_setParent _ _ _ _))
      (fun n _ fits => ?_) fun k _ _ item isItem => .inl ?_
    · rw [setItems, slots_modifyList, slots_foldl_setParent]
      exact fits
    · rw [items_setItems _ _ _ _ (by simpa using hasList_of_isOwned isOwned), items_foldl_setParent]
        at isItem
      split at isItem
      · next same =>
        subst same
        obtain isBefore | isBehind := List.mem_append.mp isItem
        · exact List.mem_of_mem_take isBefore
        · exact List.mem_of_mem_drop isBehind
      · exact isItem
  | insert l field before items after isOwned held declared admitted present distinct unheld outside =>
    refine conforms.of_written (fun n => hasNode_foldl_setParent _ _ _ _)
      (fun n => typeOf_foldl_setParent _ _ _ _)
      (fun k => (owner?_setItems _ _ _ _).trans (owner?_foldl_setParent _ _ _ _))
      (fun n _ fits => ?_) fun k other declaredThere item isItem => ?_
    · rw [insertItems, setItems, slots_modifyList, slots_foldl_setParent]
      exact fits
    · rw [insertItems, items_setItems _ _ _ _ (by simpa using hasList_of_isOwned isOwned),
        items_foldl_setParent] at isItem
      split at isItem
      · next same =>
        subst same
        rw [declared, Option.some.injEq] at declaredThere
        subst declaredThere
        rw [held]
        simp only [List.mem_append] at isItem ⊢
        obtain (isBefore | isNew) | isBehind := isItem
        · exact .inl (.inl isBefore)
        · refine .inr (fitsItem_of_admitsItem (admitted item isNew) ?_)
          rintro c rfl
          exact hasNode_of_hasItems present isNew
        · exact .inl (.inr isBehind)
      · exact .inl isItem
  | refill l items free present =>
    refine conforms.of_written (fun _ => rfl) (fun _ => rfl) (fun k => owner?_setItems _ _ _ _)
      (fun _ _ fits => fits) fun k field declared item isItem => .inl ?_
    have other : k ≠ l := by
      rintro rfl
      obtain ⟨owner, owns, -⟩ := Option.bind_eq_some_iff.mp declared
      simp [isOwned, owns] at free
    rw [setItems, items_modifyList_of_ne _ _ _ _ other] at isItem
    exact isItem

theorem evolves (conforms : tree.Conforms) (formed : tree.WellFormed) {after : Tree catalogue}
    (run : tree.Evolves after) : after.Conforms := by
  induction run with
  | refl => exact conforms
  | tail before edit ih => exact ih.edit (formed.evolves before).owned edit

end Conforms

theorem Reachable.conforms {tree : Tree catalogue} (reachable : tree.Reachable) : tree.Conforms := by
  obtain ⟨firstUid, run⟩ := reachable.evolves
  exact (conforms_empty firstUid).evolves (wellFormed_empty firstUid) run

/-- Every node has a concrete type and one slot for each field of it, which holds what fits the field,
and every item of a list that belongs to a field fits that field, which is a list field. -/
theorem nodes_and_items_fit {tree : Tree catalogue} (reachable : tree.Reachable) :
    (∀ id node, tree.node? id = some node → ∃ type, catalogue.type? node.type = some type ∧
      type.isAbstract = false ∧ List.Forall₂ tree.Fits type.fields node.slots) ∧
    ∀ l, tree.isOwned l = true → ∃ field, tree.ownerField? l = some field ∧ field.kind = .list ∧
      ∀ item ∈ tree.items l, tree.FitsItem field item := by
  have conforms := reachable.conforms
  refine ⟨fun id node found => ?_, fun l isOwned => ?_⟩
  · have present := hasNode_iff.mpr ⟨node, found⟩
    have typeOf : tree.typeOf id = node.type := by simp [Tree.typeOf, found]
    have slots : tree.slots id = node.slots := by simp [Tree.slots, found]
    obtain ⟨type, declared, concrete⟩ := conforms.concrete present
    refine ⟨type, typeOf ▸ declared, concrete, ?_⟩
    rw [← slots, ← fields_eq_of_type? declared]
    exact conforms.slots present
  · obtain ⟨field, declared, isList⟩ := reachable.wellFormed.owned.ownerField? isOwned
    exact ⟨field, declared, isList, conforms.items declared⟩

theorem nodes_and_items_fit_movedBlock :
    movedBlock.Reachable ∧ movedBlock.isOwned ⟨0⟩ = true ∧ ∃ field, field.kind = .list ∧
      movedBlock.FitsItem field (some ⟨1⟩) ∧ movedBlock.FitsItem field (some ⟨2⟩) := by
  have reachable : movedBlock.Reachable := ⟨1, _, rfl⟩
  have isOwned : movedBlock.isOwned ⟨0⟩ = true := by decide +kernel
  obtain ⟨field, -, isList, fits⟩ := (nodes_and_items_fit reachable).2 ⟨0⟩ isOwned
  refine ⟨reachable, isOwned, field, isList, fits _ ?_, fits _ ?_⟩ <;> decide +kernel

end Arbor.Tree
