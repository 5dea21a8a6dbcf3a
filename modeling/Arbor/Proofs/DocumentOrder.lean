import Arbor.Proofs.Acceptance
import Arbor.Proofs.Rewriting
import Arbor.Proofs.Traversal

/-! # Nodes are numbered in the order of the document

Building makes a node before what is below it, and what is below one field or item before what is below
the next. `Spans` says so of a row of nodes and lists: the nodes in it and below it are those from one
number up to another, in the order in which a traversal shows them. A row that is complete stays so while
other things are built, as these are put elsewhere. -/

namespace Arbor.Tree

variable {catalogue : Catalogue}

open Arbor.Action

/-- The nodes and lists in the slots of a node, or the nodes among the items of a list. -/
def parts (tree : Tree catalogue) : Handle → List Handle
  | .node n => (tree.slots n).filterMap Value.handle?
  | .list l => (itemNodes (tree.items l)).map .node

/-- The nodes in a row, each followed by those below it, are numbered from the first number to before the
last. -/
inductive Spans (tree : Tree catalogue) : List Handle → Nat → Nat → Prop where
  | nil (first : Nat) : Spans tree [] first first
  | node {first middle last : Nat} {rest : List Handle} (present : tree.hasHandle (.node ⟨first⟩) = true)
      (below : Spans tree (tree.parts (.node ⟨first⟩)) (first + 1) middle)
      (others : Spans tree rest middle last) : Spans tree (.node ⟨first⟩ :: rest) first last
  | list {first middle last : Nat} {l : ListId} {rest : List Handle}
      (present : tree.hasHandle (.list l) = true)
      (below : Spans tree (tree.parts (.list l)) first middle)
      (others : Spans tree rest middle last) : Spans tree (.list l :: rest) first last

theorem Owned.shownHandles_children {tree : Tree catalogue} (owned : tree.Owned) (handle : Handle) :
    shownHandles (tree.children handle) = tree.parts handle := by
  cases handle with
  | node n => exact owned.shownHandles_node n
  | list l => exact shownHandles_list tree l

theorem Owned.mem_parts {tree : Tree catalogue} (owned : tree.Owned) {handle part : Handle} :
    part ∈ tree.parts handle ↔ ∃ key, tree.ChildAt handle key part := by
  rw [← owned.shownHandles_children, mem_shownHandles_children]

theorem SameBut.parts {now after : Tree catalogue} {target handle : Handle}
    (same : now.SameBut after target) (present : now.hasHandle handle = true)
    (other : handle ≠ target) : after.parts handle = now.parts handle := by
  cases handle with
  | node n => rw [Tree.parts, Tree.parts, same.slots present other]
  | list l => rw [Tree.parts, Tree.parts, same.items present other]

namespace Spans

variable {now after : Tree catalogue} {handles others : List Handle} {first middle last : Nat}

theorem le (spans : now.Spans handles first last) : first ≤ last := by
  induction spans with
  | nil => exact Nat.le_refl _
  | node _ _ _ ihBelow ihOthers => omega
  | list _ _ _ ihBelow ihOthers => omega

theorem append (spans : now.Spans handles first middle) (next : now.Spans others middle last) :
    now.Spans (handles ++ others) first last := by
  induction spans with
  | nil => exact next
  | node present below _ _ ih => exact .node present below (ih next)
  | list present below _ _ ih => exact .list present below (ih next)

/-- Changing something else does not change what a row spans. -/
theorem sameBut (spans : now.Spans handles first last) (owned : now.Owned) {target : Handle}
    (same : now.SameBut after target) (apart : ∀ handle ∈ handles, ¬ now.Inside handle target) :
    after.Spans handles first last := by
  -- What is around the target would be around it from one level further out.
  have deeper {handle : Handle} (isApart : ¬ now.Inside handle target) :
      ∀ part ∈ now.parts handle, ¬ now.Inside part target :=
    fun _ isPart inside => isApart (.head (owned.mem_parts.mp isPart) inside)
  induction spans with
  | nil first => exact .nil first
  | @node first _ _ _ present below others ihBelow ihOthers =>
    obtain ⟨isApart, apart⟩ := List.forall_mem_cons.mp apart
    have other : .node ⟨first⟩ ≠ target := fun isTarget => isApart (isTarget ▸ .refl)
    refine .node (same.hasHandle (.node _) present) ?_ (ihOthers apart)
    rw [same.parts present other]
    exact ihBelow (deeper isApart)
  | @list _ _ _ l _ present below others ihBelow ihOthers =>
    obtain ⟨isApart, apart⟩ := List.forall_mem_cons.mp apart
    have other : .list l ≠ target := fun isTarget => isApart (isTarget ▸ .refl)
    refine .list (same.hasHandle (.list _) present) ?_ (ihOthers apart)
    rw [same.parts present other]
    exact ihBelow (deeper isApart)

end Spans

theorem Rewrite.nodes_size {changed : ListId → Prop} {tree after : Tree catalogue}
    (write : Rewrite changed tree after) : after.nodes.size = tree.nodes.size := by
  cases write with
  | parent | slot | metadata => exact Array.size_modify
  | items => rfl
  | detach id =>
    rw [detach.eq_def]
    split <;> simp [setParent, modifyNode, modifyList]

theorem Rewrites.nodes_size {changed : ListId → Prop} {tree after : Tree catalogue}
    (writes : tree.Rewrites changed after) : after.nodes.size = tree.nodes.size := by
  induction writes with
  | refl => rfl
  | tail _ write ih => rw [write.nodes_size, ih]

private theorem nodes_size_of_assignSlot {tree after : Tree catalogue} {n : NodeId} {place : Nat}
    {value : Value} (done : assignSlot n place value tree = (.ok (), after)) :
    after.nodes.size = tree.nodes.size := by
  rw [assignSlot_eq_whole] at done
  obtain ⟨_, put, same⟩ := map_eq_ok.mp (eq_ok_of_whole done)
  cases same
  have writes : tree.Rewrites (fun _ => True) after := .setSlot put
  exact writes.nodes_size

private theorem nodes_size_of_pushValue {tree after : Tree catalogue} {l : ListId} {value : Value}
    {length : Nat} (done : pushValue l value tree = (.ok length, after)) :
    after.nodes.size = tree.nodes.size := by
  rw [pushValue_eq_whole] at done
  have writes : tree.Rewrites (fun _ => True) after :=
    (ListChange.push (eq_ok_of_whole done)).rewrites trivial
  exact writes.nodes_size

private theorem nodes_size_allocNode (tree : Tree catalogue) (type : TypeId) (fields : List Field) :
    (tree.allocNode type fields).2.nodes.size = tree.nodes.size + 1 := by
  rw [allocNode_snd, modifyNode, Array.size_modify, (freshSlots_newSlots tree type fields).nodes]
  exact Array.size_push _

/-- Wherever the document was built, what was built spans the nodes that were made. -/
def Consecutive (catalogue : Catalogue) (json : Json) : Prop :=
  ∀ (context : String) (now after : Tree catalogue) (value : Value), now.WellFormed →
    buildValue context json now = (.ok value, after) →
      after.Spans value.handle?.toList now.nodes.size after.nodes.size

/-- What the slots of a node before a place hold. -/
def heldBefore (tree : Tree catalogue) (n : NodeId) (place : Nat) : List Handle :=
  ((tree.slots n).take place).filterMap Value.handle?

private theorem mem_heldBefore {tree : Tree catalogue} {n : NodeId} {place : Nat}
    {handle : Handle} :
    handle ∈ tree.heldBefore n place ↔ ∃ i < place, (tree.slots n)[i]? = some (.ofHandle handle) := by
  simp only [heldBefore, List.mem_filterMap, handle?_eq_some, exists_eq_right]
  simp [List.mem_iff_getElem?, List.getElem?_take]

private theorem heldBefore_succ {tree : Tree catalogue} {n : NodeId} {place : Nat} {value : Value}
    (held : (tree.slots n)[place]? = some value) :
    tree.heldBefore n (place + 1) = tree.heldBefore n place ++ value.handle?.toList := by
  rw [heldBefore, List.take_add_one, held, List.filterMap_append, heldBefore]
  cases value <;> rfl

/-- A list does not lie inside the item that was put into it, before that or after. -/
theorem Appended.not_inside {now middle pushed : Tree catalogue} {l : ListId} {json : Json}
    {item : Option NodeId} (appended : now.Appended middle pushed l json item) (formed : now.WellFormed)
    (present : now.hasList l = true) {handle : Handle}
    (isItem : (Value.ofItem item).handle? = some handle) :
    ¬ middle.Inside handle (.list l) ∧ ¬ pushed.Inside handle (.list l) := by
  obtain ⟨-, new⟩ := appended.isNew handle isItem
  cases item with
  | none => contradiction
  | some c =>
    cases isItem
    have listOld : now.hasHandle (.list l) = true := present
    refine ⟨appended.kept.not_inside formed.owned appended.formed.owned listOld new, ?_⟩
    apply appended.pushedFormed.not_inside_of_item
    rw [appended.items]
    exact List.mem_append_right _ (List.mem_singleton_self _)

section Compiled

variable (compiled : catalogue.Compiled)
include compiled

/-- What is built into a list spans the nodes that were made. -/
theorem spans_of_buildItems {documents : List Json}
    (consecutive : ∀ json ∈ documents, Consecutive catalogue json) {context : String} {l : ListId}
    {now after : Tree catalogue} (formed : now.WellFormed) (present : now.hasList l = true)
    (built : buildItems context l documents now = (.ok (), after)) :
    now.SameBut after (.list l) ∧ ∃ items, after.items l = now.items l ++ items ∧
      after.Spans ((itemNodes items).map .node) now.nodes.size after.nodes.size := by
  induction documents generalizing now with
  | nil =>
    rw [buildItems] at built
    cases built
    exact ⟨.refl _ _, [], (List.append_nil _).symm, .nil _⟩
  | cons json rest ih =>
    obtain ⟨consecutiveFirst, consecutiveRest⟩ := List.forall_mem_cons.mp consecutive
    obtain ⟨item, middle, pushed, isBuilt, builtRest, appended⟩ :=
      exists_appended compiled (sound_of_compiled compiled json) formed present built
    obtain ⟨same, items, afterItems, spansRest⟩ := ih consecutiveRest appended.pushedFormed
      (appended.sameBut.hasHandle (.list l) present) builtRest
    have spansItem := consecutiveFirst context now middle _ formed isBuilt
    obtain ⟨length, isPushed⟩ := appended.isPushed
    rw [nodes_size_of_pushValue isPushed] at spansRest
    refine ⟨appended.sameBut.trans same, item :: items, ?_, ?_⟩
    · rw [afterItems, appended.items, List.append_assoc, List.singleton_append]
    · -- The item stays as it was built while it is put into the list, and while the rest is built.
      have carried : after.Spans (Value.ofItem item).handle?.toList now.nodes.size middle.nodes.size := by
        apply (spansItem.sameBut appended.formed.owned appended.same _).sameBut
          appended.pushedFormed.owned same
        · exact fun handle isHere => (appended.not_inside formed present (Option.mem_toList.mp isHere)).2
        · exact fun handle isHere => (appended.not_inside formed present (Option.mem_toList.mp isHere)).1
      have joined := carried.append spansRest
      cases item <;> exact joined

end Compiled

namespace Growing

variable {now after : Tree catalogue} {n : NodeId} {id : TypeId} {type : NodeType}
  {members : Record Json} {place first : Nat} {field : Field}
  (growing : now.Growing n id type members place)
  (spans : now.Spans (now.heldBefore n place) first now.nodes.size)
include growing spans

/-- One more slot is filled. What the slots before it hold is elsewhere. -/
theorem spans_advance {target : Handle} (same : now.SameBut after target)
    (isTarget : target = .node n ∨ (now.slots n)[place]? = some (.ofHandle target))
    (others : ∀ i < place, (after.slots n)[i]? = (now.slots n)[i]?) {value : Value}
    (held : (after.slots n)[place]? = some value)
    (here : after.Spans value.handle?.toList now.nodes.size after.nodes.size) :
    after.Spans (after.heldBefore n (place + 1)) first after.nodes.size := by
  have before : (after.slots n).take place = (now.slots n).take place := by
    apply List.ext_getElem?
    intro i
    rw [List.getElem?_take, List.getElem?_take]
    split
    · next earlier => exact others i earlier
    · rfl
  rw [heldBefore_succ held, heldBefore, before, ← heldBefore]
  refine Spans.append (spans.sameBut growing.formed.owned same ?_) here
  intro handle isHeld
  obtain ⟨i, earlier, isSlot⟩ := mem_heldBefore.mp isHeld
  exact growing.not_inside isTarget (by omega) isSlot

/-- A slot that stays as it is holds nothing, or an empty list. -/
theorem spans_skip (declared : type.fields[place]? = some field) :
    now.Spans (now.heldBefore n (place + 1)) first now.nodes.size := by
  obtain ⟨value, held, blank⟩ := growing.exists_blank declared
  rw [heldBefore_succ held]
  apply spans.append
  cases blank with
  | list l isList empty =>
    refine .list (hasList_of_owner? (growing.formed.owned.owner_iff.mpr held)) ?_ (.nil _)
    rw [parts, empty]
    exact .nil _
  | unset => exact .nil _

/-- A slot gets something new that spans the nodes made for it. -/
theorem spans_put (declared : type.fields[place]? = some field) (noList : field.kind ≠ .list)
    {built : Tree catalogue} (kept : now.Keeps built) (formed : built.WellFormed) {value : Value}
    (isNew : now.NewValue built value) (unheld : built.Unheld value)
    (assigned : Tree.assignSlot n place value built = (.ok (), after))
    (here : built.Spans value.handle?.toList now.nodes.size built.nodes.size) :
    after.Spans (after.heldBefore n (place + 1)) first after.nodes.size := by
  have bound : place < (now.slots n).length :=
    (List.getElem?_eq_some_iff.mp (growing.slot_unset declared noList)).1
  have admitted : built.admits field value = true := by
    obtain ⟨other, isOther, -, admitted⟩ := admits_of_assignSlot assigned
    rw [(kept.sameBut (.node n)).fields growing.present, growing.fields_eq, declared] at isOther
    cases isOther
    exact admitted
  obtain ⟨_, isAfter, -, slots, same, -, elsewhere⟩ :=
    growing.put declared noList kept formed admitted isNew unheld
  rw [assigned] at isAfter
  cases isAfter
  have held : (after.slots n)[place]? = some value := by rw [slots, List.getElem?_set_self bound]
  apply growing.spans_advance spans ((kept.sameBut _).trans same) (.inl rfl) _ held
  · rw [nodes_size_of_assignSlot assigned]
    exact here.sameBut formed.owned same fun handle isHere =>
      elsewhere handle (Option.mem_toList.mp isHere)
  · intro i earlier
    rw [slots, List.getElem?_set_ne (by omega)]

section Fields

variable (compiled : catalogue.Compiled) (distinct : (type.fields.map (·.name)).Nodup)
  (consecutive : ∀ json, sizeOf json < sizeOf members → Consecutive catalogue json)
include compiled distinct consecutive

theorem spans_buildField (declared : type.fields[place]? = some field) {raw : Json}
    (found : members.get? field.name = some raw) {context : String}
    (built : Tree.buildField n context members place field raw now = (.ok (), after)) :
    after.Spans (after.heldBefore n (place + 1)) first after.nodes.size := by
  have smaller := Record.sizeOf_get?_lt found
  rw [Tree.buildField.eq_def] at built
  by_cases isList : field.kind = .list
  · rw [if_pos isList] at built
    cases raw with
    | null =>
      cases built
      exact growing.spans_skip spans declared
    | array documents =>
      obtain ⟨l, held, empty, present, -, isHere⟩ := growing.exists_list distinct declared isList
      change (check (fun tree => tree.list n field.name) >>= fun list =>
        Tree.buildItems context list documents) now = (.ok (), after) at built
      rw [check_bind_of_ok now isHere] at built
      have each (json : Json) (isDocument : json ∈ documents) : Consecutive catalogue json :=
        consecutive json ((Json.sizeOf_lt_array isDocument).trans smaller)
      obtain ⟨same, items, afterItems, spansItems⟩ :=
        spans_of_buildItems compiled each growing.formed present built
      have slots : after.slots n = now.slots n := same.slots growing.present (by simp)
      apply growing.spans_advance spans same (.inr held) (fun i _ => by rw [slots]) (slots ▸ held)
      refine .list (same.hasHandle (.list l) present) ?_ (.nil _)
      rw [parts, afterItems, empty, List.nil_append]
      exact spansItems
    | bool | number | string | object => simp [fail] at built
  · rw [if_neg isList] at built
    cases beside : siblingRegex? members raw with
    | some regex =>
      simp only [beside] at built
      exact growing.spans_put spans declared isList (.refl now) growing.formed (newValue_scalar _)
        (by rintro _ ⟨⟩) built (.nil _)
    | none =>
      simp only [beside] at built
      obtain ⟨value, middle, isBuilt, assigned⟩ := exists_of_bind_eq_ok built
      have conforms := sound_of_compiled compiled raw context now middle value growing.formed isBuilt
      obtain ⟨-, unheld⟩ := mirrors_of_built compiled conforms growing.formed isBuilt
      obtain ⟨middleFormed, kept, isNew⟩ := growing.formed.of_buildValue isBuilt
      exact growing.spans_put spans declared isList kept middleFormed isNew unheld assigned
        (consecutive raw smaller context now middle value growing.formed isBuilt)

/-- Field by field, what the node holds comes to span all nodes made for it. -/
theorem spans_buildFields {name : String} {rest : List Field} (isRest : type.fields.drop place = rest)
    (built : Tree.buildFields n name members place rest now = (.ok (), after)) :
    after.Growing n id type members (place + rest.length) ∧
      after.Spans (after.heldBefore n (place + rest.length)) first after.nodes.size := by
  induction rest generalizing now place with
  | nil =>
    rw [Tree.buildFields] at built
    cases built
    exact ⟨growing, spans⟩
  | cons field rest ih =>
    obtain ⟨declared, isTail⟩ := getElem?_and_drop_of_drop_eq_cons isRest
    have length : place + (field :: rest).length = place + 1 + rest.length := by
      rw [List.length_cons]
      omega
    rw [length]
    cases found : members.get? field.name with
    | none =>
      rw [buildFields_of_none found] at built
      exact ih (growing.skip declared (by rw [Field.stated?, found])) (growing.spans_skip spans declared)
        isTail built
    | some raw =>
      rw [buildFields_of_some found] at built
      obtain ⟨_, middle, isBuilt, built⟩ := exists_of_bind_eq_ok built
      have next := growing.of_buildField compiled distinct (fun json _ => sound_of_compiled compiled json)
        declared found isBuilt
      exact ih next (growing.spans_buildField spans compiled distinct consecutive declared found isBuilt)
        isTail built

end Fields

end Growing

/-- A node whose slots span the nodes made after it spans them together with itself, whatever metadata it
gets. -/
theorem Growing.spans_node {now : Tree catalogue} {n : Nat} {id : TypeId} {type : NodeType}
    {members : Record Json} (growing : now.Growing ⟨n⟩ id type members type.fields.length)
    (spans : now.Spans (now.heldBefore ⟨n⟩ type.fields.length) (n + 1) now.nodes.size)
    (metadata : Record Json) :
    (now.setMetadata ⟨n⟩ metadata).Spans [.node ⟨n⟩] n now.nodes.size := by
  have same : now.SameBut (now.setMetadata ⟨n⟩ metadata) (.node ⟨n⟩) :=
    (SameBut.refl now _).modifyNode fun _ => rfl
  have slots : (now.setMetadata ⟨n⟩ metadata).slots ⟨n⟩ = now.slots ⟨n⟩ := by
    rw [setMetadata, slots_modifyNode]
    exact fun _ => rfl
  have all : now.heldBefore ⟨n⟩ type.fields.length = now.parts (.node ⟨n⟩) := by
    rw [heldBefore, List.take_of_length_le, parts]
    rw [growing.formed.owned.slots_length growing.present, growing.fields_eq]
  refine .node (same.hasHandle (.node _) growing.present) ?_ (.nil _)
  rw [parts, slots, ← parts, ← all]
  apply spans.sameBut growing.formed.owned same
  intro handle isHeld
  obtain ⟨i, -, isSlot⟩ := mem_heldBefore.mp isHeld
  obtain ⟨settled, link⟩ := growing.heldBy isSlot
  exact growing.formed.not_inside_of_held settled link

private theorem consecutive_object (compiled : catalogue.Compiled) {members : Record Json}
    (consecutive : ∀ json, sizeOf json < sizeOf members → Consecutive catalogue json) :
    Consecutive catalogue (.object members) := by
  intro context now after value formed built
  rw [buildValue] at built
  split at built
  · obtain ⟨n, made, isMade, built⟩ := exists_of_bind_eq_ok built
    rw [look_bind, look_bind] at built
    obtain ⟨_, filled, isFilled, finish⟩ := exists_of_bind_eq_ok built
    obtain ⟨name, tag, created⟩ := createNode_of_buildNode isMade
    obtain ⟨id, type, named, rfl, rfl⟩ := createFound_eq_ok created
    obtain ⟨declared, concrete⟩ := concreteType_eq_ok named
    have start := growing_allocNode formed declared concrete members rfl
    rw [start.fields_eq] at isFilled
    have startSpans : (now.allocNode id type.fields).2.Spans [] (now.nodes.size + 1)
        (now.allocNode id type.fields).2.nodes.size := by
      rw [nodes_size_allocNode]
      exact .nil _
    obtain ⟨growing, spans⟩ := start.spans_buildFields startSpans compiled
      (compiled.nodup_fields declared) consecutive (List.drop_zero ..) isFilled
    rw [Nat.zero_add] at growing spans
    obtain ⟨_, _, keeps, isDone⟩ := exists_of_bind_eq_ok finish
    cases keeps
    cases isDone
    have size : ∀ metadata, (filled.setMetadata ⟨now.nodes.size⟩ metadata).nodes.size = filled.nodes.size :=
      fun _ => Array.size_modify
    rw [size]
    exact growing.spans_node spans _
  · next untyped =>
    cases literal : regexOf? members with
    | none => simp [literal, fail] at built
    | some regex =>
      simp only [literal] at built
      cases built
      exact .nil _

private theorem consecutive_of_compiled (compiled : catalogue.Compiled) (json : Json) :
    Consecutive catalogue json := by
  induction json using Json.document_induction with
  | null | bool | number | string =>
    intro _ now _ _ _ built
    rw [buildValue] at built
    cases built
    exact .nil _
  | array documents ih =>
    intro context now after value formed built
    rw [buildValue] at built
    obtain ⟨l, made, isMade, built⟩ := exists_of_bind_eq_ok built
    obtain ⟨_, filled, isFilled, isDone⟩ := exists_of_bind_eq_ok built
    rw [make_createList] at isMade
    cases isMade
    cases isDone
    have present := now.hasList_createListOf_self []
    obtain ⟨same, items, afterItems, spans⟩ :=
      spans_of_buildItems compiled ih (formed.edit (.list [] rfl)) present isFilled
    refine .list (same.hasHandle (.list _) present) ?_ (.nil _)
    rw [parts, afterItems, items_createListOf, if_pos rfl, List.nil_append]
    exact spans
  | object members ih => exact consecutive_object compiled ih

section Traversal

/-- The nodes below a node or list, in the order in which a traversal shows them that always goes on. -/
def shownNodes (tree : Tree catalogue) (handle : Handle) : List NodeId :=
  (tree.preorder handle).filterMap (·.1.node?)

/-- The nodes up to the given number of levels below a node or list. -/
def shownNodesUpTo (tree : Tree catalogue) (bound : Nat) (handle : Handle) : List NodeId :=
  (tree.outlineUpTo bound handle).filterMap (·.shown.1.node?)

theorem Owned.shownNodesUpTo_succ {tree : Tree catalogue} (owned : tree.Owned) (bound : Nat)
    (handle : Handle) : tree.shownNodesUpTo (bound + 1) handle =
      (tree.parts handle).flatMap fun part => part.node?.toList ++ tree.shownNodesUpTo bound part := by
  rw [shownNodesUpTo, outlineUpTo, List.filterMap_flatMap, ← owned.shownHandles_children, shownHandles,
    List.filterMap_eq_flatMap_toList, List.flatMap_assoc]
  apply List.flatMap_congr
  intro entry _
  rw [List.filterMap_cons, List.filterMap_map]
  cases entry.1 <;> simp [Function.comp_def, Sighting.under, Value.handle?, Value.node?, Handle.node?,
    shownNodesUpTo]

/-- With room for all levels below, there is room for all levels below each part. -/
theorem WellFormed.room_parts {tree : Tree catalogue} (formed : tree.WellFormed) {handle : Handle}
    (present : tree.hasHandle handle = true) {bound : Nat} (enough : tree.room handle ≤ bound) :
    ∃ smaller, bound = smaller + 1 ∧ ∀ part ∈ tree.parts handle, tree.room part ≤ smaller := by
  have some := formed.room_pos present
  obtain ⟨smaller, rfl⟩ := Nat.exists_eq_add_of_le' (show 1 ≤ bound by omega)
  refine ⟨smaller, rfl, fun part isPart => ?_⟩
  obtain ⟨key, step⟩ := formed.owned.mem_parts.mp isPart
  have less := formed.room_lt step
  omega

/-- The nodes in a row and below it are those it spans. -/
theorem Spans.shownNodes {tree : Tree catalogue} {handles : List Handle} {first last : Nat}
    (spans : tree.Spans handles first last) (formed : tree.WellFormed) {bound : Nat}
    (enough : ∀ handle ∈ handles, tree.room handle ≤ bound) :
    (handles.flatMap fun part => part.node?.toList ++ tree.shownNodesUpTo bound part) =
      (List.Ico first last).map NodeId.mk := by
  -- Each row further down has one level less to go, so the bound is left open.
  induction spans generalizing bound with
  | nil first => rw [List.Ico.self_empty, List.flatMap_nil, List.map_nil]
  | @node first middle last rest present below others ihBelow ihOthers =>
    obtain ⟨enough, enoughOthers⟩ := List.forall_mem_cons.mp enough
    have start := below.le
    obtain ⟨smaller, rfl, enoughBelow⟩ := formed.room_parts present enough
    rw [List.flatMap_cons, ihOthers enoughOthers, formed.owned.shownNodesUpTo_succ, ihBelow enoughBelow,
      ← List.Ico.append_consecutive (show first ≤ middle by omega) others.le, List.map_append,
      List.Ico.eq_cons (show first < middle by omega)]
    rfl
  | @list first middle last l rest present below others ihBelow ihOthers =>
    obtain ⟨enough, enoughOthers⟩ := List.forall_mem_cons.mp enough
    obtain ⟨smaller, rfl, enoughBelow⟩ := formed.room_parts present enough
    rw [List.flatMap_cons, ihOthers enoughOthers, formed.owned.shownNodesUpTo_succ, ihBelow enoughBelow,
      ← List.Ico.append_consecutive below.le others.le, List.map_append]
    rfl

/-- What spans some nodes is, with what a traversal shows below it, these nodes in their order. -/
theorem WellFormed.shownNodes_of_spans {tree : Tree catalogue} (formed : tree.WellFormed) {handle : Handle}
    {first last : Nat} (spans : tree.Spans [handle] first last) :
    handle.node?.toList ++ tree.shownNodes handle = (List.Ico first last).map NodeId.mk := by
  have enough : ∀ other ∈ [handle], tree.room other ≤ tree.size + 1 := fun other _ => tree.room_le other
  rw [← spans.shownNodes formed enough, List.flatMap_singleton, Tree.shownNodes, preorder_eq,
    List.filterMap_map]
  rfl

/-- A document that was built as a node or list made some number of nodes. If it is a node, that is the
first of them, and a traversal from it shows the others in the order of their numbers; a traversal from a
list so shows all. Thus every node that was made is the one given or is shown, once. -/
theorem build_numbers_in_document_order (compiled : catalogue.Compiled) {tree after : Tree catalogue}
    (reachable : tree.Reachable) {json : Json} {value : Value} {handle : Handle}
    (built : build json tree = (.ok value, after)) (isHandle : value.handle? = some handle) :
    ∃ made, after.nodes.size = tree.nodes.size + made ∧
      (∀ n, handle = .node n → n = ⟨tree.nodes.size⟩ ∧ 0 < made ∧ after.shownNodes handle =
        (List.Ico (tree.nodes.size + 1) (tree.nodes.size + made)).map NodeId.mk) ∧
      (∀ l, handle = .list l → after.shownNodes handle =
        (List.Ico tree.nodes.size (tree.nodes.size + made)).map NodeId.mk) ∧
      ∀ n, tree.hasNode n = false → after.hasNode n = true →
        (handle.node?.toList ++ after.shownNodes handle).count n = 1 := by
  have formed := reachable.wellFormed
  obtain ⟨afterFormed, -, -⟩ := formed.of_buildValue built
  have spans := consecutive_of_compiled compiled json "input" tree after value formed built
  rw [isHandle] at spans
  obtain ⟨made, size⟩ := Nat.exists_eq_add_of_le spans.le
  have shown := afterFormed.shownNodes_of_spans spans
  rw [size] at shown
  refine ⟨made, size, ?_, ?_, ?_⟩
  · rintro n rfl
    cases made with
    | zero => simp [Handle.node?] at shown
    | succ less =>
      rw [List.Ico.eq_cons (by omega)] at shown
      obtain ⟨isFirst, others⟩ := List.cons.inj shown
      exact ⟨isFirst, Nat.succ_pos less, others⟩
  · rintro l rfl
    exact shown
  · intro n isNew present
    have lower : tree.nodes.size ≤ n.index := by simpa [hasNode] using isNew
    have upper : n.index < tree.nodes.size + made := by simpa [hasNode, size] using present
    have distinct := (List.Ico.nodup tree.nodes.size (tree.nodes.size + made)).map
      fun _ _ => NodeId.mk.inj
    rw [shown]
    exact List.count_eq_one_of_mem distinct
      (List.mem_map.mpr ⟨n.index, List.Ico.mem.mpr ⟨lower, upper⟩, rfl⟩)

/-- A note with two notes and a hole between them as its parts, the first of which has a note as its part. -/
def nestedDocument : Json :=
  .object [("type", .string "Note"), ("parts", .array
    [.object [("type", .string "Note"), ("parts", .array [.object [("type", .string "Note")]])], .null,
      .object [("type", .string "Note")]])]

def blankNote : Tree notes := (empty notes 1).run [.createNode "Note"]

/-- The note is the second node of the tree, and the notes in it are the next three, from the top down. -/
theorem build_numbers_in_document_order_nestedDocument :
    notes.Compiled ∧ blankNote.Reachable ∧ ∃ after, after.nodes.size = 5 ∧
      build nestedDocument blankNote = (.ok (.node ⟨1⟩), after) ∧
      after.shownNodes (.node ⟨1⟩) = [⟨2⟩, ⟨3⟩, ⟨4⟩] := by
  have reachable : blankNote.Reachable := ⟨1, _, rfl⟩
  have before : blankNote.nodes.size = 1 := by decide +kernel
  have outcome : (build nestedDocument blankNote).1 = .ok (.node ⟨1⟩) := by cbv
  have total : (build nestedDocument blankNote).2.nodes.size = 5 := by cbv
  have built : build nestedDocument blankNote =
    (.ok (.node ⟨1⟩), (build nestedDocument blankNote).2) := Prod.ext outcome rfl
  obtain ⟨made, size, asNode, -⟩ := build_numbers_in_document_order compiled_notes reachable built rfl
  obtain ⟨-, -, shown⟩ := asNode _ rfl
  rw [← size, total, before] at shown
  exact ⟨compiled_notes, reachable, _, total, built, shown⟩

end Traversal

end Arbor.Tree
