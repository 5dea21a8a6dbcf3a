import Arbor.Proofs.Document
import Arbor.Proofs.Rebuilding

/-! # What is built mirrors its document

A value mirrors a document if it is what the document describes: the same scalar, a list with an item for
each of its documents, or a node of the type that is named, with a slot for each field that is stated and
the other members as metadata. Changes elsewhere in the tree keep this. As every node is held in one place
only, a node that is being filled, or a list that is, is elsewhere than what it holds already. -/

namespace Arbor.Tree

variable {catalogue : Catalogue}

open Arbor.Action

/-- The value, in the tree, is what the document describes. -/
inductive Mirrors (now : Tree catalogue) : Json → Value → Prop where
  | scalar {json : Json} {s : Scalar} (written : json.scalar? = some s) :
      Mirrors now json (.scalar s)
  | list {documents : List Json} {l : ListId} (present : now.hasList l = true)
      (length : (now.items l).length = documents.length)
      (items : ∀ (i : Nat) (json : Json) (held : Option NodeId), documents[i]? = some json →
        (now.items l)[i]? = some held → Mirrors now json (.ofItem held)) :
      Mirrors now (.array documents) (.list l)
  | node {members : Record Json} {n : NodeId} {id : TypeId} {type : NodeType}
      (present : now.hasNode n = true) (tagged : catalogue.taggedType? members = some (id, type))
      (isType : now.typeOf n = id) (metadata : now.metadata n = type.unclaimed members)
      (unset : ∀ (i : Nat) (field : Field) (value : Value), type.fields[i]? = some field →
        (now.slots n)[i]? = some value → field.stated? members = none → value = .undefined)
      (slots : ∀ (i : Nat) (field : Field) (value : Value) (raw : Json), type.fields[i]? = some field →
        (now.slots n)[i]? = some value → field.stated? members = some raw → Mirrors now raw value) :
      Mirrors now (.object members) (.node n)

section Inside

variable {tree : Tree catalogue}

/-- From what is settled, child steps are links taken backwards. -/
theorem Owned.within_of_inside (owned : tree.Owned) {outer inner : Handle}
    (settled : tree.Settled outer) (inside : tree.Inside outer inner) :
    tree.Settled inner ∧ tree.Within inner outer := by
  induction inside with
  | refl => exact ⟨settled, .refl⟩
  | tail _ step ih =>
    obtain ⟨key, step⟩ := step
    obtain ⟨middleSettled, within⟩ := ih
    obtain ⟨-, innerSettled, held⟩ := owned.of_childAt step
    exact ⟨innerSettled, .head (held middleSettled) within⟩

namespace WellFormed

variable (formed : tree.WellFormed)
include formed

/-- What holds something does not lie inside it. -/
theorem not_inside_of_held {outer inner : Handle} (settled : tree.Settled inner)
    (held : tree.HeldBy inner outer) : ¬ tree.Inside inner outer := by
  intro inside
  have within := (formed.owned.within_of_inside settled inside).2
  exact formed.acyclic inner (.head' held within)

/-- What is held beside something does not lie inside it. -/
theorem not_inside_of_sibling {outer inner other : Handle} (settled : tree.Settled inner)
    (held : tree.HeldBy inner outer) (otherHeld : tree.HeldBy other outer) (different : other ≠ inner) :
    ¬ tree.Inside inner other := by
  intro inside
  have within := (formed.owned.within_of_inside settled inside).2
  rcases Relation.ReflTransGen.cases_head within with same | ⟨middle, link, above⟩
  · exact different same
  · have isOuter : middle = outer := Option.some.inj (link.symm.trans otherHeld)
    subst isOuter
    exact formed.acyclic inner (.head' held above)

/-- A list does not lie inside its items. -/
theorem not_inside_of_item {l : ListId} {c : NodeId} (isItem : some c ∈ tree.items l) :
    ¬ tree.Inside (.node c) (.list l) := by
  have settled : tree.Settled (.node c) := fun k isList => Handle.noConfusion isList
  intro inside
  have listSettled := (formed.owned.within_of_inside settled inside).1
  have held := formed.owned.mem_item_iff.mp ⟨listSettled l rfl, isItem⟩
  exact formed.not_inside_of_held settled held inside

end WellFormed

end Inside

namespace Mirrors

variable {now after : Tree catalogue} {json : Json} {value : Value}

theorem sameBut (mirrors : now.Mirrors json value) {target : Handle} (same : now.SameBut after target)
    (apart : ∀ handle, value.handle? = some handle → ¬ now.Inside handle target) :
    after.Mirrors json value := by
  induction mirrors with
  | scalar written => exact .scalar written
  | @list documents l present length items ih =>
    have other : .list l ≠ target := fun isTarget => apart _ rfl (isTarget ▸ .refl)
    refine .list (same.hasHandle (.list l) present) ?_ ?_
    · rw [same.items present other, length]
    · intro i json held isDocument isItem
      rw [same.items present other] at isItem
      apply ih i json held isDocument isItem
      intro child isChild inside
      cases held with
      | none => contradiction
      | some c =>
        cases isChild
        exact apart _ rfl (.head ⟨_, .item isItem⟩ inside)
  | @node members n id type present tagged isType metadata unset slots ih =>
    have other : .node n ≠ target := fun isTarget => apart _ rfl (isTarget ▸ .refl)
    refine .node (same.hasHandle (.node n) present) tagged ?_ ?_ ?_ ?_
    · rw [same.typeOf present, isType]
    · rw [same.metadata present other, metadata]
    · rw [same.slots present other]
      exact unset
    · rw [same.slots present other]
      intro i field value raw declared held stated
      apply ih i field value raw declared held stated
      intro child isChild inside
      have fields : now.fields n = type.fields := by
        obtain ⟨name, -, named⟩ := Catalogue.taggedType?_eq_some_iff.mp tagged
        exact fields_eq_of_type? (isType ▸ (concreteType_eq_ok named).1)
      exact apart _ rfl (.head ⟨_, .slot (fields ▸ declared) held isChild⟩ inside)

theorem eq_null (mirrors : now.Mirrors .null value) : value = .null := by
  cases mirrors with
  | scalar written =>
    cases written
    rfl

/-- What mirrors a document is never left unset. -/
theorem isSet (mirrors : now.Mirrors json value) : value.isSet = true := by
  cases mirrors with
  | @scalar _ s written =>
    cases json with
    | null | bool | number | string =>
      cases written
      rfl
    | array => contradiction
    | object members =>
      rw [Json.scalar?] at written
      split at written
      · contradiction
      · obtain ⟨regex, -, rfl⟩ := Option.map_eq_some_iff.mp written
        rfl
  | list | node => rfl

/-- What mirrors the description of a node is a node of that type. -/
theorem exists_node (mirrors : now.Mirrors json value) {id : TypeId}
    (described : catalogue.describedType? json = some id) :
    ∃ n, value = .node n ∧ now.typeOf n = id := by
  obtain ⟨members, type, rfl, tagged, -⟩ := Catalogue.describedType?_eq_some_iff.mp described
  cases mirrors with
  | scalar written =>
    obtain ⟨name, tag, -⟩ := Catalogue.taggedType?_eq_some_iff.mp tagged
    rw [Json.scalar?, if_pos (Record.contains_of_get? tag)] at written
    contradiction
  | node present otherTagged isType =>
    rw [tagged] at otherTagged
    cases otherTagged
    exact ⟨_, rfl, isType⟩

/-- What mirrors an item is an item, and admitted where the document conforms. -/
theorem exists_item (mirrors : now.Mirrors json value) {owner : Option Field}
    (conforms : catalogue.conformsItem owner json = true) :
    ∃ item, value = .ofItem item ∧ ∀ field, owner = some field → now.admitsItem field item = true := by
  rcases Catalogue.conformsItem_iff.mp conforms with ⟨rfl, admitted⟩ | ⟨id, described, admitted⟩
  · exact ⟨none, mirrors.eq_null, admitted⟩
  · obtain ⟨n, rfl, rfl⟩ := mirrors.exists_node described
    exact ⟨some n, rfl, admitted⟩

end Mirrors

/-- Building the document succeeds in whatever tree, and gives what mirrors it and is held nowhere. -/
def Builds (catalogue : Catalogue) (json : Json) : Prop :=
  ∀ (context : String) (now : Tree catalogue), now.WellFormed →
    ∃ value after, buildValue context json now = (.ok value, after) ∧ after.Mirrors json value ∧
      after.Unheld value

/-- Something old does not lie inside a new node. -/
theorem Keeps.not_inside {old now : Tree catalogue} (kept : old.Keeps now) (oldOwned : old.Owned)
    (owned : now.Owned) {target : Handle} (targetOld : old.hasHandle target = true) {c : NodeId}
    (new : old.hasHandle (.node c) = false) : ¬ now.Inside (.node c) target := by
  intro inside
  have settled : now.Settled (.node c) := fun k isList => Handle.noConfusion isList
  exact kept.outside oldOwned targetOld new (owned.within_of_inside settled inside).2

def MirrorsItems (now : Tree catalogue) : List Json → List (Option NodeId) → Prop :=
  List.Forall₂ fun json item => now.Mirrors json (.ofItem item)

theorem MirrorsItems.list {now : Tree catalogue} {documents : List Json} {l : ListId}
    (items : now.MirrorsItems documents (now.items l)) (present : now.hasList l = true) :
    now.Mirrors (.array documents) (.list l) := by
  refine .list present items.length_eq.symm fun i json held isDocument isItem => ?_
  obtain ⟨bound, rfl⟩ := List.getElem?_eq_some_iff.mp isDocument
  obtain ⟨itemBound, rfl⟩ := List.getElem?_eq_some_iff.mp isItem
  exact items.get bound itemBound

/-- Building documents puts an item for each at the end of a list that takes them, and changes nothing
else. -/
theorem buildItems_of_builds {documents : List Json} (builds : ∀ json ∈ documents, Builds catalogue json)
    (context : String) {l : ListId} {now : Tree catalogue} (formed : now.WellFormed)
    (present : now.hasList l = true)
    (conforms : ∀ json ∈ documents, catalogue.conformsItem (now.ownerField? l) json = true) :
    ∃ items after, buildItems context l documents now = (.ok (), after) ∧ after.WellFormed ∧
      now.SameBut after (.list l) ∧ now.SameLinks after ∧ after.items l = now.items l ++ items ∧
      after.MirrorsItems documents items := by
  induction documents generalizing now with
  | nil =>
    refine ⟨[], now, ?_, formed, .refl now _, (Keeps.refl now).sameLinks, ?_, .nil⟩
    · rw [buildItems]
      rfl
    · rw [List.append_nil]
  | cons json rest ih =>
    obtain ⟨value, built, isBuilt, mirrors, unheld⟩ :=
      builds json (List.mem_cons_self ..) context now formed
    obtain ⟨builtFormed, kept, isNew⟩ := formed.of_buildValue isBuilt
    obtain ⟨item, rfl, admitted⟩ := mirrors.exists_item (conforms json (List.mem_cons_self ..))
    have belongs : built.ownerField? l = now.ownerField? l :=
      kept.sameLinks.ownerField? (kept.sameBut (.list l)) formed.owned present
    obtain ⟨length, pushed, isPushed, pushedFormed, pushedItems, samePushed, linksPushed⟩ :=
      kept.pushValue_new formed.owned builtFormed present (belongs ▸ admitted) isNew unheld
    have same : now.SameBut pushed (.list l) := (kept.sameBut _).trans samePushed
    obtain ⟨items, after, isAfter, afterFormed, sameAfter, linksAfter, afterItems, mirrorsRest⟩ :=
      ih (fun json later => builds json (List.mem_cons_of_mem _ later)) pushedFormed
        (same.hasHandle (.list l) present) fun json later => by
          rw [linksPushed.ownerField? same formed.owned present]
          exact conforms json (List.mem_cons_of_mem _ later)
    refine ⟨item :: items, after, ?_, afterFormed, same.trans sameAfter,
      linksPushed.trans same linksAfter, ?_, .cons ?_ mirrorsRest⟩
    · rw [buildItems, bind_of_ok _ isBuilt, bind_of_ok _ isPushed, isAfter]
    · rw [afterItems, pushedItems, kept.items_eq present, List.append_assoc, List.singleton_append]
    · -- The list is elsewhere than the item, before it has the item and afterwards.
      apply (mirrors.sameBut samePushed _).sameBut sameAfter
      · intro handle isHandle
        rw [handle?_ofItem] at isHandle
        obtain ⟨c, rfl, rfl⟩ := Option.map_eq_some_iff.mp isHandle
        exact pushedFormed.not_inside_of_item (by simp [pushedItems])
      · intro handle isHandle
        have listOld : now.hasHandle (.list l) = true := present
        have itemNew := (isNew handle isHandle).2
        rw [handle?_ofItem] at isHandle
        obtain ⟨c, rfl, rfl⟩ := Option.map_eq_some_iff.mp isHandle
        exact kept.not_inside formed.owned builtFormed.owned listOld itemNew

end Arbor.Tree
