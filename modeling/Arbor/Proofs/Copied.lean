import Arbor.Proofs.Attach
import Arbor.Proofs.Conformance
import Arbor.Proofs.WholeNumber
import Arbor.Proofs.Written

/-! # Copies

A copy has the shape of its original: nodes of the same types with the same metadata, fields set alike,
lists as long and with holes at the same places, and the same scalars but for the sign of zero. It is
made of new nodes and lists only; what counts as new is left open here, as it changes while a copy grows.
A copy stays one as long as changes are made to something else. -/

namespace Arbor

/-- The scalar as it is read back: zero has no sign. -/
def Scalar.plain : Scalar → Scalar
  | .number x => .number (if x == 0 then 0 else x)
  | scalar => scalar

theorem Accept.admitsPresent_zero {accept : Accept} {x : Float} (isZero : (x == 0) = true)
    (admitted : accept.admitsPresent (.number x) = true) :
    accept.admitsPresent (.number 0) = true := by
  cases accept with
  | literal expected =>
    cases expected with
    | number a =>
      have same : (a == x) = true := admitted
      exact (PartialEquivBEq.trans same isZero : (a == 0) = true)
    | undefined | null | boolean | string | regex => exact admitted
  | primitive | type | category | null | undefined => exact admitted

theorem Accept.admitsPresent_plain {accept : Accept} {s : Scalar}
    (admitted : accept.admitsPresent s = true) : accept.admitsPresent s.plain = true := by
  cases s with
  | number x =>
    rw [Scalar.plain]
    split
    · next isZero => exact admitsPresent_zero isZero admitted
    · exact admitted
  | undefined | null | boolean | string | regex => exact admitted

theorem Field.admitsScalar_plain {field : Field} {s : Scalar} (admitted : field.admitsScalar s = true) :
    field.admitsScalar s.plain = true := by
  cases s with
  | number x =>
    obtain ⟨accept, entry, admitted⟩ := List.any_eq_true.mp admitted
    exact List.any_eq_true.mpr ⟨accept, entry, Accept.admitsPresent_plain admitted⟩
  | undefined | null | boolean | string | regex => exact admitted

namespace Tree

variable {catalogue : Catalogue}

/-- The second value, in the tree now, is a copy of the first, in the old one, made of what is new. -/
inductive Copied (old now : Tree catalogue) (new : Handle → Prop) : Value → Value → Prop where
  | scalar (s : Scalar) : Copied old now new (.scalar s) (.scalar s.plain)
  | node {n copy : NodeId} (isNew : new (.node copy)) (present : now.hasNode copy = true)
      (type : now.typeOf copy = old.typeOf n)
      (metadata : (old.metadata n).Same (now.metadata copy))
      (length : (now.slots copy).length = (old.slots n).length)
      (slots : ∀ (i : Nat) (value other : Value), (old.slots n)[i]? = some value →
        (now.slots copy)[i]? = some other → Copied old now new value other) :
      Copied old now new (.node n) (.node copy)
  | list {l copy : ListId} (isNew : new (.list copy)) (present : now.hasList copy = true)
      (length : (now.items copy).length = (old.items l).length)
      (items : ∀ (i : Nat) (item other : Option NodeId), (old.items l)[i]? = some item →
        (now.items copy)[i]? = some other → Copied old now new (.ofItem item) (.ofItem other)) :
      Copied old now new (.list l) (.list copy)

/-- The second is the first, or child steps lead to it. -/
def Inside (tree : Tree catalogue) : Handle → Handle → Prop :=
  Relation.ReflTransGen fun outer inner => ∃ key, tree.ChildAt outer key inner

namespace Copied

variable {old now after : Tree catalogue} {new : Handle → Prop} {value copy : Value}

theorem weaken (copied : Copied old now new value copy) {weaker : Handle → Prop}
    (implies : ∀ handle, new handle → weaker handle) : Copied old now weaker value copy := by
  induction copied with
  | scalar s => exact .scalar s
  | node isNew present type metadata length slots ih =>
    exact .node (implies _ isNew) present type metadata length ih
  | list isNew present length items ih => exact .list (implies _ isNew) present length ih

/-- What is not new may change. -/
theorem sameBut (copied : Copied old now new value copy) {target : Handle}
    (same : now.SameBut after target) (apart : ¬ new target) : Copied old after new value copy := by
  induction copied with
  | scalar s => exact .scalar s
  | @node n copy isNew present type metadata length slots ih =>
    have other : .node copy ≠ target := by
      rintro rfl
      exact apart isNew
    refine .node isNew (same.hasHandle (.node copy) present) ?_ ?_ ?_ ?_
    · rw [same.typeOf present, type]
    · rwa [same.metadata present other]
    · rw [same.slots present other, length]
    · rw [same.slots present other]
      exact ih
  | @list l copy isNew present length items ih =>
    have other : .list copy ≠ target := by
      rintro rfl
      exact apart isNew
    refine .list isNew (same.hasHandle (.list copy) present) ?_ ?_
    · rw [same.items present other, length]
    · rw [same.items present other]
      exact ih

/-- The copy of an item is an item. -/
theorem exists_ofItem {item : Option NodeId} (copied : Copied old now new (.ofItem item) copy) :
    ∃ other, copy = .ofItem other := by
  cases item with
  | none =>
    cases copied
    exact ⟨none, rfl⟩
  | some c =>
    cases copied with
    | @node _ copy => exact ⟨some copy, rfl⟩

theorem admits (copied : Copied old now new value copy) {field : Field} (fits : old.Fits field value)
    (noList : field.kind ≠ .list) : now.admits field copy = true := by
  cases fits with
  | list l isList => exact absurd isList noList
  | scalar s holdsScalars admitted =>
    cases copied
    have plain := Field.admitsScalar_plain admitted
    rcases holdsScalars with kind | kind <;> simpa [Tree.admits, kind, Field.admitsValue] using plain
  | unset isNode =>
    cases copied
    simp [Tree.admits, isNode, Scalar.plain]
  | null isNode admitted =>
    cases copied
    simpa [Tree.admits, isNode, Scalar.plain] using admitted
  | node c isNode present admitted =>
    cases copied with
    | node _ _ type => simpa [Tree.admits, isNode, type] using admitted

theorem admitsItem {item other : Option NodeId}
    (copied : Copied old now new (.ofItem item) (.ofItem other)) {field : Field}
    (fits : old.FitsItem field item) : now.admitsItem field other = true := by
  cases fits with
  | hole admitted =>
    cases other with
    | none => exact admitted
    | some c => nomatch copied
  | node c present admitted =>
    cases other with
    | none => nomatch copied
    | some copy =>
      cases copied with
      | node _ _ type => simpa [Tree.admitsItem, type] using admitted

theorem exists_of_childAt {outer inner : Handle} {key : Key}
    (copied : Copied old now new value (.ofHandle outer)) (step : now.ChildAt outer key inner) :
    ∃ original, Copied old now new original (.ofHandle inner) := by
  cases step with
  | @slot copy i field held _ declared inSlot isHandle =>
    cases copied with
    | @node n _ isNew present type metadata length slots =>
      obtain ⟨bound, -⟩ := List.getElem?_eq_some_iff.mp inSlot
      rw [length] at bound
      have whole := slots i _ held (List.getElem?_eq_getElem bound) inSlot
      rw [handle?_eq_some.mp isHandle] at whole
      exact ⟨_, whole⟩
  | @item copy i c held =>
    cases copied with
    | @list l _ isNew present length items =>
      obtain ⟨bound, -⟩ := List.getElem?_eq_some_iff.mp held
      rw [length] at bound
      exact ⟨_, items i _ _ (List.getElem?_eq_getElem bound) held⟩

theorem new_of_inside {outer inner : Handle} (copied : Copied old now new value (.ofHandle outer))
    (inside : now.Inside outer inner) : new inner := by
  have part : ∃ original, Copied old now new original (.ofHandle inner) := by
    induction inside with
    | refl => exact ⟨value, copied⟩
    | tail _ step ih =>
      obtain ⟨original, copied⟩ := ih
      obtain ⟨key, step⟩ := step
      exact copied.exists_of_childAt step
  obtain ⟨original, copied⟩ := part
  cases inner with
  | node copy =>
    cases copied with
    | node isNew => exact isNew
  | list copy =>
    cases copied with
    | list isNew => exact isNew

end Copied

end Tree
end Arbor
