import Arbor.Proofs.Mirroring

/-! # Documents that conform can be built

A node is made blank and then grows field by field. `Growing` says how far it has come: the slots up to a
place show what the object says about their fields, and the others are still blank. Each step fills one
slot or the list in it, which leaves the other slots and what they hold alone. Where the document conforms,
no step is refused. -/

namespace Arbor.Tree

variable {catalogue : Catalogue}

open Arbor.Action

/-- A slot holds what is said about its field, and nothing if nothing is said. -/
def Shows (now : Tree catalogue) (value : Value) : Option Json → Prop
  | none => value = .undefined
  | some json => now.Mirrors json value

theorem Shows.sameBut {now after : Tree catalogue} {value : Value} {stated : Option Json}
    (shows : now.Shows value stated) {target : Handle} (same : now.SameBut after target)
    (apart : ∀ handle, value.handle? = some handle → ¬ now.Inside handle target) :
    after.Shows value stated := by
  cases stated with
  | none => exact shows
  | some json => exact Mirrors.sameBut shows same apart

/-- The node, of the given type, shows what the members say about its fields up to the given place. -/
structure Growing (now : Tree catalogue) (n : NodeId) (id : TypeId) (type : NodeType)
    (members : Record Json) (place : Nat) : Prop where
  formed : now.WellFormed
  present : now.hasNode n = true
  isType : now.typeOf n = id
  declared : catalogue.type? id = some type
  unheld : now.parent? (.node n) = none
  filled : ∀ (i : Nat) (field : Field) (value : Value), i < place → type.fields[i]? = some field →
    (now.slots n)[i]? = some value → now.Shows value (field.stated? members)
  blank : ∀ (i : Nat) (field : Field) (value : Value), place ≤ i → type.fields[i]? = some field →
    (now.slots n)[i]? = some value → now.Blank field value

namespace Growing

variable {now after : Tree catalogue} {n : NodeId} {id : TypeId} {type : NodeType}
  {members : Record Json} {place : Nat} {field : Field}

theorem fields_eq (growing : now.Growing n id type members place) : now.fields n = type.fields :=
  fields_eq_of_type? (growing.isType ▸ growing.declared)

theorem exists_blank (growing : now.Growing n id type members place)
    (declared : type.fields[place]? = some field) :
    ∃ value, (now.slots n)[place]? = some value ∧ now.Blank field value := by
  have bound := (List.getElem?_eq_some_iff.mp declared).1
  rw [← growing.fields_eq, ← growing.formed.owned.slots_length growing.present] at bound
  have held := List.getElem?_eq_getElem bound
  exact ⟨_, held, growing.blank place field _ (Nat.le_refl _) declared held⟩

theorem slot_unset (growing : now.Growing n id type members place)
    (declared : type.fields[place]? = some field) (noList : field.kind ≠ .list) :
    (now.slots n)[place]? = some .undefined := by
  obtain ⟨value, held, blank⟩ := growing.exists_blank declared
  cases blank with
  | list l isList => exact absurd isList noList
  | unset => exact held

theorem exists_slot_list (growing : now.Growing n id type members place)
    (declared : type.fields[place]? = some field) (isList : field.kind = .list) :
    ∃ l, (now.slots n)[place]? = some (.list l) ∧ now.items l = [] := by
  obtain ⟨value, held, blank⟩ := growing.exists_blank declared
  cases blank with
  | list l _ empty => exact ⟨l, held, empty⟩
  | unset noList => exact absurd isList noList

/-- The list in the slot of a list field is there, belongs to the field and is found by its name. -/
theorem exists_list (growing : now.Growing n id type members place)
    (distinct : (type.fields.map (·.name)).Nodup) (declared : type.fields[place]? = some field)
    (isList : field.kind = .list) :
    ∃ l, (now.slots n)[place]? = some (.list l) ∧ now.items l = [] ∧ now.hasList l = true ∧
      now.ownerField? l = some field ∧ now.list n field.name = .ok l := by
  obtain ⟨l, held, empty⟩ := growing.exists_slot_list declared isList
  have owner := growing.formed.owned.owner_iff.mpr held
  refine ⟨l, held, empty, hasList_of_owner? owner, ?_, ?_⟩
  · rw [ownerField?, owner, ← declared, ← growing.fields_eq]
    rfl
  · exact growing.formed.owned.list_eq_ok (growing.fields_eq ▸ distinct) (growing.fields_eq ▸ declared)
      held

/-- What a slot holds is held by the node. -/
theorem heldBy (growing : now.Growing n id type members place) {i : Nat} {handle : Handle}
    (held : (now.slots n)[i]? = some (.ofHandle handle)) :
    now.Settled handle ∧ now.HeldBy handle (.node n) := by
  have settled : now.Settled (.node n) := fun k isList => Handle.noConfusion isList
  obtain ⟨key, step⟩ := growing.formed.owned.exists_childAt handle (List.mem_of_getElem? held)
  obtain ⟨-, childSettled, link⟩ := growing.formed.owned.of_childAt step
  exact ⟨childSettled, link settled⟩

/-- Where one field is filled, what another slot holds is neither the target nor around it. -/
theorem not_inside (growing : now.Growing n id type members place) {target : Handle}
    (isTarget : target = .node n ∨ (now.slots n)[place]? = some (.ofHandle target)) {i : Nat}
    (isOther : i ≠ place) {handle : Handle} (held : (now.slots n)[i]? = some (.ofHandle handle)) :
    ¬ now.Inside handle target := by
  obtain ⟨settled, link⟩ := growing.heldBy held
  rcases isTarget with rfl | isTarget
  · exact growing.formed.not_inside_of_held settled link
  · apply growing.formed.not_inside_of_sibling settled link (growing.heldBy isTarget).2
    rintro rfl
    have slots := growing.formed.owned.nodup_slots n
    exact isOther (eq_of_nodup_filterMap slots held (handle?_ofHandle _) isTarget (handle?_ofHandle _))

/-- One field is filled, in the node itself or in the list that the slot holds. -/
theorem advance (growing : now.Growing n id type members place) (formed : after.WellFormed)
    {target : Handle} (same : now.SameBut after target)
    (isTarget : target = .node n ∨ (now.slots n)[place]? = some (.ofHandle target))
    (unheld : after.parent? (.node n) = none)
    (others : ∀ i : Nat, i ≠ place → (after.slots n)[i]? = (now.slots n)[i]?)
    (here : ∀ field value, type.fields[place]? = some field → (after.slots n)[place]? = some value →
      after.Shows value (field.stated? members)) :
    after.Growing n id type members (place + 1) := by
  constructor
  · exact formed
  · exact same.hasHandle (.node n) growing.present
  · rw [same.typeOf growing.present, growing.isType]
  · exact growing.declared
  · exact unheld
  · intro i field value inRange declared held
    by_cases isPlace : i = place
    · subst isPlace
      exact here field value declared held
    · rw [others i isPlace] at held
      apply (growing.filled i field value (by omega) declared held).sameBut same
      intro handle isHandle
      rw [handle?_eq_some.mp isHandle] at held
      exact growing.not_inside isTarget isPlace held
  · intro i field value inRange declared held
    have isPlace : i ≠ place := by omega
    rw [others i isPlace] at held
    cases growing.blank i field value (by omega) declared held with
    | list l isList empty =>
      have listPresent := hasList_of_owner? (growing.formed.owned.owner_iff.mpr held)
      apply Blank.list l isList
      have isElsewhere : ¬ now.Inside (.list l) target := growing.not_inside isTarget isPlace held
      rw [same.items listPresent fun isHere => isElsewhere (isHere ▸ .refl), empty]
    | unset noList => exact .unset noList

/-- A field of which nothing is said stays as it is. -/
theorem skip (growing : now.Growing n id type members place)
    (declared : type.fields[place]? = some field)
    (unsaid : field.stated? members = if field.kind = .list then some (.array []) else none) :
    now.Growing n id type members (place + 1) := by
  apply growing.advance growing.formed (.refl now (.node n)) (.inl rfl) growing.unheld
  · exact fun _ _ => rfl
  · intro other value isOther held
    rw [declared] at isOther
    cases isOther
    rw [unsaid]
    by_cases isList : field.kind = .list
    · obtain ⟨l, isSlot, empty⟩ := growing.exists_slot_list declared isList
      rw [isSlot] at held
      cases held
      rw [if_pos isList]
      apply MirrorsItems.list
      · rw [empty]
        exact .nil
      · exact hasList_of_owner? (growing.formed.owned.owner_iff.mpr isSlot)
    · rw [growing.slot_unset declared isList] at held
      cases held
      rw [if_neg isList]
      rfl

/-- Assigning something new fills the slot and changes nothing else. The node is elsewhere than what it
gets. -/
theorem put (growing : now.Growing n id type members place)
    (declared : type.fields[place]? = some field) (noList : field.kind ≠ .list)
    {built : Tree catalogue} (kept : now.Keeps built) (formed : built.WellFormed) {value : Value}
    (admitted : built.admits field value = true) (isNew : now.NewValue built value)
    (unheld : built.Unheld value) :
    ∃ after, Tree.assignSlot n place value built = (.ok (), after) ∧ after.WellFormed ∧
      after.slots n = (now.slots n).set place value ∧ built.SameBut after (.node n) ∧
      after.parent? (.node n) = none ∧
      ∀ handle, value.handle? = some handle → ¬ built.Inside handle (.node n) := by
  have slots : built.slots n = now.slots n := kept.slots_eq growing.present
  have held := growing.slot_unset declared noList
  have builtDeclared : (built.fields n)[place]? = some field := by
    rw [(kept.sameBut (.node n)).fields growing.present, growing.fields_eq, declared]
  obtain ⟨after, assigned, afterFormed, afterSlots, same, links⟩ :=
    kept.assignSlot_new growing.formed.owned formed growing.present builtDeclared noList
      (slots ▸ held) admitted isNew unheld
  refine ⟨after, assigned, afterFormed, slots ▸ afterSlots, same, ?_, ?_⟩
  · rw [links.parent (.node n) growing.present, growing.unheld]
  · intro handle isHandle
    have handleNew := (isNew handle isHandle).2
    cases fits_of_admits admitted isNew.hasValue with
    | list l isList => exact absurd isList noList
    | scalar | unset | null => contradiction
    | node c =>
      cases isHandle
      have nodeOld : now.hasHandle (.node n) = true := growing.present
      exact kept.not_inside growing.formed.owned formed.owned nodeOld handleNew

/-- A field that holds no list gets what is said about it. -/
theorem assignSlot (growing : now.Growing n id type members place)
    (declared : type.fields[place]? = some field) (noList : field.kind ≠ .list) {json : Json}
    (stated : field.stated? members = some json) {built : Tree catalogue} (kept : now.Keeps built)
    (formed : built.WellFormed) {value : Value} (mirrors : built.Mirrors json value)
    (admitted : built.admits field value = true) (isNew : now.NewValue built value)
    (unheld : built.Unheld value) :
    ∃ after, Tree.assignSlot n place value built = (.ok (), after) ∧
      after.Growing n id type members (place + 1) := by
  obtain ⟨after, assigned, afterFormed, afterSlots, same, afterUnheld, elsewhere⟩ :=
    growing.put declared noList kept formed admitted isNew unheld
  have bound : place < (now.slots n).length :=
    (List.getElem?_eq_some_iff.mp (growing.slot_unset declared noList)).1
  refine ⟨after, assigned, ?_⟩
  apply growing.advance afterFormed ((kept.sameBut _).trans same) (.inl rfl) afterUnheld
  · intro i isPlace
    rw [afterSlots, List.getElem?_set_ne (Ne.symm isPlace)]
  · intro other value' isOther inAfter
    rw [afterSlots, List.getElem?_set_self bound] at inAfter
    rw [declared] at isOther
    cases isOther
    cases inAfter
    rw [stated]
    exact mirrors.sameBut same elsewhere

/-- A list field gets an item for each of the documents that are said to be in it. -/
theorem buildItems (growing : now.Growing n id type members place)
    (distinct : (type.fields.map (·.name)).Nodup) (declared : type.fields[place]? = some field)
    (isList : field.kind = .list) {documents : List Json}
    (stated : field.stated? members = some (.array documents))
    (builds : ∀ json ∈ documents, Builds catalogue json)
    (conforms : ∀ json ∈ documents, catalogue.conformsItem (some field) json = true) (context : String) :
    ∃ after, (check (fun tree => tree.list n field.name) >>= fun list =>
        Tree.buildItems context list documents) now = (.ok (), after) ∧
      after.Growing n id type members (place + 1) := by
  obtain ⟨l, held, empty, present, belongs, found⟩ := growing.exists_list distinct declared isList
  obtain ⟨items, after, isAfter, afterFormed, same, links, afterItems, mirrors⟩ :=
    buildItems_of_builds builds context growing.formed present (belongs ▸ conforms)
  rw [empty, List.nil_append] at afterItems
  have slots : after.slots n = now.slots n := same.slots growing.present (by simp)
  refine ⟨after, by rw [check_bind_of_ok _ found, isAfter], ?_⟩
  apply growing.advance afterFormed same (.inr held)
  · rw [links.parent (.node n) growing.present, growing.unheld]
  · intro i _
    rw [slots]
  · intro other value isOther inAfter
    rw [slots, held] at inAfter
    rw [declared] at isOther
    cases isOther
    cases inAfter
    rw [stated]
    apply MirrorsItems.list (afterItems ▸ mirrors)
    exact same.hasHandle (.list l) present

end Growing

namespace Mirrors

variable {now : Tree catalogue} {json : Json} {value : Value}

theorem eq_scalar (mirrors : now.Mirrors json value) {s : Scalar} (written : json.scalar? = some s) :
    value = .scalar s := by
  cases mirrors with
  | scalar otherWritten =>
    rw [written] at otherWritten
    cases otherWritten
    rfl
  | list => contradiction
  | node present tagged =>
    obtain ⟨name, tag, -⟩ := Catalogue.taggedType?_eq_some_iff.mp tagged
    rw [Json.scalar?, if_pos (Record.contains_of_get? tag)] at written
    contradiction

end Mirrors

theorem scalar?_document (regex : Regex) : regex.document.scalar? = some (.regex regex) := by
  have untyped : Record.contains [("pattern", Json.string regex.pattern), ("flags", .string regex.flags)]
      typeKey = false := by
    simp [Record.contains, typeKey]
  rw [Regex.document, Json.scalar?, untyped, if_neg Bool.false_ne_true, regexWritten_eq, regexOf?_toJson]
  rfl

/-- An empty object describes nothing. -/
theorem siblingRegex?_of_conformsItem {owner : Option Field} {raw : Json}
    (conforms : catalogue.conformsItem owner raw = true) (members : Record Json) :
    siblingRegex? members raw = none := by
  rw [siblingRegex?.eq_def]
  split
  · rcases Catalogue.conformsItem_iff.mp conforms with ⟨isNull, -⟩ | ⟨id, described, -⟩
    · contradiction
    · obtain ⟨members, type, ⟨⟩, tagged, -⟩ := Catalogue.describedType?_eq_some_iff.mp described
      contradiction
  · rfl

theorem admits_ofItem (now : Tree catalogue) {field : Field} (isNode : field.kind = .node)
    (item : Option NodeId) : now.admits field (.ofItem item) = now.admitsItem field item := by
  cases item <;> simp [Tree.admits, isNode, Value.ofItem, admitsItem]

theorem admits_scalar (now : Tree catalogue) {field : Field}
    (holdsScalars : field.kind = .native ∨ field.kind = .strict) (s : Scalar) :
    now.admits field (.scalar s) = field.admitsScalar s := by
  rcases holdsScalars with kind | kind <;> simp [Tree.admits, kind, Field.admitsValue]

/-- What mirrors the statement about a field is admitted by the field, where the member conforms. -/
theorem Mirrors.admits {now : Tree catalogue} {json : Json} {value : Value} (mirrors : now.Mirrors json value)
    {members : Record Json} {field : Field} (noList : field.kind ≠ .list)
    (stated : field.stated? members = some json)
    (conforms : catalogue.conformsMember members field = true) : now.admits field value = true := by
  rw [Field.stated?] at stated
  split at stated
  · rw [if_neg noList] at stated
    contradiction
  next raw found =>
  rw [if_neg noList, regexBeside_eq] at stated
  rw [Catalogue.conformsMember_of_some found] at conforms
  cases kind : field.kind with
  | list => exact absurd kind noList
  | node =>
    simp only [kind] at conforms
    simp only [siblingRegex?_of_conformsItem conforms] at stated
    cases stated
    obtain ⟨item, rfl, admitted⟩ := mirrors.exists_item conforms
    rw [admits_ofItem now kind]
    exact admitted field rfl
  | native | strict =>
    simp only [kind] at conforms
    have scalar : ∃ s, json.scalar? = some s ∧ field.admitsScalar s = true := by
      split at stated
      · next regex beside =>
        cases stated
        rw [beside] at conforms
        exact ⟨.regex regex, scalar?_document regex, conforms⟩
      · next alone =>
        cases stated
        rw [alone, Option.map_none, Option.none_or] at conforms
        exact (Option.any_eq_true ..).mp conforms
    obtain ⟨s, written, admitted⟩ := scalar
    rw [mirrors.eq_scalar written, admits_scalar now (by simp [kind]), admitted]

private theorem builds_scalar {json : Json} {s : Scalar} (written : json.scalar? = some s) :
    Builds catalogue json := by
  intro context now formed
  refine ⟨.scalar s, now, ?_, .scalar written, by rintro _ ⟨⟩⟩
  cases json with
  | null | bool | number | string =>
    cases written
    rw [buildValue]
    rfl
  | array => contradiction
  | object members =>
    rw [Json.scalar?] at written
    rw [buildValue]
    split at written
    · contradiction
    · next untyped =>
      obtain ⟨regex, literal, rfl⟩ := Option.map_eq_some_iff.mp written
      rw [regexWritten_eq] at literal
      rw [if_neg untyped, literal]
      rfl

section Members

variable {now : Tree catalogue} {n : NodeId} {id : TypeId} {type : NodeType} {members : Record Json}
  (distinct : (type.fields.map (·.name)).Nodup)
  (inner : ∀ json id, sizeOf json < sizeOf members → catalogue.describedType? json = some id →
    Builds catalogue json)
include inner

private theorem builds_of_conformsItem {owner : Option Field} {json : Json}
    (smaller : sizeOf json < sizeOf members) (conforms : catalogue.conformsItem owner json = true) :
    Builds catalogue json := by
  rcases Catalogue.conformsItem_iff.mp conforms with ⟨rfl, -⟩ | ⟨id, described, -⟩
  · exact builds_scalar rfl
  · exact inner json id smaller described

include distinct

theorem Growing.buildField {place : Nat} {field : Field} (growing : now.Growing n id type members place)
    (declared : type.fields[place]? = some field) {raw : Json}
    (found : members.get? field.name = some raw)
    (conforms : catalogue.conformsMember members field = true) (context : String) :
    ∃ after, Tree.buildField n context members place field raw now = (.ok (), after) ∧
      after.Growing n id type members (place + 1) := by
  have smaller := Record.sizeOf_get?_lt found
  have memberConforms := conforms
  rw [Catalogue.conformsMember_of_some found] at memberConforms
  rw [Tree.buildField.eq_def]
  by_cases isList : field.kind = .list
  · rw [if_pos isList]
    simp only [isList] at memberConforms
    cases raw with
    | null =>
      refine ⟨now, rfl, growing.skip declared ?_⟩
      simp [Field.stated?, found, isList, Json.isNull]
    | array documents =>
      have each := Catalogue.conformsList_array.mp memberConforms
      apply growing.buildItems distinct declared isList _ _ each
      · simp [Field.stated?, found, isList, Json.isNull]
      · intro json isDocument
        have less := Json.sizeOf_lt_array isDocument
        exact builds_of_conformsItem inner (less.trans smaller) (each json isDocument)
    | bool | number | string | object => simp [Catalogue.conformsList] at memberConforms
  · rw [if_neg isList]
    cases beside : siblingRegex? members raw with
    | some regex =>
      have stated : field.stated? members = some regex.document := by
        simp [Field.stated?, found, isList, beside]
      have mirrors : now.Mirrors regex.document (.scalar (.regex regex)) :=
        .scalar (scalar?_document regex)
      exact growing.assignSlot declared isList stated (.refl now) growing.formed mirrors
        (mirrors.admits isList stated conforms) (newValue_scalar _) (by rintro _ ⟨⟩)
    | none =>
      have stated : field.stated? members = some raw := by
        simp [Field.stated?, found, isList, beside]
      have builds : Builds catalogue raw := by
        cases kind : field.kind with
        | list => exact absurd kind isList
        | node =>
          simp only [kind] at memberConforms
          exact builds_of_conformsItem inner smaller memberConforms
        | native | strict =>
          simp only [kind, beside, Option.map_none, Option.none_or] at memberConforms
          obtain ⟨s, written, -⟩ := (Option.any_eq_true ..).mp memberConforms
          exact builds_scalar written
      obtain ⟨value, built, isBuilt, mirrors, unheld⟩ := builds context now growing.formed
      obtain ⟨builtFormed, kept, isNew⟩ := growing.formed.of_buildValue isBuilt
      obtain ⟨after, assigned, next⟩ := growing.assignSlot declared isList stated kept builtFormed mirrors
        (mirrors.admits isList stated conforms) isNew unheld
      exact ⟨after, (bind_of_ok _ isBuilt _).trans assigned, next⟩

/-- Field by field, the node comes to show all that is said. -/
theorem Growing.buildFields {place : Nat} (growing : now.Growing n id type members place)
    (conforms : ∀ field ∈ type.fields, catalogue.conformsMember members field = true) (name : String)
    {rest : List Field} (isRest : type.fields.drop place = rest) :
    ∃ after, Tree.buildFields n name members place rest now = (.ok (), after) ∧
      after.Growing n id type members (place + rest.length) := by
  induction rest generalizing now place with
  | nil =>
    refine ⟨now, ?_, growing⟩
    rw [Tree.buildFields]
    rfl
  | cons field rest ih =>
    obtain ⟨declared, isTail⟩ := getElem?_and_drop_of_drop_eq_cons isRest
    have length : place + (field :: rest).length = place + 1 + rest.length := by
      rw [List.length_cons]
      omega
    rw [length]
    cases found : members.get? field.name with
    | none =>
      rw [buildFields_of_none found]
      apply ih (growing.skip declared _) isTail
      rw [Field.stated?, found]
    | some raw =>
      have conformsHere := conforms field (List.mem_of_getElem? declared)
      obtain ⟨middle, built, next⟩ := growing.buildField distinct inner declared found conformsHere
        (name ++ "." ++ field.name)
      obtain ⟨after, builtRest, done⟩ := ih next isTail
      refine ⟨after, ?_, done⟩
      rw [buildFields_of_some found, bind_of_ok _ built, builtRest]

end Members

section Growth

/-- A new node shows nothing yet. -/
theorem growing_allocNode {now : Tree catalogue} (formed : now.WellFormed) {id : TypeId}
    {type : NodeType} (declared : catalogue.type? id = some type) (concrete : type.isAbstract = false)
    (members : Record Json) {made : Tree catalogue} (isMade : made = (now.allocNode id type.fields).2) :
    made.Growing ⟨now.nodes.size⟩ id type members 0 := by
  have isType : made.typeOf ⟨now.nodes.size⟩ = id := by
    rw [isMade, typeOf_allocNode, if_pos rfl]
  -- A new node is a copy of itself of which nothing is filled in.
  have filling : Filling made made made ⟨now.nodes.size⟩ ⟨now.nodes.size⟩ 0 :=
    filling_allocNode formed (isType.symm ▸ declared) concrete (isType.symm ▸ isMade)
  constructor
  · exact filling.formed
  · exact filling.present
  · exact isType
  · exact declared
  · exact filling.unheld
  · intro i _ _ none
    omega
  · rw [← fields_eq_of_type? (isType.symm ▸ declared)]
    exact filling.blank

/-- A node that shows all that is said mirrors the object, once it has the metadata. -/
theorem Growing.mirrors {now : Tree catalogue} {n : NodeId} {id : TypeId} {type : NodeType}
    {members : Record Json} (growing : now.Growing n id type members type.fields.length)
    (tagged : catalogue.taggedType? members = some (id, type)) :
    (now.setMetadata n (type.unclaimed members)).Mirrors (.object members) (.node n) := by
  have same : now.SameBut (now.setMetadata n (type.unclaimed members)) (.node n) :=
    (SameBut.refl now _).modifyNode fun _ => rfl
  have slots : (now.setMetadata n (type.unclaimed members)).slots n = now.slots n := by
    rw [setMetadata, slots_modifyNode]
    exact fun _ => rfl
  have shows (i : Nat) (field : Field) (value : Value) (declared : type.fields[i]? = some field)
      (held : (now.slots n)[i]? = some value) :
      (now.setMetadata n (type.unclaimed members)).Shows value (field.stated? members) := by
    have bound := (List.getElem?_eq_some_iff.mp declared).1
    apply (growing.filled i field value bound declared held).sameBut same
    intro handle isHandle
    rw [handle?_eq_some.mp isHandle] at held
    obtain ⟨settled, link⟩ := growing.heldBy held
    exact growing.formed.not_inside_of_held settled link
  refine .node (same.hasHandle (.node n) growing.present) tagged ?_ ?_ ?_ ?_
  · rw [same.typeOf growing.present, growing.isType]
  · obtain ⟨entry, there⟩ := hasNode_iff.mp growing.present
    rw [metadata, setMetadata, node?_modifyNode, if_pos rfl, there]
    rfl
  · intro i field value declared held unsaid
    have shown := shows i field value declared (slots ▸ held)
    rwa [unsaid] at shown
  · intro i field value raw declared held stated
    have shown := shows i field value declared (slots ▸ held)
    rwa [stated] at shown

/-- An object that conforms can be built if what is smaller can be. -/
theorem builds_object (compiled : catalogue.Compiled) {members : Record Json} {id : TypeId}
    {type : NodeType} (tagged : catalogue.taggedType? members = some (id, type))
    (conforms : ∀ field ∈ type.fields, catalogue.conformsMember members field = true)
    (inner : ∀ json id, sizeOf json < sizeOf members → catalogue.describedType? json = some id →
      Builds catalogue json) : Builds catalogue (.object members) := by
  intro context now formed
  obtain ⟨name, tag, named⟩ := Catalogue.taggedType?_eq_some_iff.mp tagged
  obtain ⟨declared, concrete⟩ := concreteType_eq_ok named
  have distinct := compiled.nodup_fields declared
  have start := growing_allocNode formed declared concrete members rfl
  obtain ⟨filled, built, growing⟩ :=
    start.buildFields distinct inner conforms type.name (List.drop_zero ..)
  rw [Nat.zero_add] at growing
  have made : buildNode members now
      = (.ok ⟨now.nodes.size⟩, (now.allocNode id type.fields).2) := by
    rw [buildNode, tag]
    exact makeNode_of_concreteType named now
  have typeName : (now.allocNode id type.fields).2.typeName ⟨now.nodes.size⟩ = type.name := by
    rw [Tree.typeName, start.isType, Catalogue.typeName, declared]
    rfl
  have keeps : keepMetadata ⟨now.nodes.size⟩ members filled
      = (.ok (), filled.setMetadata ⟨now.nodes.size⟩ (type.unclaimed members)) := by
    rw [keepMetadata, growing.fields_eq]
    rfl
  refine ⟨.node ⟨now.nodes.size⟩, _, ?_, growing.mirrors tagged, ?_⟩
  · rw [buildValue, if_pos (Record.contains_of_get? tag), bind_of_ok _ made, look_bind, look_bind,
      start.fields_eq, typeName, bind_of_ok _ built, bind_of_ok _ keeps]
    rfl
  · rintro _ ⟨⟩
    rw [setMetadata, parent?_modifyNode]
    · exact growing.unheld
    · exact fun _ => rfl

theorem builds_of_described (compiled : catalogue.Compiled) {json : Json} {id : TypeId}
    (described : catalogue.describedType? json = some id) : Builds catalogue json := by
  induction bound : sizeOf json using Nat.strong_induction_on generalizing json id with
  | _ bound ih =>
    subst bound
    obtain ⟨members, type, rfl, tagged, conforms⟩ := Catalogue.describedType?_eq_some_iff.mp described
    apply builds_object compiled tagged conforms
    intro json id smaller described
    apply ih _ _ described rfl
    rw [Json.object.sizeOf_spec]
    omega

/-- An array of items is built as a free list. -/
theorem builds_array (compiled : catalogue.Compiled) {documents : List Json}
    (conforms : ∀ json ∈ documents, catalogue.conformsItem none json = true) :
    Builds catalogue (.array documents) := by
  intro context now formed
  have builds (json : Json) (isDocument : json ∈ documents) : Builds catalogue json := by
    rcases Catalogue.conformsItem_iff.mp (conforms json isDocument) with ⟨rfl, -⟩ | ⟨id, described, -⟩
    · exact builds_scalar rfl
    · exact builds_of_described compiled described
  have free := now.owner?_createListOf_self []
  have noField : (now.createListOf []).2.ownerField? ⟨now.lists.size⟩ = none := by
    rw [ownerField?, free]
    rfl
  have present := now.hasList_createListOf_self []
  obtain ⟨items, after, built, afterFormed, same, links, afterItems, mirrors⟩ :=
    buildItems_of_builds builds context (formed.edit (.list [] rfl)) present (noField ▸ conforms)
  rw [items_createListOf, if_pos rfl, List.nil_append] at afterItems
  refine ⟨.list ⟨now.lists.size⟩, after, ?_, ?_, ?_⟩
  · rw [buildValue, bind_of_ok _ (make_createList now), bind_of_ok _ built]
    rfl
  · exact (afterItems ▸ mirrors : after.MirrorsItems documents _).list (same.hasHandle (.list _) present)
  · rintro _ ⟨⟩
    rw [links.parent (.list _) present, parent?, free]
    rfl

/-- A document that conforms can be built. -/
theorem builds_of_conforms (compiled : catalogue.Compiled) {json : Json}
    (conforms : catalogue.conforms json = true) : Builds catalogue json := by
  rw [Catalogue.conforms.eq_def] at conforms
  split at conforms
  · exact builds_array compiled (List.all_eq_true.mp conforms)
  · rcases Bool.or_eq_true_iff.mp conforms with isScalar | isNode
    · obtain ⟨s, written⟩ := Option.isSome_iff_exists.mp isScalar
      exact builds_scalar written
    · obtain ⟨id, described⟩ := Option.isSome_iff_exists.mp isNode
      exact builds_of_described compiled described

end Growth

end Arbor.Tree
