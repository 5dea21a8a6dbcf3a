import Arbor.Proofs.Growing

/-! # Exactly the documents that conform can be built

What building gets to was checked on the way: a field admits what was assigned to it, and a list what was
put into it. What was built before mirrors its document, so the document of each part can be read off from
what passed the check. The induction is on the size of the document, and a part of a document that was
built was built itself. -/

namespace Arbor

namespace Action

variable {catalogue : Catalogue} {α β : Type}

theorem exists_of_bind_eq_ok {first : Action catalogue α} {next : α → Action catalogue β}
    {tree after : Tree catalogue} {b : β} (done : (first >>= next) tree = (.ok b, after)) :
    ∃ a middle, first tree = (.ok a, middle) ∧ next a middle = (.ok b, after) := by
  rcases made : first tree with ⟨outcome, middle⟩
  cases outcome with
  | error error =>
    rw [bind_of_error tree made] at done
    cases done
  | ok a =>
    rw [bind_of_ok tree made] at done
    exact ⟨a, middle, rfl, done⟩

theorem eq_ok_of_whole {edit : Tree catalogue → Except TreeError (α × Tree catalogue)}
    {tree after : Tree catalogue} {a : α} (done : whole edit tree = (.ok a, after)) :
    edit tree = .ok (a, after) := by
  cases made : edit tree with
  | error error =>
    rw [whole_of_error made] at done
    cases done
  | ok pair =>
    rw [whole_of_ok made] at done
    cases done
    rfl

end Action

namespace Tree

variable {catalogue : Catalogue}

open Arbor.Action

theorem admits_of_assignSlot {tree after : Tree catalogue} {n : NodeId} {place : Nat} {value : Value}
    (done : assignSlot n place value tree = (.ok (), after)) :
    ∃ field, (tree.fields n)[place]? = some field ∧ field.kind ≠ .list ∧
      tree.admits field value = true := by
  rw [assignSlot_eq_whole] at done
  obtain ⟨changed, put, -⟩ := map_eq_ok.mp (eq_ok_of_whole done)
  rw [setSlot.eq_def] at put
  split at put
  · contradiction
  · next passed => exact checkPlace_eq_ok_iff.mp passed

theorem WellFormed.admitsItem_of_pushValue {tree after : Tree catalogue} (formed : tree.WellFormed)
    {l : ListId} {value : Value} {length : Nat} (done : pushValue l value tree = (.ok length, after)) :
    ∃ item, value = .ofItem item ∧
      ∀ field, tree.ownerField? l = some field → tree.admitsItem field item = true := by
  rw [pushValue_eq_whole] at done
  have pushed := eq_ok_of_whole done
  rw [push] at pushed
  split at pushed
  · contradiction
  next item isItem =>
  refine ⟨item, ?_, fun field belongs => ?_⟩
  · rw [listItem.eq_def] at isItem
    split at isItem
    · cases isItem
      rfl
    · cases isItem
      rfl
    · contradiction
  · have isOwned : tree.isOwned l = true := by
      obtain ⟨owner, owns, -⟩ := Option.bind_eq_some_iff.mp belongs
      rw [isOwned, owns]
      rfl
    rw [append] at pushed
    split at pushed
    · contradiction
    next spliced =>
    simp only [splice, isOwned, if_true, distinctItems_singleton] at spliced
    split at spliced
    · contradiction
    next passed =>
    exact (formed.accepted_of_checkItems belongs passed).1 item (List.mem_singleton_self item)

theorem createNode_of_buildNode {tree after : Tree catalogue} {members : Record Json} {n : NodeId}
    (done : buildNode members tree = (.ok n, after)) :
    ∃ name, members.get? typeKey = some (.string name) ∧ tree.createNode name = .ok (n, after) := by
  rw [buildNode] at done
  cases tag : members.get? typeKey with
  | none => simp [tag, fail] at done
  | some json =>
    cases json with
    | string name =>
      rw [tag] at done
      simp only [makeNode, makeFound_eq_whole] at done
      exact ⟨name, rfl, eq_ok_of_whole done⟩
    | null | bool | number | array | object => simp [tag, fail] at done

namespace Mirrors

variable {now : Tree catalogue} {json : Json}

theorem scalar?_eq {s : Scalar} (mirrors : now.Mirrors json (.scalar s)) : json.scalar? = some s := by
  cases mirrors with
  | scalar written => exact written

theorem eq_null_of_null (mirrors : now.Mirrors json .null) : json = .null := by
  have written := mirrors.scalar?_eq
  cases json with
  | null => rfl
  | bool | number | string | array => contradiction
  | object members =>
    rw [Json.scalar?] at written
    split at written
    · contradiction
    · obtain ⟨regex, -, isNull⟩ := Option.map_eq_some_iff.mp written
      contradiction

/-- A document that conforms and gave a node describes a node of that type. -/
theorem describedType?_eq {n : NodeId} (mirrors : now.Mirrors json (.node n))
    (conforms : catalogue.conforms json = true) : catalogue.describedType? json = some (now.typeOf n) := by
  cases mirrors with
  | @node members _ id type present tagged isType =>
    obtain ⟨name, tag, -⟩ := Catalogue.taggedType?_eq_some_iff.mp tagged
    rw [Catalogue.conforms, Json.scalar?, if_pos (Record.contains_of_get? tag)] at conforms
    · obtain ⟨other, described⟩ := Option.isSome_iff_exists.mp conforms
      obtain ⟨_, otherType, ⟨⟩, otherTagged, -⟩ := Catalogue.describedType?_eq_some_iff.mp described
      rw [tagged] at otherTagged
      cases otherTagged
      rw [described, isType]
    · exact fun _ isArray => Json.noConfusion isArray

theorem conformsItem {item : Option NodeId} (mirrors : now.Mirrors json (.ofItem item))
    (conforms : catalogue.conforms json = true) {owner : Option Field}
    (admitted : ∀ field, owner = some field → now.admitsItem field item = true) :
    catalogue.conformsItem owner json = true := by
  rw [Catalogue.conformsItem_iff]
  cases item with
  | none => exact .inl ⟨mirrors.eq_null_of_null, admitted⟩
  | some c => exact .inr ⟨now.typeOf c, mirrors.describedType?_eq conforms, admitted⟩

/-- A document is what a field takes if what it gave was admitted. -/
theorem conformsMember {value : Value} (mirrors : now.Mirrors json value)
    (conforms : catalogue.conforms json = true) {members : Record Json} {field : Field}
    (noList : field.kind ≠ .list) (found : members.get? field.name = some json)
    (alone : siblingRegex? members json = none) (admitted : now.admits field value = true) :
    catalogue.conformsMember members field = true := by
  rw [Catalogue.conformsMember_of_some found]
  cases kind : field.kind with
  | list => exact absurd kind noList
  | node =>
    obtain ⟨item, rfl⟩ : ∃ item, value = .ofItem item := by
      cases value with
      | node c => exact ⟨some c, rfl⟩
      | list l => simp [Tree.admits, kind] at admitted
      | scalar s =>
        have isSet := mirrors.isSet
        cases s with
        | null => exact ⟨none, rfl⟩
        | undefined => contradiction
        | boolean | number | string | regex => simp [Tree.admits, kind] at admitted
    rw [admits_ofItem now kind] at admitted
    exact mirrors.conformsItem conforms (by rintro _ ⟨⟩; exact admitted)
  | native | strict =>
    obtain ⟨s, rfl⟩ : ∃ s, value = .scalar s := by
      cases value with
      | scalar s => exact ⟨s, rfl⟩
      | node c => simp [Tree.admits, kind, Field.admitsValue] at admitted
      | list l => simp [Tree.admits, kind, Field.admitsValue] at admitted
    rw [admits_scalar now (by simp [kind])] at admitted
    rw [alone, Option.map_none, Option.none_or, mirrors.scalar?_eq, Option.any_some]
    exact admitted

end Mirrors

/-- Wherever the document was built, it conforms. -/
def Sound (catalogue : Catalogue) (json : Json) : Prop :=
  ∀ (context : String) (now after : Tree catalogue) (value : Value), now.WellFormed →
    buildValue context json now = (.ok value, after) → catalogue.conforms json = true

/-- A document that conforms gave an item, which was then put at the end of a list. -/
structure Appended (now middle pushed : Tree catalogue) (l : ListId) (json : Json)
    (item : Option NodeId) : Prop where
  formed : middle.WellFormed
  kept : now.Keeps middle
  isNew : now.NewValue middle (.ofItem item)
  conforms : catalogue.conforms json = true
  mirrors : middle.Mirrors json (.ofItem item)
  admitted : ∀ field, middle.ownerField? l = some field → middle.admitsItem field item = true
  isPushed : ∃ length, pushValue l (.ofItem item) middle = (.ok length, pushed)
  pushedFormed : pushed.WellFormed
  items : pushed.items l = now.items l ++ [item]
  same : middle.SameBut pushed (.list l)
  links : now.SameLinks pushed

theorem Appended.sameBut {now middle pushed : Tree catalogue} {l : ListId} {json : Json}
    {item : Option NodeId} (appended : now.Appended middle pushed l json item) :
    now.SameBut pushed (.list l) :=
  (appended.kept.sameBut _).trans appended.same

section Sound

variable (compiled : catalogue.Compiled)
include compiled

/-- What was built from a document that conforms mirrors it. -/
theorem mirrors_of_built {json : Json} (conforms : catalogue.conforms json = true) {context : String}
    {now after : Tree catalogue} {value : Value} (formed : now.WellFormed)
    (built : buildValue context json now = (.ok value, after)) :
    after.Mirrors json value ∧ after.Unheld value := by
  obtain ⟨_, _, isBuilt, effect⟩ := builds_of_conforms compiled conforms context now formed
  rw [built] at isBuilt
  cases isBuilt
  exact effect

/-- Where items were built, the first document gave an item that was put at the end of the list. -/
theorem exists_appended {json : Json} {rest : List Json} {context : String} {l : ListId}
    {now after : Tree catalogue} (sound : Sound catalogue json) (formed : now.WellFormed)
    (present : now.hasList l = true)
    (built : buildItems context l (json :: rest) now = (.ok (), after)) :
    ∃ item middle pushed, buildValue context json now = (.ok (.ofItem item), middle) ∧
      buildItems context l rest pushed = (.ok (), after) ∧ now.Appended middle pushed l json item := by
  rw [buildItems] at built
  obtain ⟨value, middle, isBuilt, pushing⟩ := exists_of_bind_eq_ok built
  obtain ⟨length, pushed, isPushed, builtRest⟩ := exists_of_bind_eq_ok pushing
  have conforms := sound context now middle value formed isBuilt
  obtain ⟨mirrors, unheld⟩ := mirrors_of_built compiled conforms formed isBuilt
  obtain ⟨middleFormed, kept, isNew⟩ := formed.of_buildValue isBuilt
  obtain ⟨item, rfl, admitted⟩ := middleFormed.admitsItem_of_pushValue isPushed
  obtain ⟨_, _, samePushed, pushedFormed, items, same, links⟩ :=
    kept.pushValue_new formed.owned middleFormed present admitted isNew unheld
  rw [isPushed] at samePushed
  cases samePushed
  exact ⟨item, middle, pushed, isBuilt, builtRest, middleFormed, kept, isNew, conforms, mirrors, admitted,
    ⟨length, isPushed⟩, pushedFormed, kept.items_eq present ▸ items, same, links⟩

private theorem conformsItem_of_built {documents : List Json}
    (sound : ∀ json ∈ documents, Sound catalogue json) {context : String} {l : ListId}
    {now after : Tree catalogue} (formed : now.WellFormed)
    (present : now.hasList l = true) (built : buildItems context l documents now = (.ok (), after)) :
    ∀ json ∈ documents, catalogue.conformsItem (now.ownerField? l) json = true := by
  induction documents generalizing now with
  | nil => simp
  | cons json rest ih =>
    obtain ⟨soundFirst, soundRest⟩ := List.forall_mem_cons.mp sound
    obtain ⟨item, middle, pushed, -, builtRest, appended⟩ :=
      exists_appended compiled soundFirst formed present built
    have belongs : middle.ownerField? l = now.ownerField? l :=
      appended.kept.sameLinks.ownerField? (appended.kept.sameBut (.list l)) formed.owned present
    have belongsAfter := appended.links.ownerField? appended.sameBut formed.owned present
    intro other member
    rcases List.mem_cons.mp member with rfl | later
    · exact appended.mirrors.conformsItem appended.conforms (belongs ▸ appended.admitted)
    · rw [← belongsAfter]
      exact ih soundRest appended.pushedFormed (appended.sameBut.hasHandle (.list l) present) builtRest
        other later

section Members

variable {now : Tree catalogue} {n : NodeId} {id : TypeId} {type : NodeType} {members : Record Json}
  (distinct : (type.fields.map (·.name)).Nodup)
  (sound : ∀ json, sizeOf json < sizeOf members → Sound catalogue json)
include distinct sound

theorem Growing.conformsMember {place : Nat} {field : Field}
    (growing : now.Growing n id type members place) (declared : type.fields[place]? = some field)
    {raw : Json} (found : members.get? field.name = some raw) {context : String}
    {after : Tree catalogue}
    (built : Tree.buildField n context members place field raw now = (.ok (), after)) :
    catalogue.conformsMember members field = true := by
  have smaller := Record.sizeOf_get?_lt found
  rw [Tree.buildField.eq_def] at built
  by_cases isList : field.kind = .list
  · rw [if_pos isList] at built
    rw [Catalogue.conformsMember_of_some found]
    simp only [isList]
    cases raw with
    | null => rw [Catalogue.conformsList]
    | array documents =>
      obtain ⟨l, -, -, present, belongs, isHere⟩ := growing.exists_list distinct declared isList
      change (check (fun tree => tree.list n field.name) >>= fun list =>
        Tree.buildItems context list documents) now = (.ok (), after) at built
      rw [check_bind_of_ok now isHere] at built
      apply Catalogue.conformsList_array.mpr
      rw [← belongs]
      apply conformsItem_of_built compiled _ growing.formed present built
      intro json isDocument
      exact sound json ((Json.sizeOf_lt_array isDocument).trans smaller)
    | bool | number | string | object => simp [fail] at built
  · rw [if_neg isList] at built
    have nowDeclared : (now.fields n)[place]? = some field := by rw [growing.fields_eq, declared]
    cases beside : siblingRegex? members raw with
    | some regex =>
      simp only [beside] at built
      obtain ⟨other, isOther, -, admitted⟩ := admits_of_assignSlot built
      rw [nowDeclared] at isOther
      cases isOther
      rw [Catalogue.conformsMember_of_some found]
      cases kind : field.kind with
      | list => exact absurd kind isList
      | node => simp [Tree.admits, kind] at admitted
      | native | strict =>
        rw [admits_scalar now (by simp [kind])] at admitted
        simpa [beside] using admitted
    | none =>
      simp only [beside] at built
      obtain ⟨value, middle, isBuilt, assigned⟩ := exists_of_bind_eq_ok built
      have conforms := sound raw smaller context now middle value growing.formed isBuilt
      obtain ⟨mirrors, -⟩ := mirrors_of_built compiled conforms growing.formed isBuilt
      obtain ⟨-, kept, -⟩ := growing.formed.of_buildValue isBuilt
      obtain ⟨other, isOther, -, admitted⟩ := admits_of_assignSlot assigned
      rw [(kept.sameBut (.node n)).fields growing.present, nowDeclared] at isOther
      cases isOther
      exact mirrors.conformsMember conforms isList found beside admitted

/-- A field that was built is filled. -/
theorem Growing.of_buildField {place : Nat} {field : Field}
    (growing : now.Growing n id type members place) (declared : type.fields[place]? = some field)
    {raw : Json} (found : members.get? field.name = some raw) {context : String}
    {after : Tree catalogue}
    (built : Tree.buildField n context members place field raw now = (.ok (), after)) :
    after.Growing n id type members (place + 1) := by
  have conforms := growing.conformsMember compiled distinct sound declared found built
  have inner (json : Json) (id : TypeId) (_ : sizeOf json < sizeOf members)
      (described : catalogue.describedType? json = some id) : Builds catalogue json :=
    builds_of_described compiled described
  obtain ⟨_, isBuilt, next⟩ := growing.buildField distinct inner declared found conforms context
  rw [built] at isBuilt
  cases isBuilt
  exact next

/-- The node grows as the fields are built, and each of its members conforms. -/
theorem Growing.conformsMembers {place : Nat} (growing : now.Growing n id type members place)
    {name : String} {rest : List Field} (isRest : type.fields.drop place = rest)
    {after : Tree catalogue} (built : Tree.buildFields n name members place rest now = (.ok (), after)) :
    ∀ field ∈ rest, catalogue.conformsMember members field = true := by
  induction rest generalizing now place with
  | nil => simp
  | cons field rest ih =>
    obtain ⟨declared, isTail⟩ := getElem?_and_drop_of_drop_eq_cons isRest
    cases found : members.get? field.name with
    | none =>
      rw [buildFields_of_none found] at built
      have next := growing.skip declared (by rw [Field.stated?, found])
      intro other member
      rcases List.mem_cons.mp member with rfl | later
      · exact Catalogue.conformsMember_of_none found
      · exact ih next isTail built other later
    | some raw =>
      rw [buildFields_of_some found] at built
      obtain ⟨_, middle, isBuilt, built⟩ := exists_of_bind_eq_ok built
      have conforms := growing.conformsMember compiled distinct sound declared found isBuilt
      have next := growing.of_buildField compiled distinct sound declared found isBuilt
      intro other member
      rcases List.mem_cons.mp member with rfl | later
      · exact conforms
      · exact ih next isTail built other later

end Members

private theorem sound_object {members : Record Json}
    (sound : ∀ json, sizeOf json < sizeOf members → Sound catalogue json) :
    Sound catalogue (.object members) := by
  intro context now after value formed built
  rw [buildValue] at built
  split at built
  · obtain ⟨n, made, isMade, built⟩ := exists_of_bind_eq_ok built
    rw [look_bind, look_bind] at built
    obtain ⟨_, filled, isFilled, -⟩ := exists_of_bind_eq_ok built
    obtain ⟨name, tag, created⟩ := createNode_of_buildNode isMade
    obtain ⟨id, type, named, rfl, rfl⟩ := createFound_eq_ok created
    obtain ⟨declared, concrete⟩ := concreteType_eq_ok named
    have start := growing_allocNode formed declared concrete members rfl
    rw [start.fields_eq] at isFilled
    have conforms := start.conformsMembers compiled (compiled.nodup_fields declared) sound
      (List.drop_zero ..) isFilled
    have described : catalogue.describedType? (.object members) = some id :=
      Catalogue.describedType?_eq_some_iff.mpr ⟨members, type, rfl,
        Catalogue.taggedType?_eq_some_iff.mpr ⟨name, tag, named⟩, conforms⟩
    simp [Catalogue.conforms, described]
  · next untyped =>
    cases literal : regexOf? members with
    | none => simp [literal, fail] at built
    | some regex => simp [Catalogue.conforms, Json.scalar?, untyped, literal]

theorem sound_of_compiled (json : Json) : Sound catalogue json := by
  induction json using Json.document_induction with
  | null | bool | number | string =>
    intro _ _ _ _ _ _
    rfl
  | array documents ih =>
    intro context now after value formed built
    rw [buildValue] at built
    obtain ⟨l, made, isMade, built⟩ := exists_of_bind_eq_ok built
    obtain ⟨_, filled, isFilled, -⟩ := exists_of_bind_eq_ok built
    rw [make_createList] at isMade
    cases isMade
    have free : (now.createListOf []).2.ownerField? ⟨now.lists.size⟩ = none := by
      rw [ownerField?, owner?_createListOf_self]
      rfl
    have present := now.hasList_createListOf_self []
    apply List.all_eq_true.mpr
    rw [← free]
    exact conformsItem_of_built compiled ih (formed.edit (.list [] rfl)) present isFilled
  | object members ih => exact sound_object compiled ih

end Sound

/-- Building succeeds exactly for the documents that conform; so none of these is refused because of a
cycle. -/
theorem build_succeeds_iff_conforms (compiled : catalogue.Compiled) {tree : Tree catalogue}
    (reachable : tree.Reachable) (json : Json) :
    ((∃ value after, build json tree = (.ok value, after)) ↔ catalogue.conforms json = true) ∧
      (catalogue.conforms json = true → ∀ child parent,
        (build json tree).1 ≠ .error (.cycle child parent)) := by
  have formed := reachable.wellFormed
  refine ⟨⟨?_, fun conforms => ?_⟩, fun conforms child parent => ?_⟩
  · rintro ⟨value, after, built⟩
    exact sound_of_compiled compiled json "input" tree after value formed built
  · obtain ⟨value, after, built, -⟩ := builds_of_conforms compiled conforms "input" tree formed
    exact ⟨value, after, built⟩
  · obtain ⟨value, after, built, -⟩ := builds_of_conforms compiled conforms "input" tree formed
    rw [build, built]
    simp

/-- A note with another note and a hole as its parts conforms, and one with a number among them does not. -/
theorem build_succeeds_iff_conforms_weighedNotes :
    notes.Compiled ∧ weighedNotes.Reachable ∧
      (∃ value after, build (.object [("type", .string "Note"), ("parts", .array
        [.object [("type", .string "Note"), ("parts", .null)], .null])]) weighedNotes
          = (.ok value, after)) ∧
      ¬ ∃ value after, build (.object [("type", .string "Note"), ("parts", .array
        [.number (.int 2)])]) weighedNotes = (.ok value, after) := by
  have reachable : weighedNotes.Reachable := ⟨1, _, rfl⟩
  refine ⟨compiled_notes, reachable, ?_, ?_⟩
  · rw [(build_succeeds_iff_conforms compiled_notes reachable _).1]
    cbv
  · rw [(build_succeeds_iff_conforms compiled_notes reachable _).1, Bool.not_eq_true]
    cbv

end Tree
end Arbor
