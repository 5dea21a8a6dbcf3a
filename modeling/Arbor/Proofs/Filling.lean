import Arbor.Proofs.Copied

/-! # Filling in a copy

What is written for a scalar reads back as it. A list gets copies of its items one after the other. The
copy of a node grows field by field, and `Filling` says how far it has come: a step changes only the
node or the list that it fills, so everything that was copied before stays as it is. -/

namespace Arbor.Tree

variable {catalogue : Catalogue}

open Arbor.Action

/-- The tree has no such node or list. -/
def Lacks (tree : Tree catalogue) (handle : Handle) : Prop := tree.hasHandle handle = false

theorem Lacks.of_grown {old now : Tree catalogue} {handle : Handle} (missing : now.Lacks handle)
    (grown : ∀ handle, old.hasHandle handle = true → now.hasHandle handle = true) :
    old.Lacks handle := by
  by_contra inOld
  rw [Lacks, Bool.not_eq_false] at inOld
  exact absurd (grown handle inOld) (by rw [missing]; decide)

theorem not_lacks {tree : Tree catalogue} {handle : Handle} (present : tree.hasHandle handle = true) :
    ¬ tree.Lacks handle := by
  rw [Lacks, present]
  decide

/-- Building what is written for the value makes a copy of it that nothing holds, in whatever tree. -/
def Rebuilds (old : Tree catalogue) (value : Value) : Prop :=
  ∀ (context : String) (now : Tree catalogue), now.WellFormed →
    ∃ copy after, buildValue context (old.valueToJson value) now = (.ok copy, after) ∧
      Copied old after now.Lacks value copy ∧ after.Unheld copy

theorem WellFormed.of_buildValue {now after : Tree catalogue} (formed : now.WellFormed)
    {context : String} {json : Json} {value : Value}
    (built : buildValue context json now = (.ok value, after)) :
    after.WellFormed ∧ now.Keeps after ∧ now.NewValue after value := by
  have run := extends_buildValue context json formed formed (.refl now)
  have isNew := run.result value (by rw [built])
  have evolves := run.evolves
  have kept := run.kept
  rw [built] at evolves kept isNew
  exact ⟨formed.evolves evolves, kept, isNew⟩

theorem regexOf?_toJson (regex : Regex) :
    regexOf? [("pattern", .string regex.pattern), ("flags", .string regex.flags)] = some regex := by
  simp [regexOf?, Record.get?, Json.string?]

section Rebuilds

variable {old : Tree catalogue}

/-- A scalar that is set and can be written is read back. -/
theorem buildValue_toJson {s : Scalar} (isSet : s ≠ .undefined)
    (finite : ∀ x, s = .number x → x.isFinite = true) (context : String) (now : Tree catalogue) :
    buildValue context s.toJson now = (.ok (.scalar s.plain), now) := by
  cases s with
  | undefined => contradiction
  | null | boolean b | string s =>
    rw [Scalar.toJson, buildValue]
    rfl
  | number x =>
    obtain ⟨n, written, same⟩ := Decimal.toFloat_ofFloat (finite x rfl)
    rw [Scalar.toJson, written, buildValue, same]
    rfl
  | regex r =>
    have untyped : Record.contains [("pattern", Json.string r.pattern), ("flags", .string r.flags)]
        typeKey = false := by
      simp [Record.contains, typeKey]
    rw [Scalar.toJson, buildValue, untyped, if_neg Bool.false_ne_true, regexOf?_toJson]
    rfl

private theorem rebuilds_scalar {s : Scalar} (isSet : s ≠ .undefined)
    (finite : ∀ x, s = .number x → x.isFinite = true) : old.Rebuilds (.scalar s) := by
  intro context now formed
  refine ⟨_, now, buildValue_toJson isSet finite context now, .scalar s, ?_⟩
  rintro _ ⟨⟩

theorem rebuilds_ofItem {item : Option NodeId} (rebuilds : ∀ c, item = some c → old.Rebuilds (.node c)) :
    old.Rebuilds (.ofItem item) := by
  cases item with
  | none => exact rebuilds_scalar (by simp) (by simp)
  | some c => exact rebuilds c rfl

/-- What can be built is no empty object, for which a literal beside it would count. -/
theorem siblingRegex?_of_built {context : String} {json : Json} {now after : Tree catalogue}
    {value : Value} (built : buildValue context json now = (.ok value, after)) (members : Record Json) :
    siblingRegex? members json = none := by
  rw [siblingRegex?.eq_def]
  split
  · have untyped : ¬ Record.contains ([] : Record Json) typeKey = true := Bool.false_ne_true
    rw [buildValue, if_neg untyped] at built
    simp [regexOf?, Record.get?, fail] at built
  · rfl

def CopiedItems (old now : Tree catalogue) (new : Handle → Prop) :
    List (Option NodeId) → List (Option NodeId) → Prop :=
  List.Forall₂ fun item other => Copied old now new (.ofItem item) (.ofItem other)

theorem CopiedItems.list {now : Tree catalogue} {new : Handle → Prop} {l copy : ListId}
    (items : CopiedItems old now new (old.items l) (now.items copy)) (isNew : new (.list copy))
    (present : now.hasList copy = true) : Copied old now new (.list l) (.list copy) := by
  refine .list isNew present items.length_eq.symm fun i item other inOld inNow => ?_
  obtain ⟨bound, rfl⟩ := List.getElem?_eq_some_iff.mp inOld
  obtain ⟨otherBound, rfl⟩ := List.getElem?_eq_some_iff.mp inNow
  exact items.get bound otherBound

/-- Building items puts a copy of each at the end of a list that takes them, and changes nothing else. -/
theorem buildItems_rebuilds {items : List (Option NodeId)}
    (rebuilds : ∀ item ∈ items, old.Rebuilds (.ofItem item)) (context : String) {l : ListId}
    {now : Tree catalogue} (formed : now.WellFormed) (present : now.hasList l = true)
    (fits : ∀ field, now.ownerField? l = some field → ∀ item ∈ items, old.FitsItem field item) :
    ∃ copies after,
      buildItems context l (items.map fun item => old.valueToJson (.ofItem item)) now = (.ok (), after) ∧
      after.WellFormed ∧ now.SameBut after (.list l) ∧ now.SameLinks after ∧
      after.items l = now.items l ++ copies ∧ CopiedItems old after now.Lacks items copies := by
  induction items generalizing now with
  | nil =>
    refine ⟨[], now, ?_, formed, .refl now _, (Keeps.refl now).sameLinks, ?_, .nil⟩
    · rw [List.map_nil, buildItems]
      rfl
    · rw [List.append_nil]
  | cons item rest ih =>
    obtain ⟨value, built, isBuilt, copied, unheld⟩ :=
      rebuilds item (List.mem_cons_self ..) context now formed
    obtain ⟨builtFormed, kept, isNew⟩ := formed.of_buildValue isBuilt
    obtain ⟨copy, rfl⟩ := copied.exists_ofItem
    have admitted (field : Field) (belongs : built.ownerField? l = some field) :
        built.admitsItem field copy = true := by
      rw [kept.sameLinks.ownerField? (kept.sameBut (.list l)) formed.owned present] at belongs
      exact copied.admitsItem (fits field belongs item (List.mem_cons_self ..))
    obtain ⟨length, pushed, isPushed, pushedFormed, pushedItems, samePushed, linksPushed⟩ :=
      kept.pushValue_new formed.owned builtFormed present admitted isNew unheld
    have same : now.SameBut pushed (.list l) := (kept.sameBut _).trans samePushed
    have pushedPresent : pushed.hasList l = true := same.hasHandle (.list l) present
    obtain ⟨copies, after, isAfter, afterFormed, sameAfter, linksAfter, afterItems, copiedRest⟩ :=
      ih (fun item later => rebuilds item (List.mem_cons_of_mem _ later)) pushedFormed pushedPresent
        fun field belongs item later => by
          rw [linksPushed.ownerField? same formed.owned present] at belongs
          exact fits field belongs item (List.mem_cons_of_mem _ later)
    -- The copies are made of what the tree lacked when the list was in it, so they outlast its changes.
    have target : ¬ now.Lacks (.list l) := not_lacks present
    refine ⟨copy :: copies, after, ?_, afterFormed, same.trans sameAfter,
      linksPushed.trans same linksAfter, ?_, .cons ?_ ?_⟩
    · rw [List.map_cons, buildItems, bind_of_ok _ isBuilt, bind_of_ok _ isPushed, isAfter]
    · rw [afterItems, pushedItems, kept.items_eq present, List.append_assoc, List.singleton_append]
    · exact (copied.sameBut samePushed target).sameBut sameAfter target
    · exact copiedRest.imp fun _ _ copied =>
        copied.weaken fun _ missing => missing.of_grown same.hasHandle

private theorem find?_of_nodup {α : Type} (name : α → String) {xs : List α}
    (distinct : (xs.map name).Nodup) {a : α} (member : a ∈ xs) :
    xs.find? (name · == name a) = some a := by
  induction xs with
  | nil => contradiction
  | cons x rest ih =>
    rw [List.map_cons, List.nodup_cons] at distinct
    rcases List.mem_cons.mp member with rfl | later
    · rw [List.find?_cons, beq_self_eq_true]
    · have other : name x ≠ name a := fun same => distinct.1 (same ▸ List.mem_map_of_mem later)
      rw [List.find?_cons, beq_false_of_ne other]
      exact ih distinct.2 later

theorem getElem?_and_drop_of_drop_eq_cons {α : Type} {xs rest : List α} {place : Nat} {x : α}
    (isRest : xs.drop place = x :: rest) : xs[place]? = some x ∧ xs.drop (place + 1) = rest := by
  rw [← List.head?_drop, ← List.tail_drop, isRest]
  exact ⟨rfl, rfl⟩

/-- The name of a list field leads to its list. -/
theorem Owned.list_eq_ok {tree : Tree catalogue} (owned : tree.Owned) {id : NodeId}
    (distinct : ((tree.fields id).map (·.name)).Nodup) {place : Nat} {field : Field} {l : ListId}
    (declared : (tree.fields id)[place]? = some field)
    (held : (tree.slots id)[place]? = some (.list l)) : tree.list id field.name = .ok l := by
  have member : (field, .list l) ∈ tree.readings id := by
    refine List.mem_map.mpr ⟨(field, .list l), ?_, rfl⟩
    exact List.mem_of_getElem? (List.getElem?_zip_eq_some.mpr ⟨declared, held⟩)
  have names : (tree.readings id).map (·.1.name) = (tree.fields id).map (·.name) := by
    rw [← map_name_zip (owned.slots_length (hasNode_of_slot held)), readings, List.map_map]
    rfl
  have found : tree.get id field.name = .ok (.list l) := by
    rw [Tree.get]
    have first := find?_of_nodup (fun reading => reading.1.name) (names ▸ distinct) member
    simp only [first]
  rw [Tree.list, found]

/-- What the slot of a copy holds once its field is filled: a copy, or a list of copies. -/
inductive Filled (old now : Tree catalogue) (new : Handle → Prop) : Value → Value → Prop where
  | value {value copy : Value} (copied : Copied old now new value copy) : Filled old now new value copy
  | list {l copy : ListId} (items : CopiedItems old now new (old.items l) (now.items copy)) :
      Filled old now new (.list l) (.list copy)

theorem Filled.sameBut {now after : Tree catalogue} {new : Handle → Prop} {value copy : Value}
    (filled : Filled old now new value copy) {target : Handle} (same : now.SameBut after target)
    (targetOld : ¬ new target)
    (apart : ∀ l, copy = .list l → now.hasList l = true ∧ .list l ≠ target) :
    Filled old after new value copy := by
  cases filled with
  | value copied => exact .value (copied.sameBut same targetOld)
  | @list l copy items =>
    obtain ⟨present, other⟩ := apart copy rfl
    apply Filled.list
    rw [same.items present other]
    exact items.imp fun _ _ copied => copied.sameBut same targetOld

/-- A list that is new and has copies for items is a copy. -/
theorem Filled.copied {now : Tree catalogue} {new weaker : Handle → Prop} {value copy : Value}
    (filled : Filled old now new value copy) (implies : ∀ handle, new handle → weaker handle)
    (lists : ∀ l, copy = .list l → weaker (.list l) ∧ now.hasList l = true) :
    Copied old now weaker value copy := by
  cases filled with
  | value copied => exact copied.weaken implies
  | @list l copy items =>
    have weakened : CopiedItems old now weaker (old.items l) (now.items copy) :=
      items.imp fun _ _ copied => copied.weaken implies
    obtain ⟨isNew, present⟩ := lists copy rfl
    exact weakened.list isNew present

/-- What the slot of a new node holds as long as nothing is filled in. -/
inductive Blank (now : Tree catalogue) (field : Field) : Value → Prop where
  | list (l : ListId) (isList : field.kind = .list) (empty : now.items l = []) : Blank now field (.list l)
  | unset (noList : field.kind ≠ .list) : Blank now field .undefined

/-- The copy of a node is filled up to the given place; what is in the base is no part of what was
filled in. -/
structure Filling (old now base : Tree catalogue) (n copy : NodeId) (place : Nat) : Prop where
  formed : now.WellFormed
  grown : ∀ handle, base.hasHandle handle = true → now.hasHandle handle = true
  present : base.hasNode copy = true
  lists : ∀ (i : Nat) (l : ListId), (now.slots copy)[i]? = some (.list l) → base.hasList l = true
  type : now.typeOf copy = old.typeOf n
  unheld : now.parent? (.node copy) = none
  filled : ∀ (i : Nat) (value other : Value), i < place → (old.slots n)[i]? = some value →
    (now.slots copy)[i]? = some other → Filled old now base.Lacks value other
  blank : ∀ (i : Nat) (field : Field) (other : Value), place ≤ i → (old.fields n)[i]? = some field →
    (now.slots copy)[i]? = some other → now.Blank field other

namespace Filling

variable {now after base : Tree catalogue} {n copy : NodeId} {place : Nat}

theorem fields_eq (filling : Filling old now base n copy place) : now.fields copy = old.fields n := by
  rw [fields, fields, filling.type]

theorem hasNode_copy (filling : Filling old now base n copy place) : now.hasNode copy = true :=
  filling.grown (.node copy) filling.present

theorem hasList_of_slot (filling : Filling old now base n copy place) {i : Nat} {l : ListId}
    (held : (now.slots copy)[i]? = some (.list l)) : now.hasList l = true :=
  filling.grown (.list l) (filling.lists i l held)

theorem exists_blank (filling : Filling old now base n copy place) {field : Field}
    (declared : (old.fields n)[place]? = some field) :
    ∃ other, (now.slots copy)[place]? = some other ∧ now.Blank field other := by
  have bound := (List.getElem?_eq_some_iff.mp declared).1
  rw [← filling.fields_eq, ← filling.formed.owned.slots_length filling.hasNode_copy] at bound
  have held := List.getElem?_eq_getElem bound
  exact ⟨_, held, filling.blank place field _ (Nat.le_refl _) declared held⟩

theorem slot_unset (filling : Filling old now base n copy place) {field : Field}
    (declared : (old.fields n)[place]? = some field) (noList : field.kind ≠ .list) :
    (now.slots copy)[place]? = some .undefined := by
  obtain ⟨other, held, blank⟩ := filling.exists_blank declared
  cases blank with
  | list l isList => exact absurd isList noList
  | unset => exact held

theorem exists_slot_list (filling : Filling old now base n copy place) {field : Field}
    (declared : (old.fields n)[place]? = some field) (isList : field.kind = .list) :
    ∃ l, (now.slots copy)[place]? = some (.list l) ∧ now.items l = [] := by
  obtain ⟨other, held, blank⟩ := filling.exists_blank declared
  cases blank with
  | list l _ empty => exact ⟨l, held, empty⟩
  | unset noList => exact absurd isList noList

theorem lacks (filling : Filling old now base n copy place) (handle : Handle)
    (missing : now.Lacks handle) : base.Lacks handle :=
  missing.of_grown filling.grown

/-- One field is filled, in the copy itself or in a list that belongs to it. -/
theorem advance (filling : Filling old now base n copy place) (formed : after.WellFormed)
    {target : Handle} (same : now.SameBut after target) (targetOld : base.hasHandle target = true)
    (unheld : after.parent? (.node copy) = none)
    (others : ∀ i : Nat, i ≠ place → (after.slots copy)[i]? = (now.slots copy)[i]?)
    (apart : ∀ (i : Nat) (l : ListId), i ≠ place → (now.slots copy)[i]? = some (.list l) →
      .list l ≠ target)
    (lists : ∀ l, (after.slots copy)[place]? = some (.list l) → base.hasList l = true)
    (here : ∀ value other, (old.slots n)[place]? = some value →
      (after.slots copy)[place]? = some other → Filled old after base.Lacks value other) :
    Filling old after base n copy (place + 1) where
  formed := formed
  grown handle inBase := same.hasHandle handle (filling.grown handle inBase)
  present := filling.present
  lists i l held := by
    by_cases isPlace : i = place
    · subst isPlace
      exact lists l held
    · rw [others i isPlace] at held
      exact filling.lists i l held
  type := (same.typeOf filling.hasNode_copy).trans filling.type
  unheld := unheld
  filled i value other inRange inOld held := by
    by_cases isPlace : i = place
    · subst isPlace
      exact here value other inOld held
    · rw [others i isPlace] at held
      apply (filling.filled i value other (by omega) inOld held).sameBut same
      · exact not_lacks targetOld
      · rintro l rfl
        exact ⟨filling.hasList_of_slot held, apart i l isPlace held⟩
  blank i field other inRange declared held := by
    have isPlace : i ≠ place := by omega
    rw [others i isPlace] at held
    cases filling.blank i field other (by omega) declared held with
    | list l isList empty =>
      apply Blank.list l isList
      rw [same.items (filling.hasList_of_slot held) (apart i l isPlace held), empty]
    | unset noList => exact .unset noList

variable {context : String}

/-- A field that is not set is left out. -/
theorem skip (filling : Filling old now base n copy place) {field : Field}
    (declared : (old.fields n)[place]? = some field) (noList : field.kind ≠ .list)
    (unset : (old.slots n)[place]? = some .undefined) : Filling old now base n copy (place + 1) := by
  have held := filling.slot_unset declared noList
  apply filling.advance filling.formed (.refl now (.node copy)) filling.present filling.unheld
  · exact fun _ _ => rfl
  · intro i l _ _ same
    contradiction
  · exact filling.lists place
  · intro value other inOld inNow
    rw [unset] at inOld
    rw [held] at inNow
    cases inOld
    cases inNow
    exact .value (.scalar .undefined)

/-- A field that holds no list gets a copy of its value. -/
theorem buildValue (filling : Filling old now base n copy place) {field : Field}
    (declared : (old.fields n)[place]? = some field) (noList : field.kind ≠ .list) {value : Value}
    (inOld : (old.slots n)[place]? = some value) (fits : old.Fits field value)
    (rebuilds : old.Rebuilds value) :
    ∃ after, (Tree.buildValue context (old.valueToJson value) >>= assignSlot copy place) now
        = (.ok (), after) ∧ Filling old after base n copy (place + 1) := by
  have held := filling.slot_unset declared noList
  obtain ⟨copied, built, isBuilt, isCopy, unheld⟩ := rebuilds context now filling.formed
  obtain ⟨builtFormed, kept, isNew⟩ := filling.formed.of_buildValue isBuilt
  have present := filling.hasNode_copy
  have slots : built.slots copy = now.slots copy := kept.slots_eq present
  have builtDeclared : (built.fields copy)[place]? = some field := by
    rw [(kept.sameBut (.node copy)).fields present, filling.fields_eq, declared]
  obtain ⟨after, assigned, afterFormed, afterSlots, same, links⟩ :=
    kept.assignSlot_new filling.formed.owned builtFormed present builtDeclared noList
      (slots ▸ held) (isCopy.admits fits noList) isNew unheld
  have bound : place < (now.slots copy).length := (List.getElem?_eq_some_iff.mp held).1
  rw [slots] at afterSlots
  refine ⟨after, by rw [bind_of_ok _ isBuilt, assigned], ?_⟩
  apply filling.advance afterFormed ((kept.sameBut _).trans same) filling.present
  · rw [links.parent (.node copy) present, filling.unheld]
  · intro i isPlace
    rw [afterSlots, List.getElem?_set_ne (Ne.symm isPlace)]
  · intro i l _ _ same
    contradiction
  · intro l inAfter
    rw [afterSlots, List.getElem?_set_self bound] at inAfter
    cases inAfter
    cases isCopy with
    | list => exact absurd fits.kind_of_list noList
  · intro value other inOld' inAfter
    rw [afterSlots, List.getElem?_set_self bound] at inAfter
    rw [inOld] at inOld'
    cases inOld'
    cases inAfter
    apply Filled.value
    exact (isCopy.sameBut same (not_lacks present)).weaken filling.lacks

/-- A list field gets copies of the items of its list. -/
theorem buildItems (filling : Filling old now base n copy place)
    (distinct : ((old.fields n).map (·.name)).Nodup) {field : Field}
    (declared : (old.fields n)[place]? = some field) (isList : field.kind = .list) {l : ListId}
    (inOld : (old.slots n)[place]? = some (.list l))
    (fits : ∀ item ∈ old.items l, old.FitsItem field item)
    (rebuilds : ∀ item ∈ old.items l, old.Rebuilds (.ofItem item)) :
    ∃ after, (check (fun tree => tree.list copy field.name) >>= fun list => Tree.buildItems context list
        ((old.items l).map fun item => old.valueToJson (.ofItem item))) now = (.ok (), after) ∧
      Filling old after base n copy (place + 1) := by
  obtain ⟨k, held, empty⟩ := filling.exists_slot_list declared isList
  have present := filling.hasList_of_slot held
  have copyPresent := filling.hasNode_copy
  have owner := filling.formed.owned.owner_iff.mpr held
  have belongs : now.ownerField? k = some field := by
    rw [ownerField?, owner, ← declared, ← filling.fields_eq]
    rfl
  have found : now.list copy field.name = .ok k :=
    filling.formed.owned.list_eq_ok (filling.fields_eq ▸ distinct) (filling.fields_eq ▸ declared) held
  obtain ⟨copies, after, isAfter, afterFormed, same, links, items, copied⟩ :=
    buildItems_rebuilds rebuilds context filling.formed present fun other isOther => by
      rw [belongs] at isOther
      cases isOther
      exact fits
  rw [empty, List.nil_append] at items
  have slots : after.slots copy = now.slots copy := same.slots copyPresent (by simp)
  refine ⟨after, by rw [check_bind_of_ok _ found, isAfter], ?_⟩
  apply filling.advance afterFormed same (filling.lists place k held)
  · rw [links.parent (.node copy) copyPresent, filling.unheld]
  · intro i _
    rw [slots]
  · rintro i _ isPlace heldThere ⟨⟩
    rw [← filling.formed.owned.owner_iff, owner] at heldThere
    cases heldThere
    contradiction
  · intro l inAfter
    exact filling.lists place l (slots ▸ inAfter)
  · intro value other inOld' inAfter
    rw [slots, held] at inAfter
    rw [inOld] at inOld'
    cases inOld'
    cases inAfter
    apply Filled.list
    rw [items]
    apply copied.imp
    intro _ _ copied
    apply copied.weaken
    exact filling.lacks

end Filling

section Loop

variable {id : NodeId} {type : String} {members : Record Json} {place : Nat} {field : Field}
  {rest : List Field} {raw : Json}

theorem buildFields_of_none (missing : members.get? field.name = none) :
    (buildFields id type members place (field :: rest) : Action catalogue Unit) =
      buildFields id type members (place + 1) rest := by
  rw [Tree.buildFields]
  split
  · rfl
  · next found =>
    rw [missing] at found
    contradiction

theorem buildFields_of_some (found : members.get? field.name = some raw) :
    (buildFields id type members place (field :: rest) : Action catalogue Unit) =
      buildField id (type ++ "." ++ field.name) members place field raw >>= fun _ =>
        buildFields id type members (place + 1) rest := by
  rw [Tree.buildFields]
  split
  · next missing =>
    rw [found] at missing
    contradiction
  · next other isOther =>
    rw [found] at isOther
    cases isOther
    rfl

end Loop

/-- The nodes that the fields of a node hold, directly or in lists, can be rebuilt. -/
structure RebuildsParts (old : Tree catalogue) (n : NodeId) : Prop where
  nodes : ∀ c, .node c ∈ old.slots n → old.Rebuilds (.node c)
  items : ∀ l, .list l ∈ old.slots n → ∀ c, some c ∈ old.items l → old.Rebuilds (.node c)

section Node

variable (formed : old.WellFormed) (conforms : old.Conforms) {n : NodeId}
  (present : old.hasNode n = true) (legible : old.Legible n) (parts : old.RebuildsParts n)
include formed conforms present legible parts

variable {now base : Tree catalogue} {copy : NodeId} {place : Nat}

theorem Filling.buildField (filling : Filling old now base n copy place) (context : String)
    (members : Record Json) {field : Field} (declared : (old.fields n)[place]? = some field)
    {value : Value} (inOld : (old.slots n)[place]? = some value) (isSet : value.isSet = true) :
    ∃ after, Tree.buildField copy context members place field (old.valueToJson value) now
      = (.ok (), after) ∧ Filling old after base n copy (place + 1) := by
  have inSlots := List.mem_of_getElem? inOld
  have fits := conforms.fits present declared inOld
  by_cases isList : field.kind = .list
  · obtain ⟨l, rfl⟩ := fits.exists_list isList
    have belongs : old.ownerField? l = some field := by
      rw [ownerField?, formed.owned.owner_iff.mpr inOld, ← declared]
      rfl
    have rebuilds (item : Option NodeId) (isItem : item ∈ old.items l) : old.Rebuilds (.ofItem item) := by
      apply rebuilds_ofItem
      rintro c rfl
      exact parts.items l inSlots c isItem
    obtain ⟨after, built, next⟩ := filling.buildItems (List.nodup_cons.mp legible.distinct).2 declared
      isList inOld (conforms.items belongs) rebuilds
    refine ⟨after, ?_, next⟩
    rw [buildField.eq_def, if_pos isList, valueToJson, valueJson, formed.toJson_list]
    exact built
  · have rebuilds : old.Rebuilds value := by
      cases value with
      | scalar s =>
        apply rebuilds_scalar
        · rintro rfl
          contradiction
        · rintro x rfl
          exact legible.finite _ inSlots
      | node c => exact parts.nodes c inSlots
      | list l => exact absurd fits.kind_of_list isList
    obtain ⟨_, _, isBuilt, -⟩ := rebuilds context now filling.formed
    obtain ⟨after, built, next⟩ := filling.buildValue declared isList inOld fits rebuilds
    refine ⟨after, ?_, next⟩
    rw [buildField.eq_def, if_neg isList, siblingRegex?_of_built isBuilt]
    exact built

/-- Field by field, the copy is filled. -/
theorem Filling.buildFields (filling : Filling old now base n copy place) (type : String)
    {rest : List Field} (isRest : (old.fields n).drop place = rest) :
    ∃ after, Tree.buildFields copy type (old.nodeMembers old.toJson n) place rest now
      = (.ok (), after) ∧ Filling old after base n copy (place + rest.length) := by
  induction rest generalizing now place with
  | nil =>
    refine ⟨now, ?_, filling⟩
    rw [Tree.buildFields]
    rfl
  | cons field rest ih =>
    obtain ⟨declared, isTail⟩ := getElem?_and_drop_of_drop_eq_cons isRest
    obtain ⟨value, inOld⟩ : ∃ value, (old.slots n)[place]? = some value := by
      have bound := (List.getElem?_eq_some_iff.mp declared).1
      rw [← legible.slots] at bound
      exact ⟨_, List.getElem?_eq_getElem bound⟩
    have written : (old.nodeMembers old.toJson n).get? field.name
        = if value.isSet then some (old.valueToJson value) else none :=
      legible.get?_name old.toJson declared inOld
    have length : place + (field :: rest).length = place + 1 + rest.length := by
      rw [List.length_cons]
      omega
    rw [length]
    by_cases isSet : value.isSet = true
    · rw [if_pos isSet] at written
      obtain ⟨middle, built, next⟩ := filling.buildField formed conforms present legible parts
        (type ++ "." ++ field.name) (old.nodeMembers old.toJson n) declared inOld isSet
      obtain ⟨after, builtRest, done⟩ := ih next isTail
      refine ⟨after, ?_, done⟩
      rw [buildFields_of_some written, bind_of_ok _ built, builtRest]
    · rw [if_neg isSet] at written
      obtain rfl : value = .undefined := by
        rcases value with ⟨_ | _⟩ | _ | _ <;> first | rfl | exact absurd rfl isSet
      have noList : field.kind ≠ .list := by
        intro isList
        obtain ⟨l, isListValue⟩ := (conforms.fits present declared inOld).exists_list isList
        contradiction
      rw [buildFields_of_none written]
      exact ih (filling.skip declared noList inOld) isTail

end Node

end Rebuilds

end Arbor.Tree
