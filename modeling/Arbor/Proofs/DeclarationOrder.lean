import Arbor.Proofs.ByName
import Arbor.Proofs.Declared
import Mathlib.Data.List.Permutation

/-! # The order of declarations does not matter

The same declarations in another order give types other numbers. What is said of a type follows from its
entry and its base, so the types of one order, renumbered and rearranged, are those of the other: both
orders compile or neither does, and the two catalogues read the same by name. -/

namespace Arbor

/-- The number a type gets where the names stand in the second order. -/
def renumbering (names others : List String) (id : TypeId) : TypeId :=
  match names[id.index]? with
  | some name => ⟨others.idxOf name⟩
  | none => id

section Renumbering

variable {names others : List String} (perm : names.Perm others)
include perm

/-- The name of a type stands under its new number in the second order. -/
theorem getElem?_renumbering (id : TypeId) :
    others[(renumbering names others id).index]? = names[id.index]? := by
  rw [renumbering]
  cases found : names[id.index]? with
  | none =>
    rw [List.getElem?_eq_none_iff] at found ⊢
    rwa [← perm.length_eq]
  | some name => exact List.getElem?_idxOf (perm.mem_iff.mp (List.mem_of_getElem? found))

private theorem renumbering_injective (distinct : names.Nodup) :
    Function.Injective (renumbering names others) := by
  rintro ⟨a⟩ ⟨b⟩ same
  have sameName : names[a]? = names[b]? := by
    rw [← getElem?_renumbering perm ⟨a⟩, same, getElem?_renumbering perm ⟨b⟩]
  cases found : names[a]? with
  | none => simpa only [renumbering, found, ← sameName] using same
  | some name =>
    obtain ⟨aBound, isName⟩ := List.getElem?_eq_some_iff.mp found
    obtain ⟨bBound, isSame⟩ := List.getElem?_eq_some_iff.mp (sameName ▸ found)
    rw [distinct.getElem_inj_iff.mp (isName.trans isSame.symm)]

private theorem idxOf?_renumbering (name : String) : others.idxOf? name =
    (names.idxOf? name).map fun index => (renumbering names others ⟨index⟩).index := by
  cases found : names.idxOf? name with
  | none =>
    rw [List.idxOf?_eq_none_iff] at found
    exact List.idxOf?_eq_none_iff.mpr (mt perm.mem_iff.mpr found)
  | some index =>
    obtain ⟨bound, isName, -⟩ := List.idxOf?_eq_some_iff.mp found
    have here : names[index]? = some name := List.getElem?_eq_some_iff.mpr ⟨bound, isName⟩
    have known : (others.idxOf? name).isSome = true :=
      List.isSome_idxOf?.mpr (perm.mem_iff.mp (List.mem_of_getElem? here))
    simp only [Option.map_some, renumbering, here, List.idxOf_eq_getD_idxOf?]
    rw [← Option.some_get known, Option.getD_some]

/-- Where one list is the other renamed and rearranged, the new number leads to what the old one led
to. -/
theorem getElem?_of_renumbering {α : Type} {label : α → String} {change : α → α}
    (kept : ∀ a, label (change a) = label a) {first second : List α} (isFirst : first.map label = names)
    (isSecond : second.map label = others) (distinct : others.Nodup)
    (rearranged : second.Perm (first.map change)) (id : TypeId) :
    second[(renumbering names others id).index]? = first[id.index]?.map change := by
  have sameLabel : second[(renumbering names others id).index]?.map label = first[id.index]?.map label := by
    rw [← List.getElem?_map, ← List.getElem?_map, isFirst, isSecond, getElem?_renumbering perm]
  cases found : first[id.index]? with
  | none =>
    rw [found, Option.map_none, Option.map_eq_none_iff] at sameLabel
    rw [sameLabel, Option.map_none]
  | some a =>
    rw [found, Option.map_some, Option.map_eq_some_iff] at sameLabel
    obtain ⟨b, isHere, same⟩ := sameLabel
    have inSecond : change a ∈ second :=
      rearranged.mem_iff.mpr (List.mem_map_of_mem (List.mem_of_getElem? found))
    have isChanged : b = change a := List.inj_on_of_nodup_map (isSecond ▸ distinct)
      (List.mem_of_getElem? isHere) inSecond (same.trans (kept a).symm)
    rw [isHere, isChanged, Option.map_some]

end Renumbering

theorem Catalogue.typeId?_eq_idxOf? (catalogue : Catalogue) (name : String) :
    catalogue.typeId? name =
      ((catalogue.types.toList.map (·.name)).idxOf? name).map TypeId.mk := by
  rw [Catalogue.typeId?, List.idxOf?, List.findIdx?_map, ← List.findIdx?_toArray, Array.toArray_toList]
  rfl

theorem Catalogue.categoryId?_eq_idxOf? (catalogue : Catalogue) (name : String) :
    catalogue.categoryId? name =
      ((catalogue.categories.toList.map (·.name)).idxOf? name).map CategoryId.mk := by
  rw [Catalogue.categoryId?, List.idxOf?, List.findIdx?_map, ← List.findIdx?_toArray, Array.toArray_toList]
  rfl

namespace Draft

def Entry.renumber (number : TypeId → TypeId) (entry : Entry) : Entry :=
  { entry with base := entry.base.map number }

section Types

variable {number : TypeId → TypeId} {first second : Scope} (renumbered : first.Renumbered number second)
  {types others : Array NodeType}
  (lookup : ∀ id : TypeId, others[(number id).index]? = types[id.index]?.map (NodeType.renumber number))
include renumbered lookup

/-- A type that follows from its entry still does after both are renumbered. -/
theorem Compiles.renumber {entry : Entry} {type : NodeType} (compiles : Compiles first types entry type) :
    Compiles second others (entry.renumber number) (type.renumber number) := by
  have sameInherited : inherited others (entry.base.map number) =
      (inherited types entry.base).map (Field.renumber number) := by
    cases entry.base with
    | none => rfl
    | some base =>
      rw [Option.map_some, inherited, inherited, Option.bind_some, Option.bind_some, lookup]
      cases types[base.index]? <;> rfl
  refine ⟨compiles.name, congrArg (Option.map number) compiles.base, compiles.isAbstract, ?_⟩
  change compileFields second entry.name [] (inherited others (entry.base.map number)) entry.fields = _
  rw [sameInherited]
  exact (renumbered.compileFields entry.name [] _ entry.fields).eq_ok compiles.fields

end Types

private theorem map_name_callEntries (calls : List Call) :
    (callEntries calls).map (·.name) = callNames calls := by
  rw [callEntries, callNames, List.map_cons, List.map_map]
  rfl

theorem map_name_of_compiles {scope : Scope} {all : Array NodeType} {entries : List Entry}
    {types : List NodeType} (follow : List.Forall₂ (Compiles scope all) entries types) :
    types.map (·.name) = entries.map (·.name) := by
  induction follow with
  | nil => rfl
  | cons here _ ih => rw [List.map_cons, List.map_cons, here.name, ih]

/-- The number of a type where its declaration stands in the second order. -/
def callRenumbering (calls others : List Call) : TypeId → TypeId :=
  renumbering (callNames calls) (callNames others)

section Order

variable {calls others : List Call} (perm : calls.Perm others)
include perm

private theorem callNames_perm : (callNames calls).Perm (callNames others) := (perm.map _).cons _

/-- The entries of the second order are those that declarations leave in the first, renumbered. -/
theorem callEntries_eq_map : callEntries others =
    (⟨rootTypeName, none, true, []⟩ :: others.map (callEntry (callNames calls))).map
      (Entry.renumber (callRenumbering calls others)) := by
  rw [callEntries, List.map_cons, List.map_map]
  congr 1
  apply List.map_congr_left
  intro call _
  rw [callEntry, idxOf?_renumbering (callNames_perm perm), Function.comp_apply, callEntry, Entry.renumber,
    Option.map_map, Option.map_map]
  rfl

/-- The types of one order, renumbered and rearranged, follow from the entries of the other. -/
theorem exists_compiles_of_perm (distinct : (callNames others).Nodup) {first second : Scope}
    (renumbered : first.Renumbered (callRenumbering calls others) second) {types : Array NodeType}
    (follow : List.Forall₂ (Compiles first types) (callEntries calls) types.toList) :
    ∃ moved : Array NodeType,
      moved.toList.Perm (types.toList.map (NodeType.renumber (callRenumbering calls others))) ∧
      List.Forall₂ (Compiles second moved) (callEntries others) moved.toList := by
  have names : types.toList.map (·.name) = callNames calls := by
    rw [map_name_of_compiles follow, map_name_callEntries]
  cases isTypes : types.toList with
  | nil =>
    rw [isTypes] at follow
    cases follow
  | cons root rest =>
    rw [isTypes] at follow
    obtain ⟨isRoot, follow⟩ := List.forall₂_cons.mp follow
    rw [List.forall₂_map_left_iff] at follow
    obtain ⟨later, followLater, laterPerm⟩ := List.perm_comp_forall₂ perm.symm follow
    have followAll : List.Forall₂ (Compiles first types)
        (⟨rootTypeName, none, true, []⟩ :: others.map (callEntry (callNames calls))) (root :: later) :=
      .cons isRoot (List.forall₂_map_left_iff.mpr followLater)
    have moved : ((root :: later).map (NodeType.renumber (callRenumbering calls others))).Perm
        (types.toList.map (NodeType.renumber (callRenumbering calls others))) := by
      rw [isTypes]
      exact (laterPerm.cons root).map _
    have otherNames : ((root :: later).map (NodeType.renumber (callRenumbering calls others))).map (·.name)
        = callNames others := by
      rw [List.map_map]
      refine (map_name_of_compiles followAll).trans ?_
      rw [List.map_cons, List.map_map, callNames]
      rfl
    have kept (type : NodeType) : (type.renumber (callRenumbering calls others)).name = type.name := rfl
    have lookup := getElem?_of_renumbering (callNames_perm perm) kept names otherNames distinct moved
    refine ⟨((root :: later).map (NodeType.renumber (callRenumbering calls others))).toArray,
      isTypes ▸ moved, ?_⟩
    rw [callEntries_eq_map perm, List.forall₂_map_left_iff, List.forall₂_map_right_iff]
    refine followAll.imp fun entry type compiles => compiles.renumber renumbered fun id => ?_
    rw [List.getElem?_toArray, ← Array.getElem?_toList]
    exact lookup id

end Order

/-- A catalogue compiled from grounded entries is grounded. -/
theorem grounded_of_compiles {scope : Scope} {entries : List Entry} {catalogue : Catalogue}
    (grounded : ∀ (i : Nat) (entry : Entry), entries[i]? = some entry →
      ∀ id, entry.base = some id → id.index < i)
    (follow : List.Forall₂ (Compiles scope catalogue.types) entries catalogue.types.toList) :
    catalogue.Grounded := by
  intro id base isBase
  obtain ⟨type, found, isBase⟩ := Option.bind_eq_some_iff.mp isBase
  rw [Catalogue.type?, ← Array.getElem?_toList] at found
  obtain ⟨bound, rfl⟩ := List.getElem?_eq_some_iff.mp found
  have entryBound : id.index < entries.length := by rwa [follow.length_eq]
  have compiles := follow.get entryBound bound
  exact grounded id.index _ (List.getElem?_eq_getElem entryBound) base (compiles.base.symm.trans isBase)

/-- What compiles in one order compiles in the other, with its types renumbered. -/
theorem exists_renumbered {calls others : List Call} (perm : calls.Perm others) {first second : Draft}
    (holds : first.Holds calls) (otherHolds : second.Holds others)
    (sameCategories : second.categories = first.categories) {catalogue : Catalogue}
    (compiled : first.compile = .ok catalogue) :
    ∃ other, second.compile = .ok other ∧
      catalogue.Renumbered (callRenumbering calls others) other ∧
      (catalogue.types.toList.map (·.name)).Perm (other.types.toList.map (·.name)) := by
  have scope : first.scope.Renumbered (callRenumbering calls others) second.scope := by
    constructor
    · intro name
      change second.index.get? name = (first.index.get? name).map _
      rw [otherHolds.made.indexed.get?, holds.made.indexed.get?, otherHolds.typeNames, holds.typeNames,
        idxOf?_renumbering (callNames_perm perm), Option.map_map, Option.map_map]
      rfl
    · rw [Draft.scope, sameCategories, Draft.scope]
  obtain ⟨categories, types, -⟩ := compile_eq_ok_iff.mp compiled
  rw [holds.entries] at types
  have follow := (compileTypes_empty_eq_ok_iff holds.grounded).mp types
  obtain ⟨moved, rearranged, followMoved⟩ :=
    exists_compiles_of_perm perm otherHolds.distinct scope follow
  have names : catalogue.types.toList.map (·.name) = callNames calls := by
    rw [map_name_of_compiles follow, map_name_callEntries]
  have otherNames : moved.toList.map (·.name) = callNames others := by
    rw [map_name_of_compiles followMoved, map_name_callEntries]
  have kept (type : NodeType) : (type.renumber (callRenumbering calls others)).name = type.name := rfl
  refine ⟨⟨second.name, moved, catalogue.categories.map
    (Category.renumber (callRenumbering calls others))⟩, ?_, ?_, ?_⟩
  · rw [compile_eq_ok_iff]
    refine ⟨?_, ?_, rfl⟩
    · have inSecond := (scope.compileCategories #[] first.categories).eq_ok categories
      rw [Array.map_empty, ← sameCategories] at inSecond
      exact inSecond
    · rw [otherHolds.entries]
      exact (compileTypes_empty_eq_ok_iff otherHolds.grounded).mpr followMoved
  · constructor
    · exact renumbering_injective (callNames_perm perm) holds.distinct
    · intro id
      rw [Catalogue.type?, Catalogue.type?, ← Array.getElem?_toList, ← Array.getElem?_toList]
      exact getElem?_of_renumbering (callNames_perm perm) kept names otherNames otherHolds.distinct
        rearranged id
    · intro name
      rw [Catalogue.typeId?_eq_idxOf?, Catalogue.typeId?_eq_idxOf?, names, otherNames,
        idxOf?_renumbering (callNames_perm perm), Option.map_map, Option.map_map]
      rfl
    · rfl
    · exact grounded_of_compiles holds.grounded follow
    · exact grounded_of_compiles otherHolds.grounded followMoved
  · rw [names, otherNames]
    exact callNames_perm perm

theorem Holds.categoriseEach {draft : Draft} {calls : List Call} (holds : draft.Holds calls)
    (categories : List (String × List String)) : (draft.categoriseEach categories).Holds calls := by
  have made := holds.made.categories categories
  rw [← Draft.categoriseEach, categoriseEach_eq] at made
  rw [categoriseEach_eq]
  exact ⟨made, holds.distinct, holds.typeNames, holds.entries, holds.grounded⟩

/-- Accepted declarations compile in one order if they do in another, and to catalogues that say the same
of every name. -/
theorem declaration_order_irrelevant {name : String} {calls others : List Call}
    (perm : calls.Perm others) {first second : Draft}
    (accepted : (Draft.new name).describeEach calls = .ok first)
    (otherAccepted : (Draft.new name).describeEach others = .ok second)
    (categories : List (String × List String)) :
    ((∃ catalogue, (first.categoriseEach categories).compile = .ok catalogue) ↔
      ∃ catalogue, (second.categoriseEach categories).compile = .ok catalogue) ∧
    ∀ one other, (first.categoriseEach categories).compile = .ok one →
      (second.categoriseEach categories).compile = .ok other → one.AgreesByName other := by
  obtain ⟨holds, -, noCategories⟩ := holds_of_describeEach accepted
  obtain ⟨otherHolds, -, otherNoCategories⟩ := holds_of_describeEach otherAccepted
  have sameCategories : (second.categoriseEach categories).categories =
      (first.categoriseEach categories).categories := by
    rw [categoriseEach_eq, categoriseEach_eq, noCategories, otherNoCategories]
  have first := holds.categoriseEach categories
  have second := otherHolds.categoriseEach categories
  refine ⟨⟨?_, ?_⟩, ?_⟩
  · rintro ⟨one, compiled⟩
    obtain ⟨other, otherCompiled, -⟩ := exists_renumbered perm first second sameCategories compiled
    exact ⟨other, otherCompiled⟩
  · rintro ⟨one, compiled⟩
    obtain ⟨other, otherCompiled, -⟩ :=
      exists_renumbered perm.symm second first sameCategories.symm compiled
    exact ⟨other, otherCompiled⟩
  · intro one other compiled otherCompiled
    obtain ⟨_, again, renumbered, names⟩ := exists_renumbered perm first second sameCategories compiled
    rw [otherCompiled] at again
    cases again
    exact renumbered.agreesByName names

def leafCall : Call := ("Node", ⟨"Leaf", none, false, []⟩)

/-- Declares a type with a list that refers to a type and a category by name. -/
def branchCall : Call := ("Node", ⟨"Branch", none, true, [⟨"parts", true, ["Leaf", "Piece"], [], none⟩]⟩)

def twigCall : Call := ("Branch", ⟨"Twig", none, false, []⟩)

/-- The leaf is declared first or last, and gets the number one or three. -/
theorem declaration_order_irrelevant_leaf :
    [leafCall, branchCall, twigCall].Perm [branchCall, twigCall, leafCall] ∧
    ∃ first second, (Draft.new "wood").describeEach [leafCall, branchCall, twigCall] = .ok first ∧
      (Draft.new "wood").describeEach [branchCall, twigCall, leafCall] = .ok second ∧
      ∃ one other, (first.categoriseEach [("Piece", ["Leaf", "Twig"])]).compile = .ok one ∧
        (second.categoriseEach [("Piece", ["Leaf", "Twig"])]).compile = .ok other ∧
        one.typeId? "Leaf" = some ⟨1⟩ ∧ other.typeId? "Leaf" = some ⟨3⟩ ∧ one.AgreesByName other := by
  have perm : [leafCall, branchCall, twigCall].Perm [branchCall, twigCall, leafCall] :=
    (List.perm_append_comm : ([leafCall] ++ [branchCall, twigCall]).Perm _)
  have accepted : (Draft.new "wood").describeEach [leafCall, branchCall, twigCall] =
      .ok ⟨"wood", #[⟨"Node", none, true, []⟩, ⟨"Leaf", some ⟨0⟩, false, []⟩,
        ⟨"Branch", some ⟨0⟩, true, [⟨"parts", true, ["Leaf", "Piece"], [], none⟩]⟩,
        ⟨"Twig", some ⟨2⟩, false, []⟩],
        [("Node", ⟨0⟩), ("Leaf", ⟨1⟩), ("Branch", ⟨2⟩), ("Twig", ⟨3⟩)], []⟩ := by
    cbv
  have otherAccepted : (Draft.new "wood").describeEach [branchCall, twigCall, leafCall] =
      .ok ⟨"wood", #[⟨"Node", none, true, []⟩,
        ⟨"Branch", some ⟨0⟩, true, [⟨"parts", true, ["Leaf", "Piece"], [], none⟩]⟩,
        ⟨"Twig", some ⟨1⟩, false, []⟩, ⟨"Leaf", some ⟨0⟩, false, []⟩],
        [("Node", ⟨0⟩), ("Branch", ⟨1⟩), ("Twig", ⟨2⟩), ("Leaf", ⟨3⟩)], []⟩ := by
    cbv
  obtain ⟨-, agree⟩ := declaration_order_irrelevant perm accepted otherAccepted
    [("Piece", ["Leaf", "Twig"])]
  refine ⟨perm, _, _, accepted, otherAccepted, ⟨"wood", #[⟨"Node", none, true, []⟩,
      ⟨"Leaf", some ⟨0⟩, false, []⟩,
      ⟨"Branch", some ⟨0⟩, true, [⟨"parts", .list, [.type ⟨1⟩, .category ⟨0⟩], "Leaf|Piece", .undefined⟩]⟩,
      ⟨"Twig", some ⟨2⟩, false, [⟨"parts", .list, [.type ⟨1⟩, .category ⟨0⟩], "Leaf|Piece", .undefined⟩]⟩],
      #[⟨"Piece", [⟨1⟩, ⟨3⟩]⟩]⟩, ⟨"wood", #[⟨"Node", none, true, []⟩,
      ⟨"Branch", some ⟨0⟩, true, [⟨"parts", .list, [.type ⟨3⟩, .category ⟨0⟩], "Leaf|Piece", .undefined⟩]⟩,
      ⟨"Twig", some ⟨1⟩, false, [⟨"parts", .list, [.type ⟨3⟩, .category ⟨0⟩], "Leaf|Piece", .undefined⟩]⟩,
      ⟨"Leaf", some ⟨0⟩, false, []⟩], #[⟨"Piece", [⟨3⟩, ⟨2⟩]⟩]⟩, ?compiled, ?otherCompiled, ?_, ?_,
    agree _ _ ?compiled ?otherCompiled⟩
  all_goals cbv

end Draft
end Arbor
