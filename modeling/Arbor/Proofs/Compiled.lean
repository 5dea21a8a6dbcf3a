import Arbor.Catalogue.Draft
import Arbor.Proofs.Records

/-! # Names in compiled catalogues

No two types of a compiled catalogue share a name, since a draft refuses to declare a name twice; and no
two fields of a type do, since a field replaces the inherited one of its name. So a name leads back to
the type or field it belongs to, and the index that a draft keeps of its types finds what a search
through the names of the catalogue finds. -/

namespace Arbor

/-- The draft comes from declarations that were all accepted. -/
inductive Draft.Made : Draft → Prop where
  | new (name : String) : Made (Draft.new name)
  | describe {draft after : Draft} {base : String} {decl : TypeDecl} {id : TypeId} (made : Made draft)
      (accepted : draft.describe base decl = .ok (id, after)) : Made after
  | category {draft : Draft} (made : Made draft) (name : String) (members : List String) :
      Made (draft.category name members)

/-- The catalogue is compiled from declarations. -/
def Catalogue.Compiled (catalogue : Catalogue) : Prop :=
  ∃ draft : Draft, draft.Made ∧ draft.compile = .ok catalogue

namespace Draft

section Index

def typeNames (draft : Draft) : List String := draft.types.toList.map (·.name)

/-- The index has each type under its name, in the order of their numbers. -/
def Indexed (draft : Draft) : Prop := draft.index = numbered TypeId.mk draft.typeNames

variable {α : Type} {draft after : Draft} {base : String} {decl : TypeDecl} {id : TypeId}

private theorem numbered_cons (number : Nat → α) (first : String) (rest : List String) :
    numbered number (first :: rest) =
      (first, number 0) :: numbered (fun place => number (place + 1)) rest :=
  List.mapIdx_cons

private theorem keys_numbered (number : Nat → α) (names : List String) :
    (numbered number names).keys = names := by
  induction names generalizing number with
  | nil => rfl
  | cons first rest ih =>
    rw [numbered_cons, Record.keys, List.map_cons]
    exact congrArg (first :: ·) (ih _)

/-- To look up a name is to search for its place. -/
theorem get?_numbered (number : Nat → α) (names : List String) (name : String) :
    (numbered number names).get? name = (names.idxOf? name).map number := by
  induction names generalizing number with
  | nil => rfl
  | cons first rest ih =>
    rw [numbered_cons, Record.get?, ih, List.idxOf?_cons]
    split
    · rfl
    · rw [Option.map_map]
      rfl

theorem Indexed.get? (indexed : draft.Indexed) (name : String) :
    draft.index.get? name = (draft.typeNames.idxOf? name).map TypeId.mk := by
  rw [indexed, get?_numbered]

/-- A declaration that is accepted has a base that was declared and a name that was not. -/
theorem describe_eq_ok (accepted : draft.describe base decl = .ok (id, after)) :
    ∃ baseId, draft.index.get? base = some baseId ∧ decl.name ∉ draft.index.keys ∧
      id = ⟨draft.types.size⟩ ∧ after = { draft with
        types := draft.types.push ⟨decl.name, some baseId, decl.isAbstract, decl.fields⟩
        index := draft.index.insert decl.name ⟨draft.types.size⟩ } := by
  rw [describe] at accepted
  split at accepted
  · contradiction
  next baseId isBase =>
  split at accepted
  · contradiction
  next fresh =>
  cases accepted
  exact ⟨baseId, isBase, mt Record.contains_iff.mpr fresh, rfl, rfl⟩

theorem typeNames_of_describe (accepted : draft.describe base decl = .ok (id, after)) :
    after.typeNames = draft.typeNames ++ [decl.name] := by
  obtain ⟨baseId, -, -, -, rfl⟩ := describe_eq_ok accepted
  rw [typeNames, Array.toList_push, List.map_append, typeNames]
  rfl

/-- A type that is declared is added to the index. -/
theorem Indexed.describe (indexed : draft.Indexed) (accepted : draft.describe base decl = .ok (id, after)) :
    after.Indexed := by
  have names := typeNames_of_describe accepted
  obtain ⟨baseId, -, fresh, -, rfl⟩ := describe_eq_ok accepted
  rw [Indexed, names, numbered, List.mapIdx_concat, ← numbered, ← indexed]
  dsimp only
  rw [Record.insert_of_not_mem fresh, typeNames, List.length_map, Array.length_toList]

theorem Made.indexed (made : draft.Made) : draft.Indexed := by
  induction made with
  | new name => rfl
  | describe made accepted ih => exact ih.describe accepted
  | category made name members ih => exact ih

theorem Made.nodup_typeNames (made : draft.Made) : draft.typeNames.Nodup := by
  induction made with
  | new name => exact List.nodup_singleton _
  | describe made accepted ih =>
    obtain ⟨baseId, -, fresh, -, -⟩ := describe_eq_ok accepted
    rw [made.indexed, keys_numbered] at fresh
    rw [typeNames_of_describe accepted, ← List.concat_eq_append]
    exact List.Nodup.concat fresh ih
  | category made name members ih => exact ih

theorem Made.describeAll {decls : List TypeDecl} (made : draft.Made)
    (accepted : draft.describeAll decls = .ok after) : after.Made := by
  induction decls generalizing draft with
  | nil =>
    cases accepted
    exact made
  | cons decl rest ih =>
    rw [Draft.describeAll] at accepted
    split at accepted
    · contradiction
    · next described => exact ih (made.describe described) accepted

theorem Made.categories (made : draft.Made) (categories : List (String × List String)) :
    (categories.foldl (fun draft entry => draft.category entry.1 entry.2) draft).Made := by
  induction categories generalizing draft with
  | nil => exact made
  | cons entry rest ih => exact ih (made.category entry.1 entry.2)

end Index

private theorem names_overlay (field : Field) (fields : List Field) :
    (overlay field fields).map (·.name) =
      if field.name ∈ fields.map (·.name) then fields.map (·.name)
      else fields.map (·.name) ++ [field.name] := by
  induction fields with
  | nil => simp [overlay]
  | cons other rest ih =>
    rw [overlay]
    split
    · next same => simp [beq_iff_eq.mp same]
    · next different =>
      have apart : field.name ≠ other.name := fun same => different (beq_iff_eq.mpr same.symm)
      rw [List.map_cons, ih]
      by_cases inRest : field.name ∈ rest.map (·.name) <;> simp [inRest, apart]

theorem nodup_overlay (field : Field) {fields : List Field} (distinct : (fields.map (·.name)).Nodup) :
    ((overlay field fields).map (·.name)).Nodup := by
  rw [names_overlay]
  split
  · exact distinct
  · next new =>
    rw [← List.concat_eq_append]
    exact List.Nodup.concat new distinct

private theorem nodup_compileFields {scope : Scope} {type : String} {own : List String}
    {fields compiled : List Field} {decls : List FieldDecl}
    (distinct : (fields.map (·.name)).Nodup)
    (success : compileFields scope type own fields decls = .ok compiled) :
    (compiled.map (·.name)).Nodup := by
  induction decls generalizing own fields with
  | nil =>
    cases success
    exact distinct
  | cons decl rest ih =>
    rw [compileFields] at success
    split at success
    · contradiction
    split at success
    · contradiction
    · exact ih (nodup_overlay _ distinct) success

/-- Compiling types keeps their names, in their order, and gives each of them fields of different
names. -/
theorem compileTypes_spec {scope : Scope} {types compiled : Array NodeType} {entries : List Entry}
    (distinct : ∀ type ∈ types.toList, (type.fields.map (·.name)).Nodup)
    (success : compileTypes scope types entries = .ok compiled) :
    compiled.toList.map (·.name) = types.toList.map (·.name) ++ entries.map (·.name) ∧
      ∀ type ∈ compiled.toList, (type.fields.map (·.name)).Nodup := by
  induction entries generalizing types with
  | nil =>
    cases success
    exact ⟨by simp, distinct⟩
  | cons entry rest ih =>
    rw [compileTypes] at success
    split at success
    · contradiction
    · next fields compiledFields =>
      have inherited :
          ((((entry.base.bind fun id => types[id.index]?).map (·.fields)).getD []).map
            (·.name)).Nodup := by
        cases found : entry.base.bind fun id => types[id.index]? with
        | none => exact List.nodup_nil
        | some base =>
          obtain ⟨id, -, there⟩ := Option.bind_eq_some_iff.mp found
          exact distinct base (Array.mem_toList_iff.mpr (Array.mem_of_getElem? there))
      have grown : ∀ type ∈ (types.push ⟨entry.name, entry.base, entry.isAbstract, fields⟩).toList,
          (type.fields.map (·.name)).Nodup := by
        intro type member
        rw [Array.toList_push, List.mem_append, List.mem_singleton] at member
        obtain old | rfl := member
        · exact distinct type old
        · exact nodup_compileFields inherited compiledFields
      obtain ⟨names, nodup⟩ := ih grown success
      exact ⟨by simpa using names, nodup⟩

theorem compile_eq_ok_iff {draft : Draft} {catalogue : Catalogue} :
    draft.compile = .ok catalogue ↔
      compileCategories draft.scope #[] draft.categories = .ok catalogue.categories ∧
        compileTypes draft.scope #[] draft.types.toList = .ok catalogue.types ∧
        catalogue.name = draft.name := by
  rw [compile]
  cases compileCategories draft.scope #[] draft.categories with
  | error => simp
  | ok categories =>
    cases compileTypes draft.scope #[] draft.types.toList with
    | error => simp
    | ok types =>
      constructor
      · intro done
        cases done
        exact ⟨rfl, rfl, rfl⟩
      · rintro ⟨sameCategories, sameTypes, sameName⟩
        cases sameCategories
        cases sameTypes
        rw [← sameName]

end Draft

namespace Catalogue

/-- Where names are different, looking up a name and reading one are inverse. -/
theorem findIdx?_eq_some_iff_of_nodup {α : Type} {label : α → String} {items : Array α}
    (distinct : (items.toList.map label).Nodup) {name : String} {index : Nat} :
    items.findIdx? (label · == name) = some index ↔ items[index]?.map label = some name := by
  rw [Array.findIdx?_eq_some_iff_getElem]
  constructor
  · rintro ⟨bound, same, -⟩
    rw [Array.getElem?_eq_getElem bound, Option.map_some, beq_iff_eq.mp same]
  · intro named
    obtain ⟨item, found, same⟩ := Option.map_eq_some_iff.mp named
    obtain ⟨bound, rfl⟩ := Array.getElem?_eq_some_iff.mp found
    refine ⟨bound, beq_iff_eq.mpr same, fun j before again => ?_⟩
    rw [List.Nodup, List.pairwise_map, List.pairwise_iff_getElem] at distinct
    apply distinct j index (Nat.lt_trans before bound) bound before
    exact (beq_iff_eq.mp again).trans same.symm

theorem typeId?_eq_some_iff {catalogue : Catalogue}
    (distinct : (catalogue.types.toList.map (·.name)).Nodup) {name : String} {id : TypeId} :
    catalogue.typeId? name = some id ↔ (catalogue.type? id).map (·.name) = some name := by
  rw [type?, ← findIdx?_eq_some_iff_of_nodup distinct, typeId?, Option.map_eq_some_iff]
  constructor
  · rintro ⟨index, found, rfl⟩
    exact found
  · exact fun found => ⟨id.index, found, rfl⟩

theorem categoryId?_eq_some_iff {catalogue : Catalogue}
    (distinct : (catalogue.categories.toList.map (·.name)).Nodup) {name : String} {id : CategoryId} :
    catalogue.categoryId? name = some id ↔ (catalogue.category? id).map (·.name) = some name := by
  rw [category?, ← findIdx?_eq_some_iff_of_nodup distinct, categoryId?, Option.map_eq_some_iff]
  constructor
  · rintro ⟨index, found, rfl⟩
    exact found
  · exact fun found => ⟨id.index, found, rfl⟩

end Catalogue

namespace Catalogue.Compiled

variable {catalogue : Catalogue}

/-- A catalogue of declarations that are given all at once is compiled from accepted ones. -/
theorem of_ofDecl {decl : CatalogueDecl} (given : Catalogue.ofDecl decl = .ok catalogue) :
    catalogue.Compiled := by
  rw [Catalogue.ofDecl] at given
  split at given
  · contradiction
  next draft isDraft =>
  have start := (Draft.Made.new decl.name).categories (decl.categories.mergeSort fun a b => !(b.1 < a.1))
  exact ⟨draft, start.describeAll isDraft, given⟩

theorem nodup_typeNames (compiled : catalogue.Compiled) :
    (catalogue.types.toList.map (·.name)).Nodup := by
  obtain ⟨draft, made, success⟩ := compiled
  have names := (Draft.compileTypes_spec (by simp) (Draft.compile_eq_ok_iff.mp success).2.1).1
  rw [names]
  exact made.nodup_typeNames

/-- The fields of a type have different names. -/
theorem nodup_fields (compiled : catalogue.Compiled) {id : TypeId} {type : NodeType}
    (found : catalogue.type? id = some type) : (type.fields.map (·.name)).Nodup := by
  obtain ⟨draft, made, success⟩ := compiled
  apply (Draft.compileTypes_spec (by simp) (Draft.compile_eq_ok_iff.mp success).2.1).2
  exact Array.mem_toList_iff.mpr (Array.mem_of_getElem? found)

/-- The name of a type leads back to it. -/
theorem typeId?_name (compiled : catalogue.Compiled) {id : TypeId} {type : NodeType}
    (found : catalogue.type? id = some type) : catalogue.typeId? type.name = some id := by
  rw [typeId?_eq_some_iff compiled.nodup_typeNames, found, Option.map_some]

end Catalogue.Compiled

end Arbor
