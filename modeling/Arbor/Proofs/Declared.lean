import Arbor.Proofs.Compiled
import Mathlib.Data.List.Forall2

/-! # What declarations amount to

Declarations that were all accepted leave one entry each, under names of their own, and the base of each
stands before it. Compiling goes through the entries in order, but says of each type no more than of its
entry and its base: the types are compiled exactly if each of them follows from its entry, given all the
types. That no longer mentions an order. -/

namespace Arbor.Draft

/-- A type to declare: the name of its base, and what is declared. -/
abbrev Call := String × TypeDecl

/-- Declare types one after the other, each under a base of the given name. -/
def describeEach (draft : Draft) : List Call → Except CatalogueError Draft
  | [] => .ok draft
  | (base, decl) :: rest =>
    match draft.describe base decl with
    | .error error => .error error
    | .ok (_, draft) => draft.describeEach rest

def categoriseEach (draft : Draft) (categories : List (String × List String)) : Draft :=
  categories.foldl (fun draft entry => draft.category entry.1 entry.2) draft

def callNames (calls : List Call) : List String := rootTypeName :: calls.map (·.2.name)

/-- The entry a declaration leaves where types have the given names. -/
def callEntry (names : List String) (call : Call) : Entry :=
  ⟨call.2.name, (names.idxOf? call.1).map TypeId.mk, call.2.isAbstract, call.2.fields⟩

def callEntries (calls : List Call) : List Entry :=
  ⟨rootTypeName, none, true, []⟩ :: calls.map (callEntry (callNames calls))

theorem categoriseEach_eq (draft : Draft) (categories : List (String × List String)) :
    draft.categoriseEach categories =
      { draft with categories := draft.categories ++ categories } := by
  induction categories generalizing draft with
  | nil => rw [List.append_nil]; rfl
  | cons entry rest ih =>
    show (draft.category entry.1 entry.2).categoriseEach rest = _
    rw [ih, category, List.append_assoc]
    rfl

theorem idxOf?_append_of_some {first : List String} {name : String} {index : Nat}
    (found : first.idxOf? name = some index) (second : List String) :
    (first ++ second).idxOf? name = some index := by
  rw [List.idxOf?, List.findIdx?_append, ← List.idxOf?, found]
  rfl

/-- Accepted declarations, from some draft on: their names are new, their bases come before them, and each
leaves its entry. -/
theorem describeEach_eq_ok {draft after : Draft} {calls : List Call}
    (made : draft.Made) (accepted : draft.describeEach calls = .ok after) :
    after.Made ∧ (draft.typeNames ++ calls.map (·.2.name)).Nodup ∧
    (∀ (i : Nat) (call : Call), calls[i]? = some call → ∃ index < draft.typeNames.length + i,
      (draft.typeNames ++ calls.map (·.2.name)).idxOf? call.1 = some index) ∧
    after.types.toList = draft.types.toList ++
      calls.map (callEntry (draft.typeNames ++ calls.map (·.2.name))) ∧
    after.name = draft.name ∧ after.categories = draft.categories := by
  induction calls generalizing draft with
  | nil =>
    cases accepted
    refine ⟨made, by simpa using made.nodup_typeNames, fun i call found => ?_, by simp, rfl, rfl⟩
    contradiction
  | cons call rest ih =>
    obtain ⟨base, decl⟩ := call
    rw [describeEach] at accepted
    split at accepted
    · contradiction
    next id described isDescribed =>
    obtain ⟨afterMade, allDistinct, grounded, entries, isName, isCategories⟩ :=
      ih (made.describe isDescribed) accepted
    rw [typeNames_of_describe isDescribed, List.append_assoc, List.singleton_append]
      at allDistinct grounded entries
    obtain ⟨baseId, isBase, -, -, rfl⟩ := describe_eq_ok isDescribed
    rw [made.indexed.get?] at isBase
    obtain ⟨index, found, rfl⟩ := Option.map_eq_some_iff.mp isBase
    have bound : index < draft.typeNames.length := by
      obtain ⟨inBound, -⟩ := List.findIdx?_eq_some_iff_getElem.mp found
      exact inBound
    have here := idxOf?_append_of_some found (decl.name :: rest.map (·.2.name))
    refine ⟨afterMade, allDistinct, ?_, ?_, isName, isCategories⟩
    · intro i call isCall
      cases i with
      | zero =>
        cases isCall
        exact ⟨index, bound, here⟩
      | succ i =>
        obtain ⟨earlier, less, isBase⟩ := grounded i call isCall
        refine ⟨earlier, ?_, isBase⟩
        rw [List.length_append, List.length_singleton] at less
        omega
    · rw [entries]
      simp [callEntry, here]

/-- What a draft holds once all declarations were accepted. -/
structure Holds (draft : Draft) (calls : List Call) : Prop where
  made : draft.Made
  distinct : (callNames calls).Nodup
  typeNames : draft.typeNames = callNames calls
  entries : draft.types.toList = callEntries calls
  grounded : ∀ (i : Nat) (entry : Entry), (callEntries calls)[i]? = some entry →
    ∀ id, entry.base = some id → id.index < i

theorem holds_of_describeEach {name : String} {draft : Draft} {calls : List Call}
    (accepted : (Draft.new name).describeEach calls = .ok draft) :
    draft.Holds calls ∧ draft.name = name ∧ draft.categories = [] := by
  have start : (Draft.new name).typeNames = [rootTypeName] := rfl
  obtain ⟨made, allDistinct, grounded, entries, isName, isCategories⟩ :=
    describeEach_eq_ok (Made.new name) accepted
  rw [start, List.singleton_append, ← callNames] at allDistinct grounded entries
  have entries : draft.types.toList = callEntries calls := entries
  refine ⟨⟨made, allDistinct, ?_, entries, ?_⟩, isName, isCategories⟩
  · rw [typeNames, entries, callEntries, callNames, List.map_cons, List.map_map]
    rfl
  · intro i entry isEntry id isBase
    cases i with
    | zero =>
      cases isEntry
      contradiction
    | succ i =>
      rw [callEntries, List.getElem?_cons_succ, List.getElem?_map] at isEntry
      obtain ⟨call, isCall, rfl⟩ := Option.map_eq_some_iff.mp isEntry
      obtain ⟨index, less, found⟩ := grounded i call isCall
      rw [callEntry, found] at isBase
      cases isBase
      rw [List.length_singleton] at less
      show index < i + 1
      omega

section Types

/-- The fields a type starts with, given the types compiled before. -/
def inherited (types : Array NodeType) (base : Option TypeId) : List Field :=
  ((base.bind fun id => types[id.index]?).map (·.fields)).getD []

/-- The type is what is declared in the entry, given all types. -/
structure Compiles (scope : Scope) (types : Array NodeType) (entry : Entry) (type : NodeType) :
    Prop where
  name : type.name = entry.name
  base : type.base = entry.base
  isAbstract : type.isAbstract = entry.isAbstract
  fields : compileFields scope entry.name [] (inherited types entry.base) entry.fields = .ok type.fields

/-- The base of an entry is among the types before it. -/
theorem inherited_append {types : Array NodeType} {base : Option TypeId}
    (earlier : ∀ id, base = some id → id.index < types.size) (more : Array NodeType) :
    inherited (types ++ more) base = inherited types base := by
  cases base with
  | none => rfl
  | some id =>
    rw [inherited, inherited, Option.bind_some, Option.bind_some,
      Array.getElem?_append_left (earlier id rfl)]

/-- Compiling types one after the other gives exactly those that follow from their entries. -/
theorem compileTypes_eq_ok_iff {scope : Scope} {entries : List Entry} {start types : Array NodeType}
    (grounded : ∀ (i : Nat) (entry : Entry), entries[i]? = some entry →
      ∀ id, entry.base = some id → id.index < start.size + i) :
    compileTypes scope start entries = .ok types ↔
      ∃ more : List NodeType, types = start ++ more.toArray ∧
        List.Forall₂ (Compiles scope types) entries more := by
  induction entries generalizing start with
  | nil =>
    constructor
    · intro done
      cases done
      exact ⟨[], by simp, .nil⟩
    · rintro ⟨_, rfl, ⟨⟩⟩
      simp [compileTypes]
  | cons entry rest ih =>
    have earlier (id : TypeId) (isBase : entry.base = some id) : id.index < start.size :=
      grounded 0 entry rfl id isBase
    rw [compileTypes, ← inherited]
    cases compiled : compileFields scope entry.name [] (inherited start entry.base) entry.fields with
    | error error =>
      refine iff_of_false (by simp) ?_
      rintro ⟨_, rfl, follow⟩
      cases follow with
      | cons here others =>
        have again := here.fields
        rw [inherited_append earlier, compiled] at again
        contradiction
    | ok fields =>
      have nextGrounded (i : Nat) (next : Entry) (isNext : rest[i]? = some next) (id : TypeId)
          (isBase : next.base = some id) :
          id.index < (start.push ⟨entry.name, entry.base, entry.isAbstract, fields⟩).size + i := by
        have less := grounded (i + 1) next isNext id isBase
        rw [Array.size_push]
        omega
      have whole (more : List NodeType) :
          start.push ⟨entry.name, entry.base, entry.isAbstract, fields⟩ ++ more.toArray =
            start ++ (⟨entry.name, entry.base, entry.isAbstract, fields⟩ :: more).toArray := by
        simp
      dsimp only
      rw [ih nextGrounded]
      constructor
      · rintro ⟨more, rfl, others⟩
        refine ⟨_, whole more, .cons ⟨rfl, rfl, rfl, ?_⟩ others⟩
        rw [whole, inherited_append earlier, compiled]
      · rintro ⟨_, rfl, follow⟩
        cases follow with
        | @cons _ type _ more here others =>
          obtain ⟨typeName, typeBase, typeAbstract, typeFields⟩ := type
          obtain ⟨rfl, rfl, rfl, again⟩ := here
          rw [inherited_append earlier, compiled] at again
          cases again
          exact ⟨more, (whole more).symm, others⟩

/-- All types of a catalogue are compiled exactly if each follows from its entry. -/
theorem compileTypes_empty_eq_ok_iff {scope : Scope} {entries : List Entry} {types : Array NodeType}
    (grounded : ∀ (i : Nat) (entry : Entry), entries[i]? = some entry →
      ∀ id, entry.base = some id → id.index < i) :
    compileTypes scope #[] entries = .ok types ↔
      List.Forall₂ (Compiles scope types) entries types.toList := by
  rw [compileTypes_eq_ok_iff (by simpa using grounded)]
  constructor
  · rintro ⟨all, isTypes, follow⟩
    rw [Array.empty_append] at isTypes
    rwa [show types.toList = all by rw [isTypes]]
  · exact fun follow => ⟨types.toList, by simp, follow⟩

end Types

end Arbor.Draft
