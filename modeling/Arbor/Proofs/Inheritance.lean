import Arbor.Proofs.DeclarationOrder
import Mathlib.Logic.Relation

/-! # Inherited fields

A type starts with the fields of its base and lays its own over them one after the other. That comes to the
fields of the base, each replaced at its place if the type declares one of its name, and then the fields of
the type that have new names. So the names of the base are where they were, along a lineage of any length,
and a field is what the nearest type that declares its name says. -/

namespace Arbor

namespace Draft

section Declarations

/-- Something to declare: a type under a base of the given name, or a category. -/
inductive Declaration where
  | type (base : String) (decl : TypeDecl)
  | category (name : String) (members : List String)

/-- The draft after a declaration. One that is rejected leaves the draft as it is. -/
def declare (draft : Draft) : Declaration → Draft
  | .type base decl =>
    match draft.describe base decl with
    | .ok (_, after) => after
    | .error _ => draft
  | .category name members => draft.category name members

def declareAll (draft : Draft) (declarations : List Declaration) : Draft :=
  declarations.foldl declare draft

theorem Made.declare {draft : Draft} (made : draft.Made) (declaration : Declaration) :
    (draft.declare declaration).Made := by
  cases declaration with
  | category name members => exact made.category name members
  | type base decl =>
    rw [Draft.declare]
    split
    · next accepted => exact made.describe accepted
    · exact made

theorem Made.declareAll {draft : Draft} (made : draft.Made) (declarations : List Declaration) :
    (draft.declareAll declarations).Made := by
  induction declarations generalizing draft with
  | nil => exact made
  | cons declaration rest ih => exact ih (made.declare declaration)

theorem made_new_declareAll (name : String) (declarations : List Declaration) :
    ((Draft.new name).declareAll declarations).Made :=
  (Made.new name).declareAll declarations

def entryAt? (draft : Draft) (id : TypeId) : Option Entry := draft.types[id.index]?

/-- The first entry is the root type, and every other one has a base before it. -/
structure Rooted (draft : Draft) : Prop where
  root : draft.entryAt? ⟨0⟩ = some ⟨rootTypeName, none, true, []⟩
  based : ∀ id entry, draft.entryAt? id = some entry → id ≠ ⟨0⟩ →
    ∃ base, entry.base = some base ∧ base.index < id.index

theorem Made.rooted {draft : Draft} (made : draft.Made) : draft.Rooted := by
  induction made with
  | new name =>
    refine ⟨rfl, fun id entry found other => ?_⟩
    have bound := (Array.getElem?_eq_some_iff.mp found).1
    exact absurd (congrArg TypeId.mk (Nat.lt_one_iff.mp bound)) other
  | category made name members ih => exact ⟨ih.root, ih.based⟩
  | @describe draft after base decl id made accepted ih =>
    obtain ⟨baseId, isBase, -, -, rfl⟩ := describe_eq_ok accepted
    rw [made.indexed.get?] at isBase
    obtain ⟨index, found, rfl⟩ := Option.map_eq_some_iff.mp isBase
    have baseBound : index < draft.types.size := by
      have bound := (List.findIdx?_eq_some_iff_getElem.mp found).1
      simpa [typeNames] using bound
    constructor
    · have notLast : ¬ 0 = draft.types.size := by omega
      rw [entryAt?, Array.getElem?_push, if_neg notLast]
      exact ih.root
    · intro id entry found other
      rw [entryAt?, Array.getElem?_push] at found
      split at found
      · next last =>
        cases found
        exact ⟨⟨index⟩, rfl, last ▸ baseBound⟩
      · exact ih.based id entry found other

/-- The declaration of the type is the one among the declarations that was accepted under the number. -/
def Declares (draft : Draft) (declarations : List Declaration) (id : TypeId) (base : String)
    (decl : TypeDecl) : Prop :=
  ∃ before later after, declarations = before ++ .type base decl :: later ∧
    (draft.declareAll before).describe base decl = .ok (id, after)

/-- An entry was there before or is left by its declaration. -/
theorem exists_declares {draft : Draft} {declarations : List Declaration} {id : TypeId} {entry : Entry}
    (isEntry : (draft.declareAll declarations).entryAt? id = some entry) :
    draft.entryAt? id = some entry ∨ ∃ base decl, draft.Declares declarations id base decl ∧
      entry = ⟨decl.name, entry.base, decl.isAbstract, decl.fields⟩ := by
  induction declarations generalizing draft with
  | nil => exact .inl isEntry
  | cons declaration rest ih =>
    obtain before | ⟨base, decl, ⟨before, later, after, rfl, accepted⟩, same⟩ := ih isEntry
    · cases declaration with
      | category name members => exact .inl before
      | type base decl =>
        rw [declare] at before
        split at before
        · next number after accepted =>
          obtain ⟨baseId, -, -, isNumber, rfl⟩ := describe_eq_ok accepted
          rw [entryAt?, Array.getElem?_push] at before
          split at before
          · next last =>
            cases before
            have isId : number = id := isNumber.trans (congrArg TypeId.mk last.symm)
            exact .inr ⟨base, decl, ⟨[], rest, _, rfl, isId ▸ accepted⟩, rfl⟩
          · exact .inl before
        · exact .inl before
    · exact .inr ⟨base, decl, ⟨declaration :: before, later, after, rfl, accepted⟩, same⟩

end Declarations

/-- The type's own field of the name of a field, or the field itself where it has none. -/
def redeclare (own : List Field) (field : Field) : Field :=
  (own.find? (·.name == field.name)).getD field

/-- The fields of a type: those of its base, each replaced by its own field of that name if there is one,
and then its own fields of new names. -/
def inherit (base own : List Field) : List Field :=
  base.map (redeclare own) ++ own.filter fun field => field.name ∉ base.map (·.name)

section Inherit

variable {base own : List Field}

@[simp] theorem name_redeclare (own : List Field) (field : Field) :
    (redeclare own field).name = field.name := by
  rw [redeclare]
  cases found : own.find? (·.name == field.name) with
  | none => rfl
  | some other =>
    have same := List.find?_some found
    exact beq_iff_eq.mp same

private theorem redeclare_of_not_mem {field : Field} (new : field.name ∉ own.map (·.name)) :
    redeclare own field = field := by
  have none : own.find? (·.name == field.name) = none := by
    rw [List.find?_eq_none]
    intro other isOwn same
    exact new (List.mem_map.mpr ⟨other, isOwn, beq_iff_eq.mp same⟩)
  rw [redeclare, none, Option.getD_none]

private theorem names_inherit (base own : List Field) : (inherit base own).map (·.name) =
    base.map (·.name) ++ (own.filter fun field => field.name ∉ base.map (·.name)).map (·.name) := by
  simp only [inherit, List.map_append, List.map_map, Function.comp_def, name_redeclare]

private theorem inherit_nil (base : List Field) : inherit base [] = base := by
  rw [inherit, List.filter_nil, List.append_nil]
  exact List.map_id base

/-- A field is the type's own if it declares one, and that of the base otherwise. -/
theorem find?_inherit (base own : List Field) (name : String) :
    (inherit base own).find? (·.name == name) =
      (own.find? (·.name == name)).or (base.find? (·.name == name)) := by
  have inBase : (base.map (redeclare own)).find? (·.name == name) =
      (base.find? (·.name == name)).map (redeclare own) := by
    rw [List.find?_map]
    simp only [Function.comp_def, name_redeclare]
  rw [inherit, List.find?_append, inBase]
  cases found : base.find? (·.name == name) with
  | some field =>
    have isNamed := List.find?_some found
    rw [Option.map_some, redeclare, beq_iff_eq.mp isNamed]
    cases own.find? (·.name == name) <;> rfl
  | none =>
    rw [Option.map_none, Option.none_or, Option.or_none, List.find?_filter]
    congr 1
    funext field
    cases isNamed : field.name == name with
    | false => simp
    | true =>
      have new : field.name ∉ base.map (·.name) := by
        rw [beq_iff_eq.mp isNamed, List.mem_map]
        rintro ⟨other, isBase, same⟩
        exact List.find?_eq_none.mp found other isBase (beq_iff_eq.mpr same)
      simp [new]

private theorem overlay_eq_inherit (field : Field) (distinct : (base.map (·.name)).Nodup) :
    overlay field base = inherit base [field] := by
  induction base with
  | nil => rfl
  | cons other rest ih =>
    obtain ⟨otherNew, restDistinct⟩ := List.nodup_cons.mp distinct
    rw [overlay]
    split
    · next same =>
      have same : other.name = field.name := beq_iff_eq.mp same
      have here : redeclare [field] other = field := by simp [redeclare, same]
      have others : rest.map (redeclare [field]) = rest.map id := by
        apply List.map_congr_left
        intro later isLater
        apply redeclare_of_not_mem
        rw [List.map_singleton, List.mem_singleton, ← same]
        intro again
        exact otherNew (List.mem_map.mpr ⟨later, isLater, again⟩)
      rw [inherit, List.map_cons, here, others, List.map_id]
      simp [same]
    · next different =>
      have different : field.name ≠ other.name := fun same => different (beq_iff_eq.mpr same.symm)
      have here : redeclare [field] other = other := by simp [redeclare, different]
      have sameNew : ([field].filter fun field => field.name ∉ rest.map (·.name)) =
          [field].filter fun field => field.name ∉ (other :: rest).map (·.name) := by
        apply List.filter_congr
        intro single isField
        rw [List.mem_singleton.mp isField]
        simp only [List.map_cons, List.mem_cons, different, false_or]
      rw [ih restDistinct, inherit, sameNew, inherit, ← List.cons_append]
      congr 1
      rw [List.map_cons, here]

/-- Fields that are laid over one after the other are laid over together. -/
theorem inherit_inherit {field : Field} (new : field.name ∉ own.map (·.name)) :
    inherit (inherit base [field]) own = inherit base (field :: own) := by
  -- The field itself is not replaced again, since its name is declared only once.
  have step (other : Field) :
      redeclare own (redeclare [field] other) = redeclare (field :: own) other := by
    by_cases same : field.name = other.name
    · have first : redeclare [field] other = field := by simp [redeclare, same]
      have again : redeclare (field :: own) other = field := by simp [redeclare, same]
      rw [first, again, redeclare_of_not_mem new]
    · have first : redeclare [field] other = other := by simp [redeclare, same]
      rw [first]
      simp [redeclare, same]
  have kept : ([field].filter fun field => field.name ∉ base.map (·.name)).map (redeclare own) =
      [field].filter fun field => field.name ∉ base.map (·.name) := by
    refine (List.map_congr_left fun other isKept => ?_).trans (List.map_id _)
    rw [List.mem_singleton.mp (List.mem_filter.mp isKept).1]
    exact redeclare_of_not_mem new
  have later : (own.filter fun other => other.name ∉ (inherit base [field]).map (·.name)) =
      own.filter fun other => other.name ∉ base.map (·.name) := by
    apply List.filter_congr
    intro other isOwn
    have apart : other.name ∉ ([field].filter fun field => field.name ∉ base.map (·.name)).map (·.name) := by
      intro again
      obtain ⟨single, isKept, same⟩ := List.mem_map.mp again
      rw [List.mem_singleton.mp (List.mem_filter.mp isKept).1] at same
      exact new (List.mem_map.mpr ⟨other, isOwn, same.symm⟩)
    simp only [names_inherit, List.mem_append, apart, or_false]
  rw [inherit, later, inherit, List.map_append, List.map_map, kept, List.append_assoc]
  congr 1
  · exact List.map_congr_left fun other _ => step other
  · exact (List.filter_append [field] own).symm

end Inherit

/-- A field that compiles accepts what its entries stand for, and the literals. -/
theorem compileField_eq_ok {scope : Scope} {type : String} {decl : FieldDecl} {field : Field}
    (compiled : compileField scope type decl = .ok field) :
    ∃ entries kind default, scope.accepts type decl.name decl.accepts = .ok entries ∧
      fieldKind type decl entries = .ok kind ∧
      field = ⟨decl.name, kind, entries ++ decl.oneOf.map fun literal => .literal literal.toScalar,
        acceptLabel decl, default⟩ := by
  rw [compileField] at compiled
  split at compiled
  · contradiction
  next entries isEntries =>
  split at compiled
  · contradiction
  next kind isKind =>
  rw [withDefault.eq_def] at compiled
  split at compiled
  · cases compiled
    exact ⟨entries, kind, _, isEntries, isKind, rfl⟩
  · dsimp only at compiled
    split at compiled
    · cases compiled
      exact ⟨entries, kind, _, isEntries, isKind, rfl⟩
    · contradiction

private theorem name_of_compileField {scope : Scope} {type : String} {decl : FieldDecl}
    {field : Field} (compiled : compileField scope type decl = .ok field) :
    field.name = decl.name := by
  obtain ⟨_, _, _, -, -, rfl⟩ := compileField_eq_ok compiled
  rfl

/-- The fields compiled for declarations are laid over those of the base. -/
theorem exists_of_compileFields {scope : Scope} {type : String} {seen : List String}
    {base compiled : List Field} {decls : List FieldDecl} (distinct : (base.map (·.name)).Nodup)
    (success : compileFields scope type seen base decls = .ok compiled) :
    ∃ own, List.Forall₂ (fun decl field => compileField scope type decl = .ok field) decls own ∧
      (∀ name ∈ seen, name ∉ own.map (·.name)) ∧ compiled = inherit base own := by
  induction decls generalizing seen base with
  | nil =>
    cases success
    exact ⟨[], .nil, fun _ _ => List.not_mem_nil, (inherit_nil _).symm⟩
  | cons decl rest ih =>
    rw [compileFields] at success
    split at success
    · contradiction
    next fresh =>
    split at success
    · contradiction
    next field isField =>
    obtain ⟨own, compiles, unseen, rfl⟩ := ih (nodup_overlay field distinct) success
    have named := name_of_compileField isField
    have new : field.name ∉ own.map (·.name) := named ▸ unseen decl.name List.mem_cons_self
    refine ⟨field :: own, .cons isField compiles, ?_, ?_⟩
    · intro name isSeen
      rw [List.map_cons, List.mem_cons, not_or]
      refine ⟨?_, unseen name (List.mem_cons_of_mem _ isSeen)⟩
      rintro rfl
      exact fresh (List.contains_iff_mem.mpr (named ▸ isSeen))
    · rw [overlay_eq_inherit field distinct, inherit_inherit new]

end Draft

namespace Catalogue

/-- What a type extends is its base and what the base extends. -/
theorem Grounded.ancestors_eq {catalogue : Catalogue} (grounded : catalogue.Grounded) (id : TypeId) :
    catalogue.ancestors id =
      ((catalogue.base? id).map fun base => base :: catalogue.ancestors base).getD [] := by
  rw [ancestors, grounded.ancestorsUpTo_eq (Nat.le_refl _) (Nat.le_succ _), ancestorsUpTo]
  cases isBase : catalogue.base? id with
  | none => rfl
  | some base =>
    have less := grounded id base isBase
    exact congrArg (base :: ·) (grounded.ancestorsUpTo_eq less.le (Nat.le_refl _))

theorem Grounded.lineage_eq {catalogue : Catalogue} (grounded : catalogue.Grounded) (id : TypeId) :
    catalogue.lineage id = id :: ((catalogue.base? id).map catalogue.lineage).getD [] := by
  rw [lineage, grounded.ancestors_eq]
  rfl

def Extends (catalogue : Catalogue) (type base : TypeId) : Prop := catalogue.base? type = some base

theorem base?_eq {catalogue : Catalogue} {id : TypeId} {type : NodeType}
    (found : catalogue.type? id = some type) : catalogue.base? id = type.base := by
  rw [base?, found, Option.bind_some]

/-- What holds of a type whenever it holds of its base holds of every type. -/
theorem Grounded.induction {catalogue : Catalogue} (grounded : catalogue.Grounded)
    {motive : TypeId → Prop}
    (step : ∀ id, (∀ base, catalogue.base? id = some base → motive base) → motive id) (id : TypeId) :
    motive id := by
  obtain ⟨index⟩ := id
  induction index using Nat.strong_induction_on with
  | _ index ih => exact step ⟨index⟩ fun base isBase => ih base.index (grounded ⟨index⟩ base isBase)

/-- The instances of a type are those that extend it through any number of types. -/
theorem Grounded.instanceOf_iff {catalogue : Catalogue} (grounded : catalogue.Grounded) {type test : TypeId} :
    catalogue.instanceOf type test = true ↔ Relation.ReflTransGen catalogue.Extends type test := by
  rw [instanceOf_eq_contains, List.contains_iff_mem]
  constructor
  · intro isMember
    induction type using grounded.induction with
    | step type ih =>
      rw [grounded.lineage_eq, List.mem_cons] at isMember
      obtain rfl | further := isMember
      · exact .refl
      · cases isBase : catalogue.base? type with
        | none =>
          rw [isBase] at further
          contradiction
        | some base =>
          rw [isBase] at further
          exact .head isBase (ih base isBase further)
  · intro chain
    induction chain using Relation.ReflTransGen.head_induction_on with
    | refl =>
      rw [grounded.lineage_eq]
      exact List.mem_cons_self
    | head isBase _ ih =>
      rw [grounded.lineage_eq, isBase]
      exact List.mem_cons_of_mem _ ih

end Catalogue

namespace Draft

private theorem inherited_some {catalogue : Catalogue} {base : TypeId} {parent : NodeType}
    (isParent : catalogue.type? base = some parent) :
    inherited catalogue.types (some base) = parent.fields := by
  rw [inherited, Option.bind_some, ← Catalogue.type?, isParent]
  rfl

/-- The declaration of a field in a type, with the name of the type. -/
def declared? (draft : Draft) (field : String) (id : TypeId) : Option (String × FieldDecl) :=
  (draft.entryAt? id).bind fun entry =>
    (entry.fields.find? (·.name == field)).map fun decl => (entry.name, decl)

/-- The declaration of a field in the nearest type of a lineage that declares one of its name. -/
def nearest? (draft : Draft) (catalogue : Catalogue) (field : String) (id : TypeId) :
    Option (String × FieldDecl) :=
  (catalogue.lineage id).findSome? (draft.declared? field)

/-- The nearest declaration is the one in the type itself, or the nearest to its base. -/
theorem nearest?_eq {catalogue : Catalogue} (grounded : catalogue.Grounded) (draft : Draft)
    (field : String) (id : TypeId) : draft.nearest? catalogue field id =
      (draft.declared? field id).or ((catalogue.base? id).bind (draft.nearest? catalogue field)) := by
  rw [nearest?, grounded.lineage_eq, List.findSome?_cons]
  cases draft.declared? field id with
  | some declared => rfl
  | none => cases catalogue.base? id <;> rfl

/-- The own field of a name is compiled from the declaration of that name. -/
theorem map_find?_of_forall₂ {scope : Scope} {type : String} {decls : List FieldDecl} {own : List Field}
    (compiles : List.Forall₂ (fun decl field => compileField scope type decl = .ok field) decls own)
    (name : String) :
    (decls.find? (·.name == name)).map (compileField scope type) =
      (own.find? (·.name == name)).map .ok := by
  induction compiles with
  | nil => rfl
  | cons compiled _ ih =>
    rw [List.find?_cons, List.find?_cons, name_of_compileField compiled]
    split
    · exact congrArg some compiled
    · exact ih

section Compiled

variable {draft : Draft} (made : draft.Made) {catalogue : Catalogue}
  (compiled : draft.compile = .ok catalogue)
include made compiled

theorem Made.follow :
    List.Forall₂ (Compiles draft.scope catalogue.types) draft.types.toList catalogue.types.toList ∧
      catalogue.Grounded := by
  have grounded (i : Nat) (entry : Entry) (found : draft.types.toList[i]? = some entry) (id : TypeId)
      (isBase : entry.base = some id) : id.index < i := by
    rw [Array.getElem?_toList] at found
    by_cases first : i = 0
    · subst first
      cases made.rooted.root.symm.trans found
      contradiction
    · have other : (⟨i⟩ : TypeId) ≠ ⟨0⟩ := fun same => first (congrArg TypeId.index same)
      obtain ⟨base, isOther, less⟩ := made.rooted.based ⟨i⟩ entry found other
      cases isBase.symm.trans isOther
      exact less
  have follow := (compileTypes_empty_eq_ok_iff grounded).mp (compile_eq_ok_iff.mp compiled).2.1
  exact ⟨follow, grounded_of_compiles grounded follow⟩

theorem Made.exists_entry {id : TypeId} {type : NodeType} (found : catalogue.type? id = some type) :
    ∃ entry, draft.entryAt? id = some entry ∧ Compiles draft.scope catalogue.types entry type := by
  obtain ⟨follow, -⟩ := made.follow compiled
  rw [Catalogue.type?, ← Array.getElem?_toList] at found
  obtain ⟨bound, rfl⟩ := List.getElem?_eq_some_iff.mp found
  have entryBound : id.index < draft.types.toList.length := by rwa [follow.length_eq]
  refine ⟨_, ?_, follow.get entryBound bound⟩
  rw [entryAt?, ← Array.getElem?_toList]
  exact List.getElem?_eq_getElem entryBound

theorem Made.exists_base {id base : TypeId} {type : NodeType} (found : catalogue.type? id = some type)
    (isBase : type.base = some base) : ∃ parent, catalogue.type? base = some parent := by
  have less := (made.follow compiled).2 id base ((Catalogue.base?_eq found).trans isBase)
  have bound := (Array.getElem?_eq_some_iff.mp found).1
  exact ⟨_, Array.getElem?_eq_getElem (Nat.lt_trans less bound)⟩

/-- The fields of a type are its own, laid over those of its base. -/
theorem Made.exists_own {id : TypeId} {type : NodeType} (found : catalogue.type? id = some type) :
    ∃ entry own, draft.entryAt? id = some entry ∧ type.name = entry.name ∧ type.base = entry.base ∧
      List.Forall₂ (fun decl field => compileField draft.scope entry.name decl = .ok field)
        entry.fields own ∧
      type.fields = inherit (inherited catalogue.types type.base) own := by
  obtain ⟨entry, isEntry, compiles⟩ := made.exists_entry compiled found
  have distinct : ((inherited catalogue.types entry.base).map (·.name)).Nodup := by
    cases isBase : entry.base with
    | none => exact List.nodup_nil
    | some base =>
      obtain ⟨parent, isParent⟩ := made.exists_base compiled found (compiles.base.trans isBase)
      rw [inherited_some isParent]
      exact Catalogue.Compiled.nodup_fields ⟨draft, made, compiled⟩ isParent
  obtain ⟨own, compilesOwn, -, isInherited⟩ := exists_of_compileFields distinct compiles.fields
  exact ⟨entry, own, isEntry, compiles.name, compiles.base, compilesOwn, compiles.base ▸ isInherited⟩

/-- A field of a type is compiled from the nearest declaration of its name. -/
theorem Made.map_nearest? (field : String) (id : TypeId) :
    ∀ type, catalogue.type? id = some type →
      (draft.nearest? catalogue field id).map (fun nearest => compileField draft.scope nearest.1 nearest.2) =
        (type.field? field).map .ok := by
  obtain ⟨-, grounded⟩ := made.follow compiled
  induction id using grounded.induction with
  | step id ih =>
    intro type found
    obtain ⟨entry, own, isEntry, -, -, compiles, isInherited⟩ := made.exists_own compiled found
    have isBase := Catalogue.base?_eq found
    -- Both sides take what the type has of its own and otherwise go on to the base.
    have here : (draft.declared? field id).map
          (fun nearest => compileField draft.scope nearest.1 nearest.2) =
        (own.find? (·.name == field)).map .ok := by
      rw [declared?, isEntry, Option.bind_some, Option.map_map]
      exact map_find?_of_forall₂ compiles field
    have further : (type.base.bind (draft.nearest? catalogue field)).map
          (fun nearest => compileField draft.scope nearest.1 nearest.2) =
        ((inherited catalogue.types type.base).find? (·.name == field)).map .ok := by
      cases known : type.base with
      | none => rfl
      | some base =>
        obtain ⟨parent, isParent⟩ := made.exists_base compiled found known
        rw [Option.bind_some, ih base (isBase.trans known) parent isParent, inherited_some isParent,
          NodeType.field?]
    rw [nearest?_eq grounded, isBase, Option.map_or, here, further, NodeType.field?, isInherited,
      find?_inherit, Option.map_or]

/-- The names of the fields of a type stand first, in their order, in every type that extends it. -/
theorem Made.names_prefix {id test : TypeId} (chain : Relation.ReflTransGen catalogue.Extends id test) :
    ∀ type other, catalogue.type? id = some type → catalogue.type? test = some other →
      other.fields.map (·.name) <+: type.fields.map (·.name) := by
  induction chain using Relation.ReflTransGen.head_induction_on with
  | refl =>
    intro type other found isOther
    cases found.symm.trans isOther
    exact List.prefix_rfl
  | @head id base isBase _ ih =>
    intro type other found isOther
    have isBase : type.base = some base := (Catalogue.base?_eq found).symm.trans isBase
    obtain ⟨parent, isParent⟩ := made.exists_base compiled found isBase
    obtain ⟨entry, own, -, -, -, -, isInherited⟩ := made.exists_own compiled found
    rw [isInherited, isBase, inherited_some isParent, names_inherit]
    exact (ih parent other isParent isOther).trans (List.prefix_append _ _)

end Compiled

private theorem base_of_new {name : String} {id : TypeId} {entry : Entry}
    (isEntry : (Draft.new name).entryAt? id = some entry) : entry.base = none := by
  obtain ⟨_ | index⟩ := id
  · cases isEntry
    rfl
  · contradiction

private theorem fieldIndex?_of_prefix {type other : NodeType} {name : String} {index : Nat}
    (names : other.fields.map (·.name) <+: type.fields.map (·.name))
    (found : other.fieldIndex? name = some index) : type.fieldIndex? name = some index := by
  have byName (type : NodeType) :
      type.fieldIndex? name = (type.fields.map (·.name)).idxOf? name := by
    rw [NodeType.fieldIndex?, List.idxOf?, List.findIdx?_map]
    rfl
  rw [byName] at found ⊢
  obtain ⟨more, whole⟩ := names
  exact whole ▸ idxOf?_append_of_some found more

/-- A type that extends another has its fields, each replaced at its place where the type declares one of
that name, and then what else it declares. So names are different, keep their places in all that extends the
type, and belong to fields compiled from the nearest declaration. -/
theorem fields_inherited_in_place {name : String} {declarations : List Declaration} {catalogue : Catalogue}
    (compiled : ((Draft.new name).declareAll declarations).compile = .ok catalogue)
    {id : TypeId} {type : NodeType} (found : catalogue.type? id = some type) :
    (∀ base, type.base = some base → ∃ parent baseName decl own,
      catalogue.type? base = some parent ∧
      (Draft.new name).Declares declarations id baseName decl ∧
      ((Draft.new name).declareAll declarations).entryAt? id =
        some ⟨decl.name, some base, decl.isAbstract, decl.fields⟩ ∧
      List.Forall₂ (fun decl field =>
          compileField ((Draft.new name).declareAll declarations).scope type.name decl = .ok field)
        decl.fields own ∧
      type.fields = inherit parent.fields own) ∧
    (type.fields.map (·.name)).Nodup ∧
    (∀ test other, catalogue.type? test = some other → catalogue.instanceOf id test = true →
      other.fields.map (·.name) <+: type.fields.map (·.name) ∧
      ∀ field index, other.fieldIndex? field = some index → type.fieldIndex? field = some index) ∧
    ∀ field, (((Draft.new name).declareAll declarations).nearest? catalogue field id).map
        (fun nearest => compileField ((Draft.new name).declareAll declarations).scope nearest.1 nearest.2) =
      (type.field? field).map .ok := by
  have made := made_new_declareAll name declarations
  refine ⟨fun base isBase => ?_, Catalogue.Compiled.nodup_fields ⟨_, made, compiled⟩ found,
    fun test other isOther isInstance => ?_, fun field => made.map_nearest? compiled field id type found⟩
  · obtain ⟨parent, isParent⟩ := made.exists_base compiled found isBase
    obtain ⟨entry, own, isEntry, named, sameBase, compiles, isInherited⟩ := made.exists_own compiled found
    obtain root | ⟨baseName, decl, declares, isDeclared⟩ := exists_declares isEntry
    · rw [base_of_new root, isBase] at sameBase
      contradiction
    · obtain ⟨entryName, entryBase, entryAbstract, entryFields⟩ := entry
      cases isDeclared
      rw [isBase, inherited_some isParent] at isInherited
      rw [isBase] at sameBase
      exact ⟨parent, baseName, decl, own, isParent, declares, sameBase ▸ isEntry, named ▸ compiles,
        isInherited⟩
  · obtain ⟨-, grounded⟩ := made.follow compiled
    have chain := grounded.instanceOf_iff.mp isInstance
    have names := made.names_prefix compiled chain type other found isOther
    exact ⟨names, fun field index => fieldIndex?_of_prefix names⟩

/-- Declarations of a type, a second that extends it and a third that extends the second. The second is
declared once more, which is rejected. -/
def budding : List Declaration :=
  [.category "Piece" ["Leaf"],
    .type "Node" ⟨"Leaf", none, true,
      [⟨"size", false, ["number"], [], none⟩, ⟨"text", false, ["string", "null"], [], none⟩]⟩,
    .type "Leaf" ⟨"Twig", none, false,
      [⟨"bend", false, ["boolean"], [], none⟩, ⟨"size", false, ["string"], [], none⟩]⟩,
    .type "Node" ⟨"Twig", none, false, [⟨"text", false, ["number"], [], none⟩]⟩,
    .type "Twig" ⟨"Bud", none, false,
      [⟨"tip", false, ["Leaf"], [], none⟩, ⟨"bend", true, ["Piece"], [], none⟩]⟩]

/-- What the declarations compile to. -/
def budded : Catalogue :=
  ⟨"wood",
    #[⟨"Node", none, true, []⟩,
      ⟨"Leaf", some ⟨0⟩, true,
        [⟨"size", .native, [.primitive .number], "number", .undefined⟩,
          ⟨"text", .native, [.primitive .string, .null], "string|null", .null⟩]⟩,
      ⟨"Twig", some ⟨1⟩, false,
        [⟨"size", .native, [.primitive .string], "string", .undefined⟩,
          ⟨"text", .native, [.primitive .string, .null], "string|null", .null⟩,
          ⟨"bend", .native, [.primitive .boolean], "boolean", .boolean false⟩]⟩,
      ⟨"Bud", some ⟨2⟩, false,
        [⟨"size", .native, [.primitive .string], "string", .undefined⟩,
          ⟨"text", .native, [.primitive .string, .null], "string|null", .null⟩,
          ⟨"bend", .list, [.category ⟨0⟩], "Piece", .undefined⟩,
          ⟨"tip", .node, [.type ⟨1⟩], "Leaf", .undefined⟩]⟩],
    #[⟨"Piece", [⟨1⟩]⟩]⟩

theorem compile_budding : ((Draft.new "wood").declareAll budding).compile = .ok budded := by cbv

/-- The bud has its first field from the second type, its second from the first, and its own list in the
place of the inherited scalar. -/
theorem fields_inherited_in_place_budding :
    ((Draft.new "wood").declareAll budding).compile = .ok budded ∧
    ∃ leaf bud, budded.type? ⟨1⟩ = some leaf ∧ budded.type? ⟨3⟩ = some bud ∧
      leaf.fieldIndex? "text" = some 1 ∧ bud.fieldIndex? "text" = some 1 ∧
      bud.fields.map (·.name) = ["size", "text", "bend", "tip"] ∧ (bud.fields.map (·.name)).Nodup ∧
      bud.fields.map (·.kind) = [.native, .native, .list, .node] ∧
      (bud.field? "size").map .ok = some (compileField ((Draft.new "wood").declareAll budding).scope "Twig"
        ⟨"size", false, ["string"], [], none⟩) := by
  refine ⟨compile_budding, _, _, rfl, rfl, rfl, ?_⟩
  obtain ⟨-, distinct, places, nearest⟩ := fields_inherited_in_place compile_budding
    (rfl : budded.type? ⟨3⟩ = some _)
  obtain ⟨-, place⟩ := places ⟨1⟩ _ rfl (by decide)
  have isNearest : ((Draft.new "wood").declareAll budding).nearest? budded "size" ⟨3⟩ =
      some ("Twig", ⟨"size", false, ["string"], [], none⟩) := by
    cbv
  refine ⟨place "text" 1 rfl, rfl, distinct, rfl, ?_⟩
  rw [← nearest "size", isNearest, Option.map_some]

end Draft
end Arbor
