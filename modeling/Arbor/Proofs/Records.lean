import Arbor.Record
import Mathlib.Data.List.Nodup

/-! # Laws of records

A record is looked up by name, so what matters about a change is which names it adds and what each name
leads to afterwards. -/

namespace Arbor

namespace Record

variable {α : Type}

theorem get?_append (first second : Record α) (key : String) :
    get? (first ++ second) key = (first.get? key).or (second.get? key) := by
  induction first with
  | nil => rfl
  | cons member rest ih =>
    obtain ⟨name, value⟩ := member
    rw [List.cons_append, get?, get?, ih]
    split <;> rfl

theorem get?_eq_none_iff {record : Record α} {key : String} :
    record.get? key = none ↔ key ∉ record.keys := by
  induction record with
  | nil => simp [get?, keys]
  | cons member rest ih =>
    obtain ⟨name, value⟩ := member
    rw [get?, keys, List.map_cons, ← keys, List.mem_cons, not_or, ← ih]
    by_cases same : name = key
    · simp [same]
    · simp [same, Ne.symm same]

theorem contains_iff {record : Record α} {key : String} :
    record.contains key = true ↔ key ∈ record.keys := by
  simp [contains, keys]

theorem contains_of_get? {record : Record α} {key : String} {value : α}
    (found : record.get? key = some value) : record.contains key = true := by
  rw [contains_iff]
  by_contra absent
  rw [get?_eq_none_iff.mpr absent] at found
  contradiction

theorem get?_filter (keep : String → Bool) (record : Record α) (key : String) :
    get? (record.filter fun member => keep member.1) key =
      if keep key then record.get? key else none := by
  induction record with
  | nil => simp [get?]
  | cons member rest ih =>
    obtain ⟨name, value⟩ := member
    by_cases same : name = key
    · subst same
      cases kept : keep name <;> simp [kept, get?, ih]
    · cases kept : keep name <;> simp [kept, get?, same, ih]

theorem insert_of_not_mem {record : Record α} {key : String} (absent : key ∉ record.keys)
    (value : α) : record.insert key value = record ++ [(key, value)] := by
  induction record with
  | nil => rfl
  | cons member rest ih =>
    obtain ⟨name, old⟩ := member
    rw [keys, List.map_cons, List.mem_cons, not_or] at absent
    rw [insert, if_neg (by simpa using Ne.symm absent.1), ih absent.2, List.cons_append]

theorem length_insert_le (record : Record α) (key : String) (value : α) :
    (record.insert key value).length ≤ record.length + 1 := by
  induction record with
  | nil => exact Nat.le_refl _
  | cons member rest ih =>
    obtain ⟨name, old⟩ := member
    rw [insert]
    split
    · exact Nat.le_succ _
    · exact Nat.succ_le_succ ih

theorem nodup_insert {record : Record α} (distinct : record.keys.Nodup) (key : String) (value : α) :
    (record.insert key value).keys.Nodup := by
  rw [keys_insert]
  split
  · exact distinct
  · next new =>
    rw [← List.concat_eq_append]
    exact List.Nodup.concat new distinct

/-- Members with names of their own go to the end of a record, in order. -/
theorem foldl_insert {record members : Record α} (distinct : (record ++ members).keys.Nodup) :
    members.foldl (fun record member => record.insert member.1 member.2) record
      = record ++ members := by
  induction members generalizing record with
  | nil => rw [List.foldl_nil, List.append_nil]
  | cons member rest ih =>
    have absent : member.1 ∉ record.keys := by
      rw [keys, List.map_append, List.nodup_append] at distinct
      exact fun known => distinct.2.2 _ known _ (List.mem_cons_self ..) rfl
    rw [List.append_cons] at distinct ⊢
    rw [List.foldl_cons, insert_of_not_mem absent, ih distinct]

/-- The members whose names were not seen before. -/
def unseen (seen : List String) : Record α → Record α
  | [] => []
  | member :: rest =>
    if member.1 ∈ seen then unseen seen rest else member :: unseen (seen ++ [member.1]) rest

/-- Only members with new names are added to a record, each of them once. -/
theorem foldl_insert_missing (record members : Record α) :
    members.foldl (fun record member =>
        if record.contains member.1 then record else record.insert member.1 member.2) record
      = record ++ unseen record.keys members := by
  induction members generalizing record with
  | nil => rw [List.foldl_nil, unseen, List.append_nil]
  | cons member rest ih =>
    rw [List.foldl_cons, ih, unseen]
    by_cases known : member.1 ∈ record.keys
    · rw [if_pos (contains_iff.mpr known), if_pos known]
    · rw [if_neg (mt contains_iff.mp known), if_neg known, insert_of_not_mem known, keys, keys,
        List.map_append, ← List.append_cons]
      rfl

theorem sublist_unseen (seen : List String) (record : Record α) :
    (unseen seen record).Sublist record := by
  induction record generalizing seen with
  | nil => exact .slnil
  | cons member rest ih =>
    rw [unseen]
    split
    · exact (ih seen).cons member
    · exact (ih _).cons_cons member

theorem unseen_append {apart : List String} {record : Record α}
    (disjoint : ∀ name ∈ record.keys, name ∉ apart) (seen : List String) :
    unseen (apart ++ seen) record = unseen seen record := by
  induction record generalizing seen with
  | nil => rfl
  | cons member rest ih =>
    have other := disjoint _ (List.mem_cons_self ..)
    have ih := ih fun name later => disjoint name (List.mem_cons_of_mem _ later)
    rw [unseen, unseen, ih seen, List.append_assoc, ih (seen ++ [member.1])]
    simp only [List.mem_append, other, false_or]

theorem get?_unseen {seen : List String} {key : String} (new : key ∉ seen) (record : Record α) :
    (unseen seen record).get? key = record.get? key := by
  induction record generalizing seen with
  | nil => rfl
  | cons member rest ih =>
    obtain ⟨name, value⟩ := member
    by_cases same : name = key
    · rw [unseen, if_neg (same ▸ new), get?, get?, beq_iff_eq.mpr same]
      rfl
    · rw [get?, if_neg (mt beq_iff_eq.mp same), unseen]
      split
      · exact ih new
      · rw [get?, if_neg (mt beq_iff_eq.mp same)]
        exact ih (by simpa using ⟨new, Ne.symm same⟩)

private theorem unseen_of_nodup {seen : List String} {record : Record α}
    (distinct : (seen ++ record.keys).Nodup) : unseen seen record = record := by
  induction record generalizing seen with
  | nil => rfl
  | cons member rest ih =>
    rw [keys, List.map_cons, ← keys] at distinct
    have new : member.1 ∉ seen := by
      rw [List.nodup_append] at distinct
      exact fun known => distinct.2.2 _ known _ (List.mem_cons_self ..) rfl
    rw [unseen, if_neg new, ih (by simpa using distinct)]

/-- The two records say the same of every name. They are written alike unless the first repeats one. -/
structure Same (record other : Record α) : Prop where
  get?_eq : ∀ name, other.get? name = record.get? name
  eq_of_nodup : record.keys.Nodup → other = record

theorem same_unseen (record : Record α) : record.Same (unseen [] record) where
  get?_eq _ := get?_unseen List.not_mem_nil record
  eq_of_nodup distinct := unseen_of_nodup distinct

/-- Among fields with names of their own, the name of one leads to what is written for it. -/
theorem get?_written {β : Type} (name : β → String) (written : β → α) (keep : β → Bool) {all : List β}
    (distinct : (all.map name).Nodup) {b : β} (member : b ∈ all) :
    get? ((all.filter keep).map fun b => (name b, written b)) (name b)
      = if keep b then some (written b) else none := by
  induction all with
  | nil => contradiction
  | cons first rest ih =>
    rw [List.map_cons, List.nodup_cons, List.mem_map] at distinct
    rcases List.mem_cons.mp member with rfl | later
    · have absent : get? ((rest.filter keep).map fun b => (name b, written b)) (name b) = none := by
        rw [get?_eq_none_iff, keys, List.map_map]
        rintro again
        obtain ⟨other, kept, same⟩ := List.mem_map.mp again
        exact distinct.1 ⟨other, List.mem_of_mem_filter kept, same⟩
      rw [List.filter_cons]
      split
      · rw [List.map_cons, get?, if_pos (beq_self_eq_true _)]
      · exact absent
    · have other : ¬ (name first == name b) = true := by
        rw [beq_iff_eq]
        exact fun same => distinct.1 ⟨b, later, same.symm⟩
      rw [List.filter_cons]
      split
      · rw [List.map_cons, get?, if_neg other, ih distinct.2 later]
      · exact ih distinct.2 later

end Record

end Arbor
