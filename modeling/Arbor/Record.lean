/-! # Ordered records

A record is a list of named members in the order in which they were first put there. Writing a
member that exists keeps its place; a new member goes to the end. -/

namespace Arbor

/-- Named members in order. -/
abbrev Record (α : Type) := List (String × α)

namespace Record

variable {α : Type}

def get? : Record α → String → Option α
  | [], _ => none
  | (name, value) :: rest, key => if name == key then some value else get? rest key

def contains (record : Record α) (key : String) : Bool := record.any (·.1 == key)

/-- Write a member, in place when it exists and at the end otherwise. -/
def insert (key : String) (value : α) : Record α → Record α
  | [] => [(key, value)]
  | (name, old) :: rest =>
    if name == key then (name, value) :: rest else (name, old) :: insert key value rest

def keys (record : Record α) : List String := record.map (·.1)

theorem get?_insert (record : Record α) (key : String) (value : α) (name : String) :
    (record.insert key value).get? name = if name = key then some value else record.get? name := by
  induction record with
  | nil => grind [insert, get?]
  | cons member rest ih =>
    obtain ⟨first, old⟩ := member
    by_cases written : first = key <;> by_cases asked : first = name <;> grind [insert, get?]

theorem keys_insert (record : Record α) (key : String) (value : α) :
    (record.insert key value).keys =
      if key ∈ record.keys then record.keys else record.keys ++ [key] := by
  induction record with
  | nil => simp [insert, keys]
  | cons member rest ih =>
    obtain ⟨first, old⟩ := member
    simp only [keys] at ih
    by_cases written : first = key
    · simp [insert, keys, written]
    · simp only [insert, beq_iff_eq, written, if_false, keys, List.map_cons, ih]
      by_cases held : key ∈ rest.map (·.1) <;> simp [held, Ne.symm written]

end Record
end Arbor
