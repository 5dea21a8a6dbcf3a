import Arbor.Proofs.Records
import Arbor.Selector.Cache

/-! # What a cache remembers

A cache is used by asking it for texts and by clearing it, in any order. Whatever was done before, it
answers what reading the text answers: it only ever holds what reading gave, for texts that could be read.
It makes room before it reads, so a text that cannot be read may still cost it all its entries, but never
adds one. -/

namespace Arbor.Selector

inductive Call where
  | get (text : String)
  | clear

def Call.text? : Call → Option String
  | .get text => some text
  | .clear => none

namespace Cache

/-- The answers to those calls that ask for a text, and the cache after all of them. -/
def run (cache : Cache) : List Call → List (Except Problem Selector) × Cache
  | [] => ([], cache)
  | .get text :: rest => ((cache.get text).1 :: ((cache.get text).2.run rest).1,
      ((cache.get text).2.run rest).2)
  | .clear :: rest => empty.run rest

/-- The cache is within its bound and holds for each of its texts what the text reads as. -/
structure Truthful (cache : Cache) : Prop where
  bounded : cache.size ≤ capacity
  distinct : cache.entries.keys.Nodup
  read_eq : ∀ text selector, cache.entries.get? text = some selector → read text = .ok selector

theorem truthful_empty : empty.Truthful where
  bounded := Nat.zero_le _
  distinct := List.nodup_nil
  read_eq := by
    intro text selector held
    contradiction

/-- The cache with room for one more text. -/
def roomy (cache : Cache) : Cache := if cache.size < capacity then cache else empty

private theorem size_roomy_lt (cache : Cache) : cache.roomy.size < capacity := by
  rw [roomy]
  split
  · assumption
  · decide

private theorem get_of_held {cache : Cache} {text : String} {selector : Selector}
    (held : cache.entries.get? text = some selector) : cache.get text = (.ok selector, cache) := by
  rw [get, held]

/-- A text that is not held is read once there is room, and kept if it can be read. -/
theorem get_of_missing {cache : Cache} {text : String} (missing : cache.entries.get? text = none) :
    cache.get text = (read text, match read text with
      | .ok selector => ⟨cache.roomy.entries.insert text selector⟩
      | .error _ => cache.roomy) := by
  rw [get, missing, roomy]
  cases read text <;> rfl

namespace Truthful

variable {cache : Cache} (truthful : cache.Truthful)
include truthful

theorem roomy : cache.roomy.Truthful := by
  rw [Cache.roomy]
  split
  · exact truthful
  · exact truthful_empty

/-- Keeping one more text that was read takes up the room there is for it. -/
theorem keep (space : cache.size < capacity) {text : String} {selector : Selector}
    (isRead : read text = .ok selector) : Truthful ⟨cache.entries.insert text selector⟩ where
  bounded := Nat.le_trans (cache.entries.length_insert_le text selector) space
  distinct := Record.nodup_insert truthful.distinct text selector
  read_eq := by
    intro other held found
    rw [Record.get?_insert] at found
    split at found
    · next same =>
      cases found
      rw [same, isRead]
    · exact truthful.read_eq other held found

theorem get_fst (text : String) : (cache.get text).1 = read text := by
  cases held : cache.entries.get? text with
  | some selector => rw [get_of_held held, truthful.read_eq text selector held]
  | none => rw [get_of_missing held]

theorem get_snd (text : String) : (cache.get text).2.Truthful := by
  cases held : cache.entries.get? text with
  | some selector =>
    rw [get_of_held held]
    exact truthful
  | none =>
    rw [get_of_missing held]
    cases isRead : read text with
    | ok selector => exact truthful.roomy.keep cache.size_roomy_lt isRead
    | error problem => exact truthful.roomy

/-- What was just read is held. -/
theorem get?_get {text : String} {selector : Selector} (isRead : read text = .ok selector) :
    (cache.get text).2.entries.get? text = some selector := by
  cases held : cache.entries.get? text with
  | some known =>
    have same := truthful.read_eq text known held
    rw [isRead] at same
    cases same
    rw [get_of_held held, held]
  | none =>
    rw [get_of_missing held]
    simp only [isRead]
    rw [Record.get?_insert, if_pos rfl]

/-- Calls are answered by reading, one after the other, and leave a cache of the same kind. -/
theorem run (calls : List Call) : (cache.run calls).2.Truthful ∧
    (cache.run calls).1 = (calls.filterMap Call.text?).map read := by
  induction calls generalizing cache with
  | nil => exact ⟨truthful, rfl⟩
  | cons call rest ih =>
    cases call with
    | get text =>
      obtain ⟨last, answers⟩ := ih (truthful.get_snd text)
      refine ⟨last, ?_⟩
      rw [Cache.run, answers, truthful.get_fst]
      rfl
    | clear => exact ih truthful_empty

end Truthful

/-- However an empty cache is used, each text is answered as reading answers it; and the cache then holds
at most 256 texts, each with what it reads as, among them the one last read and none that cannot be
read. -/
theorem run_answers_as_read (calls : List Call) :
    (empty.run calls).1 = (calls.filterMap Call.text?).map read ∧
    (empty.run calls).2.size ≤ 256 ∧ (empty.run calls).2.entries.keys.Nodup ∧
    (∀ text selector, (empty.run calls).2.entries.get? text = some selector →
      read text = .ok selector) ∧
    (∀ text problem, read text = .error problem →
      (empty.run calls).2.entries.contains text = false) ∧
    ∀ text selector, read text = .ok selector →
      ((empty.run calls).2.get text).2.entries.get? text = some selector := by
  obtain ⟨truthful, answers⟩ := truthful_empty.run calls
  refine ⟨answers, truthful.bounded, truthful.distinct, truthful.read_eq, ?_,
    fun text selector isRead => truthful.get?_get isRead⟩
  intro text problem unread
  rw [← Bool.not_eq_true, Record.contains_iff]
  intro held
  cases found : (empty.run calls).2.entries.get? text with
  | none => exact Record.get?_eq_none_iff.mp found held
  | some selector =>
    have isRead := truthful.read_eq text selector found
    rw [unread] at isRead
    contradiction

end Cache
end Arbor.Selector
