import Arbor.Record
import Arbor.Selector.Parser

/-! # Remembered selectors

Selector texts repeat, so a cache keeps what was read for each. It holds a bounded number of
selectors and starts afresh when it is full; a text that is no selector is never kept. -/

namespace Arbor.Selector

/-- The selectors read so far, by their text. -/
structure Cache where
  entries : Record Selector

namespace Cache

def capacity : Nat := 256

def empty : Cache := ⟨[]⟩

def size (cache : Cache) : Nat := cache.entries.length

/-- What a text reads as, and the cache afterwards. -/
def get (cache : Cache) (text : String) : Except Problem Selector × Cache :=
  match cache.entries.get? text with
  | some selector => (.ok selector, cache)
  | none =>
    let kept := if cache.size < capacity then cache else empty
    match read text with
    | .ok selector => (.ok selector, ⟨kept.entries.insert text selector⟩)
    | .error problem => (.error problem, kept)

end Cache
end Arbor.Selector
