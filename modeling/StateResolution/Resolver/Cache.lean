import StateResolution.Digest.Fingerprint
import StateResolution.Resolution.Basic
import StateResolution.Resolver.RecencyMap

/-!
# The resolution cache

Remembers a bounded number of resolutions under the fingerprints of their
inputs.  A resolution depends on its inputs and on the events they lead to, which
never change, so an entry stays right; the one that has gone unused for longest
makes room for a new one.  The cache counts how its lookups end, and leaves the
entries to a map that forgets (`Recency`).
-/

namespace StateResolution

/-- How a cache has served. -/
structure CacheStats where
  /-- Lookups that found an entry. -/
  hits : Nat
  /-- Lookups that found none. -/
  misses : Nat
  entries : Nat
  capacity : Nat
deriving DecidableEq

/-- Resolutions by the fingerprints of their inputs. -/
structure ResolutionCache where
  entries : RecencyMap InputKey Resolution
  /-- Lookups that found an entry. -/
  hits : Nat := 0
  /-- Lookups that found none. -/
  misses : Nat := 0

namespace ResolutionCache

/-- How many entries a cache can be laid out for.  It stands in a table with a
power of two of places, of which one in eight stays free.  A place takes 17
bytes, and the table fewer than `2 ^ 63`. -/
def maxCapacity : Nat := Nat.pow 2 58 / 8 * 7

/-- A cache without entries.  There is always room for one. -/
def ofCapacity (capacity : Nat) : ResolutionCache := { entries := Recency.ofCapacity capacity }

/-- The entry of a key, without using it. -/
def peek? (c : ResolutionCache) (key : InputKey) : Option Resolution := Recency.peek? c.entries key

/-- Looks for the entry of a key, which is then the one used last. -/
def get (c : ResolutionCache) (key : InputKey) : Option Resolution × ResolutionCache :=
  match Recency.get c.entries key with
  | (some r, entries) => (some r, { c with entries, hits := c.hits + 1 })
  | (none, entries) => (none, { c with entries, misses := c.misses + 1 })

/-- Remembers a resolution; what has gone unused for longest is forgotten. -/
def insert (c : ResolutionCache) (key : InputKey) (r : Resolution) : ResolutionCache :=
  { c with entries := Recency.put c.entries key r }

/-- Forgets every entry, but not how the cache has served. -/
def clear (c : ResolutionCache) : ResolutionCache := { c with entries := Recency.clear c.entries }

def size (c : ResolutionCache) : Nat := (Recency.keys c.entries).length

def isEmpty (c : ResolutionCache) : Bool := c.size == 0

def stats (c : ResolutionCache) : CacheStats :=
  ⟨c.hits, c.misses, c.size, Recency.capacity c.entries⟩

/-! ## Entries -/

variable {c : ResolutionCache} {key other : InputKey} {r found : Resolution}

theorem peek?_ofCapacity (capacity : Nat) (key : InputKey) :
    (ofCapacity capacity).peek? key = none :=
  LawfulRecency.peek?_ofCapacity capacity key

theorem get_of_peek? (h : c.peek? key = some r) :
    c.get key = (some r,
      { c with entries := (Recency.get c.entries key).2, hits := c.hits + 1 }) := by
  have hfst := (LawfulRecency.get_fst c.entries key).trans h
  cases hget : Recency.get c.entries key with
  | mk found entries =>
    rw [hget] at hfst
    cases hfst
    simp only [get, hget]

/-- A lookup that finds nothing is counted, and leaves the entries as they are. -/
theorem get_of_peek?_none (h : c.peek? key = none) :
    c.get key = (none, { c with misses := c.misses + 1 }) := by
  have hfst := (LawfulRecency.get_fst c.entries key).trans h
  have hsnd := LawfulRecency.get_of_none h
  cases hget : Recency.get c.entries key with
  | mk found entries =>
    rw [hget] at hfst hsnd
    cases hfst
    cases hsnd
    simp only [get, hget]

/-- An entry that is found was there, whatever has been looked for. -/
theorem peek?_get (c : ResolutionCache) (key other : InputKey) :
    (c.get key).2.peek? other = c.peek? other := by
  cases hpeek : c.peek? key with
  | none =>
    rw [get_of_peek?_none hpeek]
    rfl
  | some r =>
    rw [get_of_peek? hpeek]
    exact LawfulRecency.peek?_get c.entries key other

theorem peek?_insert_self (c : ResolutionCache) (key : InputKey) (r : Resolution) :
    (c.insert key r).peek? key = some r :=
  LawfulRecency.peek?_put_self c.entries key r

/-- An entry that is found after another was put in is that one, or was there before. -/
theorem of_peek?_insert (h : (c.insert key r).peek? other = some found) :
    other = key ∧ found = r ∨ c.peek? other = some found :=
  LawfulRecency.of_peek?_put h

end ResolutionCache

end StateResolution
