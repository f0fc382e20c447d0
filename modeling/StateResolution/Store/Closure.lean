import StateResolution.Graph.Acyclic
import StateResolution.Store.Basic

/-!
# The closure walk

Loads some events and everything they cite, in any number of steps.  The walk
goes level by level, where the level of an event is its least distance from the
roots.  A level is asked for in the order of its ids, in lookups of bounded size.
-/

namespace StateResolution.EventStore

/-- A list cut into rows of a size, the last perhaps shorter; of the rows at most
a number. -/
def rowsUpTo {α : Type} (size : Nat) : Nat → List α → List (List α)
  | 0, _ => []
  | _ + 1, [] => []
  | n + 1, a :: rest => (a :: rest).take size :: rowsUpTo size n ((a :: rest).drop size)

/-- A list cut into rows of a size, at least one. -/
def rows {α : Type} (size : Nat) (l : List α) : List (List α) :=
  rowsUpTo (max size 1) l.length l

/-- How far a walk has come. -/
structure Walk where
  /-- Every id that has been come across. -/
  seen : SortedSet EventId
  /-- The ids of the next level. -/
  next : SortedSet EventId
  /-- The events of the levels before, last first. -/
  loaded : List Event

/-- Comes across an id. -/
def Walk.meet (w : Walk) (id : EventId) : Walk :=
  if id ∈ w.seen then w else { w with seen := w.seen.insert id, next := w.next.insert id }

/-- Takes an event in, and comes across what it cites. -/
def Walk.load (w : Walk) (e : Event) : Walk :=
  let w := e.authEvents.foldl Walk.meet w
  { w with loaded := e :: w.loaded }

/-- The text of the first id of a row that belongs to none of some events. -/
def firstMissing (row : List EventId) (es : List Event) : String :=
  ((row.find? fun id => !es.any (·.id == id)).map EventId.text).getD ""

/-- Looks up a row of ids, all of which must be stored. -/
def loadRow (s : EventStore) (w : Walk) (row : List EventId) : Fetched Walk := do
  let es ← s.getEvents row
  if es.length < row.length then throw (.fetch (firstMissing row es) .referenceNotInStore)
  else pure (es.foldl Walk.load w)

/-- Walks on from the next level, for as many levels as are left. -/
def walkLevels (s : EventStore) (batch limit : Nat) : Nat → Walk → Fetched (List Event)
  | levels, w =>
    if w.next.isEmpty then pure w.loaded.reverse
    else
      match levels with
      | 0 => throw (.graphCorruption (.closureTooDeep limit))
      | levels + 1 => do
        let w ← (rows batch w.next.toList).foldlM (loadRow s) { w with next := .empty }
        walkLevels s batch limit levels w

/-- The events of some ids and all they cite, level by level.  The roots are
level zero, and a level past the limit is an error. -/
def closure (s : EventStore) (roots : List EventId) (batch limit : Nat) : Fetched (List Event) :=
  let roots := SortedSet.ofList roots
  walkLevels s batch limit (limit + 1) ⟨roots, roots, []⟩

/-- The graph of some ids and all they cite, without cycles. -/
def load (s : EventStore) (roots : List EventId) (batch limit : Nat) : Fetched EventGraph := do
  let g := EventGraph.ofEvents (← s.closure roots batch limit)
  Fetched.ofExcept (g.verifyAcyclic limit)
  pure g

end StateResolution.EventStore
