import StateResolution.Graph.Basic

/-!
# Event stores

A store hands out events by id.  What it does not have it leaves out of its
answer, and who needs it says so.  A store may also be out of order, and then a
lookup fails as a whole.  A store is its answers: nothing here asks how it comes
by them.

`Fetched` is a computation that asks a store: what came of it, and every lookup
it made, in order, also those before a failure.
-/

namespace StateResolution

/-- What came of asking a store. -/
structure Fetched (α : Type) where
  /-- The ids of each lookup, in order. -/
  lookups : List (List EventId)
  /-- How it ended. -/
  outcome : Except Error α

namespace Fetched

/-- Ends without a lookup. -/
def ofExcept {α : Type} (outcome : Except Error α) : Fetched α := ⟨[], outcome⟩

/-- Goes on with what has been found; the lookups follow one another. -/
def andThen {α β : Type} (x : Fetched α) (f : α → Fetched β) : Fetched β :=
  match x.outcome with
  | .ok a => ⟨x.lookups ++ (f a).lookups, (f a).outcome⟩
  | .error e => ⟨x.lookups, .error e⟩

instance : Monad Fetched where
  pure a := ⟨[], .ok a⟩
  bind := andThen

instance : MonadLift (Except Error) Fetched := ⟨ofExcept⟩

instance : MonadExceptOf Error Fetched where
  throw e := ⟨[], .error e⟩
  tryCatch x handle :=
    match x.outcome with
    | .ok a => ⟨x.lookups, .ok a⟩
    | .error e => ⟨x.lookups ++ (handle e).lookups, (handle e).outcome⟩

end Fetched

/-- A store of events. -/
structure EventStore where
  /-- How a lookup of some ids ends. -/
  answer : List EventId → Except Error (List Event)

/-- Something that is out of order about one event. -/
structure Outage where
  /-- A lookup that asks for this event fails. -/
  event : EventId
  /-- What the store says. -/
  reason : String
deriving DecidableEq

namespace EventStore

/-- A store that holds the events of a graph.  It hands out those among the ids of
a lookup, in the order of the ids. -/
def ofGraph (g : EventGraph) : EventStore := ⟨fun ids => .ok (ids.filterMap g.get?)⟩

/-- A store with something out of order. -/
def withOutage (s : EventStore) (o : Outage) : EventStore where
  answer ids :=
    if o.event ∈ ids then .error (.fetch o.event.text (.reported o.reason)) else s.answer ids

/-- One lookup of some ids. -/
def getEvents (s : EventStore) (ids : List EventId) : Fetched (List Event) := ⟨[ids], s.answer ids⟩

/-- One lookup of an event that must be stored. -/
def getEvent (s : EventStore) (id : EventId) : Fetched Event := do
  match ← s.getEvents [id] with
  | e :: _ => pure e
  | [] => throw (.fetch id.text .notInStore)

end EventStore

end StateResolution
