import StateResolution.Json.Reader
import StateResolution.StateMap.Wire
import StateResolution.Store.Basic

/-!
# Fixtures

A room on file: its events, and the states of it that are to be resolved.  An
event id may stand twice.  A store made of the events keeps the last, and a
search by id finds the first.
-/

namespace StateResolution

/-- A room with its events and the states to resolve. -/
structure Fixture where
  room : RoomId
  /-- Its events, in the order of the file. -/
  events : List Event
  /-- The states to resolve. -/
  stateMaps : List StateMap

namespace Fixture

/-- The fields of a fixture, in the order of the list form. -/
def fieldNames : List String := ["room_id", "events", "state_maps"]

/-- How many levels are left for an event.  It stands inside the fixture and
inside the list of events. -/
def eventLevels : Nat := Document.maxLevels - 2

/-- The events a list holds. -/
def eventsOfDocument? (d : Document) : Option (List Event) :=
  d.items?.bind (·.mapM (Event.ofDocument? eventLevels))

/-- The fixture a document holds; the events may be left out. -/
def ofDocument (d : Document) : Except DecodeFault Fixture := do
  let required {α : Type} : Option α → Except DecodeFault α
    | some a => .ok a
    | none => .error .malformed
  let fields ← required (d.record? fieldNames)
  let room ← required ((fields.get? "room_id").bind Document.roomId?)
  let events ← match fields.get? "events" with
    | some d => required (eventsOfDocument? d)
    | none => pure []
  let stateMaps ← match fields.get? "state_maps" with
    | some d => StateMap.listOfDocument d
    | none => .error .malformed
  pure { room, events, stateMaps }

/-- The fixture a JSON text holds. -/
def ofText (text : String) : Except Error Fixture :=
  match Document.ofText? text with
  | some d => (ofDocument d).mapError .deserialization
  | none => .error .malformed

/-- The events as a graph. -/
def graph (f : Fixture) : EventGraph := .ofEvents f.events

/-- A store that holds every event. -/
def store (f : Fixture) : EventStore := .ofGraph f.graph

/-- The first event with an id. -/
def event (f : Fixture) (id : EventId) : Except Error Event :=
  match f.events.find? (·.id = id) with
  | some e => .ok e
  | none => .error (.notFound (.fixtureEvent id))

/-- The state that a single event is checked against. -/
def firstStateMap (f : Fixture) : Except Error StateMap :=
  match f.stateMaps with
  | m :: _ => .ok m
  | [] => .error (.invalidEvent .noStateMap)

end Fixture

end StateResolution
