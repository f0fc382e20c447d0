import StateResolution.Error
import StateResolution.Event.Basic
import StateResolution.SortedMap

/-!
# Event graphs

Events under their own ids.  An event points at the events it cites, which need
not be in the graph; a walk that comes to a gap fails with the id it misses.
-/

namespace StateResolution

/-- Events under their own ids. -/
structure EventGraph where
  events : SortedMap EventId Event
  /-- Each event is under its own id. -/
  keyed : ∀ id e, events.get? id = some e → e.id = id

namespace EventGraph

/-- The graph without events. -/
def empty : EventGraph := ⟨.empty, by simp⟩

/-- Puts an event into the graph, instead of any other with its id. -/
def insert (g : EventGraph) (e : Event) : EventGraph :=
  ⟨g.events.insert e.id e, fun id e' h => by
    rw [SortedMap.get?_insert] at h
    split at h
    · next hid =>
      cases h
      exact hid.symm
    · exact g.keyed id e' h⟩

/-- Takes an event out of the graph. -/
def erase (g : EventGraph) (id : EventId) : EventGraph :=
  ⟨g.events.erase id, fun id' e h => by
    rw [SortedMap.get?_erase] at h
    split at h
    · cases h
    · exact g.keyed id' e h⟩

/-- Puts the events of a list into the graph, one after another. -/
def insertAll (g : EventGraph) (es : List Event) : EventGraph := es.foldl insert g

/-- The events of a list; of one id the last stays. -/
def ofEvents (es : List Event) : EventGraph := empty.insertAll es

def get? (g : EventGraph) (id : EventId) : Option Event := g.events.get? id

/-- The event of an id, which must be there. -/
def get (g : EventGraph) (id : EventId) : Except Error Event :=
  match g.get? id with
  | some e => .ok e
  | none => .error (.notInGraph id)

def contains (g : EventGraph) (id : EventId) : Bool := g.events.contains id

def size (g : EventGraph) : Nat := g.events.size

def isEmpty (g : EventGraph) : Bool := g.events.isEmpty

/-- The ids in ascending order. -/
def ids (g : EventGraph) : List EventId := g.events.keys

/-- The events in the order of their ids. -/
def toList (g : EventGraph) : List Event := g.events.values

/-- Fails unless every event belongs to a room. -/
def ensureSingleRoom (g : EventGraph) (room : RoomId) : Except Error Unit :=
  match g.toList.find? (·.room ≠ room) with
  | some e => .error (.invalidEvent (.wrongRoom e.id e.room room))
  | none => .ok ()

/-- The first event that an event cites at a place. -/
def findCited (g : EventGraph) (place : StateKey) : List EventId → Except Error (Option Event)
  | [] => .ok none
  | id :: rest => do
    let cited ← g.get id
    if cited.holds place then pure (some cited) else findCited g place rest

theorem get?_insert (g : EventGraph) (e : Event) (id : EventId) :
    (g.insert e).get? id = if id = e.id then some e else g.get? id :=
  SortedMap.get?_insert g.events id e.id e

theorem get_eq_ok_iff {g : EventGraph} {id : EventId} {e : Event} :
    g.get id = .ok e ↔ g.get? id = some e := by
  unfold get
  split <;> simp_all

end EventGraph

end StateResolution
