import StateResolution.Event.Basic
import StateResolution.Error
import StateResolution.SortedMap

/-!
# Room states

A room state gives one event for each place that is set.  Its list of entries
is in the order of the places, and no list that repeats a place is a state.
-/

namespace StateResolution

/-- A room state: the event that holds each place. -/
abbrev StateMap := SortedMap StateKey EventId

/-- One place of a room state and the event that holds it. -/
structure StateEntry where
  place : StateKey
  event : EventId
deriving DecidableEq

namespace StateMap

/-- The ids of the events that hold a place, in the order of the places. -/
def eventIds (m : StateMap) : List EventId := m.values

/-- Whether an event holds a place. -/
def containsEvent (m : StateMap) (id : EventId) : Bool := m.eventIds.contains id

/-- The entries in the order of their places. -/
def toEntries (m : StateMap) : List StateEntry := m.toList.map fun e => ⟨e.1, e.2⟩

/-- Adds entries one after another, unless a place is taken. -/
def addEntries : StateMap → List StateEntry → Except DecodeFault StateMap
  | m, [] => .ok m
  | m, e :: rest =>
    if m.contains e.place then .error (.repeatedEntry e.place)
    else addEntries (m.insert e.place e.event) rest

/-- The state with the entries of a list, unless a place is repeated. -/
def ofEntries (entries : List StateEntry) : Except DecodeFault StateMap :=
  addEntries .empty entries

end StateMap

end StateResolution
