import StateResolution.Resolution.Replay
import StateResolution.Store.Basic

/-!
# Checking a single event

Judges a new event against a state that has been resolved.  Only what the
judgment needs is loaded: what the event cites, the create event, which tells
the version, and then the state's events at the places that matter.
-/

namespace StateResolution

/-- The create event that an event is checked under: the state's, or else the
first that the event cites. -/
def createFor? (g : EventGraph) (e : Event) (state : StateMap) : Option EventId :=
  match state.get? .create with
  | some id => some id
  | none => e.authEvents.find? fun id => (g.get? id).any (·.holds .create)

/-- The graph with an event, which is looked up unless it is there. -/
def ensureLoaded (s : EventStore) (g : EventGraph) (id : EventId) : Fetched EventGraph := do
  if g.contains id then pure g else pure (g.insert (← s.getEvent id))

/-- Fails at the first of some events that the graph does not hold. -/
def ensureComplete (g : EventGraph) (ids : List EventId) : Except Error Unit :=
  match ids.find? fun id => !g.contains id with
  | some id => .error (.fetch id.text .authEventNotInStore)
  | none => .ok ()

/-- Judges an event against a state, once the create event is known and what the
event cites is loaded. -/
def checkUnder (s : EventStore) (g : EventGraph) (create : EventId) (e : Event)
    (state : StateMap) : Fetched Verdict := do
  let g ← ensureLoaded s g create
  let version ← RoomVersion.ofCreate (← g.get create)
  -- The version decides which places matter, so it is known by now.
  let wanted := ((authPlaces e version).toList.filterMap state.get?).filter (!g.contains ·)
  let g := g.insertAll (← s.getEvents wanted)
  ensureComplete g (e.authEvents ++ wanted)
  evaluate g version e state .empty

/-- Judges an event against a state over a store. -/
def checkAgainstState (s : EventStore) (e : Event) (state : StateMap) : Fetched Verdict := do
  if e.type = EventType.create then pure (checkCreate e)
  else
    let g := EventGraph.ofEvents (← s.getEvents e.authEvents)
    match createFor? g e state with
    | none => pure (.error .missingCreate)
    | some create => checkUnder s g create e state

end StateResolution
