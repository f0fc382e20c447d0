import StateResolution.Graph.Chain
import StateResolution.Resolution.TopologicalSort
import StateResolution.Rules.AuthEvents

/-!
# The order of power events

Power events can take power away from somebody: they create the room, set levels
or join rules, or remove or ban another user.  They are replayed first, each
behind every disputed event it rests on, in the order of the topological sort.
-/

namespace StateResolution

/-- Whether an event can take power away from somebody. -/
def isPowerEvent (e : Event) : Bool :=
  if e.type = EventType.create ∨ e.type = EventType.powerLevels ∨ e.type = EventType.joinRules then
    e.stateKey == some ""
  else
    (e.membership? == some .leave || e.membership? == some .ban)
      && e.stateKey != some e.sender.text

/-- The power events of a set, in the order of their ids. -/
def powerEventsOf (g : EventGraph) (full : SortedSet EventId) : Except Error (List EventId) :=
  full.toList.filterM fun id => do pure (isPowerEvent (← g.get id))

/-- The level of an event's sender by the events that it cites itself. -/
def senderLevel (g : EventGraph) (version : RoomVersion) (e : Event) : Except Error Int := do
  match ← g.findCited .powerLevels e.authEvents with
  | some levels => pure ((PowerLevels.ofContent levels.content).userLevel e.sender.text)
  | none =>
    match ← g.findCited .create e.authEvents with
    | some create =>
      pure (if roomCreator? create version = some e.sender.text then 100 else 0)
    | none => pure 0

/-- The standing of an event of the graph. -/
def standingOf (g : EventGraph) (version : RoomVersion) (id : EventId) :
    Except Error Standing := do
  let e ← g.get id
  pure ⟨← senderLevel g version e, e.timestamp⟩

/-- The events of a set that an event cites. -/
def citedWithin (g : EventGraph) (full : SortedSet EventId) (id : EventId) :
    Except Error (List EventId) := do
  pure (SortedSet.ofList ((← g.cited id).filter full.contains)).toList

/-- Some events and all they lead to within a set, each with the events of the
set that it cites. -/
def powerGraph (g : EventGraph) (powerEvents : List EventId) (full : SortedSet EventId) :
    Except Error IdGraph := do
  let trail ← powerEvents.foldlM (fun trail id => g.trail (citedWithin g full) trail [id]) .empty
  pure (trail.mapValues SortedSet.ofList)

/-- Some power events and all they lead to within a set, in the order they are
replayed. -/
def powerSort (g : EventGraph) (version : RoomVersion) (powerEvents : List EventId)
    (full : SortedSet EventId) : Except Error (List EventId) := do
  let graph ← powerGraph g powerEvents full
  let standings ← graph.keys.mapM fun id => do pure (id, ← standingOf g version id)
  let known := SortedMap.ofList standings
  topologicalSort graph fun id =>
    match known.get? id with
    | some standing => .ok standing
    | none => .error (.notInGraph id)

end StateResolution
