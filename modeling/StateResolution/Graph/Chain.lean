import StateResolution.Graph.Basic

/-!
# Auth chains

The auth chain of an event is every event that its citations lead to, in any
number of steps.  It is found by a walk that goes down the last citation first,
and comes to no event twice, so it ends on a graph with cycles as well.  The
order matters only for which of several gaps is named.

`explore` is that walk over any way of getting from an event to others.  Its
bound counts the events on the way down to an event, which are all different.
-/

namespace StateResolution

/-- What a walk has found: each event with the events it leads to. -/
abbrev Trail := SortedMap EventId (List EventId)

/-- Adds to a trail an event and all it leads to, the last first. -/
def explore (next : EventId → Except Error (List EventId)) :
    Nat → Trail → EventId → Except Error Trail
  | 0, trail, _ => .ok trail
  | bound + 1, trail, id =>
    if trail.contains id then .ok trail
    else do
      let targets ← next id
      targets.reverse.foldlM (explore next bound) (trail.insert id targets)

namespace EventGraph

/-- The events that an event cites. -/
def cited (g : EventGraph) (id : EventId) : Except Error (List EventId) := do
  pure (← g.get id).authEvents

/-- The trail of a list of events, the last of them first. -/
def trail (g : EventGraph) (next : EventId → Except Error (List EventId)) (start : Trail)
    (ids : List EventId) : Except Error Trail :=
  ids.reverse.foldlM (explore next (g.size + 1)) start

/-- The auth chain of an event.  The event itself belongs to it only if its
citations lead back to it. -/
def authChain (g : EventGraph) (id : EventId) : Except Error (SortedSet EventId) := do
  let found ← g.trail g.cited .empty (← g.cited id)
  pure found.keySet

end EventGraph

end StateResolution
