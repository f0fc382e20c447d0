import StateResolution.Graph.Chain
import StateResolution.StateMap.Basic

/-!
# Conflicts

What several room states agree on, and what they dispute.  They agree on a place
when each of them has the same event there; that one of them has none is a
dispute as well.

The auth difference widens a dispute by the events that only some of the states
rest on.
-/

namespace StateResolution

/-- What some states agree on and what they dispute. -/
structure Conflicts where
  /-- The places at which every state has the same event. -/
  agreed : StateMap
  /-- The other places, with every event that a state has there. -/
  disputed : SortedMap StateKey (SortedSet EventId)

namespace Conflicts

/-- Every place that one of the states sets. -/
def places (maps : List StateMap) : SortedSet StateKey :=
  .ofList (maps.flatMap SortedMap.keys)

/-- The event that every state has at a place. -/
def agreedAt? (maps : List StateMap) (k : StateKey) : Option EventId :=
  match maps with
  | [] => none
  | m :: rest => if rest.all fun n => n.get? k == m.get? k then m.get? k else none

/-- Whether two states differ at a place. -/
def isDisputedAt (maps : List StateMap) (k : StateKey) : Bool :=
  match maps with
  | [] => false
  | m :: rest => rest.any fun n => n.get? k != m.get? k

/-- Every event that a state has at a place. -/
def candidatesAt (maps : List StateMap) (k : StateKey) : SortedSet EventId :=
  .ofList (maps.filterMap (·.get? k))

/-- Tells what some states agree on from what they dispute. -/
def separate (maps : List StateMap) : Conflicts where
  agreed := .tabulate (places maps) (agreedAt? maps)
  disputed := .tabulate (places maps) fun k =>
    if isDisputedAt maps k then some (candidatesAt maps k) else none

/-- Whether anything is disputed. -/
def isConflicted (c : Conflicts) : Bool := !c.disputed.isEmpty

/-- The disputed events, place by place. -/
def candidates (c : Conflicts) : List EventId := c.disputed.values.flatMap SortedSet.toList

end Conflicts

/-- Adds the chains of some events to a chain.  An event that is in the chain
already has its own chain there. -/
def extendChain (g : EventGraph) (chain : SortedSet EventId) :
    List EventId → Except Error (SortedSet EventId)
  | [] => .ok chain
  | id :: rest =>
    if id ∈ chain then extendChain g chain rest
    else do
      let ancestors ← g.authChain id
      extendChain g ((chain.insert id).union ancestors) rest

/-- The events of a state and everything they rest on. -/
def fullChain (g : EventGraph) (m : StateMap) : Except Error (SortedSet EventId) :=
  extendChain g .empty m.eventIds

/-- The events that are in some of the states' full chains but not in all. -/
def authDifference (g : EventGraph) (maps : List StateMap) : Except Error (SortedSet EventId) := do
  let chains ← maps.mapM (fullChain g)
  let union := chains.foldl SortedSet.union .empty
  pure (union.filter fun id => !chains.all (·.contains id))

/-- The disputed events together with the auth difference, all in the graph. -/
def fullConflictedSet (g : EventGraph) (c : Conflicts) (maps : List StateMap) :
    Except Error (SortedSet EventId) := do
  let full := (← authDifference g maps).insertAll c.candidates
  full.toList.forM fun id => do let _ ← g.get id
  pure full

end StateResolution
