import StateResolution.Graph.Basic

/-!
# Acyclic graphs

A depth-first walk over every citation, from every event in the order of the
ids.  It fails at a citation that leads back to an event on the path, at a path
that would hold more events than the bound, and at a gap.  Below an event it has
finished it does not go again.
-/

namespace StateResolution.EventGraph

/-- Where a walk from one event stands. -/
structure Descent where
  /-- The event the walk started from. -/
  root : EventId
  /-- The bound on the events of a path. -/
  limit : Nat

/-- Follows the citations of an event that ends a path, as long as the path may
grow by a number of events, and adds the event to the finished ones. -/
def descend (g : EventGraph) (d : Descent) :
    Nat → List EventId → Event → SortedSet EventId → Except Error (SortedSet EventId)
  -- The path is full: what is cited here must be finished.
  | 0, path, e, finished => do
    let finished ← e.authEvents.foldlM (fun finished cited =>
      if cited ∈ path then .error (.graphCorruption (.cycle e.id cited))
      else if cited ∈ finished then .ok finished
      else .error (.graphCorruption (.chainTooLong d.root d.limit))) finished
    pure (finished.insert e.id)
  | room + 1, path, e, finished => do
    let finished ← e.authEvents.foldlM (fun finished cited =>
      if cited ∈ path then .error (.graphCorruption (.cycle e.id cited))
      else if cited ∈ finished then .ok finished
      else do descend g d room (cited :: path) (← g.get cited) finished) finished
    pure (finished.insert e.id)

/-- Walks from one event unless it is finished. -/
def descendFrom (g : EventGraph) (limit : Nat) (finished : SortedSet EventId) (root : Event) :
    Except Error (SortedSet EventId) :=
  if root.id ∈ finished then .ok finished
  else descend g ⟨root.id, limit⟩ (limit - 1) [root.id] root finished

/-- Fails unless every citation leads to an event of the graph, none leads back,
and no path that is walked holds more events than the limit. -/
def verifyAcyclic (g : EventGraph) (limit : Nat) : Except Error Unit := do
  let _ ← g.toList.foldlM (descendFrom g limit) .empty

end StateResolution.EventGraph
