import StateResolution.Graph.Basic

/-!
# The mainline

The lineage of an event is the event, the first power levels event it cites, the
first that this one cites, and so on.  The lineage of the power levels that have
been resolved is the mainline.  Its oldest event has position one.

Any other event is placed by the position at which its own lineage meets the
mainline, and at zero when it does not.
-/

namespace StateResolution

/-- The position of each event of the mainline. -/
abbrev Positions := SortedMap EventId Nat

/-- The first power levels event that an event cites. -/
def levelsParent (g : EventGraph) (e : Event) : Except Error (Option Event) :=
  g.findCited .powerLevels e.authEvents

/-- Goes on with the mainline from an event, for at most a number of events; the
newer ones are given last first, and all are given oldest first. -/
def mainlineFrom (g : EventGraph) : Nat → List EventId → Event → Except Error (List EventId)
  | 0, line, _ => .error (.graphCorruption (.endlessLineage line.getLast?))
  | room + 1, line, e =>
    if e.id ∈ line then .error (.graphCorruption (.endlessLineage line.getLast?))
    else do
      match ← levelsParent g e with
      | some parent => mainlineFrom g room (e.id :: line) parent
      | none => pure (e.id :: line)

/-- Numbers the events of a list from one. -/
def numbered (line : List EventId) : Positions :=
  .ofList (line.zip (List.range' 1 line.length))

/-- The positions of the mainline of some power levels, which may have at most a
number of events. -/
def mainlinePositions (g : EventGraph) (resolved : Option EventId) (limit : Nat) :
    Except Error Positions :=
  match resolved with
  | none => .ok .empty
  | some id => do
    let newest ← g.get id
    pure (numbered (← mainlineFrom g limit [] newest))

/-- Goes down the lineage of an event to the mainline, for at most a number of
events beside those passed. -/
def depthFrom (g : EventGraph) (positions : Positions) :
    Nat → List EventId → Event → Except Error Nat
  | room, passed, e =>
    -- The mainline is looked for first, so an event on it is placed at any bound.
    match positions.get? e.id with
    | some position => .ok position
    | none =>
      match room with
      | 0 => .error (.graphCorruption (.endlessAncestry e.id))
      | room + 1 =>
        if e.id ∈ passed then .error (.graphCorruption (.endlessAncestry e.id))
        else do
          match ← levelsParent g e with
          | some parent => depthFrom g positions room (e.id :: passed) parent
          | none => pure 0

/-- The position at which the lineage of an event meets the mainline; at most a
number of events may come before that. -/
def mainlineDepth (g : EventGraph) (positions : Positions) (e : Event) (limit : Nat) :
    Except Error Nat :=
  depthFrom g positions limit [] e

/-- Where an event is placed along the mainline. -/
structure Placement where
  /-- The position of its lineage. -/
  depth : Nat
  /-- When it was sent. -/
  timestamp : Nat
  /-- The event. -/
  id : EventId
deriving DecidableEq

namespace Placement

/-- By position, then by time, then by id. -/
instance : Ord Placement :=
  ⟨compareLex (compareOn depth) (compareLex (compareOn timestamp) (compareOn id))⟩

instance : Std.TransOrd Placement :=
  inferInstanceAs (Std.TransCmp
    (compareLex (compareOn depth) (compareLex (compareOn timestamp) (compareOn id))))

/-- Puts a placement behind all that are not greater. -/
def insertSorted (p : Placement) : List Placement → List Placement
  | [] => [p]
  | q :: rest => if compare p q = .lt then p :: q :: rest else q :: insertSorted p rest

/-- Sorts placements. -/
def sort (ps : List Placement) : List Placement :=
  ps.foldl (fun sorted p => insertSorted p sorted) []

end Placement

/-- Where an event of the graph is placed. -/
def placementOf (g : EventGraph) (positions : Positions) (limit : Nat) (id : EventId) :
    Except Error Placement := do
  let e ← g.get id
  pure ⟨← mainlineDepth g positions e limit, e.timestamp, id⟩

/-- Some events in the order of their places along the mainline of some power
levels. -/
def mainlineSort (g : EventGraph) (ids : List EventId) (resolved : Option EventId) (limit : Nat) :
    Except Error (List EventId) := do
  let positions ← mainlinePositions g resolved limit
  let placements ← ids.mapM (placementOf g positions limit)
  pure ((Placement.sort placements).map Placement.id)

end StateResolution
