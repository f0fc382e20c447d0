import StateResolution.Configuration
import StateResolution.Resolution.Conflicts
import StateResolution.Resolution.Mainline
import StateResolution.Resolution.PowerOrder
import StateResolution.Resolution.Replay

/-!
# Resolution

One state out of several.  What they agree on stays.  The disputed events,
widened by the auth difference, are replayed on top of that: first the power
events with what they rest on, then the others along the mainline of the power
levels that came out.  In the end the agreed entries are laid over the result.
-/

namespace StateResolution

/-- What came of resolving some states. -/
structure Resolution where
  /-- The resolved state. -/
  state : StateMap
  /-- The events that the replays rejected. -/
  rejected : Rejections

namespace Resolution

/-- Whether an event was rejected. -/
def isRejected (r : Resolution) (id : EventId) : Bool := r.rejected.contains id

end Resolution

/-- The version of the room that some states belong to: that of their one create
event, or the default when they have none. -/
def roomVersionOf (room : RoomId) (maps : List StateMap) (g : EventGraph)
    (defaultVersion : String) : Except Error RoomVersion :=
  match (SortedSet.ofList (maps.filterMap (·.get? .create))).toList with
  | [] => RoomVersion.ofName defaultVersion
  | [id] => do
    let create ← g.get id
    if create.room ≠ room then throw (.invalidEvent (.createWrongRoom create.id create.room))
    RoomVersion.ofCreate create
  | first :: second :: _ => .error (.invalidEvent (.conflictingCreates first second))

/-- Resolves a dispute between some states of a room of a version. -/
def resolveConflicts (version : RoomVersion) (maps : List StateMap) (g : EventGraph)
    (limit : Nat) (conflicts : Conflicts) : Except Error Resolution := do
  let full ← fullConflictedSet g conflicts maps
  -- Power events come first, since all others are judged by what they leave.
  let powerEvents ← powerEventsOf g full
  let powerOrder ← powerSort g version powerEvents full
  let first ← Replay.runAll g version ⟨conflicts.agreed, .empty⟩ powerOrder
  let leftover := full.toList.filter fun id => !powerOrder.contains id
  -- The rejections of the first replay carry over into the second.
  let order ← mainlineSort g leftover (first.state.get? .powerLevels) limit
  let second ← Replay.runAll g version first order
  pure ⟨second.state.overlay conflicts.agreed, second.rejected⟩

/-- Resolves some states of a room over the events of a graph. -/
def resolve (room : RoomId) (maps : List StateMap) (g : EventGraph) (config : Configuration) :
    Except Error Resolution := do
  g.ensureSingleRoom room
  let version ← roomVersionOf room maps g config.defaultRoomVersion
  let conflicts := Conflicts.separate maps
  if conflicts.isConflicted then resolveConflicts version maps g config.maxAuthDepth conflicts
  else pure ⟨conflicts.agreed, .empty⟩

end StateResolution
