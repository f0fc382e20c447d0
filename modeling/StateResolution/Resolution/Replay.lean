import StateResolution.Graph.Basic
import StateResolution.Rules.Authorization
import StateResolution.Rules.Citations
import StateResolution.StateMap.Basic

/-!
# Replay

Events are judged one after another, each against the state that those before it
have left.  An event is judged by what it cites, but at every place that matters
for it the state has the last word.  What has been rejected authorizes nothing.

An accepted state event takes its place in the state; a rejected event leaves
the state as it was.
-/

namespace StateResolution

/-- The rejected events, each with its reason. -/
abbrev Rejections := SortedMap EventId Rejection

/-- Puts the state's events at some places into the auth events, unless they have
been rejected. -/
def overrideFrom (g : EventGraph) (state : StateMap) (rejected : Rejections) :
    AuthEvents → List StateKey → Except Error AuthEvents
  | auth, [] => .ok auth
  | auth, k :: rest =>
    match state.get? k with
    | none => overrideFrom g state rejected auth rest
    | some id =>
      if rejected.contains id then overrideFrom g state rejected auth rest
      else do overrideFrom g state rejected (auth.insert (← g.get id)) rest

/-- Judges one event by what it cites and by a state. -/
def evaluate (g : EventGraph) (version : RoomVersion) (e : Event) (state : StateMap)
    (rejected : Rejections) : Except Error Verdict := do
  let cited ← e.authEvents.mapM g.get
  match checkCitations e cited version with
  | .error reason => pure (.error reason)
  | .ok () =>
    -- What the event cites counts first, and the state is laid over it.
    let own := AuthEvents.ofList (cited.filter fun c => !rejected.contains c.id)
    let auth ← overrideFrom g state rejected own (authPlaces e version).toList
    pure (checkEvent e auth version)

/-- What a replay has come to. -/
structure Replay where
  /-- The state so far. -/
  state : StateMap
  /-- The events rejected so far. -/
  rejected : Rejections

namespace Replay

/-- Takes in what the rules say of an event. -/
def apply (r : Replay) (e : Event) : Verdict → Replay
  | .ok () =>
    match e.place? with
    | some k => { r with state := r.state.insert k e.id }
    | none => r
  | .error reason => { r with rejected := r.rejected.insert e.id reason }

/-- Replays one event of the graph. -/
def step (g : EventGraph) (version : RoomVersion) (r : Replay) (id : EventId) :
    Except Error Replay := do
  let e ← g.get id
  pure (r.apply e (← evaluate g version e r.state r.rejected))

/-- Replays events one after another up to the first error, and gives what the
replay has come to together with that error. -/
def run (g : EventGraph) (version : RoomVersion) : Replay → List EventId → Replay × Option Error
  | r, [] => (r, none)
  | r, id :: rest =>
    match step g version r id with
    | .ok r => run g version r rest
    | .error e => (r, some e)

/-- Replays events one after another, unless there is an error. -/
def runAll (g : EventGraph) (version : RoomVersion) (r : Replay) (ids : List EventId) :
    Except Error Replay :=
  match run g version r ids with
  | (r, none) => .ok r
  | (_, some e) => .error e

end Replay

end StateResolution
