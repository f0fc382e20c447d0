import StateResolution.Rules.AuthEvents

/-!
# Citations

What an event may cite as the events that authorize it: state events of its own
room, one for each place, only at places that matter for it, and the create
event among them.
-/

namespace StateResolution

/-- Judges the events that an event cites, in their order, after some places
have been seen; gives the places seen in the end. -/
def checkCited (e : Event) (allowed : SortedSet StateKey) :
    SortedSet StateKey → List Event → Except Rejection (SortedSet StateKey)
  | seen, [] => .ok seen
  | seen, cited :: rest =>
    if cited.room ≠ e.room then .error (.authEventWrongRoom cited.id)
    else
      match cited.place? with
      | none => .error (.malformedContent (.notState cited.id))
      | some k =>
        if k ∈ seen then .error (.duplicateAuthEvent k)
        else if k ∉ allowed then .error (.unexpectedAuthEvent k)
        else checkCited e allowed (seen.insert k) rest

/-- Judges the events that an event cites.  A create event may cite anything. -/
def checkCitations (e : Event) (cited : List Event) (version : RoomVersion) : Verdict :=
  if e.type = EventType.create then .ok ()
  else do
    let seen ← checkCited e (authPlaces e version) .empty cited
    if StateKey.create ∈ seen then .ok () else .error .missingCreate

end StateResolution
