import StateResolution.Proofs.Resolution.Evaluation
import StateResolution.Proofs.Rules.AuthPlaces
import StateResolution.Proofs.Rules.Citations
import StateResolution.Proofs.Rules.PowerLevels
import StateResolution.Resolution.PowerOrder

/-!
# The level of a sender

A sender's level is read in two ways.  To order power events it is looked for among what the
event cites, and the first citation at a place counts (`senderLevel`).  To judge an event the
citations are put at their places one after another, so that the last one counts, and the levels
in force are read from there (`effectiveLevels`).

The first and the last are the same one where citations are apart, as accepted citations are.
Without power levels both readings ask who created the room: there the levels in force come
down to the creator's (`userLevel_withoutEvent`).  So nobody is put first by a level other than
the one by which they are judged.
-/

namespace StateResolution

variable {g : EventGraph} {e : Event} {cited : List Event}

/-- Where citations are apart, the first at a place is what is put there in the end. -/
theorem findCited_of_placedApart (hcited : e.authEvents.mapM g.get = .ok cited)
    (hapart : PlacedApart cited) (k : StateKey) :
    g.findCited k e.authEvents = .ok ((AuthEvents.ofList cited).get? k) := by
  have hpresent : ∀ id ∈ e.authEvents, ∃ c, g.get? id = some c := by
    intro id hid
    obtain ⟨c, hc⟩ := Fallible.exists_of_mapM hcited hid
    exact ⟨c, EventGraph.get_eq_ok_iff.1 hc⟩
  rw [EventGraph.findCited_eq_ok k hpresent, filterMap_get?_of_mapM hcited, AuthEvents.ofList,
    AuthEvents.get?_insertAll, AuthEvents.get?_empty, Option.or_none,
    hapart.find?_reverse fun c => Event.holds_iff.1]

/-- The level by which a power event is ordered is the one by which it would be judged by its
citations, if they are accepted. -/
theorem senderLevel_eq_userLevel (g : EventGraph) (version : RoomVersion) (e : Event)
    (cited : List Event) (hcreate : e.type ≠ EventType.create)
    (hcited : e.authEvents.mapM g.get = .ok cited)
    (hcitations : checkCitations e cited version = .ok ()) :
    senderLevel g version e =
      .ok ((effectiveLevels (.ofList cited) version).userLevel e.sender.text) := by
  have hfound := findCited_of_placedApart hcited (placedApart_of_checkCitations hcreate hcitations)
  simp only [senderLevel, hfound, Fallible.ok_bind]
  rw [effectiveLevels, AuthEvents.powerLevels?, AuthEvents.create?]
  cases (AuthEvents.ofList cited).get? .powerLevels with
  | some levels => rfl
  | none =>
    rw [userLevel_withoutEvent]
    cases (AuthEvents.ofList cited).get? .create with
    | some create => rfl
    | none => rfl

/-- Who created the room bans a user by the level that orders the ban. -/
theorem senderLevel_eq_userLevel_eveBanned :
    checkCitations eveBanned [denCreate, catJoined] .v10 = .ok () ∧
      senderLevel (.ofEvents [catJoined, denCreate]) .v10 eveBanned = .ok 100 := by
  have hcitations : checkCitations eveBanned [denCreate, catJoined] .v10 = .ok () := by
    decide +kernel
  have hlevel := senderLevel_eq_userLevel (.ofEvents [catJoined, denCreate]) .v10 eveBanned
    [denCreate, catJoined] (by decide) (by rfl) hcitations
  exact ⟨hcitations, hlevel.trans (congrArg Except.ok (by decide +kernel))⟩

end StateResolution
