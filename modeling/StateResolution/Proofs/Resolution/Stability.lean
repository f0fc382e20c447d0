import StateResolution.Proofs.Resolution.Completeness
import StateResolution.Proofs.Resolution.Convergence
import StateResolution.Proofs.Resolution.Survivors
import StateResolution.Proofs.Rules.AuthPlaces

/-!
# Resolving the result again

A single state disputes nothing, so its resolution is the state itself, as soon as the version of
its room is known.  For a state that has been resolved that takes an argument, since its create
event need not be the one under which it was resolved.  What the states agreed on is that one.
But where they did not agree on a create event, perhaps as none of them had one, the create event
comes out of a replay.  Then the rules have accepted it, and they accept no create event whose
version they do not know (`exists_version_of_evaluate`).

So a resolved state resolves to itself, and nothing is rejected (`resolve_copies`).
-/

namespace StateResolution

open Fallible (bind_eq_ok pure_eq_ok)

variable {room : RoomId} {maps copies : List StateMap} {m : StateMap} {g : EventGraph}
  {config : Configuration} {r : Resolution} {version : RoomVersion} {e : Event} {id : EventId}
  {defaultVersion : String}

/-! ## One state -/

/-- A single state disputes nothing. -/
theorem Conflicts.separate_singleton (m : StateMap) : separate [m] = ⟨m, .empty⟩ := by
  refine (separates_separate [m]).unique ⟨fun k id => ?_, fun k => ?_, fun k ids hids => ?_⟩
  · simp
  · simp [SortedMap.contains]
  · cases hids

/-- A single state is its own resolution. -/
theorem resolve_singleton (hroom : g.ensureSingleRoom room = .ok ())
    (hversion : roomVersionOf room [m] g config.defaultRoomVersion = .ok version) :
    resolve room [m] g config = .ok ⟨m, .empty⟩ := by
  refine bind_eq_ok.2 ⟨(), hroom, bind_eq_ok.2 ⟨version, hversion, ?_⟩⟩
  rw [Conflicts.separate_singleton]
  rfl

/-! ## The version of the room -/

theorem roomVersionOf_of_none (h : ∀ m ∈ maps, m.get? .create = none) :
    roomVersionOf room maps g defaultVersion = RoomVersion.ofName defaultVersion := by
  have hcreates : maps.filterMap (·.get? .create) = [] := List.filterMap_eq_nil_iff.2 h
  rw [roomVersionOf, hcreates]
  rfl

/-- States with one create event are of the version that it names. -/
theorem roomVersionOf_eq_ok_iff
    (h : ∀ other, (∃ m ∈ maps, m.get? .create = some other) ↔ other = id) :
    roomVersionOf room maps g defaultVersion = .ok version ↔
      ∃ create, g.get? id = some create ∧ create.room = room ∧
        RoomVersion.ofCreate create = .ok version := by
  have hcreates : SortedSet.ofList (maps.filterMap (·.get? .create)) = .ofList [id] :=
    SortedSet.ext fun other => by simp [h]
  have hone : (SortedSet.ofList [id]).toList = [id] := rfl
  rw [roomVersionOf, hcreates, hone]
  dsimp only
  simp only [bind_eq_ok, EventGraph.get_eq_ok_iff]
  refine exists_congr fun create => and_congr_right fun _ => ?_
  by_cases hroom : create.room = room
  · rw [if_neg (not_not_intro hroom), and_iff_right hroom]
  · rw [if_pos hroom]
    constructor
    · intro h
      cases h
    · rintro ⟨h, -⟩
      exact absurd h hroom

theorem exists_version_of_checkCreate (h : checkCreate e = .ok ()) :
    ∃ version, RoomVersion.ofCreate e = .ok version := by
  unfold checkCreate at h
  unfold RoomVersion.ofCreate RoomVersion.ofName
  cases hname : RoomVersion.ofName? (RoomVersion.nameIn e) with
  | some version => exact ⟨version, rfl⟩
  | none =>
    rw [hname] at h
    dsimp only at h
    split at h
    · cases h
    · split at h <;> cases h

/-- A create event that a replay accepts has a version with rules. -/
theorem exists_version_of_evaluate {state : StateMap} {rejected : Rejections}
    (hcreate : e.type = EventType.create)
    (h : evaluate g version e state rejected = .ok (.ok ())) :
    ∃ version, RoomVersion.ofCreate e = .ok version := by
  obtain ⟨cited, -, h⟩ := bind_eq_ok.1 h
  split at h
  · cases h
  · obtain ⟨auth, -, h⟩ := bind_eq_ok.1 h
    rw [pure_eq_ok, checkEvent_of_create hcreate] at h
    exact exists_version_of_checkCreate h

/-- The create event of a resolved state is in the graph, and its version has rules. -/
theorem exists_version_of_resolve (h : resolve room maps g config = .ok r)
    (hid : r.state.get? .create = some id) :
    ∃ create version, g.get? id = some create ∧ RoomVersion.ofCreate create = .ok version := by
  obtain ⟨a, ha⟩ := exists_account room maps g config r h
  rw [ha.state, Option.or_eq_some_iff] at hid
  rcases hid with hagreed | ⟨-, hlast⟩
  · obtain ⟨hne, hall⟩ := Conflicts.get?_agreed_separate.1 hagreed
    obtain ⟨n, hn⟩ := List.exists_mem_of_ne_nil maps hne
    have hone : ∀ other, (∃ m ∈ maps, m.get? .create = some other) ↔ other = id := fun other => by
      constructor
      · rintro ⟨m, hm, hother⟩
        rw [hall m hm] at hother
        cases hother
        rfl
      · rintro rfl
        exact ⟨n, hn, hall n hn⟩
    obtain ⟨create, hget, -, hversion⟩ := (roomVersionOf_eq_ok_iff hone).1 ha.version
    exact ⟨create, a.version, hget, hversion⟩
  · obtain ⟨j, hj, rfl, haccepted, hplace⟩ := Judgment.exists_of_lastAt? hlast
    obtain ⟨before, rest, hsplit⟩ := List.append_of_mem hj
    obtain ⟨hget, hverdict⟩ := ha.verdict before j rest hsplit
    rw [haccepted] at hverdict
    obtain ⟨version, hversion⟩ :=
      exists_version_of_evaluate (Event.place?_eq_some_iff.1 hplace).1 hverdict
    exact ⟨j.event, version, hget, hversion⟩

/-- Copies of a resolved state resolve to it over the same graph, and nothing is rejected. -/
theorem resolve_copies (room : RoomId) (maps copies : List StateMap) (g : EventGraph)
    (config : Configuration) (r : Resolution) (default : RoomVersion)
    (hdefault : RoomVersion.ofName config.defaultRoomVersion = .ok default)
    (h : resolve room maps g config = .ok r) (hne : copies ≠ [])
    (hcopies : ∀ m ∈ copies, m = r.state) :
    resolve room copies g config = .ok ⟨r.state, .empty⟩ := by
  have hsame : ∀ m, m ∈ [r.state] ↔ m ∈ copies := fun m => by
    obtain ⟨n, hn⟩ := List.exists_mem_of_ne_nil copies hne
    rw [List.mem_singleton]
    exact ⟨fun hm => by rwa [hm, ← hcopies n hn], hcopies m⟩
  refine resolve_of_mem_iff hsame ?_
  have hroom : g.ensureSingleRoom room = .ok () := (Fallible.check_bind_eq_ok.1 h).1
  cases hcreate : r.state.get? .create with
  | none =>
    have hnone : ∀ m ∈ [r.state], m.get? .create = none := List.forall_mem_singleton.2 hcreate
    exact resolve_singleton hroom (roomVersionOf_of_none hnone ▸ hdefault)
  | some id =>
    obtain ⟨create, version, hget, hversion⟩ := exists_version_of_resolve h hcreate
    have hone : ∀ other, (∃ m ∈ [r.state], m.get? .create = some other) ↔ other = id :=
      fun other => by simp [hcreate, eq_comm]
    exact resolve_singleton hroom ((roomVersionOf_eq_ok_iff hone).2
      ⟨create, hget, ensureSingleRoom_eq_ok hroom hget, hversion⟩)

def lodgeCreate : Event :=
  { Event.blank ⟨"$lodge", by decide⟩ ⟨"!attic:lodge", by decide⟩ ⟨"@ann:lodge", by decide⟩
      EventType.create with
    content := .object [("room_version", .string "11")]
    stateKey := some "" }

/-- The topic of a user who is not in the room. -/
def lodgeTopic : Event :=
  { Event.blank ⟨"$notice", by decide⟩ lodgeCreate.room ⟨"@bob:lodge", by decide⟩
      "m.room.topic" with
    stateKey := some ""
    authEvents := [lodgeCreate.id] }

def lodgeGraph : EventGraph := .ofEvents [lodgeCreate, lodgeTopic]

/-- A state with the topic and nothing beside it. -/
def topicAlone : StateMap := SortedMap.empty.insert ⟨"m.room.topic", ""⟩ lodgeTopic.id

/-- Neither state has the create event, so the first resolution is under the default version.  The
create event comes out of it, since the topic cites it, and the topic does not. -/
theorem resolve_copies_topicAlone :
    ∃ r, resolve lodgeCreate.room [topicAlone, .empty] lodgeGraph {} = .ok r ∧
      r.state.get? .create = some lodgeCreate.id ∧ r.isRejected lodgeTopic.id = true ∧
      resolve lodgeCreate.room [r.state, r.state] lodgeGraph {} = .ok ⟨r.state, .empty⟩ := by
  have hrun : (resolve lodgeCreate.room [topicAlone, .empty] lodgeGraph {}).toOption.any (fun r =>
      decide (r.state.get? .create = some lodgeCreate.id) && r.isRejected lodgeTopic.id) =
        true := by
    decide +kernel
  obtain ⟨r, hr, hboth⟩ := Fallible.exists_of_any hrun
  obtain ⟨hcreate, hid⟩ := Bool.and_eq_true_iff.1 hboth
  exact ⟨r, hr, of_decide_eq_true hcreate, hid, resolve_copies _ _ _ _ _ r .v10 (by rfl) hr
    (List.cons_ne_nil _ _) (by simp)⟩

end StateResolution
