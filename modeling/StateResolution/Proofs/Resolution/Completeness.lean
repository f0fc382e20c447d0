import StateResolution.Proofs.Resolution.Evaluation
import StateResolution.Proofs.Resolution.Mainline
import StateResolution.Proofs.Resolution.PowerOrder
import StateResolution.Proofs.Resolution.Replay
import StateResolution.Proofs.Store.Closure
import StateResolution.Resolution.Basic

/-!
# Nothing is missing

What is loaded for some states holds their events and all that these lead to, and no cycle.
So a resolution over it meets no gap, in none of its parts: chains and differences are found,
the power events can be sorted, the replays judge what they are given, and every lineage that
is followed comes to an end.

What can still go wrong is listed by `Obstacle`: an event of another room, two create events,
a version without rules, and a lineage of power levels that has more events than the limit.
`obstacle_of_resolve` says that nothing else does.
-/

namespace StateResolution

open Fallible (bind_eq_ok pure_eq_ok bind_eq_error error_of_bind exists_mapM)

variable {g loaded : EventGraph} {version : RoomVersion} {e : Event} {r : Replay}
  {room : RoomId} {maps : List StateMap} {err : Error}

/-! ## Replays -/

/-- An event of the graph can be judged against a state of events of the graph. -/
theorem exists_evaluate (version : RoomVersion) (hg : g.AllGrounded) (he : g.get? e.id = some e)
    (hstate : r.state.Held g) :
    ∃ verdict, evaluate g version e r.state r.rejected = .ok verdict := by
  refine exists_verdict (fun id hid => ?_) r.rejected
  rcases hid with hcited | ⟨k, -, hid⟩
  · exact (EventGraph.closed_grounded g).exists_cited_get? (hg e.id e he) he id hcited
  · exact hstate k id hid

theorem StateMap.Held.apply (hstate : r.state.Held g) (he : g.get? e.id = some e)
    (verdict : Verdict) : (r.apply e verdict).state.Held g := by
  intro k id hid
  rw [Replay.get?_state_apply r ⟨e, verdict⟩] at hid
  split at hid
  · cases hid
    exact ⟨e, he⟩
  · exact hstate k id hid

theorem exists_step (version : RoomVersion) (hg : g.AllGrounded) (hstate : r.state.Held g)
    {id : EventId} (hid : ∃ e, g.get? id = some e) :
    ∃ r', Replay.step g version r id = .ok r' ∧ r'.state.Held g := by
  obtain ⟨e, he⟩ := hid
  cases g.keyed id e he
  obtain ⟨verdict, hverdict⟩ := exists_evaluate version hg he hstate
  exact ⟨_, bind_eq_ok.2 ⟨e, EventGraph.get_eq_ok_iff.2 he, bind_eq_ok.2 ⟨verdict, hverdict, rfl⟩⟩,
    hstate.apply he verdict⟩

/-- Events of the graph can be replayed, and leave a state of such events. -/
theorem exists_runAll (version : RoomVersion) (hg : g.AllGrounded) (hstate : r.state.Held g)
    {ids : List EventId} (hids : ∀ id ∈ ids, ∃ e, g.get? id = some e) :
    ∃ r', Replay.runAll g version r ids = .ok r' ∧ r'.state.Held g := by
  induction ids generalizing r with
  | nil => exact ⟨r, rfl, hstate⟩
  | cons id ids ih =>
    obtain ⟨s, hs, hheld⟩ := exists_step version hg hstate (hids id List.mem_cons_self)
    obtain ⟨r', hr', hstate'⟩ := ih hheld fun i hi => hids i (List.mem_cons_of_mem _ hi)
    rw [Replay.runAll_cons]
    exact ⟨r', bind_eq_ok.2 ⟨s, hs, hr'⟩, hstate'⟩

/-! ## What can go wrong -/

/-- Why a resolution over loaded events may fail. -/
inductive Obstacle (room : RoomId) (maps : List StateMap) (g : EventGraph)
    (limit : Nat) : Error → Prop
  /-- An event of another room was loaded. -/
  | wrongRoom {e : Event} : g.get? e.id = some e → e.room ≠ room →
    Obstacle room maps g limit (.invalidEvent (.wrongRoom e.id e.room room))
  /-- Two states have different create events. -/
  | conflictingCreates {m m' : StateMap} {first second : EventId} : m ∈ maps → m' ∈ maps →
    m.get? .create = some first → m'.get? .create = some second → first ≠ second →
    Obstacle room maps g limit (.invalidEvent (.conflictingCreates first second))
  /-- The version of the room has no rules. -/
  | unsupported {name : String} : RoomVersion.ofName? name = none →
    Obstacle room maps g limit (.unsupportedRoomVersion name)
  /-- A lineage of power levels is too long. -/
  | overlong {err : Error} : Overlong g limit err → Obstacle room maps g limit err

variable {limit : Nat}

theorem RoomVersion.ofName_eq_error {name : String} (h : ofName name = .error err) :
    ofName? name = none ∧ err = .unsupportedRoomVersion name := by
  unfold ofName at h
  split at h
  · cases h
  · next hnone =>
    cases h
    exact ⟨hnone, rfl⟩

theorem ensureSingleRoom_eq_ok (h : g.ensureSingleRoom room = .ok ()) {id : EventId}
    (he : g.get? id = some e) : e.room = room := by
  unfold EventGraph.ensureSingleRoom at h
  split at h
  · cases h
  · next hnone =>
    have hmem : e ∈ g.toList := SortedMap.mem_values_iff.2 ⟨id, he⟩
    simpa using List.find?_eq_none.1 hnone e hmem

theorem obstacle_of_ensureSingleRoom (h : g.ensureSingleRoom room = .error err) :
    Obstacle room maps g limit err := by
  unfold EventGraph.ensureSingleRoom at h
  split at h
  · next e hsome =>
    cases h
    have hroom : e.room ≠ room := by simpa using List.find?_some hsome
    exact .wrongRoom (EventGraph.get?_of_mem_toList (List.mem_of_find?_eq_some hsome)) hroom
  · cases h

/-- The version of a room is known unless its create events differ or it has no rules. -/
theorem obstacle_of_roomVersionOf {defaultVersion : String}
    (hroom : g.ensureSingleRoom room = .ok ())
    (hmaps : ∀ m ∈ maps, ∀ id ∈ m.eventIds, ∃ e, g.get? id = some e)
    (h : roomVersionOf room maps g defaultVersion = .error err) :
    Obstacle room maps g limit err := by
  have hcreate : ∀ id ∈ (SortedSet.ofList (maps.filterMap (·.get? .create))).toList,
      ∃ m ∈ maps, m.get? .create = some id := fun id hid => by
    simpa using SortedSet.mem_ofList.1 (SortedSet.mem_def.2 hid)
  have hnodup := (SortedSet.ofList (maps.filterMap (·.get? .create))).nodup_toList
  unfold roomVersionOf at h
  split at h
  · obtain ⟨hname, rfl⟩ := RoomVersion.ofName_eq_error h
    exact .unsupported hname
  · next id hone =>
    obtain ⟨m, hm, hid⟩ := hcreate id (by rw [hone]; exact List.mem_singleton_self id)
    obtain ⟨create, hget⟩ := hmaps m hm id (SortedMap.mem_values_iff.2 ⟨_, hid⟩)
    have h := error_of_bind (EventGraph.get_eq_ok_iff.2 hget) h
    dsimp only at h
    rw [if_neg (not_not_intro (ensureSingleRoom_eq_ok hroom hget))] at h
    obtain ⟨hname, rfl⟩ := RoomVersion.ofName_eq_error h
    exact .unsupported hname
  · next first second rest hmany =>
    rw [hmany] at hcreate hnodup
    obtain ⟨m, hm, hfirst⟩ := hcreate first List.mem_cons_self
    obtain ⟨m', hm', hsecond⟩ := hcreate second (List.mem_cons_of_mem _ List.mem_cons_self)
    cases h
    refine .conflictingCreates hm hm' hfirst hsecond fun heq => ?_
    exact (List.nodup_cons.1 hnodup).1 (heq ▸ List.mem_cons_self)

/-- Over grounded events a dispute fails to be resolved only at a lineage past the limit. -/
theorem overlong_of_resolveConflicts (hg : g.AllGrounded)
    (hmaps : ∀ m ∈ maps, ∀ id ∈ m.eventIds, ∃ e, g.get? id = some e)
    (h : resolveConflicts version maps g limit (Conflicts.separate maps) = .error err) :
    Overlong g limit err := by
  have hclosed := EventGraph.closed_grounded g
  obtain ⟨full, hfull, hwithin⟩ := exists_fullConflictedSet hclosed fun m hm id hid => by
    obtain ⟨e, he⟩ := hmaps m hm id hid
    exact hg id e he
  have hheld : ∀ id ∈ full, ∃ e, g.get? id = some e := fun id hid =>
    hclosed.present id (hwithin id hid)
  obtain ⟨powerEvents, hpowerEvents⟩ := exists_powerEventsOf hheld
  have hpower : ∀ id ∈ powerEvents, id ∈ full := fun id hid =>
    ((mem_powerEventsOf hpowerEvents).1 hid).1
  obtain ⟨order, horder⟩ := exists_powerSort version full fun id hid => hwithin id (hpower id hid)
  have horderHeld : ∀ id ∈ order, ∃ e, g.get? id = some e := fun id hid =>
    hheld id ((powerSort_spec hpower horder).2 id hid)
  have hagreed : (Conflicts.separate maps).agreed.Held g := fun k id hid => by
    obtain ⟨hmaps', hall⟩ := Conflicts.get?_agreed_separate.1 hid
    obtain ⟨m, hm⟩ := List.exists_mem_of_ne_nil maps hmaps'
    exact hmaps m hm id (SortedMap.mem_values_iff.2 ⟨k, hall m hm⟩)
  obtain ⟨first, hfirst, hstate⟩ := exists_runAll version
    (r := ⟨(Conflicts.separate maps).agreed, .empty⟩) hg hagreed horderHeld
  have hleft : ∀ id ∈ full.toList.filter fun id => !order.contains id,
      ∃ e, g.get? id = some e := fun id hid => hheld id (List.mem_filter.1 hid).1
  have h := error_of_bind hfull h
  have h := error_of_bind hpowerEvents h
  have h := error_of_bind horder h
  have h := error_of_bind hfirst h
  rcases bind_eq_error.1 h with h | ⟨others, hothers, h⟩
  · exact overlong_of_mainlineSort hg (fun id hid => hstate _ id hid) hleft h
  · have hothersHeld : ∀ id ∈ others, ∃ e, g.get? id = some e := fun id hid =>
      hleft id ((perm_of_mainlineSort hothers).mem_iff.1 hid)
    obtain ⟨second, hsecond, -⟩ := exists_runAll version hg hstate hothersHeld
    have h := error_of_bind hsecond h
    cases h

/-- What is loaded is grounded, and holds the roots. -/
theorem EventStore.allGrounded_of_load {roots : List EventId} {batch : Nat}
    (h : ((ofGraph g).load roots batch limit).outcome = .ok loaded) :
    loaded.AllGrounded ∧ ∀ id ∈ roots, ∃ e, loaded.get? id = some e := by
  obtain ⟨within, hclosed, hroots⟩ := closed_of_load h
  refine ⟨?_, fun id hid => hclosed.present id (hroots id hid)⟩
  rw [outcome_load] at h
  obtain ⟨es, -, h⟩ := bind_eq_ok.1 h
  obtain ⟨_, hverified, hloaded⟩ := bind_eq_ok.1 h
  cases pure_eq_ok.1 hloaded
  exact fun id e he => EventGraph.grounded_of_verifyAcyclic hverified he

/-- When the events of some states have been loaded, their resolution succeeds or comes to
one of the obstacles.  It misses no event, and finds no cycle. -/
theorem obstacle_of_resolve (g loaded : EventGraph) (config : Configuration) (room : RoomId)
    (maps : List StateMap) (err : Error)
    (hload : ((EventStore.ofGraph g).load (maps.flatMap StateMap.eventIds) config.fetchBatchSize
      config.maxAuthDepth).outcome = .ok loaded)
    (h : resolve room maps loaded config = .error err) :
    Obstacle room maps loaded config.maxAuthDepth err := by
  obtain ⟨hg, hroots⟩ := EventStore.allGrounded_of_load hload
  have hmaps : ∀ m ∈ maps, ∀ id ∈ m.eventIds, ∃ e, loaded.get? id = some e := fun m hm id hid =>
    hroots id (List.mem_flatMap.2 ⟨m, hm, hid⟩)
  rcases bind_eq_error.1 h with h | ⟨_, hroom, h⟩
  · exact obstacle_of_ensureSingleRoom h
  · rcases bind_eq_error.1 h with h | ⟨version, -, h⟩
    · exact obstacle_of_roomVersionOf hroom hmaps h
    · dsimp only at h
      split at h
      · exact .overlong (overlong_of_resolveConflicts hg hmaps h)
      · cases h

/-- A state with the topic and one without, under the second levels. -/
def topicStates : List StateMap :=
  [levelsState secondLevels, createdState.insert .powerLevels secondLevels.id]

/-- The second levels and the first are a lineage of two, which is over a limit of one. -/
theorem obstacle_of_resolve_topicStates :
    ∃ loaded,
      ((EventStore.ofGraph levelsGraph).load (topicStates.flatMap StateMap.eventIds) 100
        1).outcome = .ok loaded ∧
      resolve soleCreate.room topicStates loaded { maxAuthDepth := 1 } =
        .error (.graphCorruption (.endlessLineage (some secondLevels.id))) ∧
      Overlong loaded 1 (.graphCorruption (.endlessLineage (some secondLevels.id))) := by
  have hrun : ((EventStore.ofGraph levelsGraph).load (topicStates.flatMap StateMap.eventIds) 100
      1).outcome.toOption.any (fun loaded =>
        decide ((resolve soleCreate.room topicStates loaded { maxAuthDepth := 1 }).map
          (fun _ => ()) =
            .error (.graphCorruption (.endlessLineage (some secondLevels.id))))) = true := by
    decide +kernel
  obtain ⟨loaded, hload, h⟩ := Fallible.exists_of_any hrun
  have h := of_decide_eq_true h
  cases hresolve : resolve soleCreate.room topicStates loaded { maxAuthDepth := 1 } with
  | ok r =>
    rw [hresolve] at h
    cases h
  | error err =>
    rw [hresolve] at h
    cases h
    refine ⟨loaded, hload, hresolve, ?_⟩
    cases obstacle_of_resolve levelsGraph loaded { maxAuthDepth := 1 } _ _ _ hload hresolve with
    | overlong hline => exact hline

end StateResolution
