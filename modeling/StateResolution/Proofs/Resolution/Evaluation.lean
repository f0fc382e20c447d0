import StateResolution.Proofs.Graph.Reach
import StateResolution.Resolution.Replay

/-!
# What an event is judged by

An event is judged by auth events that are put together for it: what it cites, and over that
what stands in the state at the places that matter.  What has been rejected counts in
neither.  `Replay.inForce?` says this place by place.

The state has the last word only where it is sound, that is where each of its events holds
the place it is at (`StateMap.Placed`).  Otherwise an event would be laid over some other
place than the one it was looked up for.

What is looked up for a judgment is `Consulted`.  When all of that is in the graph there is a
verdict (`exists_verdict`), and nothing else in the graph bears on it (`evaluate_congr`).
-/

namespace StateResolution

open Fallible (bind_eq_ok mapM_eq_ok exists_mapM mapM_congr)

/-- Each event of a state is in the graph. -/
def StateMap.Held (g : EventGraph) (m : StateMap) : Prop :=
  ∀ k id, m.get? k = some id → ∃ e, g.get? id = some e

/-- Each event of a state is in the graph, and holds the place at which it stands. -/
def StateMap.Placed (g : EventGraph) (m : StateMap) : Prop :=
  ∀ k id, m.get? k = some id → ∃ e, g.get? id = some e ∧ e.place? = some k

instance (g : EventGraph) (m : StateMap) : Decidable (m.Placed g) :=
  decidable_of_iff (∀ entry ∈ m.toList, (g.get? entry.2).any (·.holds entry.1) = true) (by
    simp only [Prod.forall, SortedMap.mem_toList_iff, Option.any_eq_true, Event.holds_iff]
    rfl)

namespace Replay

/-- The event of the state at a place, unless it has been rejected. -/
def standing? (r : Replay) (k : StateKey) : Option EventId :=
  (r.state.get? k).filter fun id => !r.rejected.contains id

/-- The last of an event's citations at a place, less those that have been rejected. -/
def cited? (r : Replay) (g : EventGraph) (e : Event) (k : StateKey) : Option Event :=
  (e.authEvents.filterMap g.get?).reverse.find? fun c => !r.rejected.contains c.id && c.holds k

/-- The event by which an event is judged at a place. -/
def inForce? (r : Replay) (g : EventGraph) (e : Event) (k : StateKey) : Option Event :=
  ((r.standing? k).bind g.get?).or (r.cited? g e k)

end Replay

variable {g g' : EventGraph} {version : RoomVersion} {r : Replay} {e c : Event} {k : StateKey}
  {id : EventId} {auth auth' : AuthEvents} {ks : List StateKey} {cited : List Event}

theorem Replay.standing?_eq_some_iff :
    r.standing? k = some id ↔ r.state.get? k = some id ∧ r.rejected.contains id = false := by
  simp [standing?, Option.filter_eq_some_iff]

theorem Replay.inForce?_of_standing (hstands : r.standing? k = some id)
    (hget : g.get? id = some c) : r.inForce? g e k = some c := by
  rw [inForce?, hstands, Option.bind_some, hget]
  rfl

theorem StateMap.Placed.held {m : StateMap} (h : m.Placed g) : m.Held g := fun k id hid =>
  (h k id hid).imp fun _ => And.left

/-! ## Citations at their places -/

/-- Of the events of a list at one place, the last is taken. -/
theorem AuthEvents.get?_insertAll (auth : AuthEvents) (es : List Event) (k : StateKey) :
    (auth.insertAll es).get? k = (es.reverse.find? (·.holds k)).or (auth.get? k) := by
  induction es generalizing auth with
  | nil => rfl
  | cons d es ih =>
    show ((auth.insert d).insertAll es).get? k = _
    rw [ih, get?_insert, List.reverse_cons, List.find?_append, Option.or_assoc]
    by_cases hd : d.place? = some k
    · simp [hd, Event.holds]
    · simp [hd, Event.holds]

theorem AuthEvents.get?_ofList_filter (es : List Event) (kept : Event → Bool) (k : StateKey) :
    (ofList (es.filter kept)).get? k = es.reverse.find? fun c => kept c && c.holds k := by
  rw [ofList, get?_insertAll, get?_empty, Option.or_none, ← List.filter_reverse,
    List.find?_filter]
  simp only [Bool.decide_and, Bool.decide_eq_true]

theorem filterMap_get?_of_mapM {ids : List EventId} (h : ids.mapM g.get = .ok cited) :
    ids.filterMap g.get? = cited := by
  induction mapM_eq_ok.1 h with
  | nil => rfl
  | cons hget htail ih =>
    rw [List.filterMap_cons_some (EventGraph.get_eq_ok_iff.1 hget), ih (mapM_eq_ok.2 htail)]

/-! ## The state over the citations -/

/-- What stands in a sound state is laid over the auth events, and nothing else changes. -/
theorem get?_overrideFrom (hstate : r.state.Placed g)
    (h : overrideFrom g r.state r.rejected auth ks = .ok auth') (k : StateKey) :
    auth'.get? k =
      (if k ∈ ks then (r.standing? k).bind g.get? else none).or (auth.get? k) := by
  induction ks generalizing auth with
  | nil =>
    cases h
    simp
  | cons j ks ih =>
    -- A place at which nothing stands is passed over.
    have hpassed : r.standing? j = none → overrideFrom g r.state r.rejected auth ks = .ok auth' →
        auth'.get? k =
          (if k ∈ j :: ks then (r.standing? k).bind g.get? else none).or (auth.get? k) := by
      intro hj hrest
      rw [ih hrest]
      by_cases hkj : k = j
      · subst hkj
        simp [hj]
      · simp [hkj]
    unfold overrideFrom at h
    split at h
    · next hj => exact hpassed (by simp [Replay.standing?, hj]) h
    · next id hj =>
      split at h
      · next hid => exact hpassed (by simp [Replay.standing?, hj, hid]) h
      · next hid =>
        obtain ⟨d, hd, hrest⟩ := bind_eq_ok.1 h
        have hd := EventGraph.get_eq_ok_iff.1 hd
        obtain ⟨d', hd', hplace⟩ := hstate j id hj
        cases hd.symm.trans hd'
        rw [ih hrest, AuthEvents.get?_insert, hplace]
        by_cases hkj : k = j
        · subst hkj
          have hstands : r.standing? k = some id :=
            Replay.standing?_eq_some_iff.2 ⟨hj, by simpa using hid⟩
          rw [if_pos rfl, if_pos List.mem_cons_self, hstands, Option.bind_some, hd]
          split <;> rfl
        · simp [hkj, Ne.symm hkj]

theorem exists_overrideFrom {state : StateMap}
    (hheld : ∀ k ∈ ks, ∀ id, state.get? k = some id → ∃ e, g.get? id = some e)
    (rejected : Rejections) (auth : AuthEvents) :
    ∃ auth', overrideFrom g state rejected auth ks = .ok auth' := by
  induction ks generalizing auth with
  | nil => exact ⟨auth, rfl⟩
  | cons k ks ih =>
    have ih := ih fun j hj => hheld j (List.mem_cons_of_mem _ hj)
    unfold overrideFrom
    split
    · exact ih auth
    · next id hid =>
      split
      · exact ih auth
      · obtain ⟨e, he⟩ := hheld k List.mem_cons_self id hid
        obtain ⟨auth', hauth⟩ := ih (auth.insert e)
        exact ⟨auth', bind_eq_ok.2 ⟨e, EventGraph.get_eq_ok_iff.2 he, hauth⟩⟩

theorem overrideFrom_congr {state : StateMap}
    (h : ∀ k ∈ ks, ∀ id, state.get? k = some id → g.get? id = g'.get? id)
    (rejected : Rejections) (auth : AuthEvents) :
    overrideFrom g state rejected auth ks = overrideFrom g' state rejected auth ks := by
  induction ks generalizing auth with
  | nil => rfl
  | cons k ks ih =>
    have ih := ih fun j hj => h j (List.mem_cons_of_mem _ hj)
    unfold overrideFrom
    split
    · exact ih auth
    · next id hid =>
      rw [EventGraph.get_congr (h k List.mem_cons_self id hid), ih auth]
      split
      · rfl
      · exact bind_congr fun e => ih (auth.insert e)

/-! ## What is looked up -/

/-- The events that a judgment looks up: the citations, and what the state holds at the places
that matter. -/
def Consulted (e : Event) (version : RoomVersion) (state : StateMap) (id : EventId) : Prop :=
  id ∈ e.authEvents ∨ ∃ k ∈ authPlaces e version, state.get? k = some id

/-- An event can be judged when all that is looked up for it is there. -/
theorem exists_verdict {state : StateMap}
    (h : ∀ id, Consulted e version state id → ∃ c, g.get? id = some c) (rejected : Rejections) :
    ∃ verdict, evaluate g version e state rejected = .ok verdict := by
  obtain ⟨cited, hcited⟩ : ∃ cited, e.authEvents.mapM g.get = .ok cited :=
    exists_mapM fun id hid => by
      obtain ⟨c, hc⟩ := h id (.inl hid)
      exact ⟨c, EventGraph.get_eq_ok_iff.2 hc⟩
  unfold evaluate
  cases hcitations : checkCitations e cited version with
  | error reason => exact ⟨_, bind_eq_ok.2 ⟨cited, hcited, by rw [hcitations]; rfl⟩⟩
  | ok u =>
    obtain ⟨auth, hauth⟩ := exists_overrideFrom
      (fun k hk id hid => h id (.inr ⟨k, SortedSet.mem_def.2 hk, hid⟩)) rejected
      (AuthEvents.ofList (cited.filter fun c => !rejected.contains c.id))
    refine ⟨checkEvent e auth version, bind_eq_ok.2 ⟨cited, hcited, ?_⟩⟩
    rw [hcitations]
    exact bind_eq_ok.2 ⟨auth, hauth, rfl⟩

/-- The rest of the graph does not matter. -/
theorem evaluate_congr {state : StateMap}
    (h : ∀ id, Consulted e version state id → g.get? id = g'.get? id) (rejected : Rejections) :
    evaluate g version e state rejected = evaluate g' version e state rejected := by
  have hcited : e.authEvents.mapM g.get = e.authEvents.mapM g'.get :=
    mapM_congr fun id hid => EventGraph.get_congr (h id (.inl hid))
  have hheld : ∀ k ∈ (authPlaces e version).toList, ∀ id, state.get? k = some id →
      g.get? id = g'.get? id :=
    fun k hk id hid => h id (.inr ⟨k, SortedSet.mem_def.2 hk, hid⟩)
  simp only [evaluate, hcited, overrideFrom_congr hheld]

/-! ## What decides -/

/-- An event whose citations are accepted is judged by what is in force at the places that
matter. -/
theorem exists_auth_evaluate (hstate : r.state.Placed g)
    (hcited : e.authEvents.mapM g.get = .ok cited)
    (hcitations : checkCitations e cited version = .ok ()) :
    ∃ auth : AuthEvents, (∀ k ∈ authPlaces e version, auth.get? k = r.inForce? g e k) ∧
      evaluate g version e r.state r.rejected = .ok (checkEvent e auth version) := by
  have hheld : ∀ k ∈ (authPlaces e version).toList, ∀ id, r.state.get? k = some id →
      ∃ c, g.get? id = some c := fun k _ => hstate.held k
  obtain ⟨auth, hauth⟩ := exists_overrideFrom hheld r.rejected
    (AuthEvents.ofList (cited.filter fun c => !r.rejected.contains c.id))
  refine ⟨auth, fun k hk => ?_, bind_eq_ok.2 ⟨cited, hcited, ?_⟩⟩
  · rw [get?_overrideFrom hstate hauth, if_pos (SortedSet.mem_def.1 hk),
      AuthEvents.get?_ofList_filter, Replay.inForce?, Replay.cited?, filterMap_get?_of_mapM hcited]
  · rw [hcitations]
    exact bind_eq_ok.2 ⟨auth, hauth, rfl⟩

/-- An event that is accepted is allowed by what is in force at the places that matter. -/
theorem exists_auth_of_evaluate (hstate : r.state.Placed g)
    (h : evaluate g version e r.state r.rejected = .ok (.ok ())) :
    ∃ auth : AuthEvents, (∀ k ∈ authPlaces e version, auth.get? k = r.inForce? g e k) ∧
      checkEvent e auth version = .ok () := by
  obtain ⟨cited, hcited, hjudged⟩ := bind_eq_ok.1 h
  split at hjudged
  · cases hjudged
  · next hcitations =>
    obtain ⟨auth, hforce, heval⟩ := exists_auth_evaluate hstate hcited hcitations
    exact ⟨auth, hforce, Except.ok.inj (heval.symm.trans h)⟩

end StateResolution
