import StateResolution.Proofs.Resolution.Conflicts
import StateResolution.Proofs.Store.Closure
import StateResolution.Resolver.SingleCheck

/-!
# A gap in the store

What a single check comes to when the store lacks an event that the checked event cites.
Once the create event is known, the check looks for gaps before it judges, so it fails and
can be made again (`outcome_checkUnder_ne_ok`).

The create event itself is looked for earlier, among what the store has handed out.  Where
the state names none and the one that is cited is missing, or was never cited, the event is
rejected for good before any gap is noticed.  `verdict_of_gap_iff` says that this is the one
way to a verdict past a gap, and `rejected_past_gap` that it is taken.
-/

namespace StateResolution

open Fallible (bind_eq_ok)

/-- The store never hands out an event of an id. -/
def EventStore.Lacks (s : EventStore) (id : EventId) : Prop :=
  ∀ ids es, s.answer ids = .ok es → ∀ e ∈ es, e.id ≠ id

variable {s : EventStore} {g : EventGraph} {e : Event} {state : StateMap} {create id : EventId}
  {ids : List EventId} {es : List Event} {verdict : Verdict}

theorem EventStore.lacks_ofGraph (h : g.get? id = none) : (ofGraph g).Lacks id := by
  intro ids es hes e he heq
  cases hes
  obtain ⟨i, -, hi⟩ := List.mem_filterMap.1 he
  rw [← heq, g.keyed i e hi, hi] at h
  cases h

theorem EventGraph.get?_insertAll_eq_none (hg : g.get? id = none) (hes : ∀ e ∈ es, e.id ≠ id) :
    (g.insertAll es).get? id = none := by
  refine Option.eq_none_iff_forall_ne_some.2 fun e he => ?_
  rcases mem_of_get?_insertAll he with ⟨hmem, hid⟩ | hold
  · exact hes e hmem hid
  · rw [hg] at hold
    cases hold

/-! ## What is loaded for a check -/

theorem ensureComplete_eq_ok :
    ensureComplete g ids = .ok () ↔ ∀ id ∈ ids, ∃ e, g.get? id = some e := by
  have hcontains : ∀ id, g.contains id = true ↔ ∃ e, g.get? id = some e := fun id =>
    SortedMap.contains_iff
  unfold ensureComplete
  cases hgap : ids.find? fun id => !g.contains id with
  | none =>
    simp only [List.find?_eq_none, Bool.not_eq_true', Bool.not_eq_false] at hgap
    exact ⟨fun _ id hid => (hcontains id).1 (hgap id hid), fun _ => rfl⟩
  | some id =>
    refine ⟨nofun, fun hall => ?_⟩
    have hmissing := List.find?_some hgap
    rw [(hcontains id).2 (hall id (List.mem_of_find?_eq_some hgap))] at hmissing
    cases hmissing

/-- Loading the create event brings in no event that the store lacks. -/
theorem get?_ensureLoaded {loaded : EventGraph} (hlacks : s.Lacks id) (hg : g.get? id = none)
    (h : (ensureLoaded s g create).outcome = .ok loaded) : loaded.get? id = none := by
  unfold ensureLoaded at h
  split at h
  · cases h
    exact hg
  · rw [Fetched.outcome_bind, bind_eq_ok] at h
    obtain ⟨found, hfound, hloaded⟩ := h
    cases hloaded
    unfold EventStore.getEvent at hfound
    rw [Fetched.outcome_bind, bind_eq_ok] at hfound
    obtain ⟨es, hes, hfirst⟩ := hfound
    cases es with
    | nil => cases hfirst
    | cons first rest =>
      cases hfirst
      rw [EventGraph.get?_insert, if_neg (hlacks _ _ hes found List.mem_cons_self).symm, hg]

/-- A check under a create event succeeds when the create event is found, its rules are
known, the store answers for the places that matter, and nothing is missing then. -/
theorem outcome_checkUnder_eq_ok :
    (checkUnder s g create e state).outcome = .ok verdict ↔
      ∃ loaded, (ensureLoaded s g create).outcome = .ok loaded ∧
        ∃ first, loaded.get create = .ok first ∧
          ∃ version, RoomVersion.ofCreate first = .ok version ∧
            let wanted := ((authPlaces e version).toList.filterMap state.get?).filter
              (!loaded.contains ·)
            ∃ es, s.answer wanted = .ok es ∧
              ensureComplete (loaded.insertAll es) (e.authEvents ++ wanted) = .ok () ∧
              evaluate (loaded.insertAll es) version e state .empty = .ok verdict := by
  unfold checkUnder
  simp only [Fetched.outcome_bind, bind_eq_ok]
  constructor
  · rintro ⟨loaded, hloaded, first, hfirst, version, hversion, es, hes, _, hcomplete, heval⟩
    exact ⟨loaded, hloaded, first, hfirst, version, hversion, es, hes, hcomplete, heval⟩
  · rintro ⟨loaded, hloaded, first, hfirst, version, hversion, es, hes, hcomplete, heval⟩
    exact ⟨loaded, hloaded, first, hfirst, version, hversion, es, hes, (), hcomplete, heval⟩

/-! ## Gaps -/

/-- Under a create event there is no verdict as long as a citation is missing. -/
theorem outcome_checkUnder_ne_ok (hcited : id ∈ e.authEvents) (hlacks : s.Lacks id)
    (hg : g.get? id = none) : (checkUnder s g create e state).outcome ≠ .ok verdict := by
  intro h
  obtain ⟨loaded, hloaded, _, -, version, -, es, hes, hcomplete, -⟩ :=
    outcome_checkUnder_eq_ok.1 h
  obtain ⟨found, hfound⟩ := ensureComplete_eq_ok.1 hcomplete id (List.mem_append_left _ hcited)
  rw [EventGraph.get?_insertAll_eq_none (get?_ensureLoaded hlacks hg hloaded) (hlacks _ _ hes)]
    at hfound
  cases hfound

/-- An event is checked under no create event when the state has none, and none of those
that it cites is at hand. -/
theorem createFor?_eq_none_iff :
    createFor? g e state = none ↔
      state.get? .create = none ∧
        ∀ id ∈ e.authEvents, ∀ c, g.get? id = some c → c.holds .create = false := by
  unfold createFor?
  cases hstate : state.get? .create with
  | some create => simp
  | none =>
    simp only [List.find?_eq_none, Option.any_eq_true, not_exists, not_and, Bool.not_eq_true,
      true_and]

/-- Of an event that cites one which the store lacks there is a verdict in one case only: the
state has no create event and no create event is among what the store hands out of the
citations.  Then the event is rejected, for want of a create event.  In every other case the
check fails. -/
theorem verdict_of_gap_iff (s : EventStore) (e : Event) (state : StateMap) (id : EventId)
    (verdict : Verdict) (htype : e.type ≠ EventType.create) (hcited : id ∈ e.authEvents)
    (hlacks : s.Lacks id) :
    (checkAgainstState s e state).outcome = .ok verdict ↔
      verdict = .error .missingCreate ∧ state.get? .create = none ∧
        ∃ es, s.answer e.authEvents = .ok es ∧
          ∀ cited ∈ e.authEvents, ∀ c, (EventGraph.ofEvents es).get? cited = some c →
            c.holds .create = false := by
  unfold checkAgainstState
  rw [if_neg htype, Fetched.outcome_bind, bind_eq_ok]
  constructor
  · rintro ⟨es, hes, h⟩
    have hes : s.answer e.authEvents = .ok es := hes
    cases hcreate : createFor? (.ofEvents es) e state with
    | none =>
      simp only [hcreate] at h
      cases h
      obtain ⟨hstate, hnone⟩ := createFor?_eq_none_iff.1 hcreate
      exact ⟨rfl, hstate, es, hes, hnone⟩
    | some create =>
      simp only [hcreate] at h
      have hmissing : (EventGraph.ofEvents es).get? id = none :=
        EventGraph.get?_insertAll_eq_none rfl (hlacks _ _ hes)
      exact absurd h (outcome_checkUnder_ne_ok hcited hlacks hmissing)
  · rintro ⟨rfl, hstate, es, hes, hnone⟩
    refine ⟨es, hes, ?_⟩
    simp only [createFor?_eq_none_iff.2 ⟨hstate, hnone⟩]
    rfl

def annJoins : EventId := ⟨"$annJoins", by decide⟩

/-- A topic of the room, which cites the create event and its sender's membership. -/
def hallTopic : Event :=
  { Event.blank ⟨"$hallTopic", by decide⟩ soleCreate.room soleCreate.sender "m.room.topic" with
    stateKey := some ""
    authEvents := [soleCreate.id, annJoins] }

/-- With the create event at hand and the membership missing, there is no verdict. -/
theorem verdict_of_gap_annJoins :
    (EventStore.ofGraph (.ofEvents [soleCreate])).Lacks annJoins ∧
      annJoins ∈ hallTopic.authEvents ∧ hallTopic.type ≠ EventType.create ∧
      ¬ ∃ verdict, (checkAgainstState (.ofGraph (.ofEvents [soleCreate])) hallTopic
        .empty).outcome = .ok verdict := by
  have hlacks : (EventStore.ofGraph (.ofEvents [soleCreate])).Lacks annJoins :=
    EventStore.lacks_ofGraph rfl
  have hcited : annJoins ∈ hallTopic.authEvents := by decide
  have htype : hallTopic.type ≠ EventType.create := by decide
  refine ⟨hlacks, hcited, htype, ?_⟩
  rintro ⟨verdict, h⟩
  obtain ⟨-, -, es, hes, hnone⟩ :=
    (verdict_of_gap_iff _ hallTopic .empty annJoins verdict htype hcited hlacks).1 h
  cases hes
  have hholds : soleCreate.holds .create = true := by decide
  rw [hnone soleCreate.id (by decide) soleCreate rfl] at hholds
  cases hholds

/-- With nothing at hand, the event is rejected and not asked for again. -/
theorem rejected_past_gap :
    (EventStore.ofGraph .empty).Lacks soleCreate.id ∧ soleCreate.id ∈ hallTopic.authEvents ∧
      hallTopic.type ≠ EventType.create ∧
      (checkAgainstState (.ofGraph .empty) hallTopic .empty).outcome =
        .ok (.error .missingCreate) :=
  ⟨EventStore.lacks_ofGraph rfl, by decide, by decide, rfl⟩

end StateResolution
