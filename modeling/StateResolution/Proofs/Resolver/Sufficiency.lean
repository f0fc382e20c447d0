import Mathlib.Data.List.Find
import StateResolution.Proofs.Resolution.Evaluation
import StateResolution.Proofs.Resolver.SingleCheck
import StateResolution.Proofs.Rules.AuthPlaces

/-!
# What a single check loads

A single check judges over a graph of its own, which it loads in three lookups: what the event
cites, the create event, and what the state holds at the places that matter under the rules that
the create event names.  Whatever is loaded stands in the store as well (`Within`), so the two
graphs can differ only in what has not been loaded; and nothing of that is looked up for the
judgment.

So where the store lacks nothing that is asked for, the check comes to the verdict of a replay
over all that is stored (`checkAgainstState_eq_evaluate`).
-/

namespace StateResolution

open Fallible (bind_eq_ok)

/-- All events of a graph are in another. -/
def EventGraph.Within (loaded g : EventGraph) : Prop :=
  ∀ id e, loaded.get? id = some e → g.get? id = some e

variable {g loaded : EventGraph} {e first : Event} {state : StateMap} {create id : EventId}
  {ids : List EventId} {version : RoomVersion} {verdict : Verdict}

/-! ## Lookups -/

theorem EventGraph.Within.insertAll (h : loaded.Within g) (ids : List EventId) :
    (loaded.insertAll (ids.filterMap g.get?)).Within g := by
  intro id e he
  rcases mem_of_get?_insertAll he with ⟨hmem, rfl⟩ | hold
  · obtain ⟨i, -, hi⟩ := List.mem_filterMap.1 hmem
    rw [g.keyed i e hi]
    exact hi
  · exact h id e hold

/-- An event that is asked for is loaded, if it is stored. -/
theorem EventGraph.Within.get?_of_asked (h : loaded.Within g) (hid : id ∈ ids)
    (he : g.get? id = some e) : (loaded.insertAll (ids.filterMap g.get?)).get? id = some e := by
  obtain ⟨found, hfound⟩ : ∃ found,
      (loaded.insertAll (ids.filterMap g.get?)).get? e.id = some found :=
    exists_get?_insertAll_of_mem (List.mem_filterMap.2 ⟨id, hid, he⟩)
  rw [g.keyed id e he] at hfound
  rw [hfound, ← h.insertAll ids id found hfound, he]

/-- What is loaded stays when more is. -/
theorem EventGraph.Within.get?_of_loaded (h : loaded.Within g) (ids : List EventId)
    (he : loaded.get? id = some e) :
    (loaded.insertAll (ids.filterMap g.get?)).get? id = some e := by
  obtain ⟨found, hfound⟩ : ∃ found,
      (loaded.insertAll (ids.filterMap g.get?)).get? id = some found :=
    exists_get?_insertAll ⟨e, he⟩
  rw [hfound, ← h.insertAll ids id found hfound, h id e he]

/-! ## The create event -/

theorem createFor?_congr {g g' : EventGraph} (h : ∀ id ∈ e.authEvents, g.get? id = g'.get? id) :
    createFor? g e state = createFor? g' e state := by
  have hfind : (e.authEvents.find? fun id => (g.get? id).any (·.holds .create)) =
      e.authEvents.find? fun id => (g'.get? id).any (·.holds .create) :=
    List.find?_congr fun id hid => by rw [h id hid]
  rw [createFor?, createFor?, hfind]

theorem createFor?_eq_or (g : EventGraph) (e : Event) (state : StateMap) :
    createFor? g e state = (state.get? .create).or
      (e.authEvents.find? fun id => (g.get? id).any (·.holds .create)) := by
  unfold createFor?
  cases state.get? .create <;> rfl

/-- The create event is loaded on top of what is there, if it is stored. -/
theorem exists_ensureLoaded (h : loaded.Within g) (hfirst : g.get? create = some first) :
    ∃ more, (ensureLoaded (.ofGraph g) loaded create).outcome = .ok more ∧ loaded.Within more ∧
      more.Within g ∧ more.get? create = some first := by
  unfold ensureLoaded
  split
  · next hheld =>
    obtain ⟨found, hfound⟩ := SortedMap.contains_iff.1 hheld
    cases (h create found hfound).symm.trans hfirst
    exact ⟨loaded, rfl, fun _ _ he => he, h, hfound⟩
  · refine ⟨loaded.insertAll ([create].filterMap g.get?), ?_, fun id e => h.get?_of_loaded [create],
      h.insertAll [create], h.get?_of_asked List.mem_cons_self hfirst⟩
    rw [Fetched.outcome_bind, EventStore.getEvent_eq_ok.2 hfirst, List.filterMap_cons_some hfirst]
    rfl

/-! ## The check -/

theorem mem_wanted :
    id ∈ ((authPlaces e version).toList.filterMap state.get?).filter (!loaded.contains ·) ↔
      (∃ k ∈ authPlaces e version, state.get? k = some id) ∧ loaded.get? id = none := by
  simp only [List.mem_filter, List.mem_filterMap, Bool.not_eq_true', EventGraph.contains,
    SortedMap.contains, Option.isSome_eq_false_iff, Option.isNone_iff_eq_none, SortedSet.mem_def]
  rfl

/-- Under a create event whose rules are known, a check judges as over all that is stored. -/
theorem outcome_checkUnder_ofGraph (h : loaded.Within g) (hfirst : g.get? create = some first)
    (hversion : RoomVersion.ofCreate first = .ok version)
    (hcited : ∀ id ∈ e.authEvents, ∃ c, loaded.get? id = some c)
    (hstored : ∀ id, Consulted e version state id → ∃ c, g.get? id = some c)
    (hverdict : evaluate g version e state .empty = .ok verdict) :
    (checkUnder (.ofGraph g) loaded create e state).outcome = .ok verdict := by
  obtain ⟨more, hmore, hkept, hwithin, hcreate⟩ := exists_ensureLoaded h hfirst
  let wanted := ((authPlaces e version).toList.filterMap state.get?).filter (!more.contains ·)
  have hloaded : ∀ id, Consulted e version state id →
      ∃ c, (more.insertAll (wanted.filterMap g.get?)).get? id = some c := by
    rintro id (hid | hid)
    · obtain ⟨c, hc⟩ := hcited id hid
      exact ⟨c, hwithin.get?_of_loaded wanted (hkept id c hc)⟩
    · cases hheld : more.get? id with
      | some c => exact ⟨c, hwithin.get?_of_loaded wanted hheld⟩
      | none =>
        obtain ⟨c, hc⟩ := hstored id (.inr hid)
        exact ⟨c, hwithin.get?_of_asked (mem_wanted.2 ⟨hid, hheld⟩) hc⟩
  refine outcome_checkUnder_eq_ok.2 ⟨more, hmore, first, EventGraph.get_eq_ok_iff.2 hcreate,
    version, hversion, wanted.filterMap g.get?, rfl, ensureComplete_eq_ok.2 fun id hid => ?_, ?_⟩
  · rcases List.mem_append.1 hid with hid | hid
    · exact hloaded id (.inl hid)
    · exact hloaded id (.inr (mem_wanted.1 hid).1)
  · rw [← hverdict]
    refine evaluate_congr (fun id hid => ?_) .empty
    obtain ⟨c, hc⟩ := hloaded id hid
    rw [hc, hwithin.insertAll wanted id c hc]

/-- A check of an event other than a create event comes to a verdict, which is that of a replay
over everything that is stored, provided some things are stored: the create event that the state
holds, or else the first that the event cites, with a version that has rules; what the event
cites; and what the state holds at the places that matter under these rules. -/
theorem checkAgainstState_eq_evaluate (g : EventGraph) (e : Event) (state : StateMap)
    (create : EventId) (first : Event) (version : RoomVersion)
    (htype : e.type ≠ EventType.create)
    (hcreate : (state.get? .create).or
      (e.authEvents.find? fun id => (g.get? id).any (·.holds .create)) = some create)
    (hfirst : g.get? create = some first) (hversion : RoomVersion.ofCreate first = .ok version)
    (hcited : ∀ id ∈ e.authEvents, ∃ c, g.get? id = some c)
    (hheld : ∀ k ∈ authPlaces e version, ∀ id, state.get? k = some id → ∃ c, g.get? id = some c) :
    ∃ verdict, evaluate g version e state .empty = .ok verdict ∧
      (checkAgainstState (.ofGraph g) e state).outcome = .ok verdict := by
  have hstored : ∀ id, Consulted e version state id → ∃ c, g.get? id = some c := by
    rintro id (hid | ⟨k, hk, hid⟩)
    · exact hcited id hid
    · exact hheld k hk id hid
  obtain ⟨verdict, hverdict⟩ := exists_verdict hstored .empty
  refine ⟨verdict, hverdict, ?_⟩
  -- The citations are loaded first, into a graph that holds nothing else.
  have hempty : EventGraph.empty.Within g := fun _ _ he => by cases he
  have hlookup : ∀ id ∈ e.authEvents, ∃ c,
      (EventGraph.ofEvents (e.authEvents.filterMap g.get?)).get? id = some c ∧
        g.get? id = some c := fun id hid => by
    obtain ⟨c, hc⟩ := hcited id hid
    exact ⟨c, hempty.get?_of_asked hid hc, hc⟩
  have hfound : createFor? (.ofEvents (e.authEvents.filterMap g.get?)) e state = some create := by
    rw [← hcreate, ← createFor?_eq_or]
    refine createFor?_congr fun id hid => ?_
    obtain ⟨c, hloaded, hc⟩ := hlookup id hid
    rw [hloaded, hc]
  unfold checkAgainstState
  rw [if_neg htype, Fetched.outcome_bind]
  refine bind_eq_ok.2 ⟨e.authEvents.filterMap g.get?, rfl, ?_⟩
  simp only [hfound]
  refine outcome_checkUnder_ofGraph (hempty.insertAll e.authEvents) hfirst hversion
    (fun id hid => ?_) hstored hverdict
  obtain ⟨c, hloaded, -⟩ := hlookup id hid
  exact ⟨c, hloaded⟩

/-- The join of an outsider, who does not cite the membership of the member that vouches. -/
def danVouched : Event := { danJoins with authEvents := [denCreate.id, denRestricted.id] }

def denStored : EventGraph := .ofEvents [denCreate, catJoined, denRestricted, eveBanned]

/-- A state without its create event. -/
def denBare : StateMap :=
  ((SortedMap.empty.insert .joinRules denRestricted.id).insert
    (.member cat.text) catJoined.id).insert (.member eve.text) eveBanned.id

/-- The member is loaded from the state, once the create event that is cited tells that the room
knows such joins.  The ban of a third user is not loaded. -/
theorem checkAgainstState_eq_evaluate_danVouched :
    danVouched.type ≠ EventType.create ∧ denBare.get? .create = none ∧
      (∀ id ∈ danVouched.authEvents, ∃ c, denStored.get? id = some c) ∧ denBare.Held denStored ∧
      evaluate denStored .v10 danVouched denBare .empty = .ok (.ok ()) ∧
      (checkAgainstState (.ofGraph denStored) danVouched denBare).outcome = .ok (.ok ()) ∧
      (checkAgainstState (.ofGraph denStored) danVouched denBare).lookups =
        [[denCreate.id, denRestricted.id], [catJoined.id]] := by
  have htype : danVouched.type ≠ EventType.create := by decide
  have hcited : ∀ id ∈ danVouched.authEvents, ∃ c, denStored.get? id = some c := by
    have hsome : ∀ id ∈ danVouched.authEvents, (denStored.get? id).isSome = true := by
      decide +kernel
    exact fun id hid => Option.isSome_iff_exists.1 (hsome id hid)
  have hplaced : denBare.Placed denStored := by decide +kernel
  have hverdict : evaluate denStored .v10 danVouched denBare .empty = .ok (.ok ()) := by rfl
  obtain ⟨verdict, hsame, hchecked⟩ := checkAgainstState_eq_evaluate denStored danVouched denBare
    denCreate.id denCreate .v10 htype (by rfl) (by rfl) (by rfl) hcited fun k _ => hplaced.held k
  cases hverdict.symm.trans hsame
  exact ⟨htype, by rfl, hcited, hplaced.held, hverdict, hchecked, by rfl⟩

end StateResolution
