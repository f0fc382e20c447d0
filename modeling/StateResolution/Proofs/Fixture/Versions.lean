import Mathlib.Data.List.Nodup
import StateResolution.Fixture
import StateResolution.Proofs.Store.Levels
import StateResolution.Resolver.SingleCheck

/-!
# Events that a fixture gives twice

A fixture may give an event again under the same id, and say something else by it.  A search by
id takes the first of these versions (`Fixture.event_eq_ok`), and the store keeps the last
(`Fixture.getEvent_eq_ok`), so this is also what a resolution loads (`Fixture.last_of_load`).

Whether an id is known is the same for both.  What they know under it is the same exactly where
the first version and the last are one event (`Fixture.lookups_agree_iff`), as they are where no
id is repeated.  In between, a check can accept an event that no resolution would see
(`two_versions_of_shedTopic`).
-/

namespace StateResolution

namespace Fixture

variable {f : Fixture} {id : EventId} {e : Event}

/-- What a fixture gives under an id, in the order of the file. -/
def versions (f : Fixture) (id : EventId) : List Event := f.events.filter (·.id = id)

theorem event_eq_ok : f.event id = .ok e ↔ (f.versions id).head? = some e := by
  rw [event, versions, List.head?_filter]
  cases f.events.find? (·.id = id) with
  | none => constructor <;> intro h <;> cases h
  | some d => rw [Except.ok.injEq, Option.some.injEq]

theorem get?_graph (f : Fixture) (id : EventId) : f.graph.get? id = (f.versions id).getLast? :=
  (EventGraph.get?_insertAll .empty f.events id).trans (Option.or_none ..)

theorem getEvent_eq_ok :
    (f.store.getEvent id).outcome = .ok e ↔ (f.versions id).getLast? = some e := by
  rw [store, EventStore.getEvent_eq_ok, get?_graph]

/-- Whatever is loaded from the store under an id is the last version. -/
theorem last_of_load {roots : List EventId} {batch limit : Nat} {loaded : EventGraph}
    (hload : (f.store.load roots batch limit).outcome = .ok loaded)
    (he : loaded.get? id = some e) : (f.versions id).getLast? = some e := by
  obtain ⟨es, hes, -, rfl⟩ := EventStore.outcome_load_eq_ok.1 hload
  obtain ⟨hmem, rfl⟩ := EventGraph.mem_of_get?_ofEvents he
  have hclosing : f.graph.Closing roots limit (f.store.closure roots batch limit).outcome :=
    EventStore.closing_closure f.graph roots batch limit
  rw [hes] at hclosing
  rw [← get?_graph]
  exact ((hclosing.listing.mem e).1 hmem).1

theorem id_of_mem_versions (h : e ∈ f.versions id) : e.id = id :=
  of_decide_eq_true (List.mem_filter.1 h).2

theorem head?_versions_of_nodup (h : (f.events.map Event.id).Nodup) :
    (f.versions id).head? = (f.versions id).getLast? := by
  have hnodup : ((f.versions id).map Event.id).Nodup := h.sublist (List.filter_sublist.map _)
  have hid : ∀ e ∈ f.versions id, e.id = id := fun _ => id_of_mem_versions
  generalize f.versions id = es at hnodup hid
  match es with
  | [] => rfl
  | [_] => rfl
  | first :: second :: _ =>
    rw [List.map_cons, List.map_cons, hid first (by simp), hid second (by simp)] at hnodup
    exact absurd List.mem_cons_self (List.nodup_cons.1 hnodup).1

/-- An id is known to both lookups or to neither.  Under it they know the same event exactly where
the first version that the fixture gives is also the last, and so wherever no id is repeated.
What the store knows is what is loaded of it for a resolution. -/
theorem lookups_agree_iff (f : Fixture) (id : EventId) :
    ((∃ e, f.event id = .ok e) ↔ ∃ e, (f.store.getEvent id).outcome = .ok e) ∧
    ((∀ e, f.event id = .ok e ↔ (f.store.getEvent id).outcome = .ok e) ↔
      (f.versions id).head? = (f.versions id).getLast?) ∧
    ((f.events.map Event.id).Nodup →
      ∀ e, f.event id = .ok e ↔ (f.store.getEvent id).outcome = .ok e) ∧
    ∀ roots batch limit loaded, (f.store.load roots batch limit).outcome = .ok loaded →
      ∀ e, loaded.get? id = some e → (f.store.getEvent id).outcome = .ok e := by
  have hagree : (∀ e, f.event id = .ok e ↔ (f.store.getEvent id).outcome = .ok e) ↔
      (f.versions id).head? = (f.versions id).getLast? := by
    simp only [event_eq_ok, getEvent_eq_ok]
    exact ⟨Option.ext, fun h e => by rw [h]⟩
  refine ⟨?_, hagree, fun h => hagree.2 (head?_versions_of_nodup h),
    fun _ _ _ _ hload e he => getEvent_eq_ok.2 (last_of_load hload he)⟩
  simp only [event_eq_ok, getEvent_eq_ok, ← Option.isSome_iff_exists, List.isSome_head?,
    List.getLast?_isSome]

end Fixture

def shed : RoomId := ⟨"!shed", by decide⟩

def gus : UserId := ⟨"@gus:shed", by decide⟩

def hal : UserId := ⟨"@hal:shed", by decide⟩

def shedCreate : Event :=
  { Event.blank ⟨"$shed", by decide⟩ shed gus EventType.create with
    content := .object [("room_version", .string "10"), ("creator", .string gus.text)]
    stateKey := some "" }

def gusJoined : Event :=
  { Event.blank ⟨"$gus", by decide⟩ shed gus EventType.member with
    content := .object [("membership", .string "join")]
    stateKey := some gus.text
    prevEvents := [shedCreate.id]
    authEvents := [shedCreate.id] }

def shedTopic : Event :=
  { Event.blank ⟨"$tools", by decide⟩ shed gus "m.room.topic" with
    stateKey := some ""
    authEvents := [shedCreate.id, gusJoined.id] }

/-- The topic again, as if it came from a user who is not in the room. -/
def shedForged : Event := { shedTopic with sender := hal, authEvents := [shedCreate.id] }

def shedState : StateMap :=
  .insert (.insert .empty .create shedCreate.id) (.member gus.text) gusJoined.id

def shedFixture : Fixture where
  room := shed
  events := [shedCreate, gusJoined, shedTopic]
  stateMaps := [shedState]

/-- Given once, the topic is the same to a search, in the store and where it is loaded. -/
theorem lookups_agree_shedTopic :
    (shedFixture.events.map Event.id).Nodup ∧
      (shedFixture.event shedTopic.id = .ok shedTopic ↔
        (shedFixture.store.getEvent shedTopic.id).outcome = .ok shedTopic) ∧
      (shedFixture.store.load [shedTopic.id] 2 3).outcome =
        .ok (.ofEvents [shedTopic, gusJoined, shedCreate]) ∧
      (shedFixture.store.getEvent shedTopic.id).outcome = .ok shedTopic := by
  have hnodup : (shedFixture.events.map Event.id).Nodup := by decide
  have hload : (shedFixture.store.load [shedTopic.id] 2 3).outcome =
      .ok (.ofEvents [shedTopic, gusJoined, shedCreate]) := by rfl
  obtain ⟨-, -, hagree, hloaded⟩ := shedFixture.lookups_agree_iff shedTopic.id
  exact ⟨hnodup, hagree hnodup shedTopic, hload, hloaded _ _ _ _ hload shedTopic rfl⟩

/-- The topic is given again as the forged one.  Then the check accepts what the search finds, while
a resolution loads what the check would reject. -/
theorem two_versions_of_shedTopic :
    let f : Fixture := { shedFixture with events := shedFixture.events ++ [shedForged] }
    f.event shedTopic.id = .ok shedTopic ∧
      (f.store.getEvent shedTopic.id).outcome = .ok shedForged ∧
      shedTopic.sender ≠ shedForged.sender ∧
      (checkAgainstState f.store shedTopic shedState).outcome = .ok (.ok ()) ∧
      (checkAgainstState f.store shedForged shedState).outcome =
        .ok (.error (.senderNotJoined hal.text)) :=
  ⟨rfl, rfl, by decide, by decide +kernel, by decide +kernel⟩

end StateResolution
