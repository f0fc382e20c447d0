import Mathlib.Data.List.Nodup
import StateResolution.Proofs.Resolution.Account

/-!
# Rejected events that stay in the state

A replay puts only accepted events into the state, and it judges each disputed event once.
So a rejected event can be in the resolved state only because the states agree on it
somewhere.  Such an event is in the full chain of every state, hence not in the auth
difference, and it is judged at all only when some state has it under a disputed key as
well.
-/

namespace StateResolution

open Fallible (bind_eq_ok pure_eq_ok)

variable {room : RoomId} {maps : List StateMap} {g : EventGraph} {config : Configuration}
  {r : Resolution} {k : StateKey} {id : EventId}

/-- A resolution in which something was rejected has had a dispute, and an account of it. -/
theorem exists_account_of_isRejected (h : resolve room maps g config = .ok r)
    (hid : r.isRejected id = true) :
    (Conflicts.separate maps).isConflicted = true ∧
      ∃ a : Account, a.Explains room maps g config r := by
  obtain ⟨_, -, h⟩ := bind_eq_ok.1 h
  obtain ⟨version, hversion, h⟩ := bind_eq_ok.1 h
  dsimp only at h
  split at h
  · next hconflicted =>
    exact ⟨hconflicted, exists_account_of_resolveConflicts hversion hconflicted h⟩
  · cases pure_eq_ok.1 h
    cases hid

theorem Judgment.exists_of_lastAt? {js : List Judgment} (h : lastAt? js k = some id) :
    ∃ j ∈ js, j.event.id = id ∧ j.verdict = .ok () ∧ j.event.place? = some k := by
  obtain ⟨j, hfind, hj⟩ := Option.map_eq_some_iff.1 h
  have hholds := List.find?_some hfind
  rw [holds, Bool.and_eq_true, Event.holds_iff] at hholds
  obtain ⟨haccepted, hplace⟩ := hholds
  have hverdict : j.verdict = .ok () := by
    cases hv : j.verdict with
    | ok u => rfl
    | error reason =>
      rw [hv] at haccepted
      cases haccepted
  exact ⟨j, List.mem_reverse.1 (List.mem_of_find?_eq_some hfind), hj, hverdict, hplace⟩

/-- No event was accepted at one place of an account and rejected at another. -/
theorem Account.Explains.not_rejected_of_lastAt? {a : Account}
    (ha : a.Explains room maps g config r) (hlast : Judgment.lastAt? a.judgments k = some id) :
    r.isRejected id = false := by
  rw [Bool.eq_false_iff]
  intro hid
  obtain ⟨reason, hreason⟩ := SortedMap.contains_iff.1 hid
  obtain ⟨i, hi, hiid, hrejected⟩ := (ha.rejected id reason).1 (SortedMap.mem_toList_iff.2 hreason)
  obtain ⟨j, hj, hjid, haccepted, -⟩ := Judgment.exists_of_lastAt? hlast
  have honce : (a.judgments.map (·.event.id)).Nodup := by
    have hids : a.judgments.map (·.event.id) = a.order := ha.judged
    rw [hids]
    exact ha.once
  have hij : i = j := List.inj_on_of_nodup_map honce hi hj (hiid.trans hjid.symm)
  rw [← hij, hrejected] at haccepted
  cases haccepted

/-- A rejected event was disputed. -/
theorem Account.Explains.mem_disputed_of_isRejected {a : Account}
    (ha : a.Explains room maps g config r) (hid : r.isRejected id = true) :
    id ∈ a.disputed := by
  obtain ⟨reason, hreason⟩ := SortedMap.contains_iff.1 hid
  obtain ⟨j, hj, rfl, -⟩ := (ha.rejected id reason).1 (SortedMap.mem_toList_iff.2 hreason)
  rw [← ha.all, ← ha.judged]
  exact List.mem_map_of_mem hj

/-- Where a rejected event stands in the resolved state, the states agree on it. -/
theorem agreed_of_isRejected (h : resolve room maps g config = .ok r)
    (hstate : r.state.get? k = some id) (hid : r.isRejected id = true) :
    (Conflicts.separate maps).agreed.get? k = some id := by
  obtain ⟨-, a, ha⟩ := exists_account_of_isRejected h hid
  rw [ha.state, Option.or_eq_some_iff] at hstate
  rcases hstate with hagreed | ⟨-, hlast⟩
  · exact hagreed
  · rw [ha.not_rejected_of_lastAt? hlast] at hid
    cases hid

/-- A rejected event that the states agree on is had by one of them under a disputed key. -/
theorem exists_disputed_of_isRejected (h : resolve room maps g config = .ok r)
    (hagreed : (Conflicts.separate maps).agreed.get? k = some id)
    (hid : r.isRejected id = true) :
    ∃ k', (Conflicts.separate maps).disputed.contains k' = true ∧
      ∃ m ∈ maps, m.get? k' = some id := by
  obtain ⟨hconflicted, a, ha⟩ := exists_account_of_isRejected h hid
  have hfull := ha.disputed
  rw [disputedEvents, if_pos hconflicted] at hfull
  exact Conflicts.mem_candidates_separate.1
    (mem_candidates_of_agreed hagreed hfull (ha.mem_disputed_of_isRejected hid))

/-- A rejected event stands in the resolved state only where all states agree on it, and
only if one of them has it under another key too, a disputed one.  So where no state has an
event under two keys, nothing in the resolved state is rejected. -/
theorem no_rejected_survivors (room : RoomId) (maps : List StateMap) (g : EventGraph)
    (config : Configuration) (r : Resolution) (h : resolve room maps g config = .ok r) :
    (∀ k id, r.state.get? k = some id → r.isRejected id = true →
      (Conflicts.separate maps).agreed.get? k = some id ∧
        ∃ k' ≠ k, (Conflicts.separate maps).disputed.contains k' = true ∧
          ∃ m ∈ maps, m.get? k' = some id) ∧
    ((∀ m ∈ maps, ∀ m' ∈ maps, ∀ k k' id,
        m.get? k = some id → m'.get? k' = some id → k = k') →
      ∀ k id, r.state.get? k = some id → r.isRejected id = false) := by
  have hsurvivor : ∀ k id, r.state.get? k = some id → r.isRejected id = true →
      (Conflicts.separate maps).agreed.get? k = some id ∧
        ∃ k' ≠ k, (Conflicts.separate maps).disputed.contains k' = true ∧
          ∃ m ∈ maps, m.get? k' = some id := by
    intro k id hstate hid
    have hagreed := agreed_of_isRejected h hstate hid
    obtain ⟨k', hdisputed, hheld⟩ := exists_disputed_of_isRejected h hagreed hid
    refine ⟨hagreed, k', ?_, hdisputed, hheld⟩
    rintro rfl
    rw [(Conflicts.separates_separate maps).not_disputed_of_agreed hagreed] at hdisputed
    cases hdisputed
  refine ⟨hsurvivor, fun hkeys k id hstate => ?_⟩
  rw [Bool.eq_false_iff]
  intro hid
  obtain ⟨hagreed, k', hne, -, m, hm, hk'⟩ := hsurvivor k id hstate hid
  obtain ⟨-, hall⟩ := Conflicts.get?_agreed_separate.1 hagreed
  exact hne (hkeys m hm m hm k' k id hk' (hall m hm))

def strayTopic : Event :=
  { Event.blank ⟨"$topic", by decide⟩ soleCreate.room ⟨"@bob:hall", by decide⟩ "m.room.topic" with
    stateKey := some ""
    authEvents := [soleCreate.id] }

/-- The topic of a user who is not in the room, under its own key and under one that only
the first state sets. -/
def strayStates : List StateMap :=
  let agreed : StateMap := createdState.insert ⟨"m.room.topic", ""⟩ strayTopic.id
  [agreed.insert ⟨"m.room.name", ""⟩ strayTopic.id, agreed]

theorem no_rejected_survivors_strayTopic :
    ∃ r : Resolution,
      resolve soleCreate.room strayStates (.ofEvents [soleCreate, strayTopic]) {} = .ok r ∧
        r.state.get? ⟨"m.room.topic", ""⟩ = some strayTopic.id ∧
        r.isRejected strayTopic.id = true ∧
        ∃ k' ≠ ⟨"m.room.topic", ""⟩, (Conflicts.separate strayStates).disputed.contains k' = true ∧
          ∃ m ∈ strayStates, m.get? k' = some strayTopic.id := by
  have hrun : (resolve soleCreate.room strayStates
      (.ofEvents [soleCreate, strayTopic]) {}).toOption.any (fun r =>
        decide (r.state.get? ⟨"m.room.topic", ""⟩ = some strayTopic.id) &&
          r.isRejected strayTopic.id) = true := by
    decide +kernel
  obtain ⟨r, hr, hboth⟩ := Fallible.exists_of_any hrun
  obtain ⟨hstate, hid⟩ := Bool.and_eq_true_iff.1 hboth
  have hstate := of_decide_eq_true hstate
  obtain ⟨-, hheld⟩ := (no_rejected_survivors _ _ _ _ r hr).1 _ _ hstate hid
  exact ⟨r, hr, hstate, hid, hheld⟩

end StateResolution
