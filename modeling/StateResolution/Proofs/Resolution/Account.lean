import StateResolution.Proofs.Resolution.Conflicts
import StateResolution.Proofs.Resolution.Mainline
import StateResolution.Proofs.Resolution.PowerOrder
import StateResolution.Proofs.Resolution.Replay
import StateResolution.Resolution.Basic

/-!
# What a resolution contains

An account of a resolution is what was disputed, the order in which the disputed events
were judged, and what was said of each.  `Account.Explains` says how the resolution
follows from it, and that no disputed event is lost, judged twice or made up.

`exists_account` gives every resolution its account, also one in which nothing was
disputed, and so nothing was judged.
-/

namespace StateResolution

open Fallible (bind_eq_ok pure_eq_ok mem_filterM)

/-- The disputed events of some states, widened by the auth difference; none when the
states agree. -/
def disputedEvents (g : EventGraph) (maps : List StateMap) : Except Error (SortedSet EventId) :=
  if (Conflicts.separate maps).isConflicted then
    fullConflictedSet g (Conflicts.separate maps) maps
  else .ok .empty

/-- The course of a resolution. -/
structure Account where
  version : RoomVersion
  disputed : SortedSet EventId
  /-- The power events and what they rest on, as they were sorted. -/
  power : List EventId
  /-- The other disputed events, as they were sorted. -/
  others : List EventId
  judgments : List Judgment

namespace Account

/-- The order in which the disputed events were judged. -/
def order (a : Account) : List EventId := a.power ++ a.others

/-- What the replays had come to after some judgments; they start from what the states
agree on. -/
def reached (maps : List StateMap) (js : List Judgment) : Replay :=
  Replay.after ⟨(Conflicts.separate maps).agreed, .empty⟩ js

/-- An account is that of a resolution. -/
structure Explains (a : Account) (room : RoomId) (maps : List StateMap) (g : EventGraph)
    (config : Configuration) (r : Resolution) : Prop where
  version : roomVersionOf room maps g config.defaultRoomVersion = .ok a.version
  disputed : disputedEvents g maps = .ok a.disputed
  /-- The power events of the dispute come first, and their sort may bring others in. -/
  power : (Conflicts.separate maps).isConflicted = true →
    (powerEventsOf g a.disputed >>= (powerSort g a.version · a.disputed)) = .ok a.power
  /-- The others are sorted along the power levels that the first replay has left. -/
  others : (Conflicts.separate maps).isConflicted = true →
    mainlineSort g (a.disputed.toList.filter fun id => !a.power.contains id)
      ((reached maps (a.judgments.take a.power.length)).state.get? .powerLevels)
      config.maxAuthDepth = .ok a.others
  /-- Every disputed event is judged once, and no other. -/
  once : a.order.Nodup
  all : ∀ id, id ∈ a.order ↔ id ∈ a.disputed
  judged : Judgment.ids a.judgments = a.order
  verdict : ∀ before j rest, a.judgments = before ++ j :: rest →
    g.get? j.event.id = some j.event ∧
      evaluate g a.version j.event (reached maps before).state (reached maps before).rejected =
        .ok j.verdict
  ascending : r.rejected.keys.Pairwise fun id id' => compare id id' = .lt
  rejected : ∀ id reason, (id, reason) ∈ r.rejected.toList ↔
    ∃ j ∈ a.judgments, j.event.id = id ∧ j.verdict = .error reason
  /-- What the states agree on stands; under any other key, the last event that was
  accepted there. -/
  state : ∀ k, r.state.get? k =
    ((Conflicts.separate maps).agreed.get? k).or (Judgment.lastAt? a.judgments k)

end Account

variable {room : RoomId} {maps : List StateMap} {g : EventGraph} {config : Configuration}
  {r : Resolution} {version : RoomVersion}

theorem explains_agreed
    (hversion : roomVersionOf room maps g config.defaultRoomVersion = .ok version)
    (h : (Conflicts.separate maps).isConflicted = false) :
    Account.Explains ⟨version, .empty, [], [], []⟩ room maps g config
      ⟨(Conflicts.separate maps).agreed, .empty⟩ where
  version := hversion
  disputed := by rw [disputedEvents, if_neg (by simp [h])]
  power hconflicted := absurd hconflicted (by simp [h])
  others hconflicted := absurd hconflicted (by simp [h])
  once := .nil
  all id := by simp [Account.order]
  judged := rfl
  verdict before j rest hsplit := by cases before <;> cases hsplit
  ascending := .nil
  rejected id reason := by simp [SortedMap.empty]
  state k := by simp [Judgment.lastAt?]

/-- The power sort and the sort of the others share out the disputed events. -/
theorem nodup_order {full : SortedSet EventId} {power others : List EventId}
    (hpower : power.Nodup ∧ ∀ id ∈ power, id ∈ full)
    (hothers : others.Perm (full.toList.filter fun id => !power.contains id)) :
    (power ++ others).Nodup ∧ ∀ id, id ∈ power ++ others ↔ id ∈ full := by
  have hmem : ∀ id, id ∈ others ↔ id ∈ full ∧ id ∉ power := fun id => by
    rw [hothers.mem_iff, List.mem_filter, SortedSet.mem_def]
    simp
  refine ⟨List.nodup_append.2 ⟨hpower.1, ?_, ?_⟩, fun id => ?_⟩
  · exact hothers.nodup_iff.2 (full.nodup_toList.filter _)
  · rintro id hid _ hid' rfl
    exact ((hmem id).1 hid').2 hid
  · rw [List.mem_append, hmem]
    constructor
    · rintro (hid | hid)
      · exact hpower.2 id hid
      · exact hid.1
    · intro hid
      by_cases hp : id ∈ power
      · exact .inl hp
      · exact .inr ⟨hid, hp⟩

theorem exists_account_of_resolveConflicts
    (hversion : roomVersionOf room maps g config.defaultRoomVersion = .ok version)
    (hconflicted : (Conflicts.separate maps).isConflicted = true)
    (h : resolveConflicts version maps g config.maxAuthDepth (Conflicts.separate maps) = .ok r) :
    ∃ a : Account, a.Explains room maps g config r := by
  obtain ⟨full, hfull, h⟩ := bind_eq_ok.1 h
  obtain ⟨powerEvents, hevents, h⟩ := bind_eq_ok.1 h
  obtain ⟨power, hpower, h⟩ := bind_eq_ok.1 h
  obtain ⟨first, hfirst, h⟩ := bind_eq_ok.1 h
  obtain ⟨others, hothers, h⟩ := bind_eq_ok.1 h
  obtain ⟨second, hsecond, h⟩ := bind_eq_ok.1 h
  cases pure_eq_ok.1 h
  obtain ⟨js, hjs, hjudged, rfl⟩ := Replay.judged_of_runAll hfirst
  obtain ⟨more, hmore, hlater, rfl⟩ := Replay.judged_of_runAll hsecond
  have hids : Judgment.ids (js ++ more) = power ++ others := by
    rw [← hjs, ← hmore, Judgment.ids, List.map_append]
    rfl
  have hshared := nodup_order
    (powerSort_spec (fun id hid => ((mem_filterM hevents id).1 hid).1) hpower)
    (perm_of_mainlineSort hothers)
  have htaken : (js ++ more).take power.length = js := by
    rw [← hjs, Judgment.ids, List.length_map, List.take_left]
  refine ⟨⟨version, full, power, others, js ++ more⟩, ?_⟩
  constructor
  case version => exact hversion
  case disputed => rw [disputedEvents, if_pos hconflicted, hfull]
  case power => exact fun _ => bind_eq_ok.2 ⟨powerEvents, hevents, hpower⟩
  case others =>
    intro _
    rw [htaken]
    exact hothers
  case once => exact hshared.1
  case all => exact hshared.2
  case judged => exact hids
  case verdict => exact hjudged.append hlater
  case ascending => exact List.pairwise_map.2 (SortedMap.ascending _)
  case rejected =>
    intro id reason
    rw [SortedMap.mem_toList_iff, ← Replay.after_append]
    exact Replay.get?_rejected_after (hids ▸ hshared.1) id reason
  case state =>
    intro k
    rw [SortedMap.get?_overlay, ← Replay.after_append, Replay.get?_state_after]
    cases (Conflicts.separate maps).agreed.get? k <;> simp

/-- Every resolution has an account, in which each disputed event is judged once, and
from which its state and its rejections follow. -/
theorem exists_account (room : RoomId) (maps : List StateMap) (g : EventGraph)
    (config : Configuration) (r : Resolution) (h : resolve room maps g config = .ok r) :
    ∃ a : Account, a.Explains room maps g config r := by
  obtain ⟨_, -, h⟩ := bind_eq_ok.1 h
  obtain ⟨version, hversion, h⟩ := bind_eq_ok.1 h
  dsimp only at h
  split at h
  · next hconflicted => exact exists_account_of_resolveConflicts hversion hconflicted h
  · next hagreed =>
    cases pure_eq_ok.1 h
    exact ⟨_, explains_agreed hversion (by simpa using hagreed)⟩

def forgeDisputed : SortedSet EventId :=
  .ofList [coldTopic.id, forgeLevels.id, forgeRules.id, hotTopic.id, ivoAgain.id, janName.id]

/-- Where the forge gets to: the levels of one state, the rules of the other, and the later of the
two topics. -/
def forgeResolved : StateMap :=
  (coldState.insert .powerLevels forgeLevels.id).insert ⟨"m.room.topic", ""⟩ hotTopic.id

/-- Two power events, told apart by their ids alone, and four others are sorted, and all but the name
are accepted.  One topic takes the place of the other; the second join stands nowhere, since the
states agree on the first. -/
theorem exists_account_forge :
    ∃ (r : Resolution) (a : Account),
      resolve forge [coldState, hotState] (.ofEvents forgeEvents) {} = .ok r ∧
        a.Explains forge [coldState, hotState] (.ofEvents forgeEvents) {} r ∧
        a.power = [forgeLevels.id, forgeRules.id] ∧
        a.others.Perm [coldTopic.id, hotTopic.id, ivoAgain.id, janName.id] ∧
        (∀ j ∈ a.judgments, j.verdict = .ok () ∨ j.event.id = janName.id) ∧
        r.rejected.toList = [(janName.id, .senderNotJoined jan.text)] ∧
        r.state = forgeResolved := by
  have hrun : (resolve forge [coldState, hotState] (.ofEvents forgeEvents) {}).toOption.any (fun r =>
      decide (r.rejected.toList = [(janName.id, .senderNotJoined jan.text)] ∧
        r.state = forgeResolved)) = true := by
    decide +kernel
  have hconflicted : (Conflicts.separate [coldState, hotState]).isConflicted = true := by
    decide +kernel
  obtain ⟨r, hr, hresult⟩ := Fallible.exists_of_any hrun
  obtain ⟨hrejected, hstate⟩ := of_decide_eq_true hresult
  obtain ⟨a, ha⟩ := exists_account _ _ _ _ r hr
  have hdisputed : a.disputed = forgeDisputed := by
    have hevents : disputedEvents (.ofEvents forgeEvents) [coldState, hotState] =
        .ok forgeDisputed := by decide +kernel
    exact Except.ok.inj (ha.disputed.symm.trans hevents)
  have hversion : a.version = .v10 := by
    have hnamed : roomVersionOf forge [coldState, hotState] (.ofEvents forgeEvents) "10" =
        .ok .v10 := by decide +kernel
    exact Except.ok.inj (ha.version.symm.trans hnamed)
  have hpower : a.power = [forgeLevels.id, forgeRules.id] := by
    have hsorted : (powerEventsOf (.ofEvents forgeEvents) forgeDisputed >>=
        (powerSort (.ofEvents forgeEvents) .v10 · forgeDisputed)) =
          .ok [forgeLevels.id, forgeRules.id] := by decide +kernel
    have hown := ha.power hconflicted
    rw [hversion, hdisputed] at hown
    exact Except.ok.inj (hown.symm.trans hsorted)
  refine ⟨r, a, hr, ha, hpower, ?_, fun j hj => ?_, hrejected, hstate⟩
  · have horder : a.order.Perm a.disputed.toList :=
      (List.perm_ext_iff_of_nodup ha.once a.disputed.nodup_toList).2 ha.all
    have hlisted : forgeDisputed.toList.Perm ([forgeLevels.id, forgeRules.id] ++
        [coldTopic.id, hotTopic.id, ivoAgain.id, janName.id]) := by decide +kernel
    rw [Account.order, hpower, hdisputed] at horder
    exact (List.perm_append_left_iff _).1 (horder.trans hlisted)
  · cases hverdict : j.verdict with
    | ok => exact .inl rfl
    | error reason =>
      have hmem := (ha.rejected j.event.id reason).2 ⟨j, hj, rfl, hverdict⟩
      rw [hrejected, List.mem_singleton] at hmem
      exact .inr (congrArg Prod.fst hmem)

end StateResolution
