import StateResolution.Proofs.Graph.Reach
import StateResolution.Resolution.Conflicts

/-!
# Conflicts as sets

What some states agree on, what they dispute and what their auth difference is, each said
without the order in which the states are listed.  So none of it depends on that order,
nor on how often a state is listed.

A chain of events can fail to be found, and then the order would show in the error.  It
cannot fail in a closed part of the graph.
-/

namespace StateResolution

open Fallible (bind_eq_ok pure_eq_ok mem_mapM exists_mapM exists_of_mapM forM_eq_ok)

variable {maps maps' : List StateMap} {k : StateKey} {id : EventId}

namespace Conflicts

/-- States agree on an event when there are some and all of them have it. -/
theorem agreedAt?_eq_some_iff :
    agreedAt? maps k = some id ↔ maps ≠ [] ∧ ∀ m ∈ maps, m.get? k = some id := by
  cases maps with
  | nil => simp [agreedAt?]
  | cons m rest =>
    simp only [agreedAt?, Option.ite_none_right_eq_some, List.all_eq_true, beq_iff_eq, ne_eq,
      reduceCtorEq, not_false_eq_true, true_and, List.forall_mem_cons]
    constructor
    · rintro ⟨hrest, hm⟩
      exact ⟨hm, fun n hn => (hrest n hn).trans hm⟩
    · rintro ⟨hm, hrest⟩
      exact ⟨fun n hn => (hrest n hn).trans hm.symm, hm⟩

/-- States dispute a place when two of them differ there. -/
theorem isDisputedAt_iff :
    isDisputedAt maps k = true ↔ ∃ m ∈ maps, ∃ n ∈ maps, n.get? k ≠ m.get? k := by
  cases maps with
  | nil => simp [isDisputedAt]
  | cons m rest =>
    simp only [isDisputedAt, List.any_eq_true, bne_iff_ne]
    constructor
    · rintro ⟨n, hn, hne⟩
      exact ⟨m, List.mem_cons_self, n, List.mem_cons_of_mem _ hn, hne⟩
    · rintro ⟨a, ha, b, hb, hne⟩
      -- Of two that differ, one differs from the first.
      by_contra hnone
      have hsame : ∀ n ∈ m :: rest, n.get? k = m.get? k := fun n hn => by
        rcases List.mem_cons.1 hn with rfl | hn
        · rfl
        · exact by_contra fun h => hnone ⟨n, hn, h⟩
      exact hne ((hsame b hb).trans (hsame a ha).symm)

theorem mem_candidatesAt : id ∈ candidatesAt maps k ↔ ∃ m ∈ maps, m.get? k = some id := by
  rw [candidatesAt, SortedSet.mem_ofList, List.mem_filterMap]

theorem mem_places : k ∈ places maps ↔ ∃ m ∈ maps, ∃ id, m.get? k = some id := by
  simp only [places, SortedSet.mem_ofList, List.mem_flatMap, SortedMap.mem_keys_iff]

theorem get?_agreed_separate :
    (separate maps).agreed.get? k = some id ↔ maps ≠ [] ∧ ∀ m ∈ maps, m.get? k = some id := by
  rw [separate, SortedMap.get?_tabulate, Option.ite_none_right_eq_some, agreedAt?_eq_some_iff,
    and_iff_right_iff_imp]
  rintro ⟨hmaps, hagree⟩
  obtain ⟨m, hm⟩ := List.exists_mem_of_ne_nil maps hmaps
  exact mem_places.2 ⟨m, hm, id, hagree m hm⟩

theorem get?_disputed_separate {ids : SortedSet EventId} :
    (separate maps).disputed.get? k = some ids ↔
      k ∈ places maps ∧ isDisputedAt maps k = true ∧ candidatesAt maps k = ids := by
  rw [separate, SortedMap.get?_tabulate, Option.ite_none_right_eq_some,
    Option.ite_none_right_eq_some, Option.some.injEq]

/-- The disputed events are those that a state has at a disputed place. -/
theorem mem_candidates_separate :
    id ∈ (separate maps).candidates ↔
      ∃ k, (separate maps).disputed.contains k = true ∧ ∃ m ∈ maps, m.get? k = some id := by
  simp only [candidates, List.mem_flatMap, SortedMap.mem_values_iff, SortedMap.contains_iff,
    get?_disputed_separate, ← SortedSet.mem_def]
  constructor
  · rintro ⟨ids, ⟨k, hplace, hdisputed, rfl⟩, hid⟩
    exact ⟨k, ⟨_, hplace, hdisputed, rfl⟩, mem_candidatesAt.1 hid⟩
  · rintro ⟨k, ⟨ids, hplace, hdisputed, rfl⟩, hid⟩
    exact ⟨_, ⟨k, hplace, hdisputed, rfl⟩, mem_candidatesAt.2 hid⟩

/-! ### Place by place -/

/-- What some states agree on and what they dispute, place by place.  That a state has nothing
at a place counts when they are compared there. -/
structure Separates (maps : List StateMap) (c : Conflicts) : Prop where
  agreed (k : StateKey) (id : EventId) :
    c.agreed.get? k = some id ↔ maps ≠ [] ∧ ∀ m ∈ maps, m.get? k = some id
  disputed (k : StateKey) :
    c.disputed.contains k = true ↔ ∃ m ∈ maps, ∃ n ∈ maps, n.get? k ≠ m.get? k
  candidates (k : StateKey) (ids : SortedSet EventId) :
    c.disputed.get? k = some ids → ∀ id, id ∈ ids ↔ ∃ m ∈ maps, m.get? k = some id

/-- Where two states differ, one of them has an event. -/
theorem exists_get?_of_ne (h : ∃ m ∈ maps, ∃ n ∈ maps, n.get? k ≠ m.get? k) :
    ∃ m ∈ maps, ∃ id, m.get? k = some id := by
  obtain ⟨m, hm, n, hn, hne⟩ := h
  cases hid : m.get? k with
  | some id => exact ⟨m, hm, id, hid⟩
  | none =>
    rw [hid] at hne
    exact ⟨n, hn, Option.ne_none_iff_exists'.1 hne⟩

theorem separates_separate (maps : List StateMap) : Separates maps (separate maps) where
  agreed k id := get?_agreed_separate
  disputed k := by
    simp only [SortedMap.contains_iff, get?_disputed_separate, isDisputedAt_iff, mem_places]
    constructor
    · intro h
      obtain ⟨_, -, hdiffer, -⟩ := h
      exact hdiffer
    · intro hdiffer
      exact ⟨_, exists_get?_of_ne hdiffer, hdiffer, rfl⟩
  candidates k ids h id := by
    obtain ⟨-, -, rfl⟩ := get?_disputed_separate.1 h
    exact mem_candidatesAt

section Separates

variable {c c' : Conflicts} (h : Separates maps c)
include h

theorem Separates.exists_candidate {ids : SortedSet EventId} (hids : c.disputed.get? k = some ids) :
    ∃ id, id ∈ ids := by
  have hdiffer := (h.disputed k).1 (SortedMap.contains_iff.2 ⟨ids, hids⟩)
  obtain ⟨m, hm, id, hid⟩ := exists_get?_of_ne hdiffer
  exact ⟨id, (h.candidates k ids hids id).2 ⟨m, hm, hid⟩⟩

/-- What the states agree on at a place, they do not dispute there. -/
theorem Separates.not_disputed_of_agreed (hagreed : c.agreed.get? k = some id) :
    c.disputed.contains k = false := by
  obtain ⟨-, hall⟩ := (h.agreed k id).1 hagreed
  rw [Bool.eq_false_iff, ne_eq, h.disputed]
  intro hdiffer
  obtain ⟨m, hm, n, hn, hne⟩ := hdiffer
  exact hne ((hall n hn).trans (hall m hm).symm)

/-- A place that one of the states sets is agreed on or disputed, and no other place is. -/
theorem Separates.contains_iff :
    (∃ m ∈ maps, m.contains k = true) ↔
      c.agreed.contains k = true ∨ c.disputed.contains k = true := by
  rw [h.disputed, SortedMap.contains_iff]
  simp only [SortedMap.contains_iff, h.agreed]
  constructor
  · intro hset
    obtain ⟨m, hm, id, hid⟩ := hset
    by_cases hdiffer : ∃ m ∈ maps, ∃ n ∈ maps, n.get? k ≠ m.get? k
    · exact .inr hdiffer
    · refine .inl ⟨id, List.ne_nil_of_mem hm, fun n hn => ?_⟩
      by_contra hne
      exact hdiffer ⟨m, hm, n, hn, fun heq => hne (heq.trans hid)⟩
  · intro hplace
    rcases hplace with ⟨id, hne, hall⟩ | hdiffer
    · obtain ⟨m, hm⟩ := List.exists_mem_of_ne_nil maps hne
      exact ⟨m, hm, id, hall m hm⟩
    · exact exists_get?_of_ne hdiffer

theorem Separates.of_mem_iff (hsame : ∀ m, m ∈ maps ↔ m ∈ maps') : Separates maps' c := by
  have hnil : maps ≠ [] ↔ maps' ≠ [] := by
    simp only [ne_eq, List.eq_nil_iff_forall_not_mem, hsame]
  constructor
  · intro k id
    simp only [h.agreed, hnil, hsame]
  · intro k
    simp only [h.disputed, hsame]
  · intro k ids hids id
    simp only [h.candidates k ids hids, hsame]

theorem Separates.get?_disputed (h' : Separates maps c') {ids : SortedSet EventId}
    (hids : c.disputed.get? k = some ids) : c'.disputed.get? k = some ids := by
  have hdiffer := (h.disputed k).1 (SortedMap.contains_iff.2 ⟨ids, hids⟩)
  obtain ⟨ids', hids'⟩ := SortedMap.contains_iff.1 ((h'.disputed k).2 hdiffer)
  have hsame : ids' = ids := SortedSet.ext fun id => by
    rw [h'.candidates k ids' hids', h.candidates k ids hids]
  rw [hids', hsame]

/-- There is one way to tell agreement from dispute. -/
theorem Separates.unique (h' : Separates maps c') : c = c' := by
  have hagreed : c.agreed = c'.agreed := SortedMap.ext fun k => Option.ext fun id => by
    rw [h.agreed, h'.agreed]
  have hdisputed : c.disputed = c'.disputed := SortedMap.ext fun k => Option.ext fun ids =>
    ⟨h.get?_disputed h', h'.get?_disputed h⟩
  cases c
  cases c'
  cases hagreed
  cases hdisputed
  rfl

end Separates

theorem separate_congr (h : ∀ m, m ∈ maps ↔ m ∈ maps') : separate maps = separate maps' :=
  ((separates_separate maps).of_mem_iff h).unique (separates_separate maps')

/-- States are told apart place by place: what all of them have is agreed on, where two differ
everything that one of them has is a candidate, and each place that is set is one or the other.
How the states are listed does not matter. -/
theorem separate_by_place (maps : List StateMap) :
    Separates maps (separate maps) ∧
    (∀ k ids, (separate maps).disputed.get? k = some ids → ∃ id, id ∈ ids) ∧
    (∀ k, (∃ m ∈ maps, m.contains k = true) ↔
      (separate maps).agreed.contains k = true ∨ (separate maps).disputed.contains k = true) ∧
    (∀ k, ¬ ((separate maps).agreed.contains k = true ∧
      (separate maps).disputed.contains k = true)) ∧
    ∀ maps', (∀ m, m ∈ maps' ↔ m ∈ maps) → separate maps' = separate maps := by
  have h := separates_separate maps
  refine ⟨h, fun k ids => h.exists_candidate, fun k => h.contains_iff, fun k hboth => ?_,
    fun maps' => separate_congr⟩
  obtain ⟨id, hagreed⟩ := SortedMap.contains_iff.1 hboth.1
  exact Bool.false_ne_true ((h.not_disputed_of_agreed hagreed).symm.trans hboth.2)

def quayCreate : EventId := ⟨"$quay", by decide⟩

def quayState : StateMap := .insert .empty .create quayCreate

def quayNamed : StateMap := quayState.insert ⟨"m.room.name", ""⟩ ⟨"$quayname", by decide⟩

/-- A name that one state lacks is disputed, in whatever order the states are listed. -/
theorem separate_by_place_quayNamed :
    (separate [quayState, quayNamed, quayState]).agreed.get? .create = some quayCreate ∧
      (separate [quayState, quayNamed, quayState]).disputed.contains ⟨"m.room.name", ""⟩ = true ∧
      separate [quayNamed, quayState] = separate [quayState, quayNamed, quayState] := by
  obtain ⟨h, -, -, -, hlisted⟩ := separate_by_place [quayState, quayNamed, quayState]
  refine ⟨(h.agreed _ _).2 ⟨by simp, by decide +kernel⟩, (h.disputed _).2 ?_, hlisted _ ?_⟩
  · exact ⟨quayState, by simp, quayNamed, by simp, by decide +kernel⟩
  · intro m
    simp only [List.mem_cons, List.not_mem_nil, or_false]
    grind

end Conflicts

/-! ## The auth difference -/

variable {g : EventGraph} {within : EventId → Prop}

theorem mem_foldl_union (chains : List (SortedSet EventId)) (start : SortedSet EventId) :
    id ∈ chains.foldl SortedSet.union start ↔ id ∈ start ∨ ∃ c ∈ chains, id ∈ c := by
  induction chains generalizing start with
  | nil => simp
  | cons c chains ih =>
    rw [List.foldl_cons, ih, SortedSet.mem_union, List.exists_mem_cons_iff, or_assoc]

/-- An event is in the auth difference when it is in the full chain of one state and not
in that of another. -/
theorem mem_authDifference {difference : SortedSet EventId}
    (h : authDifference g maps = .ok difference) :
    id ∈ difference ↔
      (∃ m ∈ maps, ∃ chain, fullChain g m = .ok chain ∧ id ∈ chain) ∧
        ∃ m ∈ maps, ∃ chain, fullChain g m = .ok chain ∧ id ∉ chain := by
  obtain ⟨chains, hchains, hdifference⟩ := bind_eq_ok.1 h
  cases pure_eq_ok.1 hdifference
  have hmem : ∀ p : SortedSet EventId → Prop,
      (∃ c ∈ chains, p c) ↔ ∃ m ∈ maps, ∃ c, fullChain g m = .ok c ∧ p c := fun p => by
    simp only [mem_mapM hchains]
    constructor
    · rintro ⟨c, ⟨m, hm, hc⟩, hp⟩
      exact ⟨m, hm, c, hc, hp⟩
    · rintro ⟨m, hm, c, hc, hp⟩
      exact ⟨c, ⟨m, hm, hc⟩, hp⟩
  rw [SortedSet.mem_filter, mem_foldl_union, ← hmem, ← hmem]
  simp only [SortedSet.not_mem_empty, false_or, Bool.not_eq_true', List.all_eq_false,
    SortedSet.contains_iff]

/-- A chain that has been extended has what it had, and the events it was extended by. -/
theorem mem_extendChain {chain full : SortedSet EventId} {ids : List EventId}
    (h : extendChain g chain ids = .ok full) :
    (∀ i ∈ chain, i ∈ full) ∧ ∀ i ∈ ids, i ∈ full := by
  induction ids generalizing chain with
  | nil =>
    cases h
    exact ⟨fun i hi => hi, nofun⟩
  | cons id ids ih =>
    unfold extendChain at h
    split at h
    · next hid =>
      obtain ⟨hold, hnew⟩ := ih h
      exact ⟨hold, List.forall_mem_cons.2 ⟨hold id hid, hnew⟩⟩
    · obtain ⟨ancestors, -, h⟩ := bind_eq_ok.1 h
      obtain ⟨hold, hnew⟩ := ih h
      refine ⟨fun i hi => hold i ?_, List.forall_mem_cons.2 ⟨hold id ?_, hnew⟩⟩
      · exact SortedSet.mem_union.2 (.inl (SortedSet.mem_insert.2 (.inr hi)))
      · exact SortedSet.mem_union.2 (.inl (SortedSet.mem_insert.2 (.inl rfl)))

theorem mem_fullConflictedSet {conflicts : Conflicts} {full : SortedSet EventId}
    (h : fullConflictedSet g conflicts maps = .ok full) :
    id ∈ full ↔
      (∃ difference, authDifference g maps = .ok difference ∧ id ∈ difference) ∨
        id ∈ conflicts.candidates := by
  obtain ⟨difference, hdifference, h⟩ := bind_eq_ok.1 h
  obtain ⟨_, -, h⟩ := bind_eq_ok.1 h
  cases pure_eq_ok.1 h
  simp [hdifference]

/-- An event that all states have at one place is disputed only where one of them has it at
another. -/
theorem mem_candidates_of_agreed {full : SortedSet EventId}
    (hagreed : (Conflicts.separate maps).agreed.get? k = some id)
    (h : fullConflictedSet g (Conflicts.separate maps) maps = .ok full) (hid : id ∈ full) :
    id ∈ (Conflicts.separate maps).candidates := by
  obtain ⟨-, hagree⟩ := Conflicts.get?_agreed_separate.1 hagreed
  refine ((mem_fullConflictedSet h).1 hid).resolve_left ?_
  rintro ⟨difference, hdifference, hid⟩
  obtain ⟨-, m, hm, chain, hchain, hmissing⟩ := (mem_authDifference hdifference).1 hid
  -- The state has the event, so its full chain starts from it.
  have hheld : id ∈ m.eventIds := SortedMap.mem_values_iff.2 ⟨k, hagree m hm⟩
  exact hmissing ((mem_extendChain hchain).2 id hheld)

theorem exists_extendChain (hg : g.Closed within) {ids : List EventId}
    (hids : ∀ id ∈ ids, within id) (chain : SortedSet EventId) :
    ∃ full, extendChain g chain ids = .ok full := by
  induction ids generalizing chain with
  | nil => exact ⟨chain, rfl⟩
  | cons id ids ih =>
    have hrest := fun i hi => hids i (List.mem_cons_of_mem _ hi)
    unfold extendChain
    split
    · exact ih hrest chain
    · obtain ⟨ancestors, hancestors⟩ := hg.exists_authChain (hids id List.mem_cons_self)
      obtain ⟨full, hfull⟩ := ih hrest ((chain.insert id).union ancestors)
      exact ⟨full, bind_eq_ok.2 ⟨ancestors, hancestors, hfull⟩⟩

theorem exists_authDifference (hg : g.Closed within)
    (hmaps : ∀ m ∈ maps, ∀ id ∈ m.eventIds, within id) :
    ∃ difference, authDifference g maps = .ok difference := by
  obtain ⟨chains, hchains⟩ := exists_mapM (f := fullChain g) fun m hm =>
    exists_extendChain hg (hmaps m hm) .empty
  exact ⟨_, bind_eq_ok.2 ⟨chains, hchains, rfl⟩⟩

/-- A chain is not extended beyond a closed part. -/
theorem extendChain_within (hg : g.Closed within) {ids : List EventId}
    (hids : ∀ id ∈ ids, within id) {chain full : SortedSet EventId}
    (hchain : ∀ id ∈ chain, within id) (h : extendChain g chain ids = .ok full) :
    ∀ id ∈ full, within id := by
  induction ids generalizing chain with
  | nil =>
    cases h
    exact hchain
  | cons id ids ih =>
    have hrest := fun i hi => hids i (List.mem_cons_of_mem _ hi)
    unfold extendChain at h
    split at h
    · exact ih hrest hchain h
    · obtain ⟨ancestors, hancestors, h⟩ := bind_eq_ok.1 h
      refine ih hrest (fun i hi => ?_) h
      rcases SortedSet.mem_union.1 hi with hi | hi
      · rcases SortedSet.mem_insert.1 hi with rfl | hi
        · exact hids i List.mem_cons_self
        · exact hchain i hi
      · exact hg.mem_authChain (hids id List.mem_cons_self) hancestors i hi

/-- The states of a closed part have a full conflicted set, which lies there too. -/
theorem exists_fullConflictedSet (hg : g.Closed within)
    (hmaps : ∀ m ∈ maps, ∀ id ∈ m.eventIds, within id) :
    ∃ full, fullConflictedSet g (Conflicts.separate maps) maps = .ok full ∧
      ∀ id ∈ full, within id := by
  obtain ⟨difference, hdifference⟩ := exists_authDifference hg hmaps
  have hwithin : ∀ id ∈ difference.insertAll (Conflicts.separate maps).candidates, within id := by
    intro id hid
    rcases SortedSet.mem_insertAll.1 hid with hid | hid
    · obtain ⟨⟨m, hm, chain, hchain, hmem⟩, -⟩ := (mem_authDifference hdifference).1 hid
      exact extendChain_within hg (hmaps m hm) (by simp) hchain id hmem
    · obtain ⟨k, -, m, hm, hk⟩ := Conflicts.mem_candidates_separate.1 hid
      exact hmaps m hm id (SortedMap.mem_values_iff.2 ⟨k, hk⟩)
  refine ⟨_, bind_eq_ok.2 ⟨difference, hdifference, bind_eq_ok.2 ⟨(), ?_, rfl⟩⟩, hwithin⟩
  refine forM_eq_ok.2 fun id hid => ?_
  obtain ⟨e, he⟩ := hg.present id (hwithin id hid)
  exact bind_eq_ok.2 ⟨e, EventGraph.get_eq_ok_iff.2 he, rfl⟩

/-- The auth difference of some states, where there is one, is that of the same states
listed in another way. -/
theorem authDifference_of_mem_iff {difference : SortedSet EventId} (h : ∀ m, m ∈ maps ↔ m ∈ maps')
    (hd : authDifference g maps = .ok difference) : authDifference g maps' = .ok difference := by
  obtain ⟨chains, hchains, -⟩ := bind_eq_ok.1 hd
  obtain ⟨chains', hchains'⟩ := exists_mapM (f := fullChain g) fun m hm =>
    exists_of_mapM hchains ((h m).2 hm)
  have hd' : authDifference g maps' = .ok _ := bind_eq_ok.2 ⟨chains', hchains', rfl⟩
  rw [hd']
  refine congrArg _ (SortedSet.ext fun id => ?_)
  rw [mem_authDifference hd, mem_authDifference hd']
  simp only [h]

/-- The same states of a closed part have the same auth difference. -/
theorem authDifference_congr (hg : g.Closed within)
    (hmaps : ∀ m ∈ maps, ∀ id ∈ m.eventIds, within id) (h : ∀ m, m ∈ maps ↔ m ∈ maps') :
    authDifference g maps = authDifference g maps' := by
  obtain ⟨difference, hd⟩ := exists_authDifference hg hmaps
  rw [hd, authDifference_of_mem_iff h hd]

/-! ## A room of one event -/

def soleCreate : Event :=
  { Event.blank ⟨"$create", by decide⟩ ⟨"!hall", by decide⟩ ⟨"@ann:hall", by decide⟩
      EventType.create with
    content := .object [("room_version", .string "10"), ("creator", .string "@ann:hall")]
    stateKey := some "" }

def createdState : StateMap := .insert .empty .create soleCreate.id

def forge : RoomId := ⟨"!forge", by decide⟩

def ivo : UserId := ⟨"@ivo:forge", by decide⟩

def jan : UserId := ⟨"@jan:forge", by decide⟩

def forgeCreate : Event :=
  { Event.blank ⟨"$forge", by decide⟩ forge ivo EventType.create with
    content := .object [("room_version", .string "10"), ("creator", .string ivo.text)]
    stateKey := some "" }

def ivoJoined : Event :=
  { Event.blank ⟨"$ivo", by decide⟩ forge ivo EventType.member with
    content := .object [("membership", .string "join")]
    stateKey := some ivo.text
    prevEvents := [forgeCreate.id]
    authEvents := [forgeCreate.id] }

/-- Another join of a user who is in the room. -/
def ivoAgain : Event :=
  { ivoJoined with
    id := ⟨"$again", by decide⟩
    prevEvents := [ivoJoined.id]
    authEvents := [forgeCreate.id, ivoJoined.id] }

def forgeLevels : Event :=
  { Event.blank ⟨"$gauge", by decide⟩ forge ivo EventType.powerLevels with
    content := .object [("users", .object [(ivo.text, .integer 100)])]
    stateKey := some ""
    authEvents := [forgeCreate.id, ivoJoined.id] }

def forgeRules : Event :=
  { Event.blank ⟨"$rules", by decide⟩ forge ivo EventType.joinRules with
    content := .object [("join_rule", .string "invite")]
    stateKey := some ""
    authEvents := [forgeCreate.id, ivoJoined.id] }

def coldTopic : Event :=
  { Event.blank ⟨"$cold", by decide⟩ forge ivo "m.room.topic" with
    stateKey := some ""
    authEvents := [forgeCreate.id, ivoJoined.id] }

def hotTopic : Event :=
  { Event.blank ⟨"$hot", by decide⟩ forge ivo "m.room.topic" with
    stateKey := some ""
    authEvents := [forgeCreate.id, ivoAgain.id, forgeLevels.id] }

/-- A name that comes from a user who is not in the room. -/
def janName : Event :=
  { Event.blank ⟨"$jan", by decide⟩ forge jan "m.room.name" with
    stateKey := some ""
    authEvents := [forgeCreate.id, forgeLevels.id] }

def forgeEvents : List Event :=
  [forgeCreate, ivoJoined, ivoAgain, forgeLevels, forgeRules, coldTopic, hotTopic, janName]

/-- What the two states of the forge agree on. -/
def foundedState : StateMap :=
  .insert (.insert .empty .create forgeCreate.id) (.member ivo.text) ivoJoined.id

def coldState : StateMap :=
  (foundedState.insert .joinRules forgeRules.id).insert ⟨"m.room.topic", ""⟩ coldTopic.id

def hotState : StateMap :=
  ((foundedState.insert .powerLevels forgeLevels.id).insert ⟨"m.room.topic", ""⟩ hotTopic.id).insert
    ⟨"m.room.name", ""⟩ janName.id

end StateResolution
