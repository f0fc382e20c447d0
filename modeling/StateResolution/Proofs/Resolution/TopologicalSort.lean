import Mathlib.Data.List.Perm.Subperm
import Mathlib.Logic.Relation
import StateResolution.Proofs.Fallible
import StateResolution.Resolution.TopologicalSort

/-!
# What a topological sort gives

`Progress` says where a sort stands when some events have been taken: each of the others
waits for those events it points at that have not been taken, and the ones that are ready
are those that wait for nothing.  One step keeps it (`Progress.step`), so whatever is taken
comes behind all it points at and before all others that could come then (`Emits`).

The events that a sort takes are those that lead down, within the graph, to events that point
at nothing (`Grounded`, `Emits.mem_iff`): as long as such events are left, one of them is ready.
So a sort that succeeds gives each event of its graph once (`perm_of_topologicalSort`), and it
does succeed when all of them are of this kind (`exists_topologicalSort`).
-/

namespace StateResolution

open Fallible (bind_eq_ok ok_bind pure_eq_ok mem_mapM exists_mapM)

namespace TopologicalSort

/-- An event could come next: it has not been taken, and all it points at has. -/
structure Ready (graph : IdGraph) (taken : List EventId) (id : EventId) : Prop where
  fresh : id ∉ taken
  free : ∃ edges, graph.get? id = some edges ∧ ∀ target ∈ edges, target ∈ taken

/-- Where a sort stands. -/
structure Progress (graph : IdGraph) (standing : EventId → Except Error Standing)
    (taken : List EventId) (waiting : IdGraph) (ready : SortedSet SortKey) : Prop where
  waiting : ∀ id left, waiting.get? id = some left ↔
    id ∉ taken ∧ left.isEmpty = false ∧
      ∃ edges, graph.get? id = some edges ∧ edges.filter (fun t => t ∉ taken) = left
  ready : ∀ key : SortKey,
    key ∈ ready ↔ Ready graph taken key.id ∧ standing key.id = .ok key.toStanding
  known : ∀ id, Ready graph taken id → ∃ s, standing id = .ok s

/-- The events that a sort takes, when some have been taken: each time the first of those that
could come, until there is none. -/
inductive Emits (graph : IdGraph) (standing : EventId → Except Error Standing) :
    List EventId → List EventId → Prop
  | done {taken : List EventId} : (∀ id, ¬ Ready graph taken id) → Emits graph standing taken []
  | take {taken rest : List EventId} {key : SortKey} :
    Ready graph taken key.id → standing key.id = .ok key.toStanding →
    (∀ other : SortKey, Ready graph taken other.id →
      standing other.id = .ok other.toStanding → (compare key other).isLE = true) →
    Emits graph standing (taken ++ [key.id]) rest → Emits graph standing taken (key.id :: rest)

/-- All that an event points at is in the graph, and so is all that this points at, down to
events that point at nothing. -/
inductive Grounded (graph : IdGraph) : EventId → Prop
  | intro {id : EventId} {edges : SortedSet EventId} :
    graph.get? id = some edges → (∀ target ∈ edges, Grounded graph target) → Grounded graph id

variable {graph waiting : IdGraph} {standing : EventId → Except Error Standing}
  {taken sorted : List EventId} {ready : SortedSet SortKey} {keys : List SortKey}
  {id : EventId} {key : SortKey}

theorem isEmpty_eq_true_iff {s : SortedSet EventId} : s.isEmpty = true ↔ ∀ t, t ∉ s := by
  rw [SortedSet.isEmpty, List.isEmpty_iff, List.eq_nil_iff_forall_not_mem]
  rfl

theorem isEmpty_eq_false_iff {s : SortedSet EventId} : s.isEmpty = false ↔ ∃ t, t ∈ s := by
  rw [← Bool.not_eq_true, isEmpty_eq_true_iff]
  exact not_forall_not

theorem mem_freed :
    id ∈ freed waiting ↔ ∃ edges, waiting.get? id = some edges ∧ edges.isEmpty = true := by
  simp [freed, SortedMap.mem_keys_iff, Option.filter_eq_some_iff]

theorem get?_blocked {left : SortedSet EventId} :
    (blocked waiting).get? id = some left ↔
      waiting.get? id = some left ∧ left.isEmpty = false := by
  simp only [blocked, SortedMap.get?_filter, Option.filter_eq_some_iff, Bool.not_eq_true']

theorem mem_keys_freed (h : (freed waiting).mapM (keyOf standing) = .ok keys) :
    key ∈ keys ↔ key.id ∈ freed waiting ∧ standing key.id = .ok key.toStanding := by
  simp only [mem_mapM h, keyOf, bind_eq_ok, pure_eq_ok]
  constructor
  · rintro ⟨id, hid, s, hs, rfl⟩
    exact ⟨hid, hs⟩
  · rintro ⟨hid, hs⟩
    exact ⟨key.id, hid, key.toStanding, hs, rfl⟩

/-- The standing of an event that becomes ready is known. -/
theorem exists_standing_of_freed (h : (freed waiting).mapM (keyOf standing) = .ok keys)
    (hid : id ∈ freed waiting) : ∃ s, standing id = .ok s := by
  obtain ⟨key, hkey⟩ := Fallible.exists_of_mapM h hid
  obtain ⟨s, hs, -⟩ := bind_eq_ok.1 hkey
  exact ⟨s, hs⟩

theorem eq_of_id_eq {other : SortKey} (hs : standing key.id = .ok key.toStanding)
    (hs' : standing other.id = .ok other.toStanding) (h : other.id = key.id) : other = key := by
  obtain ⟨s, i⟩ := key
  obtain ⟨t, j⟩ := other
  cases h
  cases hs.symm.trans hs'
  rfl

/-! ## One step -/

theorem filter_not_mem_nil (edges : SortedSet EventId) : edges.filter (fun t => t ∉ []) = edges :=
  SortedSet.ext (by simp)

/-- One more that is taken is one less that is left. -/
theorem filter_not_mem_concat (edges : SortedSet EventId) (taken : List EventId) (id : EventId) :
    edges.filter (fun t => t ∉ taken ++ [id]) = (edges.filter fun t => t ∉ taken).erase id :=
  SortedSet.ext fun t => by simp [and_assoc]

/-- What is ready waits for nothing. -/
theorem Ready.isEmpty_left (h : Ready graph taken id) {edges : SortedSet EventId}
    (hedges : graph.get? id = some edges) :
    (edges.filter fun t => t ∉ taken).isEmpty = true := by
  obtain ⟨-, edges', hedges', hfree⟩ := h
  cases hedges.symm.trans hedges'
  refine isEmpty_eq_true_iff.2 fun t ht => ?_
  simp only [SortedSet.mem_filter, decide_eq_true_eq] at ht
  exact ht.2 (hfree t ht.1)

theorem ready_nil_iff : Ready graph [] id ↔ id ∈ freed graph := by
  rw [mem_freed]
  constructor
  · rintro ⟨-, edges, hedges, hfree⟩
    exact ⟨edges, hedges, isEmpty_eq_true_iff.2 fun t ht => nomatch hfree t ht⟩
  · rintro ⟨edges, hedges, hempty⟩
    exact ⟨nofun, edges, hedges, fun t ht => absurd ht (isEmpty_eq_true_iff.1 hempty t)⟩

theorem progress_nil (hkeys : (freed graph).mapM (keyOf standing) = .ok keys) :
    Progress graph standing [] (blocked graph) (.ofList keys) where
  waiting id left := by
    rw [get?_blocked]
    constructor
    · rintro ⟨hedges, hleft⟩
      exact ⟨nofun, hleft, left, hedges, filter_not_mem_nil left⟩
    · rintro ⟨-, hleft, edges, hedges, heq⟩
      rw [filter_not_mem_nil] at heq
      exact ⟨heq ▸ hedges, hleft⟩
  ready key := by rw [SortedSet.mem_ofList, mem_keys_freed hkeys, ready_nil_iff]
  known id hid := exists_standing_of_freed hkeys (ready_nil_iff.1 hid)

/-- An event becomes ready by a step if it was so before, or waited for the one that is taken
and for no other. -/
theorem Progress.ready_concat (h : Progress graph standing taken waiting ready)
    (hkey : Ready graph taken key.id) :
    Ready graph (taken ++ [key.id]) id ↔
      Ready graph taken id ∧ id ≠ key.id ∨ id ∈ freed (waiting.mapValues (·.erase key.id)) := by
  have hmem : ∀ t, t ∈ taken ++ [key.id] ↔ t ∈ taken ∨ t = key.id := by simp
  rw [mem_freed]
  simp only [SortedMap.get?_mapValues, Option.map_eq_some_iff, h.waiting]
  constructor
  · rintro ⟨hfresh, edges, hedges, hfree⟩
    rw [hmem, not_or] at hfresh
    by_cases hall : ∀ t ∈ edges, t ∈ taken
    · exact .inl ⟨⟨hfresh.1, edges, hedges, hall⟩, hfresh.2⟩
    · -- Some edge is left, and it can only be the one that is taken now.
      obtain ⟨t, ht⟩ := not_forall.1 hall
      obtain ⟨ht, hnew⟩ := Classical.not_imp.1 ht
      refine .inr ⟨_, ⟨_, ⟨hfresh.1, ?_, edges, hedges, rfl⟩, rfl⟩, ?_⟩
      · exact isEmpty_eq_false_iff.2 ⟨t, by simp [ht, hnew]⟩
      · refine isEmpty_eq_true_iff.2 fun t ht => ?_
        simp only [SortedSet.mem_erase, SortedSet.mem_filter, decide_eq_true_eq] at ht
        rcases (hmem t).1 (hfree t ht.1.1) with hold | hnow
        · exact ht.1.2 hold
        · exact ht.2 hnow
  · rintro (⟨⟨hfresh, edges, hedges, hfree⟩, hne⟩ |
      ⟨_, ⟨left, ⟨hfresh, hleft, edges, hedges, rfl⟩, rfl⟩, hempty⟩)
    · exact ⟨fun hid => ((hmem id).1 hid).elim hfresh hne, edges, hedges,
        fun t ht => (hmem t).2 (.inl (hfree t ht))⟩
    · refine ⟨fun hid => ?_, edges, hedges, fun t ht => (hmem t).2 ?_⟩
      · rcases (hmem id).1 hid with hold | rfl
        · exact hfresh hold
        · -- The event that is taken was ready, so it did not wait.
          rw [hkey.isEmpty_left hedges] at hleft
          cases hleft
      · by_contra hnew
        rw [not_or] at hnew
        refine isEmpty_eq_true_iff.1 hempty t ?_
        simp [ht, hnew.1, hnew.2]

theorem Progress.step (h : Progress graph standing taken waiting ready) (hkey : key ∈ ready)
    (hkeys : (freed (waiting.mapValues (·.erase key.id))).mapM (keyOf standing) = .ok keys) :
    Progress graph standing (taken ++ [key.id]) (blocked (waiting.mapValues (·.erase key.id)))
      ((ready.erase key).insertAll keys) := by
  obtain ⟨hready, hstanding⟩ := (h.ready key).1 hkey
  constructor
  case waiting =>
    intro id left
    rw [get?_blocked, SortedMap.get?_mapValues, Option.map_eq_some_iff]
    constructor
    · rintro ⟨⟨_, hwaits, rfl⟩, hleft⟩
      obtain ⟨hfresh, hheld, edges, hedges, rfl⟩ := (h.waiting id _).1 hwaits
      refine ⟨?_, hleft, edges, hedges, filter_not_mem_concat edges taken key.id⟩
      intro hid
      rcases List.mem_append.1 hid with hold | hnow
      · exact hfresh hold
      · cases List.mem_singleton.1 hnow
        rw [hready.isEmpty_left hedges] at hheld
        cases hheld
    · rintro ⟨hfresh, hleft, edges, hedges, rfl⟩
      refine ⟨⟨edges.filter fun t => t ∉ taken, ?_,
        (filter_not_mem_concat edges taken key.id).symm⟩, hleft⟩
      refine (h.waiting id _).2 ⟨fun hid => hfresh (List.mem_append_left _ hid), ?_, edges,
        hedges, rfl⟩
      obtain ⟨t, ht⟩ := isEmpty_eq_false_iff.1 hleft
      exact isEmpty_eq_false_iff.2 ⟨t, by simp_all⟩
  case ready =>
    intro other
    rw [SortedSet.mem_insertAll, SortedSet.mem_erase, mem_keys_freed hkeys, h.ready,
      h.ready_concat hready]
    constructor
    · rintro (⟨⟨hother, hs⟩, hne⟩ | ⟨hfreed, hs⟩)
      · exact ⟨.inl ⟨hother, fun heq => hne (eq_of_id_eq hstanding hs heq)⟩, hs⟩
      · exact ⟨.inr hfreed, hs⟩
    · rintro ⟨⟨hother, hne⟩ | hfreed, hs⟩
      · exact .inl ⟨⟨hother, hs⟩, fun heq => hne (congrArg SortKey.id heq)⟩
      · exact .inr ⟨hfreed, hs⟩
  case known =>
    intro id hid
    rcases (h.ready_concat hready).1 hid with ⟨hold, -⟩ | hfreed
    · exact h.known id hold
    · exact exists_standing_of_freed hkeys hfreed

/-! ## A whole sort -/

theorem mem_of_toList_cons {tail : List SortKey} (h : ready.toList = key :: tail) :
    key ∈ ready := by
  rw [SortedSet.mem_def, h]
  exact List.mem_cons_self

/-- The first of some keys is the least. -/
theorem isLE_of_toList_cons {tail : List SortKey} (h : ready.toList = key :: tail)
    {other : SortKey} (hother : other ∈ ready) : (compare key other).isLE = true := by
  have hsorted := ready.ascending
  rw [h] at hsorted
  rw [SortedSet.mem_def, h] at hother
  rcases List.mem_cons.1 hother with rfl | hlater
  · rw [compare_refl]
    rfl
  · rw [(List.pairwise_cons.1 hsorted).1 other hlater]
    rfl

/-- When as many events have been taken as there are, all have been. -/
theorem perm_keys (hnodup : taken.Nodup) (hsubset : taken ⊆ graph.keys)
    (hlength : graph.size ≤ taken.length) : taken.Perm graph.keys :=
  (List.subperm_of_subset hnodup hsubset).perm_of_length_le (by simpa using hlength)

theorem not_ready_of_length (hnodup : taken.Nodup) (hsubset : taken ⊆ graph.keys)
    (hlength : graph.size ≤ taken.length) : ¬ Ready graph taken id := by
  rintro ⟨hfresh, edges, hedges, -⟩
  have hperm := perm_keys hnodup hsubset hlength
  exact hfresh (hperm.mem_iff.2 (SortedMap.mem_keys_iff.2 ⟨edges, hedges⟩))

theorem Ready.nodup_concat (h : Ready graph taken id) (hnodup : taken.Nodup) :
    (taken ++ [id]).Nodup := by
  refine List.nodup_append.2 ⟨hnodup, List.pairwise_singleton _ id, ?_⟩
  rintro a ha _ hb rfl
  exact h.fresh (List.mem_singleton.1 hb ▸ ha)

theorem Ready.mem_keys (h : Ready graph taken id) : id ∈ graph.keys := by
  obtain ⟨-, edges, hedges, -⟩ := h
  exact SortedMap.mem_keys_iff.2 ⟨edges, hedges⟩

theorem emits_of_takeReady {n : Nat} (h : Progress graph standing taken waiting ready)
    (hnodup : taken.Nodup) (hsubset : taken ⊆ graph.keys)
    (hcount : graph.size ≤ taken.length + n)
    (htake : takeReady standing n waiting ready = .ok sorted) :
    Emits graph standing taken sorted := by
  induction n generalizing taken waiting ready sorted with
  | zero =>
    cases htake
    exact .done fun id => not_ready_of_length hnodup hsubset hcount
  | succ n ih =>
    unfold takeReady at htake
    split at htake
    · next hnone =>
      cases htake
      refine .done fun id hid => ?_
      obtain ⟨s, hs⟩ := h.known id hid
      have hmem := (h.ready ⟨s, id⟩).2 ⟨hid, hs⟩
      rw [SortedSet.mem_def, hnone] at hmem
      cases hmem
    · next key tail hfirst =>
      obtain ⟨keys, hkeys, htake⟩ := bind_eq_ok.1 htake
      obtain ⟨rest, hrest, hsorted⟩ := bind_eq_ok.1 htake
      cases pure_eq_ok.1 hsorted
      have hmem := mem_of_toList_cons hfirst
      obtain ⟨hready, hstanding⟩ := (h.ready key).1 hmem
      refine .take hready hstanding (fun other hother hs =>
        isLE_of_toList_cons hfirst ((h.ready other).2 ⟨hother, hs⟩)) ?_
      refine ih (h.step hmem hkeys) (hready.nodup_concat hnodup) ?_ ?_ hrest
      · intro id hid
        rcases List.mem_append.1 hid with hold | hnow
        · exact hsubset hold
        · exact List.mem_singleton.1 hnow ▸ hready.mem_keys
      · simp only [List.length_append, List.length_singleton]
        omega

/-- A sort fails only for want of a standing, or in the end. -/
theorem exists_takeReady (h : Progress graph standing taken waiting ready)
    (hstanding : ∀ id ∈ graph.keys, ∃ s, standing id = .ok s) (n : Nat) :
    ∃ sorted, takeReady standing n waiting ready = .ok sorted := by
  induction n generalizing taken waiting ready with
  | zero => exact ⟨[], rfl⟩
  | succ n ih =>
    unfold takeReady
    split
    · exact ⟨[], rfl⟩
    · next key tail hfirst =>
      have hmem := mem_of_toList_cons hfirst
      have hready := ((h.ready key).1 hmem).1
      obtain ⟨keys, hkeys⟩ : ∃ keys,
          (freed (waiting.mapValues (·.erase key.id))).mapM (keyOf standing) = .ok keys := by
        refine exists_mapM fun id hid => ?_
        obtain ⟨s, hs⟩ := hstanding id ((h.ready_concat hready).2 (.inr hid)).mem_keys
        exact ⟨⟨s, id⟩, bind_eq_ok.2 ⟨s, hs, rfl⟩⟩
      obtain ⟨rest, hrest⟩ := ih (h.step hmem hkeys)
      exact ⟨key.id :: rest, bind_eq_ok.2 ⟨keys, hkeys, bind_eq_ok.2 ⟨rest, hrest, rfl⟩⟩⟩

/-! ## What is taken -/

theorem Emits.nodup (h : Emits graph standing taken sorted) :
    sorted.Nodup ∧ ∀ id ∈ sorted, id ∉ taken ∧ id ∈ graph.keys := by
  induction h with
  | done => exact ⟨.nil, nofun⟩
  | @take taken rest key hready _ _ _ ih =>
    obtain ⟨hnodup, hmem⟩ := ih
    have hlater : ∀ id ∈ rest, id ∉ taken ∧ id ≠ key.id := fun id hid => by
      simpa using (hmem id hid).1
    refine ⟨List.nodup_cons.2 ⟨fun hid => (hlater _ hid).2 rfl, hnodup⟩, ?_⟩
    intro id hid
    rcases List.mem_cons.1 hid with rfl | hid
    · exact ⟨hready.fresh, hready.mem_keys⟩
    · exact ⟨(hlater id hid).1, (hmem id hid).2⟩

/-- Whatever is taken comes behind all it points at. -/
theorem Emits.behind (h : Emits graph standing taken sorted) {before after : List EventId}
    (hsplit : sorted = before ++ id :: after) : Ready graph (taken ++ before) id := by
  induction h generalizing before with
  | done => cases before <;> cases hsplit
  | @take taken rest key hready _ _ _ ih =>
    cases before with
    | nil =>
      cases hsplit
      rw [List.append_nil]
      exact hready
    | cons first before =>
      cases hsplit
      have hlater := ih rfl
      rwa [List.append_assoc] at hlater

theorem Emits.exhausted (h : Emits graph standing taken sorted) (id : EventId) :
    ¬ Ready graph (taken ++ sorted) id := by
  induction h with
  | done hnone =>
    rw [List.append_nil]
    exact hnone id
  | take _ _ _ _ ih =>
    rw [List.append_assoc] at ih
    exact ih

/-- From the start a sort takes the events that are grounded: below one that is not taken there is
always another. -/
theorem Emits.mem_iff (h : Emits graph standing [] sorted) : id ∈ sorted ↔ Grounded graph id := by
  constructor
  · have hgrounded : ∀ {taken sorted}, Emits graph standing taken sorted →
        (∀ t ∈ taken, Grounded graph t) → ∀ id ∈ sorted, Grounded graph id := fun h => by
      induction h with
      | done => exact fun _ => nofun
      | @take taken rest key hready _ _ _ ih =>
        intro htaken
        obtain ⟨-, edges, hedges, hfree⟩ := hready
        have hkey : Grounded graph key.id := .intro hedges fun t ht => htaken t (hfree t ht)
        refine List.forall_mem_cons.2 ⟨hkey, ih fun t ht => ?_⟩
        rcases List.mem_append.1 ht with hold | hnow
        · exact htaken t hold
        · exact List.mem_singleton.1 hnow ▸ hkey
    exact hgrounded h nofun id
  · intro hgrounded
    induction hgrounded with
    | @intro id edges hedges _ ih =>
      by_contra hleft
      exact h.exhausted id ⟨hleft, edges, hedges, ih⟩

theorem Emits.perm_of_length (h : Emits graph standing [] sorted)
    (hlength : sorted.length = graph.size) : sorted.Perm graph.keys := by
  obtain ⟨hnodup, hmem⟩ := h.nodup
  exact perm_keys hnodup (fun id hid => (hmem id hid).2) (Nat.le_of_eq hlength.symm)

/-- As many events are taken as there are if all of them are grounded, and not otherwise. -/
theorem Emits.length_eq_iff (h : Emits graph standing [] sorted) :
    sorted.length = graph.size ↔ ∀ id ∈ graph.keys, Grounded graph id := by
  constructor
  · intro hlength id hid
    exact h.mem_iff.1 ((h.perm_of_length hlength).mem_iff.2 hid)
  · intro hall
    obtain ⟨hnodup, hmem⟩ := h.nodup
    have hperm : sorted.Perm graph.keys :=
      (List.perm_ext_iff_of_nodup hnodup graph.keySet.nodup_toList).2 fun id =>
        ⟨fun hid => (hmem id hid).2, fun hid => h.mem_iff.2 (hall id hid)⟩
    simp [hperm.length_eq]

end TopologicalSort

open TopologicalSort

variable {graph : IdGraph} {standing : EventId → Except Error Standing} {sorted : List EventId}

theorem emits_of_topologicalSort (h : topologicalSort graph standing = .ok sorted) :
    Emits graph standing [] sorted ∧ sorted.length = graph.size := by
  obtain ⟨keys, hkeys, h⟩ := bind_eq_ok.1 h
  obtain ⟨taken, htaken, h⟩ := bind_eq_ok.1 h
  split at h
  · next hlength =>
    cases pure_eq_ok.1 h
    exact ⟨emits_of_takeReady (progress_nil hkeys) .nil nofun (by simp) htaken, hlength⟩
  · cases h

/-- A sort that succeeds gives every event of its graph once. -/
theorem perm_of_topologicalSort (h : topologicalSort graph standing = .ok sorted) :
    sorted.Perm graph.keys := by
  obtain ⟨hemits, hlength⟩ := emits_of_topologicalSort h
  exact hemits.perm_of_length hlength

/-- One event of a graph points at another. -/
def Points (graph : IdGraph) (target id : EventId) : Prop :=
  ∃ edges, graph.get? id = some edges ∧ target ∈ edges

/-- What an event leads to is sorted before it. -/
theorem mem_of_topologicalSort (h : topologicalSort graph standing = .ok sorted)
    {target id : EventId} (hbelow : Relation.TransGen (Points graph) target id)
    {before after : List EventId} (hsplit : sorted = before ++ id :: after) : target ∈ before := by
  have hready : ∀ {id before after}, sorted = before ++ id :: after → Ready graph before id :=
    fun hsplit => (emits_of_topologicalSort h).1.behind hsplit
  induction hbelow generalizing before after with
  | single hpoints =>
    obtain ⟨edges, hedges, htarget⟩ := hpoints
    obtain ⟨-, edges', hedges', hfree⟩ := hready hsplit
    cases hedges.symm.trans hedges'
    exact hfree target htarget
  | @tail mid id _ hpoints ih =>
    obtain ⟨edges, hedges, hmid⟩ := hpoints
    obtain ⟨-, edges', hedges', hfree⟩ := hready hsplit
    cases hedges.symm.trans hedges'
    obtain ⟨first, second, rfl⟩ := List.append_of_mem (hfree mid hmid)
    rw [List.append_assoc, List.cons_append] at hsplit
    exact List.mem_append_left _ (ih hsplit)

/-- A sort whose standings are known takes events as long as one is ready, and succeeds if those
are all. -/
theorem exists_emits (hstanding : ∀ id ∈ graph.keys, ∃ s, standing id = .ok s) :
    ∃ sorted, Emits graph standing [] sorted ∧ topologicalSort graph standing =
      if sorted.length = graph.size then .ok sorted
      else .error (.graphCorruption (.unsortable (graph.size - sorted.length))) := by
  obtain ⟨keys, hkeys⟩ : ∃ keys, (freed graph).mapM (keyOf standing) = .ok keys := by
    refine exists_mapM fun id hid => ?_
    obtain ⟨s, hs⟩ := hstanding id (ready_nil_iff.2 hid).mem_keys
    exact ⟨⟨s, id⟩, bind_eq_ok.2 ⟨s, hs, rfl⟩⟩
  have hprogress := progress_nil hkeys
  obtain ⟨sorted, hsorted⟩ := exists_takeReady hprogress hstanding graph.size
  refine ⟨sorted, emits_of_takeReady hprogress .nil nofun (by simp) hsorted, ?_⟩
  rw [topologicalSort, hkeys, ok_bind, hsorted, ok_bind]
  rfl

/-- A sort succeeds when every event leads down, within the graph, to events that point at
nothing. -/
theorem exists_topologicalSort (hstanding : ∀ id ∈ graph.keys, ∃ s, standing id = .ok s)
    (hwithin : ∀ target id, Points graph target id → target ∈ graph.keys)
    (hdown : ∀ id ∈ graph.keys, Acc (Points graph) id) :
    ∃ sorted, topologicalSort graph standing = .ok sorted := by
  obtain ⟨sorted, hemits, hsort⟩ := exists_emits hstanding
  have hgrounded : ∀ id ∈ graph.keys, Grounded graph id := fun id hid => by
    induction hdown id hid with
    | intro id _ ih =>
      obtain ⟨edges, hedges⟩ := SortedMap.mem_keys_iff.1 hid
      refine .intro hedges fun target htarget => ?_
      exact ih target ⟨edges, hedges, htarget⟩ (hwithin target id ⟨edges, hedges, htarget⟩)
  exact ⟨sorted, by rw [hsort, if_pos (hemits.length_eq_iff.2 hgrounded)]⟩

end StateResolution
