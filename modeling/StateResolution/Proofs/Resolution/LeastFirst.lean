import StateResolution.Proofs.Graph.Acyclic
import StateResolution.Proofs.Resolution.TopologicalSort

/-!
# The order of a topological sort

Of the events that could come next a sort takes the one with the least key: the higher level
first, then the earlier event, then the smaller id (`SortKey.Precedes`).  No two events have
one key, so each step is settled, and there is one order that a sort can give
(`Emits.unique`).  That order can be said without the sort: each event of the graph stands in
it once, and at each place the least of those that could stand there (`LeastFirst`).

A graph has such an order if nothing in it points outside and nothing leads back to itself
(`Sortable`), and not otherwise.  Then some events are left, which are those that lead to a
cycle or out of the graph, and the error counts them (`topologicalSort_leastFirst`).
-/

namespace StateResolution

/-- A key comes before another. -/
def SortKey.Precedes (key other : SortKey) : Prop :=
  other.powerLevel < key.powerLevel ∨
    other.powerLevel = key.powerLevel ∧
      (key.timestamp < other.timestamp ∨
        key.timestamp = other.timestamp ∧ compare key.id other.id = .lt)

theorem SortKey.compare_eq_lt_iff {key other : SortKey} :
    compare key other = .lt ↔ key.Precedes other := by
  show (compare other.level key.level).then
    ((compare key.time other.time).then (compare key.id other.id)) = .lt ↔ _
  simp only [Ordering.then_eq_lt, compare_lt_iff_lt, compare_eq_iff_eq]
  rfl

namespace TopologicalSort

/-- Nothing in a graph points outside, and nothing leads back to itself. -/
structure Sortable (graph : IdGraph) : Prop where
  within : ∀ target id, Points graph target id → target ∈ graph.keys
  acyclic : ∀ id, ¬ Relation.TransGen (Points graph) id id

/-- Each event of a graph stands in a list once, and at each place stands the least of the events
that could come there. -/
structure LeastFirst (graph : IdGraph) (rank : EventId → Standing) (sorted : List EventId) :
    Prop where
  perm : sorted.Perm graph.keys
  ready : ∀ before id after, sorted = before ++ id :: after → Ready graph before id
  least : ∀ before id after, sorted = before ++ id :: after → ∀ other, Ready graph before other →
    other = id ∨ SortKey.Precedes ⟨rank id, id⟩ ⟨rank other, other⟩

variable {graph : IdGraph} {standing : EventId → Except Error Standing}
  {rank : EventId → Standing} {taken sorted sorted' before after : List EventId}
  {id other : EventId}

/-! ## Graphs that can be sorted -/

/-- Nothing that is grounded leads back to itself. -/
theorem Grounded.not_transGen (h : Grounded graph id) :
    ¬ Relation.TransGen (Points graph) id id := by
  induction h with
  | @intro id edges hedges _ ih =>
    intro hcycle
    obtain ⟨target, hback, edges', hedges', htarget⟩ := Relation.TransGen.tail'_iff.1 hcycle
    cases hedges.symm.trans hedges'
    exact ih target htarget (.head' ⟨edges, hedges, htarget⟩ hback)

theorem sortable_iff : Sortable graph ↔ ∀ id ∈ graph.keys, Grounded graph id := by
  constructor
  · rintro ⟨hwithin, hacyclic⟩ id hid
    induction EventGraph.acc_of_acyclic hwithin hacyclic id with
    | intro id _ ih =>
      obtain ⟨edges, hedges⟩ := SortedMap.mem_keys_iff.1 hid
      refine .intro hedges fun target htarget => ?_
      have hpoints : Points graph target id := ⟨edges, hedges, htarget⟩
      exact ih target hpoints (hwithin target id hpoints)
  · intro hall
    constructor
    case within =>
      rintro target id ⟨edges, hedges, htarget⟩
      cases hall id (SortedMap.mem_keys_iff.2 ⟨edges, hedges⟩) with
      | intro hedges' htargets =>
        cases hedges.symm.trans hedges'
        cases htargets target htarget with
        | intro hheld _ => exact SortedMap.mem_keys_iff.2 ⟨_, hheld⟩
    case acyclic =>
      intro id hcycle
      obtain ⟨_, -, edges, hedges, -⟩ := Relation.TransGen.tail'_iff.1 hcycle
      exact (hall id (SortedMap.mem_keys_iff.2 ⟨edges, hedges⟩)).not_transGen hcycle

/-! ## One order -/

/-- What a sort takes is the least of what it could take. -/
theorem Emits.least (h : Emits graph standing taken sorted)
    (hsplit : sorted = before ++ id :: after) :
    ∃ s, standing id = .ok s ∧ ∀ other : SortKey, Ready graph (taken ++ before) other.id →
      standing other.id = .ok other.toStanding →
        (compare (⟨s, id⟩ : SortKey) other).isLE = true := by
  induction h generalizing before with
  | done => cases before <;> cases hsplit
  | @take taken rest key _ hstanding hleast _ ih =>
    cases before with
    | nil =>
      cases hsplit
      rw [List.append_nil]
      exact ⟨key.toStanding, hstanding, hleast⟩
    | cons first before =>
      cases hsplit
      have hlater := ih rfl
      rwa [List.append_assoc] at hlater

/-- Two sorts that have taken the same events go on alike. -/
theorem Emits.unique (h : Emits graph standing taken sorted)
    (h' : Emits graph standing taken sorted') : sorted = sorted' := by
  induction h generalizing sorted' with
  | done hnone =>
    cases h' with
    | done => rfl
    | take hready => exact absurd hready (hnone _)
  | @take taken rest key hready hstanding hleast _ ih =>
    cases h' with
    | done hnone => exact absurd hready (hnone _)
    | @take _ rest' key' hready' hstanding' hleast' hrest' =>
      have hsame : key = key' := Std.LawfulEqCmp.eq_of_compare
        (Std.OrientedCmp.isLE_antisymm (hleast key' hready' hstanding')
          (hleast' key hready hstanding))
      subst hsame
      rw [ih hrest']

theorem isLE_iff {key other : SortKey} :
    (compare key other).isLE = true ↔ other = key ∨ key.Precedes other := by
  rw [← SortKey.compare_eq_lt_iff]
  constructor
  · intro h
    cases hcompare : compare key other with
    | lt => exact .inr rfl
    | eq => exact .inl (Std.LawfulEqCmp.eq_of_compare hcompare).symm
    | gt =>
      rw [hcompare] at h
      cases h
  · rintro (rfl | hlt)
    · rw [compare_refl]
      rfl
    · rw [hlt]
      rfl

theorem Emits.leastFirst (hrank : ∀ id ∈ graph.keys, standing id = .ok (rank id))
    (h : Emits graph standing [] sorted) (hperm : sorted.Perm graph.keys) :
    LeastFirst graph rank sorted where
  perm := hperm
  ready _ _ _ hsplit := h.behind hsplit
  least before id after hsplit other hother := by
    obtain ⟨s, hs, hleast⟩ := h.least hsplit
    cases hs.symm.trans (hrank id (h.behind hsplit).mem_keys)
    have hle := hleast ⟨rank other, other⟩ hother (hrank other hother.mem_keys)
    exact (isLE_iff.1 hle).imp_left (congrArg SortKey.id)

theorem LeastFirst.emits (hrank : ∀ id ∈ graph.keys, standing id = .ok (rank id))
    (h : LeastFirst graph rank sorted) : Emits graph standing [] sorted := by
  have hrest : ∀ rest taken, sorted = taken ++ rest → Emits graph standing taken rest := by
    intro rest
    induction rest with
    | nil =>
      intro taken hsplit
      rw [List.append_nil] at hsplit
      subst hsplit
      exact .done fun id hready => hready.fresh (h.perm.mem_iff.2 hready.mem_keys)
    | cons id rest ih =>
      intro taken hsplit
      have hready := h.ready taken id rest hsplit
      refine @Emits.take _ _ _ _ ⟨rank id, id⟩ hready (hrank id hready.mem_keys) ?_ ?_
      · rintro ⟨s, other⟩ hother hs
        cases hs.symm.trans (hrank other hother.mem_keys)
        refine isLE_iff.2 ((h.least taken id rest hsplit other hother).imp_left fun heq => ?_)
        cases heq
        rfl
      · exact ih (taken ++ [id]) (by rw [hsplit, List.append_assoc, List.singleton_append])
  exact hrest sorted [] rfl

/-- The events that are left when a sort has come to its end. -/
theorem Emits.exists_stuck (h : Emits graph standing [] sorted) :
    ∃ stuck : List EventId, stuck.Nodup ∧
      (∀ id, id ∈ stuck ↔ id ∈ graph.keys ∧ ¬ Grounded graph id) ∧
      stuck.length = graph.size - sorted.length := by
  have hnodup : graph.keys.Nodup := graph.keySet.nodup_toList
  refine ⟨graph.keys.filter fun id => id ∉ sorted, hnodup.filter _, fun id => ?_, ?_⟩
  · rw [List.mem_filter, decide_eq_true_eq, h.mem_iff]
  · have hperm : (graph.keys.filter fun id => id ∈ sorted).Perm sorted := by
      refine (List.perm_ext_iff_of_nodup (hnodup.filter _) h.nodup.1).2 fun id => ?_
      rw [List.mem_filter, decide_eq_true_eq]
      exact ⟨And.right, fun hid => ⟨(h.nodup.2 id hid).2, hid⟩⟩
    have hparts := List.length_eq_length_filter_add (l := graph.keys) fun id => decide (id ∈ sorted)
    simp only [hperm.length_eq, SortedMap.length_keys, ← decide_not] at hparts
    omega

end TopologicalSort

open TopologicalSort

/-- Where the standings are known, a sort succeeds if the graph can be sorted, and not otherwise;
then it says how many events lead to a cycle or out of the graph.  What it gives is the one order
in which each event stands once and at each place the least of those that could come there. -/
theorem topologicalSort_leastFirst (graph : IdGraph) (standing : EventId → Except Error Standing)
    (rank : EventId → Standing) (hrank : ∀ id ∈ graph.keys, standing id = .ok (rank id)) :
    ((∃ sorted, topologicalSort graph standing = .ok sorted) ↔ Sortable graph) ∧
      (¬ Sortable graph → ∃ stuck : List EventId, stuck.Nodup ∧
        (∀ id, id ∈ stuck ↔ id ∈ graph.keys ∧ ¬ Grounded graph id) ∧
        topologicalSort graph standing =
          .error (.graphCorruption (.unsortable stuck.length))) ∧
      (∀ sorted, topologicalSort graph standing = .ok sorted ↔ LeastFirst graph rank sorted) ∧
      ∀ sorted sorted', LeastFirst graph rank sorted → LeastFirst graph rank sorted' →
        sorted = sorted' := by
  obtain ⟨taken, hemits, hsort⟩ := exists_emits fun id hid => ⟨rank id, hrank id hid⟩
  have hlength : taken.length = graph.size ↔ Sortable graph :=
    hemits.length_eq_iff.trans sortable_iff.symm
  refine ⟨?_, fun hnot => ?_, fun sorted => ⟨fun h => ?_, fun h => ?_⟩, fun sorted sorted' h h' => ?_⟩
  · rw [hsort, ← hlength]
    split
    · next hall => exact ⟨fun _ => hall, fun _ => ⟨taken, rfl⟩⟩
    · next hleft => exact ⟨nofun, fun hall => absurd hall hleft⟩
  · obtain ⟨stuck, hnodup, hmem, hstuck⟩ := hemits.exists_stuck
    refine ⟨stuck, hnodup, hmem, ?_⟩
    rw [hsort, if_neg fun hall => hnot (hlength.1 hall), hstuck]
  · obtain ⟨hsorted, -⟩ := emits_of_topologicalSort h
    exact hsorted.leastFirst hrank (perm_of_topologicalSort h)
  · have hsame := (h.emits hrank).unique hemits
    have hall : sorted.length = graph.size := by simp [h.perm.length_eq]
    rw [hsort, ← hsame, if_pos hall]
  · exact (h.emits hrank).unique (h'.emits hrank)

/-- How a club opens. -/
def opening : EventId := ⟨"$opening", by decide⟩

def motto : EventId := ⟨"$motto", by decide⟩

def hello : EventId := ⟨"$hello", by decide⟩

def club : IdGraph :=
  .ofList [(opening, .empty), (motto, .ofList [opening]), (hello, .ofList [opening])]

/-- The founder opens the club and sets its motto; a guest says hello in between. -/
def clubRank (id : EventId) : Standing :=
  if id = opening then ⟨100, 1⟩ else if id = hello then ⟨0, 2⟩ else ⟨100, 3⟩

/-- In a ring the motto and the greeting point at each other. -/
def ring : IdGraph :=
  .ofList [(opening, .empty), (motto, .ofList [opening, hello]), (hello, .ofList [motto])]

/-- The motto comes before the greeting, which is earlier and has the smaller id, and a ring leaves
two events. -/
theorem topologicalSort_leastFirst_club :
    (∀ id ∈ club.keys, (.ok (clubRank id) : Except Error Standing) = .ok (clubRank id)) ∧
      Sortable club ∧ LeastFirst club clubRank [opening, motto, hello] ∧ ¬ Sortable ring ∧
      topologicalSort ring (fun id => .ok (clubRank id)) =
        .error (.graphCorruption (.unsortable 2)) := by
  have hknown : ∀ {graph : IdGraph}, ∀ id ∈ graph.keys,
      (.ok (clubRank id) : Except Error Standing) = .ok (clubRank id) := fun _ _ => rfl
  have hsort : topologicalSort club (fun id => .ok (clubRank id)) =
      .ok [opening, motto, hello] := by decide +kernel
  have hring : topologicalSort ring (fun id => .ok (clubRank id)) =
      .error (.graphCorruption (.unsortable 2)) := by decide +kernel
  obtain ⟨hsortable, -, hleast, -⟩ := topologicalSort_leastFirst club _ clubRank hknown
  obtain ⟨hsortable', -⟩ := topologicalSort_leastFirst ring _ clubRank hknown
  refine ⟨hknown, hsortable.1 ⟨_, hsort⟩, (hleast _).1 hsort, fun h => ?_, hring⟩
  obtain ⟨sorted, hsorted⟩ := hsortable'.2 h
  rw [hring] at hsorted
  cases hsorted

end StateResolution
