import StateResolution.Proofs.Graph.Acyclic
import StateResolution.Proofs.Graph.Explore
import StateResolution.Proofs.Resolution.Conflicts
import StateResolution.Proofs.Resolution.TopologicalSort
import StateResolution.Resolution.PowerOrder

/-!
# What the power sort gives

The graph that is sorted is walked within the set of disputed events: it has the power events
and what they lead to by citations of disputed events (`mem_keys_of_powerGraph`).  So each of
its events is given once, behind what it leads to in this way (`exists_causal_powerSort`).

An event that leads to another only through events that are not disputed does not wait for it.
The sort may then put the ancestor behind its descendant, and `power_sort_past_gap` is a
dispute where it does.
-/

namespace StateResolution

open Fallible (bind_eq_ok pure_eq_ok ok_bind exists_mapM exists_foldlM exists_filterM
  mem_filterM mem_mapM)

/-- One event cites another, and the other is in a set. -/
def CitesWithin (g : EventGraph) (full : SortedSet EventId) (id cited : EventId) : Prop :=
  g.Cites id cited ∧ cited ∈ full

variable {g : EventGraph} {version : RoomVersion} {full : SortedSet EventId} {id : EventId}
  {powerEvents order : List EventId} {graph : IdGraph} {within : EventId → Prop}

theorem citedWithin_eq_ok {targets : List EventId} :
    citedWithin g full id = .ok targets ↔ ∃ e, g.get? id = some e ∧
      (SortedSet.ofList (e.authEvents.filter full.contains)).toList = targets := by
  simp only [citedWithin, bind_eq_ok, pure_eq_ok, EventGraph.cited_eq_ok]
  constructor
  · rintro ⟨_, ⟨e, he, rfl⟩, htargets⟩
    exact ⟨e, he, htargets⟩
  · rintro ⟨e, he, htargets⟩
    exact ⟨_, ⟨e, he, rfl⟩, htargets⟩

theorem mem_of_citedWithin {targets : List EventId} (h : citedWithin g full id = .ok targets)
    (t : EventId) : t ∈ targets ↔ CitesWithin g full id t := by
  obtain ⟨e, he, rfl⟩ := citedWithin_eq_ok.1 h
  rw [← SortedSet.mem_def, SortedSet.mem_ofList, List.mem_filter, SortedSet.contains_iff]
  constructor
  · rintro ⟨hcited, hfull⟩
    exact ⟨⟨e, he, hcited⟩, hfull⟩
  · rintro ⟨⟨e', he', hcited⟩, hfull⟩
    cases he.symm.trans he'
    exact ⟨hcited, hfull⟩

theorem exists_citedWithin (full : SortedSet EventId) (h : ∃ e, g.get? id = some e) :
    ∃ targets, citedWithin g full id = .ok targets := by
  obtain ⟨e, he⟩ := h
  exact ⟨_, citedWithin_eq_ok.2 ⟨e, he, rfl⟩⟩

theorem leads_citedWithin : Leads (citedWithin g full) = CitesWithin g full := by
  funext id t
  refine propext ⟨?_, ?_⟩
  · rintro ⟨targets, htargets, ht⟩
    exact (mem_of_citedWithin htargets t).1 ht
  · intro hcites
    obtain ⟨e, he, -⟩ := hcites.1
    obtain ⟨targets, htargets⟩ := exists_citedWithin full ⟨e, he⟩
    exact ⟨targets, htargets, (mem_of_citedWithin htargets t).2 hcites⟩

/-! ## The graph that is sorted -/

theorem powerGraph_eq_ok :
    powerGraph g powerEvents full = .ok graph ↔
      ∃ trail, powerEvents.foldlM (explore (citedWithin g full) (g.size + 1)) .empty = .ok trail ∧
        trail.mapValues SortedSet.ofList = graph := by
  have hwalk : (fun (trail : Trail) id => g.trail (citedWithin g full) trail [id]) =
      explore (citedWithin g full) (g.size + 1) := by
    funext trail id
    show (explore (citedWithin g full) (g.size + 1) trail id >>= pure) = _
    exact bind_pure _
  simp only [powerGraph, hwalk, bind_eq_ok, pure_eq_ok]

theorem explored_of_powerGraph (h : powerGraph g powerEvents full = .ok graph) :
    ∃ trail, Explored (citedWithin g full) powerEvents .empty trail ∧
      trail.mapValues SortedSet.ofList = graph := by
  obtain ⟨trail, htrail, hgraph⟩ := powerGraph_eq_ok.1 h
  refine ⟨trail, EventGraph.explored_of_foldlM_explore (fun id targets htargets => ?_) htrail,
    hgraph⟩
  obtain ⟨e, he, -⟩ := citedWithin_eq_ok.1 htargets
  exact SortedMap.mem_keys_iff.2 ⟨e, he⟩

/-- The graph has the power events and what they lead to within the set. -/
theorem mem_keys_of_powerGraph (h : powerGraph g powerEvents full = .ok graph) :
    id ∈ graph.keys ↔
      ∃ root ∈ powerEvents, Relation.ReflTransGen (CitesWithin g full) root id := by
  obtain ⟨trail, htrail, rfl⟩ := explored_of_powerGraph h
  rw [← leads_citedWithin, ← contains_iff_of_explored htrail, ← SortedMap.contains_mapValues]
  exact SortedMap.mem_keySet

/-- Each of its events points at those of the set that it cites. -/
theorem points_of_powerGraph (h : powerGraph g powerEvents full = .ok graph) {target : EventId} :
    Points graph target id ↔ id ∈ graph.keys ∧ CitesWithin g full id target := by
  obtain ⟨trail, htrail, rfl⟩ := explored_of_powerGraph h
  simp only [Points, SortedMap.mem_keys_iff, SortedMap.get?_mapValues, Option.map_eq_some_iff]
  constructor
  · rintro ⟨_, ⟨targets, htargets, rfl⟩, ht⟩
    obtain ⟨hnext, -⟩ := htrail.entry_of_empty htargets
    exact ⟨⟨_, targets, htargets, rfl⟩, (mem_of_citedWithin hnext target).1 (by simpa using ht)⟩
  · rintro ⟨⟨_, targets, htargets, rfl⟩, hcites⟩
    obtain ⟨hnext, -⟩ := htrail.entry_of_empty htargets
    exact ⟨_, ⟨targets, htargets, rfl⟩, by simpa using (mem_of_citedWithin hnext target).2 hcites⟩

/-- Power events in a closed part have a graph there. -/
theorem exists_powerGraph (full : SortedSet EventId) (hg : g.Closed within)
    (hpower : ∀ id ∈ powerEvents, within id) :
    ∃ graph, powerGraph g powerEvents full = .ok graph ∧ ∀ id ∈ graph.keys, within id := by
  have hnext : ∀ id, within id →
      ∃ targets, citedWithin g full id = .ok targets ∧ ∀ t ∈ targets, within t := fun id hid => by
    obtain ⟨targets, htargets⟩ := exists_citedWithin full (hg.present id hid)
    exact ⟨targets, htargets,
      fun t ht => hg.cited id t hid ((mem_of_citedWithin htargets t).1 ht).1⟩
  obtain ⟨trail, htrail⟩ := exists_foldlM (f := explore (citedWithin g full) (g.size + 1))
    (fun id hid trail => exists_explore hnext _ trail id (hpower id hid)) .empty
  have hgraph := powerGraph_eq_ok.2 ⟨trail, htrail, rfl⟩
  refine ⟨_, hgraph, fun id hid => ?_⟩
  obtain ⟨root, hroot, hreach⟩ := (mem_keys_of_powerGraph hgraph).1 hid
  clear hid
  induction hreach with
  | refl => exact hpower root hroot
  | tail _ hcites ih => exact hg.cited _ _ ih hcites.1

/-- From a grounded event the graph leads down to events that point at nothing. -/
theorem acc_points (h : powerGraph g powerEvents full = .ok graph) (hid : g.Grounded id) :
    Acc (Points graph) id := by
  induction hid with
  | @intro id e he _ ih =>
    refine .intro id fun target htarget => ?_
    obtain ⟨-, ⟨e', he', hcited⟩, -⟩ := (points_of_powerGraph h).1 htarget
    cases he.symm.trans he'
    exact ih target hcited

/-! ## Standings -/

theorem exists_standingOf (version : RoomVersion) (hg : g.Closed within) (hid : within id) :
    ∃ standing, standingOf g version id = .ok standing := by
  obtain ⟨e, he⟩ := hg.present id hid
  have hcited := hg.exists_cited_get? hid he
  obtain ⟨levels, hlevels⟩ := EventGraph.exists_findCited .powerLevels hcited
  obtain ⟨create, hcreate⟩ := EventGraph.exists_findCited .create hcited
  obtain ⟨level, hlevel⟩ : ∃ level, senderLevel g version e = .ok level := by
    unfold senderLevel
    cases levels with
    | some levels => exact ⟨_, bind_eq_ok.2 ⟨_, hlevels, rfl⟩⟩
    | none =>
      cases create with
      | some create => exact ⟨_, bind_eq_ok.2 ⟨_, hlevels, bind_eq_ok.2 ⟨_, hcreate, rfl⟩⟩⟩
      | none => exact ⟨_, bind_eq_ok.2 ⟨_, hlevels, bind_eq_ok.2 ⟨_, hcreate, rfl⟩⟩⟩
  exact ⟨_, bind_eq_ok.2 ⟨e, EventGraph.get_eq_ok_iff.2 he, bind_eq_ok.2 ⟨level, hlevel, rfl⟩⟩⟩

/-! ## The sort -/

/-- A power sort gives the power events and what they lead to within the set. -/
theorem mem_powerSort (h : powerSort g version powerEvents full = .ok order) :
    id ∈ order ↔ ∃ root ∈ powerEvents, Relation.ReflTransGen (CitesWithin g full) root id := by
  obtain ⟨graph, hgraph, h⟩ := bind_eq_ok.1 h
  obtain ⟨standings, -, h⟩ := bind_eq_ok.1 h
  exact (perm_of_topologicalSort h).mem_iff.trans (mem_keys_of_powerGraph hgraph)

/-- A power sort gives events of the set, each at most once. -/
theorem powerSort_spec (hpower : ∀ id ∈ powerEvents, id ∈ full)
    (h : powerSort g version powerEvents full = .ok order) :
    order.Nodup ∧ ∀ id ∈ order, id ∈ full := by
  refine ⟨?_, fun id hid => ?_⟩
  · obtain ⟨graph, hgraph, h⟩ := bind_eq_ok.1 h
    obtain ⟨standings, -, h⟩ := bind_eq_ok.1 h
    exact (perm_of_topologicalSort h).nodup_iff.2 graph.keySet.nodup_toList
  · obtain ⟨root, hroot, hreach⟩ := (mem_powerSort h).1 hid
    rcases Relation.ReflTransGen.cases_tail hreach with rfl | ⟨_, -, hcites⟩
    · exact hpower id hroot
    · exact hcites.2

/-- What an event leads to within the set is given before it. -/
theorem sublist_of_powerSort (h : powerSort g version powerEvents full = .ok order)
    (hid : id ∈ order) {ancestor : EventId}
    (hreach : Relation.TransGen (CitesWithin g full) id ancestor) :
    [ancestor, id].Sublist order := by
  obtain ⟨graph, hgraph, h⟩ := bind_eq_ok.1 h
  obtain ⟨standings, -, h⟩ := bind_eq_ok.1 h
  have hkeys := (perm_of_topologicalSort h).mem_iff.1 hid
  obtain ⟨root, hroot, hstart⟩ := (mem_keys_of_powerGraph hgraph).1 hkeys
  -- A way within the set is a way in the graph that is sorted.
  have hbelow : Relation.TransGen (Points graph) ancestor id := by
    induction hreach with
    | single hcites => exact .single ((points_of_powerGraph hgraph).2 ⟨hkeys, hcites⟩)
    | @tail mid ancestor hmid hcites ih =>
      have hmid : mid ∈ graph.keys := (mem_keys_of_powerGraph hgraph).2
        ⟨root, hroot, hstart.trans hmid.to_reflTransGen⟩
      exact .head ((points_of_powerGraph hgraph).2 ⟨hmid, hcites⟩) ih
  obtain ⟨before, after, rfl⟩ := List.append_of_mem hid
  have hbefore := mem_of_topologicalSort h hbelow rfl
  exact (List.singleton_sublist.2 hbefore).append (List.cons_sublist_cons.2 (List.nil_sublist _))

/-- A table has something under the key of each of its entries. -/
theorem SortedMap.exists_get?_ofList {κ ν : Type} [Ord κ] [Std.TransOrd κ] [Std.LawfulEqOrd κ]
    [DecidableEq κ] {l : List (κ × ν)} {k : κ} {v : ν} (h : (k, v) ∈ l) :
    ∃ w, (SortedMap.ofList l).get? k = some w := by
  rw [← Option.isSome_iff_exists, ofList, get?_insertAll, get?_empty, Option.or_none,
    Option.isSome_map, List.find?_isSome]
  exact ⟨(k, v), List.mem_reverse.2 h, by simp⟩

/-- Grounded power events can be sorted. -/
theorem exists_powerSort (version : RoomVersion) (full : SortedSet EventId)
    (hpower : ∀ id ∈ powerEvents, g.Grounded id) :
    ∃ order, powerSort g version powerEvents full = .ok order := by
  have hclosed := EventGraph.closed_grounded g
  obtain ⟨graph, hgraph, hgrounded⟩ := exists_powerGraph full hclosed hpower
  obtain ⟨standings, hstandings⟩ := exists_mapM (l := graph.keys)
    (f := fun id => do pure (id, ← standingOf g version id)) fun id hid => by
      obtain ⟨standing, hstanding⟩ := exists_standingOf version hclosed (hgrounded id hid)
      exact ⟨(id, standing), bind_eq_ok.2 ⟨standing, hstanding, rfl⟩⟩
  have hknown : ∀ id ∈ graph.keys, ∃ s, (SortedMap.ofList standings).get? id = some s :=
    fun id hid => by
      obtain ⟨entry, hentry⟩ := Fallible.exists_of_mapM hstandings hid
      obtain ⟨s, -, hs⟩ := bind_eq_ok.1 hentry
      cases pure_eq_ok.1 hs
      exact SortedMap.exists_get?_ofList ((mem_mapM hstandings _).2 ⟨id, hid, hentry⟩)
  have hwithin : ∀ target id, Points graph target id → target ∈ graph.keys :=
    fun target id hpoints => by
      obtain ⟨hid, hcites⟩ := (points_of_powerGraph hgraph).1 hpoints
      obtain ⟨root, hroot, hreach⟩ := (mem_keys_of_powerGraph hgraph).1 hid
      exact (mem_keys_of_powerGraph hgraph).2 ⟨root, hroot, hreach.tail hcites⟩
  rw [powerSort, hgraph, ok_bind, hstandings, ok_bind]
  refine exists_topologicalSort (fun id hid => ?_) hwithin fun id hid =>
    acc_points hgraph (hgrounded id hid)
  obtain ⟨standing, hstanding⟩ := hknown id hid
  exact ⟨standing, by rw [hstanding]⟩

/-! ## Causal order -/

theorem mem_powerEventsOf (h : powerEventsOf g full = .ok powerEvents) :
    id ∈ powerEvents ↔ id ∈ full ∧ ∃ e, g.get? id = some e ∧ isPowerEvent e = true := by
  rw [mem_filterM h, ← SortedSet.mem_def]
  simp only [bind_eq_ok, pure_eq_ok, EventGraph.get_eq_ok_iff]

theorem exists_powerEventsOf (h : ∀ id ∈ full, ∃ e, g.get? id = some e) :
    ∃ powerEvents, powerEventsOf g full = .ok powerEvents := by
  refine exists_filterM fun id hid => ?_
  obtain ⟨e, he⟩ := h id hid
  exact ⟨_, bind_eq_ok.2 ⟨e, EventGraph.get_eq_ok_iff.2 he, rfl⟩⟩

/-- Where every citation is resolved and none leads back, the power events of a dispute are
sorted with all they lead to within it: each of these once, and each behind whatever it leads
to within the dispute. -/
theorem exists_causal_powerSort (g : EventGraph) (version : RoomVersion) (maps : List StateMap)
    (hcited : ∀ id cited, g.Cites id cited → ∃ e, g.get? cited = some e)
    (hacyclic : ∀ id, ¬ Relation.TransGen g.Cites id id)
    (hmaps : ∀ m ∈ maps, ∀ id ∈ m.eventIds, ∃ e, g.get? id = some e) :
    ∃ full powerEvents order,
      fullConflictedSet g (Conflicts.separate maps) maps = .ok full ∧
        powerEventsOf g full = .ok powerEvents ∧
        powerSort g version powerEvents full = .ok order ∧
        (∀ id, id ∈ powerEvents ↔ id ∈ full ∧ ∃ e, g.get? id = some e ∧ isPowerEvent e = true) ∧
        order.Nodup ∧
        (∀ id, id ∈ order ↔
          ∃ power ∈ powerEvents, Relation.ReflTransGen (CitesWithin g full) power id) ∧
        ∀ id ∈ order, ∀ ancestor, Relation.TransGen (CitesWithin g full) id ancestor →
          [ancestor, id].Sublist order := by
  have hground : ∀ id, (∃ e, g.get? id = some e) → g.Grounded id := fun id ⟨_, he⟩ =>
    EventGraph.grounded_of_acyclic hcited hacyclic he
  have hclosed := EventGraph.closed_grounded g
  obtain ⟨full, hfull, hwithin⟩ := exists_fullConflictedSet hclosed fun m hm id hid =>
    hground id (hmaps m hm id hid)
  obtain ⟨powerEvents, hpower⟩ := exists_powerEventsOf fun id hid =>
    hclosed.present id (hwithin id hid)
  have hmem : ∀ id, id ∈ powerEvents ↔ _ := fun id => mem_powerEventsOf hpower
  obtain ⟨order, horder⟩ := exists_powerSort version full fun id hid =>
    hwithin id ((hmem id).1 hid).1
  obtain ⟨hnodup, -⟩ := powerSort_spec (fun id hid => ((hmem id).1 hid).1) horder
  exact ⟨full, powerEvents, order, hfull, hpower, horder, hmem, hnodup,
    fun id => mem_powerSort horder, fun id hid ancestor => sublist_of_powerSort horder hid⟩

/-- Power levels by the creator of the room. -/
def hallLevels (id : EventId) (timestamp : Nat) (cited : List EventId) : Event :=
  { Event.blank id soleCreate.room soleCreate.sender EventType.powerLevels with
    timestamp := timestamp
    content := .object [("users", .object [("@ann:hall", .integer 100)])]
    stateKey := some ""
    authEvents := soleCreate.id :: cited }

def firstLevels : Event := hallLevels ⟨"$first", by decide⟩ 30 []

def secondLevels : Event := hallLevels ⟨"$second", by decide⟩ 40 [firstLevels.id]

/-- The clock of its server was late. -/
def thirdLevels : Event := hallLevels ⟨"$third", by decide⟩ 20 [secondLevels.id]

def levelsTopic : Event :=
  { Event.blank ⟨"$topicSecond", by decide⟩ soleCreate.room soleCreate.sender "m.room.topic" with
    stateKey := some ""
    authEvents := [soleCreate.id, secondLevels.id] }

def levelsGraph : EventGraph :=
  .ofEvents [soleCreate, firstLevels, secondLevels, thirdLevels, levelsTopic]

/-- A state with a topic, under some power levels. -/
def levelsState (levels : Event) : StateMap :=
  (createdState.insert ⟨"m.room.topic", ""⟩ levelsTopic.id).insert .powerLevels levels.id

theorem verifyAcyclic_levelsGraph : levelsGraph.verifyAcyclic 100 = .ok () := by
  decide +kernel

theorem exists_get?_levelsState : ∀ levels ∈ [firstLevels, secondLevels, thirdLevels],
    ∀ id ∈ (levelsState levels).eventIds, ∃ e, levelsGraph.get? id = some e := by
  have hheld : ∀ levels ∈ [firstLevels, secondLevels, thirdLevels],
      ∀ id ∈ (levelsState levels).eventIds, (levelsGraph.get? id).isSome = true := by
    decide +kernel
  exact fun levels hlevels id hid => Option.isSome_iff_exists.1 (hheld levels hlevels id hid)

/-- Between the second levels and the third, the third come last, whatever they say of the
time. -/
theorem exists_causal_powerSort_thirdLevels :
    (∀ id cited, levelsGraph.Cites id cited → ∃ e, levelsGraph.get? cited = some e) ∧
      (∀ id, ¬ Relation.TransGen levelsGraph.Cites id id) ∧
      (∀ m ∈ [levelsState secondLevels, levelsState thirdLevels], ∀ id ∈ m.eventIds,
        ∃ e, levelsGraph.get? id = some e) ∧
      ∃ full powerEvents order,
        powerEventsOf levelsGraph full = .ok powerEvents ∧
        powerSort levelsGraph .v10 powerEvents full = .ok order ∧
        [secondLevels.id, thirdLevels.id].Sublist order := by
  obtain ⟨hcited, hacyclic⟩ := EventGraph.acyclic_of_verifyAcyclic verifyAcyclic_levelsGraph
  have hmaps : ∀ m ∈ [levelsState secondLevels, levelsState thirdLevels], ∀ id ∈ m.eventIds,
      ∃ e, levelsGraph.get? id = some e := by
    refine List.forall_mem_cons.2 ⟨?_, List.forall_mem_singleton.2 ?_⟩
    · exact exists_get?_levelsState secondLevels (by simp)
    · exact exists_get?_levelsState thirdLevels (by simp)
  obtain ⟨full, powerEvents, order, hfull, hpower, horder, hmem, -, hall, hbefore⟩ :=
    exists_causal_powerSort levelsGraph .v10 _ hcited hacyclic hmaps
  have hdisputed : ∀ id ∈ [secondLevels.id, thirdLevels.id], id ∈ full := by
    intro id hid
    refine (mem_fullConflictedSet hfull).2 (.inr ?_)
    revert id
    decide +kernel
  have hthird : thirdLevels.id ∈ powerEvents :=
    (hmem _).2 ⟨hdisputed _ (by simp), thirdLevels, rfl, by decide⟩
  have hcites : CitesWithin levelsGraph full thirdLevels.id secondLevels.id :=
    ⟨⟨thirdLevels, rfl, by decide⟩, hdisputed _ (by simp)⟩
  exact ⟨hcited, hacyclic, hmaps, full, powerEvents, order, hpower, horder,
    hbefore _ ((hall _).2 ⟨_, hthird, .refl⟩) _ (.single hcites)⟩

/-- Between the first levels and the third, which lead to the first through the second, the
third come first: the second are not disputed, as the topic of both states leads to them. -/
theorem power_sort_past_gap :
    (∀ id cited, levelsGraph.Cites id cited → ∃ e, levelsGraph.get? cited = some e) ∧
      (∀ id, ¬ Relation.TransGen levelsGraph.Cites id id) ∧
      (∀ m ∈ [levelsState firstLevels, levelsState thirdLevels], ∀ id ∈ m.eventIds,
        ∃ e, levelsGraph.get? id = some e) ∧
      Relation.TransGen levelsGraph.Cites thirdLevels.id firstLevels.id ∧
      ∃ full powerEvents order,
        fullConflictedSet levelsGraph
          (Conflicts.separate [levelsState firstLevels, levelsState thirdLevels])
          [levelsState firstLevels, levelsState thirdLevels] = .ok full ∧
        powerEventsOf levelsGraph full = .ok powerEvents ∧
        powerSort levelsGraph .v10 powerEvents full = .ok order ∧
        order = [thirdLevels.id, firstLevels.id] := by
  obtain ⟨hcited, hacyclic⟩ := EventGraph.acyclic_of_verifyAcyclic verifyAcyclic_levelsGraph
  have hmaps : ∀ m ∈ [levelsState firstLevels, levelsState thirdLevels], ∀ id ∈ m.eventIds,
      ∃ e, levelsGraph.get? id = some e := by
    refine List.forall_mem_cons.2 ⟨?_, List.forall_mem_singleton.2 ?_⟩
    · exact exists_get?_levelsState firstLevels (by simp)
    · exact exists_get?_levelsState thirdLevels (by simp)
  have hsecond : levelsGraph.Cites thirdLevels.id secondLevels.id := ⟨thirdLevels, rfl, by decide⟩
  have hfirst : levelsGraph.Cites secondLevels.id firstLevels.id := ⟨secondLevels, rfl, by decide⟩
  have hrun : (do
      let maps := [levelsState firstLevels, levelsState thirdLevels]
      let full ← fullConflictedSet levelsGraph (Conflicts.separate maps) maps
      let powerEvents ← powerEventsOf levelsGraph full
      powerSort levelsGraph .v10 powerEvents full).toOption.any
        (fun order => decide (order = [thirdLevels.id, firstLevels.id])) = true := by
    decide +kernel
  obtain ⟨order, hsort, horder⟩ := Fallible.exists_of_any hrun
  obtain ⟨full, hfull, hsort⟩ := bind_eq_ok.1 hsort
  obtain ⟨powerEvents, hpower, hsort⟩ := bind_eq_ok.1 hsort
  exact ⟨hcited, hacyclic, hmaps, .tail (.single hsecond) hfirst, full, powerEvents, order, hfull,
    hpower, hsort, of_decide_eq_true horder⟩

end StateResolution
