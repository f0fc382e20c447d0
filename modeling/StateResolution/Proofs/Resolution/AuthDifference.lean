import StateResolution.Proofs.Graph.Descent
import StateResolution.Proofs.Graph.Explore
import StateResolution.Proofs.Resolution.Conflicts

/-!
# What only some states rest on

The full chain of a state is put together event by event.  An event that is in it already is
passed over, and its own chain is not looked up again.  Nothing is lost by that, neither an
ancestor nor a gap: at any time a chain is exactly what the events so far lead to, and the graph
has all of it (`WholeChain`).

So a state has a full chain if and only if its events lead to no gap, also in a graph with cycles
(`fullChain_eq_ok_iff`), and the auth difference is what some states lead to and others do not
(`authDifference_by_reach`).
-/

namespace StateResolution

open EventGraph (cited_eq_ok reachedFrom_append reachedFrom_singleton reaches_iff)
open Fallible (bind_eq_ok pure_eq_ok exists_mapM exists_of_mapM)

/-- A chain is exactly what some events lead to, and nothing of it is missing. -/
structure WholeChain (g : EventGraph) (starts : List EventId) (chain : SortedSet EventId) :
    Prop where
  reached : ∀ id, id ∈ chain ↔ g.ReachedFrom starts id
  present : ∀ id ∈ chain, ∃ e, g.get? id = some e

variable {g : EventGraph} {starts ids : List EventId} {chain full : SortedSet EventId}
  {id : EventId} {m : StateMap} {maps : List StateMap}

/-! ## The chain of one event -/

theorem leads_cited : Leads g.cited = g.Cites := by
  funext id target
  refine propext ⟨?_, ?_⟩
  · rintro ⟨targets, htargets, hmem⟩
    obtain ⟨e, he, rfl⟩ := cited_eq_ok.1 htargets
    exact ⟨e, he, hmem⟩
  · rintro ⟨e, he, hmem⟩
    exact ⟨e.authEvents, cited_eq_ok.2 ⟨e, he, rfl⟩, hmem⟩

theorem explored_of_authChain (h : g.authChain id = .ok chain) :
    ∃ e found, g.get? id = some e ∧ Explored g.cited e.authEvents.reverse .empty found ∧
      found.keySet = chain := by
  obtain ⟨targets, htargets, h⟩ := bind_eq_ok.1 h
  obtain ⟨e, he, rfl⟩ := cited_eq_ok.1 htargets
  obtain ⟨found, hfound, hkeys⟩ := bind_eq_ok.1 h
  refine ⟨e, found, he, EventGraph.explored_of_foldlM_explore (fun id targets hid => ?_) hfound,
    pure_eq_ok.1 hkeys⟩
  obtain ⟨d, hd, -⟩ := cited_eq_ok.1 hid
  exact SortedMap.mem_keys_iff.2 ⟨d, hd⟩

/-- The auth chain of an event is what it leads to, less the event itself where nothing leads
back to it. -/
theorem wholeChain_of_authChain (h : g.authChain id = .ok chain) :
    WholeChain g [id] (chain.insert id) := by
  obtain ⟨e, found, he, hfound, rfl⟩ := explored_of_authChain h
  constructor
  case reached =>
    intro a
    rw [SortedSet.mem_insert, SortedMap.mem_keySet, contains_iff_of_explored hfound, leads_cited,
      reachedFrom_singleton, reaches_iff he]
    simp only [List.mem_reverse]
    rfl
  case present =>
    intro a ha
    rcases SortedSet.mem_insert.1 ha with rfl | ha
    · exact ⟨e, he⟩
    · obtain ⟨targets, htargets⟩ := SortedMap.contains_iff.1 (SortedMap.mem_keySet.1 ha)
      obtain ⟨d, hd, -⟩ := cited_eq_ok.1 (hfound.entry_of_empty htargets).1
      exact ⟨d, hd⟩

/-! ## The chain of a state -/

/-- An event that is in a whole chain adds nothing to it. -/
theorem WholeChain.append_of_mem (h : WholeChain g starts chain) (hid : id ∈ chain) :
    WholeChain g (starts ++ [id]) chain where
  reached a := by
    rw [h.reached, reachedFrom_append, reachedFrom_singleton, iff_self_or]
    exact ((h.reached id).1 hid).reaches
  present := h.present

theorem WholeChain.append {ancestors : SortedSet EventId} (h : WholeChain g starts chain)
    (hancestors : WholeChain g [id] (ancestors.insert id)) :
    WholeChain g (starts ++ [id]) ((chain.insert id).union ancestors) := by
  have hmem : ∀ a, a ∈ (chain.insert id).union ancestors ↔ a ∈ chain ∨ a ∈ ancestors.insert id :=
    fun a => by simp only [SortedSet.mem_union, SortedSet.mem_insert, or_left_comm, or_assoc]
  constructor
  case reached =>
    intro a
    rw [hmem, h.reached, hancestors.reached, reachedFrom_append]
  case present =>
    intro a ha
    exact ((hmem a).1 ha).elim (h.present a) (hancestors.present a)

/-- A whole chain is extended to a whole chain. -/
theorem WholeChain.extend (hchain : WholeChain g starts chain)
    (h : extendChain g chain ids = .ok full) : WholeChain g (starts ++ ids) full := by
  induction ids generalizing starts chain with
  | nil =>
    cases h
    rwa [List.append_nil]
  | cons id ids ih =>
    rw [List.append_cons]
    unfold extendChain at h
    split at h
    · next hid => exact ih (hchain.append_of_mem hid) h
    · obtain ⟨ancestors, hancestors, h⟩ := bind_eq_ok.1 h
      exact ih (hchain.append (wholeChain_of_authChain hancestors)) h

theorem WholeChain.unique (h : WholeChain g starts chain) (h' : WholeChain g starts full) :
    chain = full :=
  SortedSet.ext fun a => (h.reached a).trans (h'.reached a).symm

/-- What some events lead to is a closed part of the graph, when it is there. -/
theorem closed_reachedFrom (h : ∀ id, g.ReachedFrom starts id → ∃ e, g.get? id = some e) :
    g.Closed (g.ReachedFrom starts) where
  present := h
  cited _ _ hid hcites := hid.reaches (.single hcites)

theorem exists_fullChain (h : ∀ id, g.ReachedFrom m.eventIds id → ∃ e, g.get? id = some e) :
    ∃ chain, fullChain g m = .ok chain :=
  exists_extendChain (closed_reachedFrom h) (fun id hid => ⟨id, hid, .refl⟩) .empty

theorem fullChain_eq_ok_iff : fullChain g m = .ok chain ↔ WholeChain g m.eventIds chain := by
  have hnothing : WholeChain g [] .empty := ⟨fun id => by simp [EventGraph.ReachedFrom], by simp⟩
  have hwhole : ∀ {chain}, fullChain g m = .ok chain → WholeChain g m.eventIds chain :=
    hnothing.extend
  refine ⟨hwhole, fun h => ?_⟩
  obtain ⟨found, hfound⟩ := exists_fullChain fun id hid => h.present id ((h.reached id).2 hid)
  rw [hfound, (hwhole hfound).unique h]

/-! ## The difference -/

/-- Where there is an auth difference, each state has a full chain. -/
theorem exists_wholeChain {difference : SortedSet EventId}
    (h : authDifference g maps = .ok difference) (hm : m ∈ maps) :
    ∃ chain, fullChain g m = .ok chain ∧ WholeChain g m.eventIds chain := by
  obtain ⟨chains, hchains, -⟩ := bind_eq_ok.1 h
  obtain ⟨chain, hchain⟩ := exists_of_mapM hchains hm
  exact ⟨chain, hchain, fullChain_eq_ok_iff.1 hchain⟩

/-- Some states have an auth difference if and only if the graph has everything that their events
lead to.  It is what one of them leads to and another does not. -/
theorem authDifference_by_reach (g : EventGraph) (maps : List StateMap) :
    ((∃ difference, authDifference g maps = .ok difference) ↔
      ∀ m ∈ maps, ∀ id, g.ReachedFrom m.eventIds id → ∃ e, g.get? id = some e) ∧
    (∀ difference, authDifference g maps = .ok difference → ∀ id, id ∈ difference ↔
      (∃ m ∈ maps, g.ReachedFrom m.eventIds id) ∧ ∃ m ∈ maps, ¬ g.ReachedFrom m.eventIds id) ∧
    authDifference g [] = .ok .empty := by
  refine ⟨⟨?_, fun h => ?_⟩, fun difference h id => ?_, rfl⟩
  · rintro ⟨difference, h⟩ m hm id hid
    obtain ⟨chain, -, hwhole⟩ := exists_wholeChain h hm
    exact hwhole.present id ((hwhole.reached id).2 hid)
  · obtain ⟨chains, hchains⟩ := exists_mapM fun m hm => exists_fullChain (h m hm)
    exact ⟨_, bind_eq_ok.2 ⟨chains, hchains, rfl⟩⟩
  · rw [mem_authDifference h]
    refine and_congr (exists_congr fun m => and_congr_right fun hm => ?_)
      (exists_congr fun m => and_congr_right fun hm => ?_)
    all_goals
      obtain ⟨chain, hchain, hwhole⟩ := exists_wholeChain h hm
      simp [hchain, hwhole.reached]

def tieId : EventId := ⟨"$tie", by decide⟩

/-- A topic and a name that cite each other. -/
def knot : Event :=
  { Event.blank ⟨"$knot", by decide⟩ soleCreate.room soleCreate.sender "m.room.topic" with
    stateKey := some ""
    authEvents := [soleCreate.id, tieId] }

def tie : Event :=
  { Event.blank tieId soleCreate.room soleCreate.sender "m.room.name" with
    stateKey := some ""
    authEvents := [knot.id] }

def knotGraph : EventGraph := .ofEvents [soleCreate, knot, tie]

/-- Of two states only one has the topic, and no state has the name. -/
def knotStates : List StateMap :=
  [createdState, createdState.insert ⟨"m.room.topic", ""⟩ knot.id]

theorem authDifference_by_reach_knot :
    ∃ difference, authDifference knotGraph knotStates = .ok difference ∧
      tie.id ∈ difference ∧ soleCreate.id ∉ difference ∧
      (∃ m ∈ knotStates, ¬ knotGraph.ReachedFrom m.eventIds tie.id) ∧
      ∀ m ∈ knotStates, knotGraph.ReachedFrom m.eventIds soleCreate.id := by
  have hrun : (authDifference knotGraph knotStates).toOption.any (fun difference =>
      decide (tie.id ∈ difference ∧ soleCreate.id ∉ difference)) = true := by
    decide +kernel
  obtain ⟨difference, h, hboth⟩ := Fallible.exists_of_any hrun
  obtain ⟨htie, hcreate⟩ := of_decide_eq_true hboth
  obtain ⟨-, hmem, -⟩ := authDifference_by_reach knotGraph knotStates
  obtain ⟨hsome, hother⟩ := (hmem difference h tie.id).1 htie
  refine ⟨difference, h, htie, hcreate, hother, fun m hm => by_contra fun hnot => hcreate ?_⟩
  have hheld : ∃ m ∈ knotStates, knotGraph.ReachedFrom m.eventIds soleCreate.id :=
    ⟨createdState, List.mem_cons_self, soleCreate.id, by decide, .refl⟩
  exact (hmem difference h soleCreate.id).2 ⟨hheld, m, hm, hnot⟩

end StateResolution
