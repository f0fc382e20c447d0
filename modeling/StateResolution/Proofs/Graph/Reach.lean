import Mathlib.Logic.Relation
import StateResolution.Graph.Chain
import StateResolution.Proofs.Fallible

/-!
# Reachability

What an event leads to by citations.  Ids that a graph holds together with all they cite
are a closed part of it (`EventGraph.Closed`).  A walk that starts in a closed part meets
no gap, so it succeeds; and no walk that starts in a part that citations do not lead out
of comes out of it (`explore_keeps`).
-/

namespace StateResolution

open Fallible (bind_eq_ok pure_eq_ok exists_foldlM foldlM_keeps)

namespace EventGraph

def Cites (g : EventGraph) (id cited : EventId) : Prop :=
  ∃ e, g.get? id = some e ∧ cited ∈ e.authEvents

/-- An event leads to another by citations, in any number of steps. -/
def Reaches (g : EventGraph) : EventId → EventId → Prop := Relation.ReflTransGen g.Cites

/-- The graph holds some ids, and all that they cite is among them. -/
structure Closed (g : EventGraph) (within : EventId → Prop) : Prop where
  present : ∀ id, within id → ∃ e, g.get? id = some e
  cited : ∀ id cited, within id → g.Cites id cited → within cited

variable {g : EventGraph} {id : EventId} {e : Event}

theorem get_congr {g' : EventGraph} (h : g.get? id = g'.get? id) : g.get id = g'.get id := by
  rw [get, get, h]

/-- Of the events put in under an id the last is there, else what was there before. -/
theorem get?_insertAll (g : EventGraph) (es : List Event) (id : EventId) :
    (g.insertAll es).get? id = (es.filter (·.id = id)).getLast?.or (g.get? id) := by
  induction es generalizing g with
  | nil => rfl
  | cons d es ih =>
    have hfirst : (g.insertAll (d :: es)).get? id = ((g.insert d).insertAll es).get? id := rfl
    rw [hfirst, ih, get?_insert]
    by_cases hid : d.id = id
    · rw [if_pos hid.symm, List.filter_cons_of_pos (by simpa using hid), List.getLast?_cons]
      cases (es.filter (·.id = id)).getLast? <;> rfl
    · rw [if_neg (Ne.symm hid), List.filter_cons_of_neg (by simpa using hid)]

theorem mem_of_get?_insertAll {es : List Event} (h : (g.insertAll es).get? id = some e) :
    e ∈ es ∧ e.id = id ∨ g.get? id = some e := by
  rw [get?_insertAll, Option.or_eq_some_iff] at h
  rcases h with hlast | ⟨-, hg⟩
  · exact .inl (by simpa using List.mem_of_getLast? hlast)
  · exact .inr hg

theorem mem_of_get?_ofEvents {es : List Event} (h : (ofEvents es).get? id = some e) :
    e ∈ es ∧ e.id = id :=
  (mem_of_get?_insertAll h).resolve_right nofun

theorem exists_get?_insertAll {es : List Event} (h : ∃ e, g.get? id = some e) :
    ∃ e, (g.insertAll es).get? id = some e := by
  obtain ⟨e, he⟩ := h
  rw [get?_insertAll, he]
  cases (es.filter (·.id = id)).getLast? with
  | none => exact ⟨e, rfl⟩
  | some d => exact ⟨d, rfl⟩

theorem exists_get?_insertAll_of_mem {es : List Event} (h : e ∈ es) :
    ∃ e', (g.insertAll es).get? e.id = some e' := by
  rw [get?_insertAll]
  have hmem : e ∈ es.filter (·.id = e.id) := List.mem_filter.2 ⟨h, by simp⟩
  rw [List.getLast?_eq_some_getLast (List.ne_nil_of_mem hmem)]
  exact ⟨_, rfl⟩

theorem exists_get?_ofEvents {es : List Event} (h : e ∈ es) :
    ∃ e', (ofEvents es).get? e.id = some e' :=
  exists_get?_insertAll_of_mem h

end EventGraph

/-! ## Citations -/

namespace EventGraph

variable {g : EventGraph} {within : EventId → Prop} {id : EventId} {e : Event} {place : StateKey}
  {ids : List EventId}

/-- A search among events of the graph meets no gap. -/
theorem findCited_eq_ok (place : StateKey) (h : ∀ id ∈ ids, ∃ e, g.get? id = some e) :
    g.findCited place ids = .ok ((ids.filterMap g.get?).find? (·.holds place)) := by
  induction ids with
  | nil => rfl
  | cons id ids ih =>
    obtain ⟨e, he⟩ := h id List.mem_cons_self
    rw [findCited, get_eq_ok_iff.2 he, Fallible.ok_bind, List.filterMap_cons_some he,
      List.find?_cons, ih fun i hi => h i (List.mem_cons_of_mem _ hi)]
    cases e.holds place <;> rfl

theorem exists_findCited (place : StateKey) (h : ∀ id ∈ ids, ∃ e, g.get? id = some e) :
    ∃ found, g.findCited place ids = .ok found :=
  ⟨_, findCited_eq_ok place h⟩

/-- What a search finds is one of the events. -/
theorem mem_of_findCited (h : g.findCited place ids = .ok (some e)) :
    ∃ id ∈ ids, g.get? id = some e := by
  induction ids with
  | nil => cases h
  | cons id ids ih =>
    obtain ⟨d, hd, h⟩ := bind_eq_ok.1 h
    split at h
    · cases pure_eq_ok.1 h
      exact ⟨id, List.mem_cons_self, get_eq_ok_iff.1 hd⟩
    · obtain ⟨i, hi, he⟩ := ih h
      exact ⟨i, List.mem_cons_of_mem _ hi, he⟩

/-- What an event of a closed part cites is in the graph. -/
theorem Closed.exists_cited_get? (hg : g.Closed within) (hid : within id)
    (he : g.get? id = some e) : ∀ cited ∈ e.authEvents, ∃ c, g.get? cited = some c :=
  fun cited hcited => hg.present cited (hg.cited id cited hid ⟨e, he, hcited⟩)

end EventGraph

/-! ## Walks -/

variable {next : EventId → Except Error (List EventId)} {within : EventId → Prop}

/-- A walk succeeds where each step does. -/
theorem exists_explore
    (hnext : ∀ id, within id → ∃ targets, next id = .ok targets ∧ ∀ t ∈ targets, within t)
    (bound : Nat) (trail : Trail) (id : EventId) (hid : within id) :
    ∃ found, explore next bound trail id = .ok found := by
  induction bound generalizing trail id with
  | zero => exact ⟨trail, rfl⟩
  | succ bound ih =>
    unfold explore
    split
    · exact ⟨trail, rfl⟩
    · obtain ⟨targets, htargets, hwithin⟩ := hnext id hid
      obtain ⟨found, hfound⟩ := exists_foldlM
        (fun t ht trail => ih trail t (hwithin t (List.mem_reverse.1 ht))) (trail.insert id targets)
      exact ⟨found, bind_eq_ok.2 ⟨targets, htargets, hfound⟩⟩

/-- A walk does not leave what its steps do not lead out of. -/
theorem explore_keeps
    (hnext : ∀ id targets, within id → next id = .ok targets → ∀ t ∈ targets, within t)
    {bound : Nat} {trail found : Trail} {id : EventId} (hid : within id)
    (htrail : ∀ k, trail.contains k = true → within k)
    (h : explore next bound trail id = .ok found) :
    ∀ k, found.contains k = true → within k := by
  induction bound generalizing trail found id with
  | zero =>
    cases h
    exact htrail
  | succ bound ih =>
    unfold explore at h
    split at h
    · cases h
      exact htrail
    · obtain ⟨targets, htargets, hfound⟩ := bind_eq_ok.1 h
      refine foldlM_keeps (P := fun t : Trail => ∀ k, t.contains k = true → within k) ?_ ?_ hfound
      · intro t ht c c' hc hc'
        exact ih (hnext id targets hid htargets t (List.mem_reverse.1 ht)) hc hc'
      · intro k hk
        rw [SortedMap.contains, SortedMap.get?_insert] at hk
        split at hk
        · next heq => exact heq ▸ hid
        · exact htrail k hk

namespace EventGraph

variable {g : EventGraph}

theorem cited_eq_ok {id : EventId} {targets : List EventId} :
    g.cited id = .ok targets ↔ ∃ e, g.get? id = some e ∧ e.authEvents = targets := by
  simp only [cited, bind_eq_ok, pure_eq_ok, get_eq_ok_iff]

/-- What a closed part cites can be asked for, and is in it. -/
theorem Closed.exists_cited (h : g.Closed within) (id : EventId) (hid : within id) :
    ∃ targets, g.cited id = .ok targets ∧ ∀ t ∈ targets, within t := by
  obtain ⟨e, he⟩ := h.present id hid
  exact ⟨e.authEvents, cited_eq_ok.2 ⟨e, he, rfl⟩, fun t ht => h.cited id t hid ⟨e, he, ht⟩⟩

theorem Closed.exists_authChain (h : g.Closed within) {id : EventId} (hid : within id) :
    ∃ chain, g.authChain id = .ok chain := by
  obtain ⟨targets, htargets, hwithin⟩ := h.exists_cited id hid
  obtain ⟨found, hfound⟩ := exists_foldlM (f := explore g.cited (g.size + 1))
    (fun t ht trail => exists_explore h.exists_cited _ trail t (hwithin t (List.mem_reverse.1 ht)))
    .empty
  exact ⟨found.keySet, bind_eq_ok.2 ⟨targets, htargets, bind_eq_ok.2 ⟨found, hfound, rfl⟩⟩⟩

/-- A chain does not leave a closed part. -/
theorem Closed.mem_authChain (h : g.Closed within) {id : EventId} (hid : within id)
    {chain : SortedSet EventId} (hchain : g.authChain id = .ok chain) :
    ∀ ancestor ∈ chain, within ancestor := by
  obtain ⟨targets, htargets, hchain⟩ := bind_eq_ok.1 hchain
  obtain ⟨found, hfound, hkeys⟩ := bind_eq_ok.1 hchain
  cases pure_eq_ok.1 hkeys
  obtain ⟨e, he, rfl⟩ := cited_eq_ok.1 htargets
  have hcited : ∀ t ∈ e.authEvents, within t := fun t ht => h.cited id t hid ⟨e, he, ht⟩
  have hwithin : ∀ k, found.contains k = true → within k := by
    refine foldlM_keeps (P := fun t : Trail => ∀ k, t.contains k = true → within k) ?_ ?_ hfound
    · intro t ht trail trail' htrail hstep
      refine explore_keeps (fun id ts hid hts t ht => ?_) (hcited t (List.mem_reverse.1 ht)) htrail
        hstep
      obtain ⟨d, hd, rfl⟩ := cited_eq_ok.1 hts
      exact h.cited id t hid ⟨d, hd, ht⟩
    · intro k hk
      cases hk
  exact fun ancestor hancestor => hwithin ancestor (SortedMap.mem_keySet.1 hancestor)

end EventGraph

end StateResolution
