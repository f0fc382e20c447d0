import Mathlib.Data.List.Perm.Subperm
import StateResolution.Proofs.Store.Closure

/-!
# Stores that lose events

A store can be out of order, and it can be without some of its events for a time.  An event
that it does hand out is always the same, so at any time the store is part of one graph
(`PartOf`), though in what order it answers is its own affair.

The closure walk goes on only as long as nothing is missing.  So what it brings back from one
part of a graph it brings back from any other that has lost nothing the walk asks for
(`outcome_load_of_partOf`).  Two such walks come across the same ids level by level and differ
in no more than the order in which they load (`Walk.Alike`).
-/

namespace StateResolution

open Fallible (bind_eq_ok pure_eq_ok)

namespace EventGraph

variable {g g' : EventGraph} {es es' : List Event} {id : EventId} {e : Event}

theorem eq_of_get? (h : ∀ id, g.get? id = g'.get? id) : g = g' := by
  obtain ⟨events, hkeyed⟩ := g
  obtain ⟨events', hkeyed'⟩ := g'
  cases SortedMap.ext h
  rfl

/-- Of events that belong to a graph no two have one id, so each is found under its own. -/
theorem get?_ofEvents_iff (hes : ∀ e ∈ es, g.get? e.id = some e) :
    (ofEvents es).get? id = some e ↔ e ∈ es ∧ e.id = id := by
  constructor
  · exact mem_of_get?_ofEvents
  · rintro ⟨he, rfl⟩
    obtain ⟨d, hd⟩ := exists_get?_ofEvents he
    obtain ⟨hmem, hid⟩ := mem_of_get?_ofEvents hd
    have hsame := hes d hmem
    rw [hid, hes e he] at hsame
    cases hsame
    exact hd

theorem ofEvents_congr (hes : ∀ e ∈ es, g.get? e.id = some e) (h : es.Perm es') :
    ofEvents es = ofEvents es' := by
  have hes' : ∀ e ∈ es', g.get? e.id = some e := fun e he => hes e (h.mem_iff.2 he)
  refine eq_of_get? fun id => Option.ext fun e => ?_
  rw [get?_ofEvents_iff hes, get?_ofEvents_iff hes', h.mem_iff]

end EventGraph

namespace EventStore

/-- Whatever the store hands out was asked for and is in the graph.  It may leave events out,
and it may fail. -/
def PartOf (s : EventStore) (g : EventGraph) : Prop :=
  ∀ ids es, s.answer ids = .ok es → es.Subperm (ids.filterMap g.get?)

/-- The store has lost nothing of a part of the graph: asked for different ids of the part it
hands out all that the graph has of them. -/
def Holds (s : EventStore) (g : EventGraph) (within : EventId → Prop) : Prop :=
  ∀ ids : List EventId, ids.Nodup → (∀ id ∈ ids, within id) →
    ∃ es, s.answer ids = .ok es ∧ es.Perm (ids.filterMap g.get?)

/-- A store that has lost events is part of the graph that has them. -/
theorem partOf_of_le {g g' : EventGraph} (h : ∀ id e, g'.get? id = some e → g.get? id = some e) :
    (ofGraph g').PartOf g := by
  intro ids es hes
  cases hes
  refine List.Sublist.subperm ?_
  induction ids with
  | nil => exact .slnil
  | cons id ids ih =>
    cases hid : g'.get? id with
    | some e =>
      rw [List.filterMap_cons_some hid, List.filterMap_cons_some (h id e hid)]
      exact ih.cons_cons e
    | none =>
      rw [List.filterMap_cons_none hid]
      exact ih.trans ((List.sublist_cons_self id ids).filterMap _)

theorem partOf_ofGraph (g : EventGraph) : (ofGraph g).PartOf g := partOf_of_le fun _ _ h => h

theorem PartOf.withOutage {s : EventStore} {g : EventGraph} (h : s.PartOf g) (o : Outage) :
    (s.withOutage o).PartOf g := by
  intro ids es hes
  simp only [EventStore.withOutage] at hes
  split at hes
  · cases hes
  · exact h ids es hes

theorem holds_ofGraph (g : EventGraph) (within : EventId → Prop) : (ofGraph g).Holds g within :=
  fun _ _ _ => ⟨_, rfl, .refl _⟩

variable {g loaded : EventGraph} {within : EventId → Prop} {s s' : EventStore}
  {w w' v : Walk} {row roots : List EventId} {es es' : List Event} {i : EventId}
  {batch limit levels : Nat}

/-! ## Two walks -/

/-- Two walks within a part of a graph have come equally far. -/
structure Walk.Alike (g : EventGraph) (within : EventId → Prop) (w w' : Walk) : Prop where
  seen : w.seen = w'.seen
  next : w.next = w'.next
  loaded : w.loaded.Perm w'.loaded
  stored : ∀ e ∈ w.loaded, g.get? e.id = some e
  within : ∀ id ∈ w.next, within id

/-- Walks stay alike when they load the same events of a row. -/
theorem Walk.Alike.load (hcited : ∀ id cited, within id → g.Cites id cited → within cited)
    (h : w.Alike g within w') (hrow : ∀ id ∈ row, within id)
    (hes : es.Perm (row.filterMap g.get?)) (hes' : es'.Perm (row.filterMap g.get?)) :
    (es.foldl Walk.load w).Alike g within (es'.foldl Walk.load w') := by
  have hperm : es.Perm es' := hes.trans hes'.symm
  have hfrom : ∀ e ∈ es, ∃ id ∈ row, g.get? id = some e := fun e he =>
    List.mem_filterMap.1 (hes.mem_iff.1 he)
  constructor
  case seen =>
    refine SortedSet.ext fun i => ?_
    simp only [mem_seen_foldl_load, h.seen, hperm.mem_iff]
  case next =>
    refine SortedSet.ext fun i => ?_
    simp only [mem_next_foldl_load, h.seen, h.next, hperm.mem_iff]
  case loaded =>
    rw [loaded_foldl_load, loaded_foldl_load]
    exact ((es.reverse_perm.trans hperm).trans es'.reverse_perm.symm).append h.loaded
  case stored =>
    intro e he
    rw [loaded_foldl_load, List.mem_append, List.mem_reverse] at he
    rcases he with hnew | hold
    · obtain ⟨id, -, hid⟩ := hfrom e hnew
      rw [g.keyed id e hid]
      exact hid
    · exact h.stored e hold
  case within =>
    intro i hi
    rcases (mem_next_foldl_load es w).1 hi with hold | ⟨-, e, he, hcites⟩
    · exact h.within i hold
    · obtain ⟨id, hid, hget⟩ := hfrom e he
      exact hcited id i (hrow id hid) ⟨e, hget, hcites⟩

/-- A row that one part of the graph supplies in full is supplied by any that holds it. -/
theorem exists_loadRow (hs : s.PartOf g) (hs' : s'.Holds g within)
    (hcited : ∀ id cited, within id → g.Cites id cited → within cited)
    (hnodup : row.Nodup) (hrow : ∀ id ∈ row, within id) (halike : w.Alike g within w')
    (h : (loadRow s w row).outcome = .ok v) :
    ∃ v', (loadRow s' w' row).outcome = .ok v' ∧ v.Alike g within v' := by
  obtain ⟨es, hes, hlength, rfl⟩ := outcome_loadRow_eq_ok.1 h
  have hshort : (row.filterMap g.get?).length ≤ row.length := List.length_filterMap_le ..
  have hperm : es.Perm (row.filterMap g.get?) := (hs row es hes).perm_of_length_le (by omega)
  obtain ⟨es', hes', hperm'⟩ := hs' row hnodup hrow
  have hlength' : row.length ≤ es'.length := by
    rw [hperm'.length_eq, ← hperm.length_eq]
    exact hlength
  exact ⟨_, outcome_loadRow_eq_ok.2 ⟨es', hes', hlength', rfl⟩,
    halike.load hcited hrow hperm hperm'⟩

theorem exists_loadRows (hs : s.PartOf g) (hs' : s'.Holds g within)
    (hcited : ∀ id cited, within id → g.Cites id cited → within cited)
    {rows : List (List EventId)} (hnodup : ∀ row ∈ rows, row.Nodup)
    (hrows : ∀ row ∈ rows, ∀ id ∈ row, within id) (halike : w.Alike g within w')
    (h : (rows.foldlM (loadRow s) w).outcome = .ok v) :
    ∃ v', (rows.foldlM (loadRow s') w').outcome = .ok v' ∧ v.Alike g within v' := by
  rw [Fetched.outcome_foldlM] at h
  simp only [Fetched.outcome_foldlM]
  induction rows generalizing w w' with
  | nil =>
    cases h
    exact ⟨w', rfl, halike⟩
  | cons row rows ih =>
    obtain ⟨mid, hmid, hrest⟩ := bind_eq_ok.1 h
    obtain ⟨mid', hmid', hmidAlike⟩ := exists_loadRow hs hs' hcited (hnodup row List.mem_cons_self)
      (hrows row List.mem_cons_self) halike hmid
    obtain ⟨v', hv', hvAlike⟩ := ih (fun r hr => hnodup r (List.mem_cons_of_mem _ hr))
      (fun r hr => hrows r (List.mem_cons_of_mem _ hr)) hmidAlike hrest
    exact ⟨v', bind_eq_ok.2 ⟨mid', hmid', hv'⟩, hvAlike⟩

theorem sublist_of_mem_rows {α : Type} {size : Nat} {l row : List α} (h : row ∈ rows size l) :
    row.Sublist l := by
  have hsublist := List.sublist_flatten_of_mem h
  rwa [flatten_rows] at hsublist

theorem Walk.Alike.nextLevel (h : w.Alike g within w') :
    Walk.Alike g within { w with next := .empty } { w' with next := .empty } where
  seen := h.seen
  next := rfl
  loaded := h.loaded
  stored := h.stored
  within id hid := absurd hid (SortedSet.not_mem_empty id)

theorem Walk.Alike.brought (h : w.Alike g within w') :
    w.loaded.reverse.Perm w'.loaded.reverse ∧ ∀ e ∈ w.loaded.reverse, g.get? e.id = some e := by
  constructor
  · exact (w.loaded.reverse_perm.trans h.loaded).trans w'.loaded.reverse_perm.symm
  · intro e he
    exact h.stored e (List.mem_reverse.1 he)

/-- Level by level one part of the graph is walked as any that holds what the walk asks for. -/
theorem exists_walkLevels (hs : s.PartOf g) (hs' : s'.Holds g within)
    (hcited : ∀ id cited, within id → g.Cites id cited → within cited)
    (halike : w.Alike g within w')
    (h : (walkLevels s batch limit levels w).outcome = .ok es) :
    ∃ es', (walkLevels s' batch limit levels w').outcome = .ok es' ∧ es.Perm es' ∧
      ∀ e ∈ es, g.get? e.id = some e := by
  induction levels generalizing w w' with
  | zero =>
    unfold walkLevels at h ⊢
    rw [← halike.next]
    split at h
    · next hempty =>
      cases h
      rw [if_pos hempty]
      exact ⟨_, rfl, halike.brought⟩
    · cases h
  | succ levels ih =>
    unfold walkLevels at h ⊢
    rw [← halike.next]
    split at h
    · next hempty =>
      cases h
      rw [if_pos hempty]
      exact ⟨_, rfl, halike.brought⟩
    · next hmore =>
      rw [Fetched.outcome_bind, bind_eq_ok] at h
      obtain ⟨mid, hmid, hrest⟩ := h
      have hsublist : ∀ row ∈ rows batch w.next.toList, row.Sublist w.next.toList :=
        fun row hrow => sublist_of_mem_rows hrow
      obtain ⟨mid', hmid', hmidAlike⟩ := exists_loadRows hs hs' hcited
        (fun row hrow => (hsublist row hrow).nodup w.next.nodup_toList)
        (fun row hrow id hid => halike.within id ((hsublist row hrow).subset hid))
        halike.nextLevel hmid
      obtain ⟨es', hes', hperm⟩ := ih hmidAlike hrest
      rw [if_neg hmore]
      refine ⟨es', ?_, hperm⟩
      rw [Fetched.outcome_bind]
      exact bind_eq_ok.2 ⟨mid', hmid', hes'⟩

/-! ## Loading a graph -/

/-- What is loaded from one part of the graph is loaded from any that has lost nothing of
where the roots lead. -/
theorem outcome_load_of_partOf (hs : s.PartOf g) (hs' : s'.Holds g within)
    (hcited : ∀ id cited, within id → g.Cites id cited → within cited)
    (hroots : ∀ id ∈ roots, within id) (h : (s.load roots batch limit).outcome = .ok loaded) :
    (s'.load roots batch limit).outcome = .ok loaded := by
  obtain ⟨es, hes, hverified, rfl⟩ := outcome_load_eq_ok.1 h
  have hstart : Walk.Alike g within ⟨.ofList roots, .ofList roots, []⟩
      ⟨.ofList roots, .ofList roots, []⟩ :=
    ⟨rfl, rfl, .refl _, nofun, fun id hid => hroots id (SortedSet.mem_ofList.1 hid)⟩
  obtain ⟨es', hes', hperm, hstored⟩ := exists_walkLevels hs hs' hcited hstart hes
  have hsame := EventGraph.ofEvents_congr hstored hperm
  rw [hsame] at hverified
  exact outcome_load_eq_ok.2 ⟨es', hes', hverified, hsame.symm⟩

end EventStore

end StateResolution
