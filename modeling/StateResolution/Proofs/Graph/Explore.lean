import Mathlib.Data.List.Count
import StateResolution.Proofs.Graph.Reach

/-!
# What a walk finds

A walk goes down from some events as long as it comes to new ones.  It is bounded, but on its
way down it meets each event of the graph once, so the bound is never what ends it: it finds
exactly what its events lead to, each with where it leads (`Explored`,
`contains_iff_of_explored`).
-/

namespace StateResolution

open Fallible (bind_eq_ok pure_eq_ok)

/-- One event leads to another in a single step. -/
def Leads (next : EventId → Except Error (List EventId)) (id target : EventId) : Prop :=
  ∃ targets, next id = .ok targets ∧ target ∈ targets

/-- What going down from some events does to a trail. -/
structure Explored (next : EventId → Except Error (List EventId)) (ids : List EventId)
    (trail found : Trail) : Prop where
  keep : ∀ id targets, trail.get? id = some targets → found.get? id = some targets
  all : ∀ id ∈ ids, found.contains id = true
  /-- What is new is there with all it leads to. -/
  entry : ∀ id targets, found.get? id = some targets →
    trail.get? id = some targets ∨
      next id = .ok targets ∧ ∀ t ∈ targets, found.contains t = true
  /-- What is new comes from one of the events. -/
  source : ∀ id, found.contains id = true → trail.contains id = true ∨
    ∃ root ∈ ids, Relation.ReflTransGen (Leads next) root id

variable {next : EventId → Except Error (List EventId)} {ids more held : List EventId}
  {trail mid found : Trail} {id : EventId} {targets : List EventId} {bound : Nat}

theorem Explored.contains (h : Explored next ids trail found) (hid : trail.contains id = true) :
    found.contains id = true := by
  obtain ⟨targets, htargets⟩ := SortedMap.contains_iff.1 hid
  exact SortedMap.contains_iff.2 ⟨targets, h.keep id targets htargets⟩

theorem Explored.refl (h : ∀ id ∈ ids, trail.contains id = true) :
    Explored next ids trail trail where
  keep _ _ htargets := htargets
  all := h
  entry _ _ htargets := .inl htargets
  source _ hid := .inl hid

theorem Explored.append (h : Explored next ids trail mid) (h' : Explored next more mid found) :
    Explored next (ids ++ more) trail found where
  keep id targets htargets := h'.keep id targets (h.keep id targets htargets)
  all id hid := by
    rcases List.mem_append.1 hid with hid | hid
    · exact h'.contains (h.all id hid)
    · exact h'.all id hid
  entry id targets htargets := by
    rcases h'.entry id targets htargets with hmid | hnew
    · rcases h.entry id targets hmid with hold | ⟨hnext, hall⟩
      · exact .inl hold
      · exact .inr ⟨hnext, fun t ht => h'.contains (hall t ht)⟩
    · exact .inr hnew
  source id hid := by
    rcases h'.source id hid with hmid | ⟨root, hroot, hreach⟩
    · rcases h.source id hmid with hold | ⟨root, hroot, hreach⟩
      · exact .inl hold
      · exact .inr ⟨root, List.mem_append_left _ hroot, hreach⟩
    · exact .inr ⟨root, List.mem_append_right _ hroot, hreach⟩

/-- Going down to the targets of a new event explores the event. -/
theorem Explored.visit (hnext : next id = .ok targets) (hnew : trail.contains id = false)
    (h : Explored next targets.reverse (trail.insert id targets) found) :
    Explored next [id] trail found := by
  have hself : found.get? id = some targets := h.keep id targets (by simp)
  have hinsert : ∀ i, i ≠ id → (trail.insert id targets).get? i = trail.get? i := fun i hi => by
    rw [SortedMap.get?_insert, if_neg hi]
  constructor
  case keep =>
    intro i ts hts
    refine h.keep i ts ?_
    rw [hinsert i ?_, hts]
    rintro rfl
    rw [SortedMap.contains, hts] at hnew
    cases hnew
  case all =>
    intro i hi
    cases List.mem_singleton.1 hi
    rw [SortedMap.contains, hself]
    rfl
  case entry =>
    intro i ts hts
    by_cases hi : i = id
    · subst hi
      cases hself.symm.trans hts
      exact .inr ⟨hnext, fun t ht => h.all t (List.mem_reverse.2 ht)⟩
    · rw [← hinsert i hi]
      exact h.entry i ts hts
  case source =>
    intro i hi
    by_cases heq : i = id
    · subst heq
      exact .inr ⟨i, List.mem_singleton_self i, .refl⟩
    · rcases h.source i hi with hold | ⟨t, ht, hreach⟩
      · rw [SortedMap.contains, hinsert i heq] at hold
        exact .inl hold
      · have hstep : Leads next id t := ⟨targets, hnext, List.mem_reverse.1 ht⟩
        exact .inr ⟨id, List.mem_singleton_self id, .head hstep hreach⟩

/-! ## The bound -/

/-- How many of some events a trail does not have. -/
def unseen (held : List EventId) (trail : Trail) : Nat := held.countP fun id => !trail.contains id

theorem Explored.unseen_le (h : Explored next ids trail found) (held : List EventId) :
    unseen held found ≤ unseen held trail := by
  refine List.countP_mono_left fun id _ hid => ?_
  rw [Bool.not_eq_true'] at hid ⊢
  rw [Bool.eq_false_iff] at hid ⊢
  exact fun hold => hid (h.contains hold)

/-- A new event is no longer unseen. -/
theorem unseen_insert_lt (hheld : id ∈ held) (hnew : trail.contains id = false) :
    unseen held (trail.insert id targets) < unseen held trail := by
  have hmono : ∀ l : List EventId, unseen l (trail.insert id targets) ≤ unseen l trail := by
    intro l
    refine List.countP_mono_left fun i _ hi => ?_
    simp only [SortedMap.contains, SortedMap.get?_insert] at hi ⊢
    split at hi
    · cases hi
    · exact hi
  obtain ⟨before, after, rfl⟩ := List.append_of_mem hheld
  have hbefore := hmono before
  have hafter := hmono after
  have hself : (trail.insert id targets).contains id = true := by simp [SortedMap.contains]
  simp only [unseen, List.countP_append, List.countP_cons, hself, hnew] at hbefore hafter ⊢
  simp only [Bool.not_true, Bool.not_false, Bool.false_eq_true, if_false, if_true]
  omega

/-- A bound on the unseen events holds throughout a row of walks. -/
theorem explored_of_foldlM {walk : Trail → EventId → Except Error Trail}
    (hwalk : ∀ id ∈ ids, ∀ t t', unseen held t < bound → walk t id = .ok t' →
      Explored next [id] t t')
    (hbound : unseen held trail < bound) (h : ids.foldlM walk trail = .ok found) :
    Explored next ids trail found := by
  induction ids generalizing trail with
  | nil =>
    cases pure_eq_ok.1 h
    exact .refl nofun
  | cons id ids ih =>
    obtain ⟨mid, hmid, hrest⟩ := bind_eq_ok.1 h
    have hfirst := hwalk id List.mem_cons_self trail mid hbound hmid
    have hless := hfirst.unseen_le held
    exact hfirst.append
      (ih (fun i hi => hwalk i (List.mem_cons_of_mem _ hi)) (by omega) hrest)

/-- A walk whose bound is above the number of unseen events is not cut short. -/
theorem explored_of_explore (hheld : ∀ id targets, next id = .ok targets → id ∈ held)
    (hbound : unseen held trail < bound) (h : explore next bound trail id = .ok found) :
    Explored next [id] trail found := by
  induction bound generalizing trail found id with
  | zero => exact absurd hbound (Nat.not_lt_zero _)
  | succ bound ih =>
    unfold explore at h
    split at h
    · next hseen =>
      cases h
      exact .refl (List.forall_mem_singleton.2 hseen)
    · next hnew =>
      obtain ⟨targets, htargets, hfold⟩ := bind_eq_ok.1 h
      have hnew : trail.contains id = false := by simpa using hnew
      have hless : unseen held (trail.insert id targets) < unseen held trail :=
        unseen_insert_lt (hheld id targets htargets) hnew
      refine .visit htargets hnew (explored_of_foldlM (fun _ _ _ _ => ih) ?_ hfold)
      omega

/-! ## Reachability -/

/-- A trail that starts from nothing has each event with all it leads to. -/
theorem Explored.entry_of_empty (h : Explored next ids .empty found)
    (hid : found.get? id = some targets) :
    next id = .ok targets ∧ ∀ t ∈ targets, found.contains t = true := by
  rcases h.entry id targets hid with hold | hnew
  · cases hold
  · exact hnew

/-- What a walk has found from nothing is what its events lead to. -/
theorem contains_iff_of_explored (h : Explored next ids .empty found) :
    found.contains id = true ↔ ∃ root ∈ ids, Relation.ReflTransGen (Leads next) root id := by
  constructor
  · intro hid
    exact (h.source id hid).resolve_left nofun
  · rintro ⟨root, hroot, hreach⟩
    induction hreach with
    | refl => exact h.all root hroot
    | @tail mid target _ hstep ih =>
      obtain ⟨ts, hts⟩ := SortedMap.contains_iff.1 ih
      obtain ⟨hnext, hall⟩ := h.entry_of_empty hts
      obtain ⟨ts', hts', htarget⟩ := hstep
      cases hnext.symm.trans hts'
      exact hall target htarget

namespace EventGraph

variable {g : EventGraph}

theorem unseen_ids_lt (g : EventGraph) (trail : Trail) : unseen g.ids trail < g.size + 1 := by
  have hle : unseen g.ids trail ≤ g.ids.length := List.countP_le_length
  have hsize : g.ids.length = g.size := SortedMap.length_keys _
  omega

/-- The bound that a graph is walked with is always enough. -/
theorem explored_of_foldlM_explore (hheld : ∀ id targets, next id = .ok targets → id ∈ g.ids)
    (h : ids.foldlM (explore next (g.size + 1)) trail = .ok found) :
    Explored next ids trail found :=
  explored_of_foldlM (fun _ _ _ _ => explored_of_explore hheld) (g.unseen_ids_lt trail) h

end EventGraph

end StateResolution
