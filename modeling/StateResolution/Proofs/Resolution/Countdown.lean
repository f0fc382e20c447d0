import StateResolution.Proofs.Resolution.TopologicalSort

/-!
# A topological sort by counting

The sort can keep a number in place of each set: how many of the events that an event points at
have not been taken yet.  When an event is taken, the number goes down for those that point at
it, which a table of the edges turned round gives, and an event whose number comes down to zero
is ready.

`Counted` ties the numbers to what has been taken, as `Progress` does the sets.  Of the events
that point at the one that is taken, those with the number one are the events that wait for it
alone (`filter_dependents_eq_freed`), and they become ready in the same order.  So the two forms
of the sort come to the same result, errors included (`countingSort_eq_topologicalSort`).
-/

namespace StateResolution

open Fallible (bind_eq_ok)

namespace TopologicalSort

/-! ## The counting sort -/

/-- Notes under an event that another points at it. -/
def turn (id : EventId) (table : SortedMap EventId (List EventId)) (target : EventId) :
    SortedMap EventId (List EventId) :=
  table.insert target ((table.get? target).getD [] ++ [id])

/-- The edges turned round: under each event those that point at it, in the order of the graph. -/
def dependentsOf (graph : IdGraph) : SortedMap EventId (List EventId) :=
  graph.toList.foldl (fun table e => e.2.toList.foldl (turn e.1) table) .empty

/-- Where a counting sort stands. -/
structure Countdown where
  /-- For each event, how many of those it points at have not been taken. -/
  left : SortedMap EventId Nat
  ready : SortedSet SortKey

/-- Counts down for an event that points at the one taken; at zero it is ready. -/
def countDown (standing : EventId → Except Error Standing) (c : Countdown) (id : EventId) :
    Except Error Countdown :=
  match c.left.get? id with
  | none => .ok c
  | some n => do
    let left := c.left.insert id (n - 1)
    if n - 1 = 0 then pure ⟨left, c.ready.insert (← keyOf standing id)⟩
    else pure ⟨left, c.ready⟩

/-- Takes at most a number of events, the first ready one each time. -/
def takeCounted (standing : EventId → Except Error Standing)
    (dependents : SortedMap EventId (List EventId)) :
    Nat → Countdown → Except Error (List EventId)
  | 0, _ => .ok []
  | n + 1, c =>
    match c.ready.toList with
    | [] => .ok []
    | key :: _ => do
      let c ← ((dependents.get? key.id).getD []).foldlM (countDown standing)
        { c with ready := c.ready.erase key }
      let rest ← takeCounted standing dependents n c
      pure (key.id :: rest)

/-- The topological sort, with numbers in place of sets. -/
def countingSort (graph : IdGraph) (standing : EventId → Except Error Standing) :
    Except Error (List EventId) := do
  let keys ← (freed graph).mapM (keyOf standing)
  let sorted ← takeCounted standing (dependentsOf graph) graph.size
    ⟨graph.mapValues SortedSet.size, .ofList keys⟩
  if sorted.length = graph.size then pure sorted
  else throw (.graphCorruption (.unsortable (graph.size - sorted.length)))

variable {graph waiting : IdGraph} {standing : EventId → Except Error Standing}
  {taken ids : List EventId} {ready : SortedSet SortKey} {left : SortedMap EventId Nat}
  {id target : EventId} {key : SortKey} {edges : SortedSet EventId}

/-! ## Edges turned round -/

/-- The events of a graph that point at one. -/
def dependents (graph : IdGraph) (target : EventId) : List EventId :=
  (graph.filter fun _ edges => edges.contains target).keys

theorem get?_foldl_turn {targets : List EventId} (hnodup : targets.Nodup)
    (table : SortedMap EventId (List EventId)) :
    ((targets.foldl (turn id) table).get? target).getD [] =
      (table.get? target).getD [] ++ if target ∈ targets then [id] else [] := by
  induction targets generalizing table with
  | nil => simp
  | cons first rest ih =>
    obtain ⟨hfirst, hrest⟩ := List.nodup_cons.1 hnodup
    rw [List.foldl_cons, ih hrest, turn, SortedMap.get?_insert]
    by_cases heq : target = first
    · subst heq
      simp [hfirst]
    · simp [heq]

theorem get?_foldl_entries (entries : List (EventId × SortedSet EventId))
    (table : SortedMap EventId (List EventId)) :
    ((entries.foldl (fun table e => e.2.toList.foldl (turn e.1) table) table).get? target).getD [] =
      (table.get? target).getD [] ++ (entries.filter (·.2.contains target)).map Prod.fst := by
  induction entries generalizing table with
  | nil => simp
  | cons e rest ih =>
    rw [List.foldl_cons, ih, get?_foldl_turn e.2.nodup_toList, List.append_assoc, List.filter_cons]
    by_cases hpoints : target ∈ e.2.toList
    · rw [if_pos hpoints, if_pos (SortedSet.contains_iff.2 hpoints)]
      rfl
    · rw [if_neg hpoints, if_neg fun h => hpoints (SortedSet.contains_iff.1 h)]
      rfl

theorem get?_dependentsOf (graph : IdGraph) (target : EventId) :
    ((dependentsOf graph).get? target).getD [] = dependents graph target :=
  get?_foldl_entries graph.toList .empty

theorem mem_dependents :
    id ∈ dependents graph target ↔ ∃ edges, graph.get? id = some edges ∧ target ∈ edges := by
  simp only [dependents, SortedMap.mem_keys_iff, SortedMap.get?_filter, Option.filter_eq_some_iff,
    SortedSet.contains_iff]

/-! ## Counting down -/

/-- The numbers after some events have been counted down for. -/
def lower (left : SortedMap EventId Nat) (ids : List EventId) : SortedMap EventId Nat :=
  ids.foldl (fun left id => left.insert id ((left.get? id).getD 0 - 1)) left

theorem lower_cons {n : Nat} (h : left.get? id = some (n + 1)) :
    lower left (id :: ids) = lower (left.insert id n) ids := by
  simp [lower, h]

theorem get?_insert_of_mem {n : Nat} (hnew : target ∉ ids) :
    ∀ id ∈ ids, (left.insert target n).get? id = left.get? id := by
  intro id hid
  rw [SortedMap.get?_insert, if_neg]
  rintro rfl
  exact hnew hid

theorem get?_lower (hnodup : ids.Nodup) (hleft : ∀ id ∈ ids, ∃ n, left.get? id = some (n + 1)) :
    (lower left ids).get? id =
      if id ∈ ids then (left.get? id).map (· - 1) else left.get? id := by
  induction ids generalizing left with
  | nil => rfl
  | cons first rest ih =>
    obtain ⟨hfirst, hrest⟩ := List.nodup_cons.1 hnodup
    obtain ⟨⟨n, hn⟩, hlater⟩ := List.forall_mem_cons.1 hleft
    have hsame : ∀ id ∈ rest, (left.insert first n).get? id = left.get? id :=
      get?_insert_of_mem hfirst
    rw [lower_cons hn, ih hrest fun id hid => hsame id hid ▸ hlater id hid]
    by_cases hid : id ∈ rest
    · rw [if_pos hid, if_pos (List.mem_cons_of_mem _ hid), hsame id hid]
    · rw [if_neg hid, SortedMap.get?_insert]
      by_cases heq : id = first
      · subst heq
        simp [hn]
      · simp [heq, hid]

theorem countDown_of_one (h : left.get? id = some 1) :
    countDown standing ⟨left, ready⟩ id = (do
      let key ← keyOf standing id
      pure ⟨left.insert id 0, ready.insert key⟩) := by
  simp only [countDown, h]
  rfl

theorem countDown_of_more {n : Nat} (h : left.get? id = some (n + 1 + 1)) :
    countDown standing ⟨left, ready⟩ id = .ok ⟨left.insert id (n + 1), ready⟩ := by
  simp only [countDown, h]
  rfl

/-- Counting down for some events makes those ready that had the number one. -/
theorem foldlM_countDown (hnodup : ids.Nodup)
    (hleft : ∀ id ∈ ids, ∃ n, left.get? id = some (n + 1)) :
    ids.foldlM (countDown standing) ⟨left, ready⟩ = (do
      let keys ← (ids.filter fun id => left.get? id = some 1).mapM (keyOf standing)
      pure ⟨lower left ids, ready.insertAll keys⟩) := by
  induction ids generalizing left ready with
  | nil => rfl
  | cons first rest ih =>
    obtain ⟨hfirst, hrest⟩ := List.nodup_cons.1 hnodup
    obtain ⟨⟨n, hn⟩, hlater⟩ := List.forall_mem_cons.1 hleft
    have hsame : ∀ id ∈ rest, (left.insert first n).get? id = left.get? id :=
      get?_insert_of_mem hfirst
    have hfilter : rest.filter (fun id => (left.insert first n).get? id = some 1) =
        rest.filter fun id => left.get? id = some 1 :=
      List.filter_congr fun id hid => by rw [hsame id hid]
    have hleft' : ∀ id ∈ rest, ∃ m, (left.insert first n).get? id = some (m + 1) :=
      fun id hid => hsame id hid ▸ hlater id hid
    rw [List.foldlM_cons, lower_cons hn, List.filter_cons, ← hfilter]
    cases n with
    | zero =>
      rw [if_pos (decide_eq_true hn), List.mapM_cons, countDown_of_one hn]
      cases hkey : keyOf standing first with
      | error e => rfl
      | ok key =>
        rw [Fallible.ok_bind, Fallible.ok_bind, pure_bind, ih hrest hleft', bind_assoc]
        rfl
    | succ n =>
      rw [if_neg (by simp [hn]), countDown_of_more hn, Fallible.ok_bind]
      exact ih hrest hleft'

/-! ## Numbers and sets -/

/-- What the numbers are when some events have been taken. -/
structure Counted (graph : IdGraph) (taken : List EventId) (left : SortedMap EventId Nat) :
    Prop where
  left : ∀ id, left.get? id =
    (graph.get? id).map fun edges => (edges.filter fun t => t ∉ taken).size
  behind : ∀ id ∈ taken, ∀ edges, graph.get? id = some edges → ∀ t ∈ edges, t ∈ taken

theorem nodup_dependents (graph : IdGraph) (target : EventId) : (dependents graph target).Nodup :=
  (graph.filter fun _ edges => edges.contains target).keySet.nodup_toList

theorem counted_nil (graph : IdGraph) : Counted graph [] (graph.mapValues SortedSet.size) where
  left id := by simp only [SortedMap.get?_mapValues, filter_not_mem_nil]
  behind _ hid := nomatch hid

/-- An event that points at the one that is taken still counts it. -/
theorem Counted.get?_of_mem (h : Counted graph taken left) (hkey : Ready graph taken target)
    (hedges : graph.get? id = some edges) (htarget : target ∈ edges) :
    left.get? id = some (((edges.filter fun t => t ∉ taken).erase target).size + 1) := by
  have hmem : target ∈ edges.filter fun t => t ∉ taken := by simp [htarget, hkey.fresh]
  rw [h.left, hedges, Option.map_some, SortedSet.size_of_mem hmem]

theorem Counted.exists_of_dependent (h : Counted graph taken left)
    (hkey : Ready graph taken target) :
    ∀ id ∈ dependents graph target, ∃ n, left.get? id = some (n + 1) := fun _ hid =>
  let ⟨_, hedges, htarget⟩ := mem_dependents.1 hid
  ⟨_, h.get?_of_mem hkey hedges htarget⟩

theorem Counted.step (h : Counted graph taken left) (hkey : Ready graph taken target) :
    Counted graph (taken ++ [target]) (lower left (dependents graph target)) where
  left id := by
    rw [get?_lower (nodup_dependents graph target) (h.exists_of_dependent hkey)]
    simp only [filter_not_mem_concat]
    cases hedges : graph.get? id with
    | none => simp [mem_dependents, hedges, h.left]
    | some edges =>
      by_cases htarget : target ∈ edges
      · rw [if_pos (mem_dependents.2 ⟨edges, hedges, htarget⟩),
          h.get?_of_mem hkey hedges htarget]
        rfl
      · have hgone : target ∉ edges.filter fun t => t ∉ taken :=
          fun hmem => htarget (SortedSet.mem_filter.1 hmem).1
        rw [if_neg (by simp [mem_dependents, hedges, htarget]), h.left, hedges, Option.map_some,
          Option.map_some, SortedSet.erase_of_not_mem hgone]
  behind id hid edges hedges t ht := by
    rcases List.mem_append.1 hid with hold | hnow
    · exact List.mem_append_left _ (h.behind id hold edges hedges t ht)
    · cases List.mem_singleton.1 hnow
      obtain ⟨-, edges', hedges', hfree⟩ := hkey
      cases hedges.symm.trans hedges'
      exact List.mem_append_left _ (hfree t ht)

/-- The events that wait for the one that is taken and for no other are those that point at it and
have come down to one. -/
theorem filter_dependents_eq_freed (h : Progress graph standing taken waiting ready)
    (hcounted : Counted graph taken left) (hkey : Ready graph taken target) :
    (dependents graph target).filter (fun id => left.get? id = some 1) =
      freed (waiting.mapValues (·.erase target)) := by
  refine SortedSet.eq_of_mem_iff ((SortedMap.keySet _).ascending.filter _)
    (SortedMap.keySet _).ascending fun id => ?_
  rw [List.mem_filter, decide_eq_true_iff, mem_dependents]
  simp only [mem_freed, SortedMap.get?_mapValues, Option.map_eq_some_iff, h.waiting]
  constructor
  · rintro ⟨⟨edges, hedges, htarget⟩, hone⟩
    rw [hcounted.get?_of_mem hkey hedges htarget] at hone
    have hsize : ((edges.filter fun t => t ∉ taken).erase target).size = 0 := by simpa using hone
    refine ⟨_, ⟨_, ⟨fun hid => ?_, ?_, edges, hedges, rfl⟩, rfl⟩, ?_⟩
    · -- What is taken has all it points at behind it.
      exact hkey.fresh (hcounted.behind id hid edges hedges target htarget)
    · exact isEmpty_eq_false_iff.2 ⟨target, by simp [htarget, hkey.fresh]⟩
    · exact List.isEmpty_iff_length_eq_zero.2 hsize
  · rintro ⟨_, ⟨left', ⟨-, hheld, edges, hedges, rfl⟩, rfl⟩, hempty⟩
    obtain ⟨t, ht⟩ := isEmpty_eq_false_iff.1 hheld
    have hlast : t = target := by
      by_contra hne
      exact isEmpty_eq_true_iff.1 hempty t (SortedSet.mem_erase.2 ⟨ht, hne⟩)
    subst hlast
    have htarget := (SortedSet.mem_filter.1 ht).1
    refine ⟨⟨edges, hedges, htarget⟩, ?_⟩
    rw [hcounted.get?_of_mem hkey hedges htarget]
    exact congrArg (fun n => some (n + 1)) (List.isEmpty_iff_length_eq_zero.1 hempty)

theorem takeCounted_eq_takeReady (h : Progress graph standing taken waiting ready)
    (hcounted : Counted graph taken left) (n : Nat) :
    takeCounted standing (dependentsOf graph) n ⟨left, ready⟩ =
      takeReady standing n waiting ready := by
  induction n generalizing taken waiting ready left with
  | zero => rfl
  | succ n ih =>
    unfold takeCounted takeReady
    dsimp only
    cases hfirst : ready.toList with
    | nil => rfl
    | cons key tail =>
      have hmem := mem_of_toList_cons hfirst
      have hkey := ((h.ready key).1 hmem).1
      dsimp only
      rw [get?_dependentsOf, foldlM_countDown (nodup_dependents graph key.id)
        (hcounted.exists_of_dependent hkey), filter_dependents_eq_freed h hcounted hkey, bind_assoc]
      cases hkeys : (freed (waiting.mapValues (·.erase key.id))).mapM (keyOf standing) with
      | error e => rfl
      | ok keys =>
        rw [Fallible.ok_bind, Fallible.ok_bind, pure_bind,
          ih (h.step hmem hkeys) (hcounted.step hkey)]

/-- It makes no difference whether a sort counts what an event waits for or keeps the set. -/
theorem countingSort_eq_topologicalSort (graph : IdGraph)
    (standing : EventId → Except Error Standing) :
    countingSort graph standing = topologicalSort graph standing := by
  unfold countingSort topologicalSort
  cases hkeys : (freed graph).mapM (keyOf standing) with
  | error e => rfl
  | ok keys =>
    have htake := takeCounted_eq_takeReady (progress_nil hkeys) (counted_nil graph) graph.size
    simp only [Fallible.ok_bind, htake]

end TopologicalSort

end StateResolution
