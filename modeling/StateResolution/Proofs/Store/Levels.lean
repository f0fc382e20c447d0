import Mathlib.Order.Bounds.Basic
import StateResolution.Proofs.Graph.Descent
import StateResolution.Proofs.Store.Closure

/-!
# The closure walk level by level

The distance of an event is the least number of citations that lead to it from a root
(`Distance`).  When the walk comes to a level it has loaded the events of smaller distance, and
what is due are the events of just that distance (`Walk.AtLevel`); loading a level keeps this.
So a walk over a graph can end in three ways only (`Closing`): it brings back all that the roots
lead to, in the order of distance and id; or it stops at the first event that is missing; or it
stops where the levels go on past the limit.

The walk asks for an event only when it comes across it first, so for no event twice, whatever
the store (`Asks.nodup`).  What comes of all this is put together in `closure_by_distance`.
-/

namespace StateResolution

open Fallible (foldlM_keeps)

namespace EventGraph

/-- Some number of citations leads to an event from one of some roots. -/
inductive Steps (g : EventGraph) (roots : List EventId) : Nat → EventId → Prop
  | root {id : EventId} : id ∈ roots → Steps g roots 0 id
  | cite {n : Nat} {id cited : EventId} :
    Steps g roots n id → g.Cites id cited → Steps g roots (n + 1) cited

/-- The least number of citations that leads to an event from one of some roots. -/
def Distance (g : EventGraph) (roots : List EventId) (id : EventId) (n : Nat) : Prop :=
  IsLeast {n | g.Steps roots n id} n

/-- One event comes before another in the order of distance and id. -/
def Nearer (g : EventGraph) (roots : List EventId) (id other : EventId) : Prop :=
  ∃ m n, g.Distance roots id m ∧ g.Distance roots other n ∧
    (m < n ∨ m = n ∧ compare id other = .lt)

/-- The events that some roots lead to, each once, in the order of distance and id. -/
structure Listing (g : EventGraph) (roots : List EventId) (es : List Event) : Prop where
  mem : ∀ e, e ∈ es ↔ g.get? e.id = some e ∧ g.ReachedFrom roots e.id
  ascending : es.Pairwise fun d e => g.Nearer roots d.id e.id

/-- Everything that some roots lead to is stored, and within a number of citations. -/
def Complete (g : EventGraph) (roots : List EventId) (limit : Nat) : Prop :=
  ∀ id, g.ReachedFrom roots id →
    (∃ e, g.get? id = some e) ∧ ∃ n ≤ limit, g.Distance roots id n

/-- An event that some roots lead to within a number of citations is missing. -/
def Lacking (g : EventGraph) (roots : List EventId) (limit : Nat) : Prop :=
  ∃ id n, g.Distance roots id n ∧ n ≤ limit ∧ g.get? id = none

/-- An event is missing within a number of citations from some roots, and of the missing events
it is the first in the order of distance and id. -/
structure FirstGap (g : EventGraph) (roots : List EventId) (limit : Nat) (id : EventId) :
    Prop where
  missing : g.get? id = none
  within : ∃ n ≤ limit, g.Distance roots id n
  first : ∀ other, g.get? other = none → (∃ n, g.Distance roots other n) →
    other = id ∨ g.Nearer roots id other

/-- How the closure of some roots can end. -/
inductive Closing (g : EventGraph) (roots : List EventId) (limit : Nat) :
    Except Error (List Event) → Prop
  | listed {es : List Event} : g.Complete roots limit → g.Listing roots es →
    Closing g roots limit (.ok es)
  | gap {id : EventId} : g.FirstGap roots limit id →
    Closing g roots limit (.error (.fetch id.text .referenceNotInStore))
  | deep : ¬ g.Complete roots limit → ¬ g.Lacking roots limit →
    Closing g roots limit (.error (.graphCorruption (.closureTooDeep limit)))

variable {g : EventGraph} {roots : List EventId} {id cited : EventId} {m n limit : Nat}
  {outcome : Except Error (List Event)} {es : List Event}

/-! ## Distances -/

theorem exists_steps_iff : (∃ n, g.Steps roots n id) ↔ g.ReachedFrom roots id := by
  constructor
  · rintro ⟨n, h⟩
    induction h with
    | @root id hid => exact ⟨id, hid, .refl⟩
    | cite _ hcites ih =>
      obtain ⟨root, hroot, hreach⟩ := ih
      exact ⟨root, hroot, hreach.tail hcites⟩
  · rintro ⟨root, hroot, hreach⟩
    induction hreach with
    | refl => exact ⟨0, .root hroot⟩
    | tail _ hcites ih =>
      obtain ⟨n, hn⟩ := ih
      exact ⟨n + 1, hn.cite hcites⟩

theorem Steps.exists_distance (h : g.Steps roots n id) : ∃ m ≤ n, g.Distance roots id m := by
  classical
  have hex : ∃ n, g.Steps roots n id := ⟨n, h⟩
  exact ⟨Nat.find hex, Nat.find_min' hex h, Nat.find_spec hex, fun _ => Nat.find_min' hex⟩

theorem exists_distance_iff : (∃ n, g.Distance roots id n) ↔ g.ReachedFrom roots id := by
  rw [← exists_steps_iff]
  constructor
  · rintro ⟨n, hn⟩
    exact ⟨n, hn.1⟩
  · rintro ⟨n, hn⟩
    obtain ⟨m, -, hm⟩ := hn.exists_distance
    exact ⟨m, hm⟩

/-- What is at a distance is cited by something one step nearer. -/
theorem Distance.exists_nearer (h : g.Distance roots cited (n + 1)) :
    ∃ id, g.Distance roots id n ∧ g.Cites id cited := by
  obtain ⟨hsteps, hleast⟩ := h
  cases hsteps with
  | @cite _ id _ hid hcites =>
    obtain ⟨m, hmn, hm⟩ := hid.exists_distance
    have hle : n + 1 ≤ m + 1 := hleast (hm.1.cite hcites)
    cases Nat.le_antisymm hmn (Nat.le_of_succ_le_succ hle)
    exact ⟨id, hm, hcites⟩

theorem distance_zero_iff : g.Distance roots id 0 ↔ id ∈ roots := by
  constructor
  · rintro ⟨hsteps, -⟩
    cases hsteps with
    | root hid => exact hid
  · intro hid
    exact ⟨.root hid, fun _ _ => Nat.zero_le _⟩

/-- What something at a distance cites is at most one step further. -/
theorem Distance.exists_cited (h : g.Distance roots id n) (hcites : g.Cites id cited) :
    ∃ m ≤ n + 1, g.Distance roots cited m :=
  (h.1.cite hcites).exists_distance

/-- Where a level is empty, so are the later ones. -/
theorem not_distance_of_empty (h : ∀ id, ¬ g.Distance roots id n) (hle : n ≤ m) :
    ¬ g.Distance roots id m := by
  induction m, hle using Nat.le_induction generalizing id with
  | base => exact h id
  | succ m _ ih =>
    intro hm
    obtain ⟨id, hid, -⟩ := hm.exists_nearer
    exact ih hid

/-! ## How a closure ends -/

theorem FirstGap.lacking (h : g.FirstGap roots limit id) : g.Lacking roots limit := by
  obtain ⟨n, hn, hid⟩ := h.within
  exact ⟨id, n, hid, hn, h.missing⟩

theorem complete_iff : g.Complete roots limit ↔
    ∀ id n, g.Distance roots id n → (∃ e, g.get? id = some e) ∧ n ≤ limit := by
  constructor
  · intro h id n hid
    obtain ⟨hstored, m, hm, hid'⟩ := h id (exists_distance_iff.1 ⟨n, hid⟩)
    cases hid.unique hid'
    exact ⟨hstored, hm⟩
  · intro h id hreached
    obtain ⟨n, hid⟩ := exists_distance_iff.2 hreached
    exact ⟨(h id n hid).1, n, (h id n hid).2, hid⟩

theorem Complete.not_lacking (h : g.Complete roots limit) : ¬ g.Lacking roots limit := by
  rintro ⟨id, n, hid, -, hmissing⟩
  obtain ⟨⟨e, he⟩, -⟩ := complete_iff.1 h id n hid
  rw [hmissing] at he
  cases he

theorem Closing.exists_ok_iff (h : Closing g roots limit outcome) :
    (∃ es, outcome = .ok es) ↔ g.Complete roots limit := by
  cases h with
  | listed hcomplete _ => exact ⟨fun _ => hcomplete, fun _ => ⟨_, rfl⟩⟩
  | gap hgap => exact ⟨nofun, fun hcomplete => absurd hgap.lacking hcomplete.not_lacking⟩
  | deep hnot _ => exact ⟨nofun, fun hcomplete => absurd hcomplete hnot⟩

theorem Closing.listing (h : Closing g roots limit (.ok es)) : g.Listing roots es := by
  cases h with
  | listed _ hes => exact hes

theorem Closing.gap_of_lacking (h : Closing g roots limit outcome)
    (hlacking : g.Lacking roots limit) : ∃ id, g.FirstGap roots limit id ∧
      outcome = .error (.fetch id.text .referenceNotInStore) := by
  cases h with
  | listed hcomplete _ => exact absurd hlacking hcomplete.not_lacking
  | gap hgap => exact ⟨_, hgap, rfl⟩
  | deep _ hnot => exact absurd hlacking hnot

theorem Closing.deep_of_not (h : Closing g roots limit outcome)
    (hcomplete : ¬ g.Complete roots limit) (hlacking : ¬ g.Lacking roots limit) :
    outcome = .error (.graphCorruption (.closureTooDeep limit)) := by
  cases h with
  | listed hall _ => exact absurd hall hcomplete
  | gap hgap => exact absurd hgap.lacking hlacking
  | deep _ _ => rfl

end EventGraph

namespace EventStore

open EventGraph (Closing complete_iff not_distance_of_empty distance_zero_iff exists_distance_iff
  exists_steps_iff diary recentNote middleNote earlyNote)

/-! ## One level -/

/-- A walk from some roots has loaded what is nearer than a level, and the level is due. -/
structure Walk.AtLevel (g : EventGraph) (roots : List EventId) (n : Nat) (w : Walk) : Prop where
  seen : ∀ id, id ∈ w.seen ↔ ∃ m ≤ n, g.Distance roots id m
  next : ∀ id, id ∈ w.next ↔ g.Distance roots id n
  stored : ∀ id m, g.Distance roots id m → m < n → ∃ e, g.get? id = some e
  loaded : ∀ e, e ∈ w.loaded ↔ g.get? e.id = some e ∧ ∃ m < n, g.Distance roots e.id m
  ascending : w.loaded.reverse.Pairwise fun d e => g.Nearer roots d.id e.id

variable {g : EventGraph} {roots : List EventId} {w : Walk} {n limit levels : Nat}

theorem Walk.atLevel_roots (g : EventGraph) (roots : List EventId) :
    Walk.AtLevel g roots 0 ⟨.ofList roots, .ofList roots, []⟩ where
  seen id := by simp [distance_zero_iff]
  next id := by simp [distance_zero_iff]
  stored _ _ _ hm := absurd hm (Nat.not_lt_zero _)
  loaded e := by simp
  ascending := .nil

/-- The events of the level that is due. -/
theorem Walk.AtLevel.mem_due (h : w.AtLevel g roots n) (e : Event) :
    e ∈ w.next.toList.filterMap g.get? ↔ g.get? e.id = some e ∧ g.Distance roots e.id n := by
  rw [List.mem_filterMap]
  constructor
  · rintro ⟨id, hid, he⟩
    cases g.keyed id e he
    exact ⟨he, (h.next _).1 hid⟩
  · rintro ⟨he, hdistance⟩
    exact ⟨e.id, (h.next _).2 hdistance, he⟩

theorem Walk.AtLevel.cited_due (h : w.AtLevel g roots n) (i : EventId) :
    (∃ e ∈ w.next.toList.filterMap g.get?, i ∈ e.authEvents) ↔
      ∃ id, g.Distance roots id n ∧ g.Cites id i := by
  constructor
  · rintro ⟨e, he, hi⟩
    obtain ⟨hget, hdistance⟩ := (h.mem_due e).1 he
    exact ⟨e.id, hdistance, e, hget, hi⟩
  · rintro ⟨id, hdistance, e, he, hi⟩
    cases g.keyed id e he
    exact ⟨e, (h.mem_due e).2 ⟨he, hdistance⟩, hi⟩

/-- A level is in the order of the ids. -/
theorem Walk.AtLevel.ascending_due (h : w.AtLevel g roots n) :
    (w.next.toList.filterMap g.get?).Pairwise fun d e => g.Nearer roots d.id e.id := by
  have hids : w.next.toList.Pairwise (g.Nearer roots) :=
    w.next.ascending.imp_of_mem fun hid hother hlt =>
      ⟨n, n, (h.next _).1 hid, (h.next _).1 hother, .inr ⟨rfl, hlt⟩⟩
  refine hids.filterMap _ fun id other hnearer d hd e he => ?_
  rw [g.keyed id d hd, g.keyed other e he]
  exact hnearer

theorem Walk.AtLevel.step (h : w.AtLevel g roots n)
    (hstored : ∀ id ∈ w.next.toList, ∃ e, g.get? id = some e) :
    Walk.AtLevel g roots (n + 1)
      ((w.next.toList.filterMap g.get?).foldl Walk.load { w with next := .empty }) := by
  constructor
  case seen =>
    intro i
    rw [mem_seen_foldl_load, h.cited_due, h.seen]
    constructor
    · rintro (⟨m, hm, hi⟩ | ⟨id, hid, hcites⟩)
      · exact ⟨m, Nat.le_succ_of_le hm, hi⟩
      · exact hid.exists_cited hcites
    · rintro ⟨m, hm, hi⟩
      rcases Nat.le_succ_iff.1 hm with hm | rfl
      · exact .inl ⟨m, hm, hi⟩
      · exact .inr hi.exists_nearer
  case next =>
    intro i
    rw [mem_next_foldl_load, h.cited_due, h.seen]
    constructor
    · rintro (hempty | ⟨hnew, id, hid, hcites⟩)
      · exact absurd hempty (SortedSet.not_mem_empty i)
      · obtain ⟨m, hm, hi⟩ := hid.exists_cited hcites
        rcases Nat.le_succ_iff.1 hm with hm | rfl
        · exact absurd ⟨m, hm, hi⟩ hnew
        · exact hi
    · intro hi
      refine .inr ⟨?_, hi.exists_nearer⟩
      rintro ⟨m, hm, hi'⟩
      cases hi.unique hi'
      omega
  case stored =>
    intro id m hid hm
    rcases Nat.lt_succ_iff_lt_or_eq.1 hm with hm | rfl
    · exact h.stored id m hid hm
    · exact hstored id ((h.next id).2 hid)
  case loaded =>
    intro e
    rw [loaded_foldl_load, List.mem_append, List.mem_reverse, h.mem_due, h.loaded, ← and_or_left]
    refine and_congr_right fun _ => ⟨?_, ?_⟩
    · rintro (hnow | ⟨m, hm, hbefore⟩)
      · exact ⟨n, Nat.lt_succ_self n, hnow⟩
      · exact ⟨m, Nat.lt_succ_of_lt hm, hbefore⟩
    · rintro ⟨m, hm, hdistance⟩
      rcases Nat.lt_succ_iff_lt_or_eq.1 hm with hm | rfl
      · exact .inr ⟨m, hm, hdistance⟩
      · exact .inl hdistance
  case ascending =>
    rw [loaded_foldl_load, List.reverse_append, List.reverse_reverse]
    refine List.pairwise_append.2 ⟨h.ascending, h.ascending_due, fun d hd e he => ?_⟩
    obtain ⟨-, m, hm, hdistance⟩ := (h.loaded d).1 (List.mem_reverse.1 hd)
    exact ⟨m, n, hdistance, ((h.mem_due e).1 he).2, .inl hm⟩

/-! ## The end of a walk -/

/-- When no level is due, the walk has loaded all that the roots lead to. -/
theorem Walk.AtLevel.closing_of_empty (h : w.AtLevel g roots n) (hn : n ≤ limit + 1)
    (hempty : w.next.isEmpty = true) : Closing g roots limit (.ok w.loaded.reverse) := by
  have hnone : ∀ id, ¬ g.Distance roots id n := fun id hid => by
    have hmem := (h.next id).2 hid
    rw [SortedSet.mem_def, List.isEmpty_iff.1 hempty] at hmem
    cases hmem
  have hlt : ∀ id m, g.Distance roots id m → m < n := fun id m hid =>
    Nat.lt_of_not_le fun hle => not_distance_of_empty hnone hle hid
  refine .listed (complete_iff.2 fun id m hid => ?_) ⟨fun e => ?_, h.ascending⟩
  · have hm := hlt id m hid
    exact ⟨h.stored id m hid hm, by omega⟩
  · rw [List.mem_reverse, h.loaded, ← exists_distance_iff]
    refine and_congr_right fun _ => exists_congr fun m => ?_
    exact ⟨And.right, fun hid => ⟨hlt e.id m hid, hid⟩⟩

theorem Walk.AtLevel.not_lacking (h : w.AtLevel g roots n) (hn : limit < n) :
    ¬ g.Lacking roots limit := by
  rintro ⟨id, m, hid, hm, hmissing⟩
  obtain ⟨e, he⟩ := h.stored id m hid (Nat.lt_of_le_of_lt hm hn)
  rw [hmissing] at he
  cases he

/-- The first event of a level that is not stored is the first that is missing. -/
theorem Walk.AtLevel.firstGap (h : w.AtLevel g roots n) (hn : n ≤ limit)
    {before after : List EventId} {id : EventId} (hsplit : w.next.toList = before ++ id :: after)
    (hbefore : ∀ i ∈ before, ∃ e, g.get? i = some e) (hid : g.get? id = none) :
    g.FirstGap roots limit id := by
  have hdistance : g.Distance roots id n := (h.next id).1 (by simp [SortedSet.mem_def, hsplit])
  refine ⟨hid, ⟨n, hn, hdistance⟩, fun other hother ⟨m, hm⟩ => ?_⟩
  rcases Nat.lt_trichotomy m n with hlt | rfl | hgt
  · obtain ⟨e, he⟩ := h.stored other m hm hlt
    rw [hother] at he
    cases he
  · have hmem : other ∈ w.next.toList := (h.next other).2 hm
    have hsorted := w.next.ascending
    rw [hsplit] at hmem hsorted
    rcases List.mem_append.1 hmem with hmem | hmem
    · obtain ⟨e, he⟩ := hbefore other hmem
      rw [hother] at he
      cases he
    · rcases List.mem_cons.1 hmem with rfl | hmem
      · exact .inl rfl
      · have hlater := (List.pairwise_append.1 hsorted).2.1
        have hlt := (List.pairwise_cons.1 hlater).1 other hmem
        exact .inr ⟨m, m, hdistance, hm, .inr ⟨rfl, hlt⟩⟩
  · exact .inr ⟨n, m, hdistance, hm, .inl hgt⟩

theorem closing_walk (h : w.AtLevel g roots n) (hn : n + levels = limit + 1) :
    Closing g roots limit (walk g limit levels w) := by
  induction levels generalizing n w with
  | zero =>
    unfold walk
    split
    · next hempty => exact h.closing_of_empty (by omega) hempty
    · next hmore =>
      obtain ⟨id, hid⟩ := List.exists_mem_of_ne_nil _ fun hnil => hmore (List.isEmpty_iff.2 hnil)
      refine .deep (fun hcomplete => ?_) (h.not_lacking (by omega))
      obtain ⟨-, hlimit⟩ := complete_iff.1 hcomplete id n ((h.next id).1 hid)
      omega
  | succ levels ih =>
    unfold walk
    split
    · next hempty => exact h.closing_of_empty (by omega) hempty
    · rcases present_or_gap g w.next.toList with hpresent | ⟨before, id, after, hsplit, hbefore, hid⟩
      · rw [(loadLevel_of_present _ _ hpresent).2]
        exact ih (h.step hpresent) (by omega)
      · rw [hsplit, loadLevel_of_gap _ hbefore hid]
        exact .gap (h.firstGap (by omega) hsplit hbefore hid)

theorem closing_closure (g : EventGraph) (roots : List EventId) (batch limit : Nat) :
    Closing g roots limit ((ofGraph g).closure roots batch limit).outcome := by
  unfold closure
  rw [outcome_walkLevels]
  exact closing_walk (Walk.atLevel_roots g roots) (Nat.zero_add _)

/-! ## Lookups -/

/-- A walk has gone on: what has come up for the next level had not been come across. -/
structure Walk.Onward (w v : Walk) : Prop where
  seen : ∀ id ∈ w.seen, id ∈ v.seen
  next : ∀ id ∈ v.next, id ∈ w.next ∨ id ∉ w.seen ∧ id ∈ v.seen

variable {s : EventStore} {u v : Walk} {row : List EventId} {level asked : List (List EventId)}
  {batch : Nat}

theorem Walk.Onward.refl (w : Walk) : w.Onward w where
  seen _ hid := hid
  next _ hid := .inl hid

theorem Walk.Onward.trans (h : w.Onward u) (h' : u.Onward v) : w.Onward v where
  seen id hid := h'.seen id (h.seen id hid)
  next id hid := by
    rcases h'.next id hid with hnext | ⟨hnew, hseen⟩
    · exact (h.next id hnext).imp_right fun ⟨hnew, hseen⟩ => ⟨hnew, h'.seen id hseen⟩
    · exact .inr ⟨fun hold => hnew (h.seen id hold), hseen⟩

theorem Walk.Onward.new (h : Walk.Onward { w with next := .empty } v) {id : EventId}
    (hid : id ∈ v.next) : id ∉ w.seen ∧ id ∈ v.seen :=
  (h.next id hid).resolve_left (SortedSet.not_mem_empty id)

theorem onward_loadRow (h : (loadRow s w row).outcome = .ok v) : w.Onward v := by
  obtain ⟨es, -, -, rfl⟩ := outcome_loadRow_eq_ok.1 h
  constructor
  · intro id hid
    exact (mem_seen_foldl_load es w).2 (.inl hid)
  · intro id hid
    refine ((mem_next_foldl_load es w).1 hid).imp_right fun ⟨hnew, hcited⟩ => ⟨hnew, ?_⟩
    exact (mem_seen_foldl_load es w).2 (.inr hcited)

theorem lookups_loadRow (s : EventStore) (w : Walk) (row : List EventId) :
    (loadRow s w row).lookups = [row] := by
  unfold loadRow
  cases hanswer : s.answer row with
  | error e => exact Fetched.lookups_bind_of_error hanswer _
  | ok es =>
    rw [Fetched.lookups_bind_of_ok hanswer]
    split <;> rfl

/-- The rows of a level are looked up in order, up to the first that fails. -/
theorem lookups_loadRows (s : EventStore) (w : Walk) (rows : List (List EventId)) :
    (rows.foldlM (loadRow s) w).lookups <+: rows := by
  induction rows generalizing w with
  | nil => exact List.prefix_refl []
  | cons row rows ih =>
    rw [List.foldlM_cons]
    cases hrow : (loadRow s w row).outcome with
    | error e =>
      rw [Fetched.lookups_bind_of_error hrow, lookups_loadRow]
      exact List.prefix_append [row] rows
    | ok v =>
      rw [Fetched.lookups_bind_of_ok hrow, lookups_loadRow]
      exact (List.prefix_append_right_inj [row]).2 (ih v)

theorem onward_loadRows (h : (level.foldlM (loadRow s) w).outcome = .ok v) : w.Onward v := by
  rw [Fetched.outcome_foldlM] at h
  exact foldlM_keeps (fun _ _ _ _ hu hv => hu.trans (onward_loadRow hv)) (.refl w) h

/-- The lookups of a walk: each level is asked for in its rows, up to a failure at the most. -/
inductive Asks (batch : Nat) : Walk → List (List EventId) → Prop
  | stop {w : Walk} {level : List (List EventId)} :
    level <+: rows batch w.next.toList → Asks batch w level
  | on {w v : Walk} {level rest : List (List EventId)} :
    level <+: rows batch w.next.toList → Walk.Onward { w with next := .empty } v →
    Asks batch v rest → Asks batch w (level ++ rest)

theorem asks_walkLevels (s : EventStore) (batch limit levels : Nat) (w : Walk) :
    Asks batch w (walkLevels s batch limit levels w).lookups := by
  induction levels generalizing w with
  | zero =>
    unfold walkLevels
    split <;> exact .stop List.nil_prefix
  | succ levels ih =>
    unfold walkLevels
    split
    · exact .stop List.nil_prefix
    · have hlevel := lookups_loadRows s { w with next := .empty } (rows batch w.next.toList)
      cases hload : ((rows batch w.next.toList).foldlM (loadRow s)
          { w with next := .empty }).outcome with
      | error e =>
        rw [Fetched.lookups_bind_of_error hload]
        exact .stop hlevel
      | ok v =>
        rw [Fetched.lookups_bind_of_ok hload]
        exact .on hlevel (onward_loadRows hload) (ih v)

theorem flatten_sublist {size : Nat} {l : List EventId} (h : level <+: rows size l) :
    level.flatten.Sublist l := by
  have hprefix := h.flatten
  rw [flatten_rows] at hprefix
  exact hprefix.sublist

theorem Asks.length_of_mem (h : Asks batch w asked) (hrow : row ∈ asked) :
    1 ≤ row.length ∧ row.length ≤ max batch 1 := by
  induction h with
  | stop hlevel => exact length_of_mem_rows (hlevel.subset hrow)
  | on hlevel _ _ ih =>
    rcases List.mem_append.1 hrow with hrow | hrow
    · exact length_of_mem_rows (hlevel.subset hrow)
    · exact ih hrow

/-- What a walk asks for is due, or has not been come across. -/
theorem Asks.due_or_new (h : Asks batch w asked) {id : EventId} (hid : id ∈ asked.flatten) :
    id ∈ w.next ∨ id ∉ w.seen := by
  induction h with
  | stop hlevel => exact .inl ((flatten_sublist hlevel).subset hid)
  | on hlevel hon _ ih =>
    rw [List.flatten_append] at hid
    rcases List.mem_append.1 hid with hid | hid
    · exact .inl ((flatten_sublist hlevel).subset hid)
    · rcases ih hid with hnext | hnew
      · exact .inr (hon.new hnext).1
      · exact .inr fun hold => hnew (hon.seen id hold)

/-- What is due has been come across, so nothing is asked for twice. -/
theorem Asks.nodup (h : Asks batch w asked) (hw : ∀ id ∈ w.next, id ∈ w.seen) :
    asked.flatten.Nodup := by
  induction h with
  | stop hlevel => exact (flatten_sublist hlevel).nodup (SortedSet.nodup_toList _)
  | @on w v level rest hlevel hon hrest ih =>
    have hsublist := flatten_sublist hlevel
    rw [List.flatten_append]
    refine List.nodup_append.2 ⟨hsublist.nodup w.next.nodup_toList, ih fun _ hid => (hon.new hid).2,
      fun id hid other hother heq => ?_⟩
    subst heq
    have hold : id ∈ w.seen := hw id (hsublist.subset hid)
    rcases hrest.due_or_new hother with hnext | hunseen
    · exact (hon.new hnext).1 hold
    · exact hunseen (hon.seen id hold)

/-! ## The walk as a whole -/

/-- The closure of some roots succeeds if everything they lead to is stored and near enough, and
not otherwise, and then it lists that by distance and id.  If something near enough is missing it
names the first that is, and else it says that the walk goes too far.  How the ids are cut into
lookups does not show; nothing is looked up twice, and no lookup is empty or too large. -/
theorem closure_by_distance (g : EventGraph) (roots : List EventId) (batch limit : Nat) :
    ((∃ es, ((ofGraph g).closure roots batch limit).outcome = .ok es) ↔
        g.Complete roots limit) ∧
      (∀ es, ((ofGraph g).closure roots batch limit).outcome = .ok es → g.Listing roots es) ∧
      (g.Lacking roots limit → ∃ id, g.FirstGap roots limit id ∧
        ((ofGraph g).closure roots batch limit).outcome =
          .error (.fetch id.text .referenceNotInStore)) ∧
      (¬ g.Complete roots limit → ¬ g.Lacking roots limit →
        ((ofGraph g).closure roots batch limit).outcome =
          .error (.graphCorruption (.closureTooDeep limit))) ∧
      (∀ batch', ((ofGraph g).closure roots batch' limit).outcome =
        ((ofGraph g).closure roots batch limit).outcome) ∧
      ((ofGraph g).closure roots batch limit).lookups.flatten.Nodup ∧
      ∀ row ∈ ((ofGraph g).closure roots batch limit).lookups,
        1 ≤ row.length ∧ row.length ≤ max batch 1 := by
  have hclosing := closing_closure g roots batch limit
  have hasks := asks_walkLevels (ofGraph g) batch limit (limit + 1)
    ⟨.ofList roots, .ofList roots, []⟩
  refine ⟨hclosing.exists_ok_iff, fun es hes => ?_, hclosing.gap_of_lacking,
    hclosing.deep_of_not, fun batch' => ?_, hasks.nodup fun _ hid => hid,
    fun row hrow => hasks.length_of_mem hrow⟩
  · rw [hes] at hclosing
    exact hclosing.listing
  · rw [closure, closure, outcome_walkLevels, outcome_walkLevels]

/-- From its recent note the diary is closed with a limit of one; without the early note that one is
missing; and with a limit of zero the other notes are too far. -/
theorem closure_by_distance_diary :
    diary.Listing [recentNote.id] [recentNote, earlyNote, middleNote] ∧
      (∃ id, (EventGraph.ofEvents [recentNote, middleNote]).FirstGap [recentNote.id] 1 id ∧
        ((ofGraph (.ofEvents [recentNote, middleNote])).closure [recentNote.id] 1 1).outcome =
          .error (.fetch id.text .referenceNotInStore)) ∧
      ((ofGraph diary).closure [recentNote.id] 1 0).outcome =
        .error (.graphCorruption (.closureTooDeep 0)) := by
  have hearly : ∀ {g : EventGraph}, g.get? recentNote.id = some recentNote →
      g.Steps [recentNote.id] 1 earlyNote.id := fun hrecent =>
    .cite (.root List.mem_cons_self) ⟨recentNote, hrecent, by decide⟩
  obtain ⟨-, hlisting, -⟩ := closure_by_distance diary [recentNote.id] 1 1
  obtain ⟨-, -, hgap, -⟩ :=
    closure_by_distance (.ofEvents [recentNote, middleNote]) [recentNote.id] 1 1
  obtain ⟨-, -, -, hdeep, -⟩ := closure_by_distance diary [recentNote.id] 1 0
  refine ⟨hlisting _ rfl, hgap ?_, hdeep ?_ ?_⟩
  · have hsteps : (EventGraph.ofEvents [recentNote, middleNote]).Steps [recentNote.id] 1
        earlyNote.id := hearly rfl
    obtain ⟨n, hn, hdistance⟩ := hsteps.exists_distance
    exact ⟨earlyNote.id, n, hdistance, hn, rfl⟩
  · intro hcomplete
    obtain ⟨-, n, hn, hdistance⟩ := hcomplete _ (exists_steps_iff.1 ⟨1, hearly rfl⟩)
    cases Nat.le_zero.1 hn
    exact absurd (distance_zero_iff.1 hdistance) (by decide)
  · rintro ⟨id, n, hdistance, hn, hmissing⟩
    cases Nat.le_zero.1 hn
    cases List.mem_singleton.1 (distance_zero_iff.1 hdistance)
    cases hmissing

end EventStore

end StateResolution
