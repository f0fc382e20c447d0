import StateResolution.Proofs.Graph.Reach
import StateResolution.Store.Closure

/-!
# The closure walk over a graph

A store that holds the events of a graph answers each id on its own, so how the ids of a
level are cut into lookups does not show in the result: the walk over such a store ends
as `walk` does, which goes through the levels id by id (`outcome_walkLevels`).

The walk asks for nothing but what its roots reach, so two graphs that agree on that give
the same events or the same error (`outcome_load_congr`).  The graph that is loaded is
closed (`closed_of_load`).
-/

namespace StateResolution

open Fallible (bind_eq_ok pure_eq_ok)

/-- Of the members of a list with a property one comes first. -/
theorem exists_first {α : Type} {P : α → Prop} {l : List α} (h : ∃ a ∈ l, P a) :
    ∃ before a after, l = before ++ a :: after ∧ P a ∧ ∀ b ∈ before, ¬ P b := by
  classical
  have hsome : (l.find? fun a => decide (P a)).isSome = true := by simpa using h
  obtain ⟨a, ha⟩ := Option.isSome_iff_exists.1 hsome
  obtain ⟨hP, before, after, hsplit, hbefore⟩ := List.find?_eq_some_iff_append.1 ha
  exact ⟨before, a, after, hsplit, by simpa using hP, by simpa using hbefore⟩

namespace Fetched

variable {α β : Type}

theorem outcome_bind (x : Fetched α) (f : α → Fetched β) :
    (x >>= f).outcome = x.outcome >>= fun a => (f a).outcome := by
  show (andThen x f).outcome = _
  unfold andThen
  cases x.outcome <;> rfl

theorem lookups_bind_of_ok {x : Fetched α} {a : α} (h : x.outcome = .ok a) (f : α → Fetched β) :
    (x >>= f).lookups = x.lookups ++ (f a).lookups := by
  show (andThen x f).lookups = _
  rw [andThen, h]

theorem lookups_bind_of_error {x : Fetched α} {e : Error} (h : x.outcome = .error e)
    (f : α → Fetched β) : (x >>= f).lookups = x.lookups := by
  show (andThen x f).lookups = _
  rw [andThen, h]

theorem outcome_foldlM (f : β → α → Fetched β) (l : List α) (b : β) :
    (l.foldlM f b).outcome = l.foldlM (fun b a => (f b a).outcome) b := by
  induction l generalizing b with
  | nil => rfl
  | cons a l ih =>
    rw [List.foldlM_cons, List.foldlM_cons, outcome_bind]
    congr 1
    funext c
    exact ih c

end Fetched

namespace EventStore

def loadLevel (g : EventGraph) : Walk → List EventId → Except Error Walk
  | w, [] => .ok w
  | w, id :: rest =>
    match g.get? id with
    | some e => loadLevel g (w.load e) rest
    | none => .error (.fetch id.text .referenceNotInStore)

/-- Walks on level by level, each id by id. -/
def walk (g : EventGraph) (limit : Nat) : Nat → Walk → Except Error (List Event)
  | levels, w =>
    if w.next.isEmpty then .ok w.loaded.reverse
    else
      match levels with
      | 0 => .error (.graphCorruption (.closureTooDeep limit))
      | levels + 1 => do
        let w ← loadLevel g { w with next := .empty } w.next.toList
        walk g limit levels w

def loadSet (g : EventGraph) (roots : SortedSet EventId) (limit : Nat) :
    Except Error EventGraph := do
  let es ← walk g limit (limit + 1) ⟨roots, roots, []⟩
  (EventGraph.ofEvents es).verifyAcyclic limit
  pure (.ofEvents es)

variable {g : EventGraph}

theorem getEvent_eq_ok {id : EventId} {e : Event} :
    ((ofGraph g).getEvent id).outcome = .ok e ↔ g.get? id = some e := by
  have hanswer : ((ofGraph g).getEvents [id]).outcome = .ok (g.get? id).toList := by
    show Except.ok ([id].filterMap g.get?) = _
    cases hid : g.get? id with
    | none => rw [List.filterMap_cons_none hid, List.filterMap_nil, Option.toList_none]
    | some d => rw [List.filterMap_cons_some hid, List.filterMap_nil, Option.toList_some]
  rw [getEvent, Fetched.outcome_bind, hanswer]
  cases g.get? id with
  | none => constructor <;> intro h <;> cases h
  | some d =>
    show Except.ok d = .ok e ↔ _
    rw [Except.ok.injEq, Option.some.injEq]

/-! ## Rows -/

theorem flatten_rowsUpTo {α : Type} {size : Nat} (hsize : 0 < size) (n : Nat) (l : List α)
    (hn : l.length ≤ n) : (rowsUpTo size n l).flatten = l := by
  induction n generalizing l with
  | zero =>
    cases List.length_eq_zero_iff.1 (Nat.le_zero.1 hn)
    rfl
  | succ n ih =>
    cases l with
    | nil => rfl
    | cons a l =>
      have hrest : ((a :: l).drop size).length ≤ n := by
        simp only [List.length_drop, List.length_cons] at hn ⊢
        omega
      rw [rowsUpTo, List.flatten_cons, ih _ hrest, List.take_append_drop]

theorem flatten_rows {α : Type} (size : Nat) (l : List α) : (rows size l).flatten = l :=
  flatten_rowsUpTo (by omega) _ l (Nat.le_refl _)

/-- No row is empty, and none is longer than the size. -/
theorem length_of_mem_rows {α : Type} {size : Nat} {l row : List α} (h : row ∈ rows size l) :
    1 ≤ row.length ∧ row.length ≤ max size 1 := by
  unfold rows at h
  generalize l.length = n at h
  induction n generalizing l with
  | zero => cases h
  | succ n ih =>
    cases l with
    | nil => cases h
    | cons a l =>
      rcases List.mem_cons.1 h with rfl | hlater
      · rw [List.length_take, List.length_cons]
        omega
      · exact ih hlater

/-! ## Id by id -/

theorem loadLevel_append (w : Walk) (l m : List EventId) :
    loadLevel g w (l ++ m) = loadLevel g w l >>= (loadLevel g · m) := by
  induction l generalizing w with
  | nil => rfl
  | cons id l ih =>
    rw [List.cons_append, loadLevel, loadLevel]
    cases g.get? id with
    | some e => exact ih (w.load e)
    | none => rfl

theorem foldlM_loadLevel (w : Walk) (rows : List (List EventId)) :
    rows.foldlM (loadLevel g) w = loadLevel g w rows.flatten := by
  induction rows generalizing w with
  | nil => rfl
  | cons row rows ih =>
    rw [List.foldlM_cons, List.flatten_cons, loadLevel_append]
    congr 1
    funext w
    exact ih w

theorem loadLevel_of_present (w : Walk) (row : List EventId)
    (h : ∀ id ∈ row, ∃ e, g.get? id = some e) :
    (row.filterMap g.get?).length = row.length ∧
      loadLevel g w row = .ok ((row.filterMap g.get?).foldl Walk.load w) := by
  induction row generalizing w with
  | nil => exact ⟨rfl, rfl⟩
  | cons id row ih =>
    obtain ⟨e, he⟩ := h id List.mem_cons_self
    obtain ⟨hlength, hload⟩ := ih (w.load e) fun id hid => h id (List.mem_cons_of_mem _ hid)
    rw [List.filterMap_cons_some he, loadLevel, he]
    exact ⟨congrArg (· + 1) hlength, hload⟩

/-- The first id that is not stored is the error. -/
theorem loadLevel_of_gap (w : Walk) {before after : List EventId} {id : EventId}
    (hbefore : ∀ id ∈ before, ∃ e, g.get? id = some e) (hid : g.get? id = none) :
    loadLevel g w (before ++ id :: after) = .error (.fetch id.text .referenceNotInStore) := by
  rw [loadLevel_append, (loadLevel_of_present w before hbefore).2]
  show loadLevel g _ (id :: after) = _
  rw [loadLevel, hid]

/-- The text that names a gap is that of the first id that is not stored. -/
theorem firstMissing_eq {before after : List EventId} {id : EventId}
    (hbefore : ∀ id ∈ before, ∃ e, g.get? id = some e) (hid : g.get? id = none) :
    firstMissing (before ++ id :: after) ((before ++ id :: after).filterMap g.get?) = id.text := by
  have hfind : (before ++ id :: after).find? (fun i =>
      !((before ++ id :: after).filterMap g.get?).any (·.id == i)) = some id := by
    refine List.find?_eq_some_iff_append.2 ⟨?_, before, after, rfl, fun i hi => ?_⟩
    · simp only [Bool.not_eq_true', List.any_eq_false, beq_iff_eq]
      intro e he heq
      obtain ⟨i, -, hi⟩ := List.mem_filterMap.1 he
      rw [← heq, g.keyed i e hi, hi] at hid
      cases hid
    · obtain ⟨e, he⟩ := hbefore i hi
      simp only [Bool.not_not, List.any_eq_true, beq_iff_eq]
      exact ⟨e, List.mem_filterMap.2 ⟨i, List.mem_append_left _ hi, he⟩, g.keyed i e he⟩
  rw [firstMissing, hfind]
  rfl

theorem length_filterMap_of_gap {row : List EventId} {id : EventId} (hrow : id ∈ row)
    (hid : g.get? id = none) : (row.filterMap g.get?).length < row.length := by
  refine Nat.lt_of_le_of_ne (List.length_filterMap_le ..) fun heq => ?_
  have hsome := List.filterMap_length_eq_length.1 heq id hrow
  rw [hid] at hsome
  cases hsome

/-- Either all of some ids are stored, or there is a first one that is not. -/
theorem present_or_gap (g : EventGraph) (ids : List EventId) :
    (∀ id ∈ ids, ∃ e, g.get? id = some e) ∨
      ∃ before id after, ids = before ++ id :: after ∧
        (∀ i ∈ before, ∃ e, g.get? i = some e) ∧ g.get? id = none := by
  by_cases hgap : ∃ id ∈ ids, g.get? id = none
  · obtain ⟨before, id, after, hsplit, hid, hbefore⟩ := exists_first hgap
    exact .inr ⟨before, id, after, hsplit,
      fun i hi => Option.ne_none_iff_exists'.1 (hbefore i hi), hid⟩
  · exact .inl fun id hid => Option.ne_none_iff_exists'.1 fun h => hgap ⟨id, hid, h⟩

/-- A lookup of a row ends as the loading of its ids. -/
theorem outcome_loadRow (w : Walk) (row : List EventId) :
    (loadRow (ofGraph g) w row).outcome = loadLevel g w row := by
  have hrow : (loadRow (ofGraph g) w row).outcome =
      if (row.filterMap g.get?).length < row.length then
        .error (.fetch (firstMissing row (row.filterMap g.get?)) .referenceNotInStore)
      else .ok ((row.filterMap g.get?).foldl Walk.load w) := by
    unfold loadRow
    rw [Fetched.outcome_bind]
    show (ite _ _ _ : Fetched Walk).outcome = _
    split <;> rfl
  rw [hrow]
  rcases present_or_gap g row with hpresent | ⟨before, id, after, rfl, hbefore, hid⟩
  · obtain ⟨hlength, hload⟩ := loadLevel_of_present w row hpresent
    rw [if_neg (by omega), hload]
  · rw [if_pos (length_filterMap_of_gap (List.mem_append_right _ List.mem_cons_self) hid),
      firstMissing_eq hbefore hid, loadLevel_of_gap w hbefore hid]

/-- How the ids are cut into lookups does not show in the result. -/
theorem outcome_walkLevels (batch limit levels : Nat) (w : Walk) :
    (walkLevels (ofGraph g) batch limit levels w).outcome = walk g limit levels w := by
  induction levels generalizing w with
  | zero =>
    unfold walkLevels walk
    split <;> rfl
  | succ levels ih =>
    unfold walkLevels walk
    split
    · rfl
    · rw [Fetched.outcome_bind, Fetched.outcome_foldlM]
      simp only [outcome_loadRow, ih, foldlM_loadLevel, flatten_rows]

/-! ## Coming across ids -/

variable {g' : EventGraph} {within : EventId → Prop} {w w' w'' : Walk} {ids more : List EventId}

/-- What coming across some ids does to a walk. -/
structure Walk.Met (w : Walk) (ids : List EventId) (w' : Walk) : Prop where
  seen : ∀ id, id ∈ w'.seen ↔ id ∈ ids ∨ id ∈ w.seen
  due : ∀ id ∈ w'.seen, id ∈ w'.next ∨ id ∈ w.seen
  keep : ∀ id ∈ w.next, id ∈ w'.next
  next : ∀ id ∈ w'.next, id ∈ ids ∨ id ∈ w.next
  loaded : w'.loaded = w.loaded

theorem Walk.Met.refl (w : Walk) : w.Met [] w where
  seen := by simp
  due id hid := .inr hid
  keep id hid := hid
  next id hid := .inr hid
  loaded := rfl

theorem Walk.Met.trans (h : w.Met ids w') (h' : w'.Met more w'') : w.Met (ids ++ more) w'' where
  seen id := by
    rw [h'.seen, h.seen, List.mem_append]
    tauto
  due id hid := by
    rcases h'.due id hid with hnext | hseen
    · exact .inl hnext
    · exact (h.due id hseen).imp_left (h'.keep id)
  keep id hid := h'.keep id (h.keep id hid)
  next id hid := by
    rw [List.mem_append]
    rcases h'.next id hid with hmore | hnext
    · exact .inl (.inr hmore)
    · exact (h.next id hnext).imp_left .inl
  loaded := h'.loaded.trans h.loaded

theorem Walk.met_meet (w : Walk) (id : EventId) : w.Met [id] (w.meet id) := by
  unfold Walk.meet
  split
  · next hid =>
    refine ⟨fun i => ⟨.inr, ?_⟩, fun i hi => .inr hi, fun i hi => hi, fun i hi => .inr hi, rfl⟩
    rintro (hi | hi)
    · exact List.mem_singleton.1 hi ▸ hid
    · exact hi
  · refine ⟨fun i => ?_, fun i hi => ?_, fun i hi => ?_, fun i hi => ?_, rfl⟩
    · simp
    · exact (SortedSet.mem_insert.1 hi).imp_left fun h => SortedSet.mem_insert.2 (.inl h)
    · exact SortedSet.mem_insert.2 (.inr hi)
    · exact (SortedSet.mem_insert.1 hi).imp_left List.mem_singleton.2

theorem Walk.met_foldl (w : Walk) (ids : List EventId) : w.Met ids (ids.foldl Walk.meet w) := by
  induction ids generalizing w with
  | nil => exact .refl w
  | cons id ids ih => exact (w.met_meet id).trans (ih (w.meet id))

/-! ## Loading some events -/

variable {s : EventStore} {v : Walk} {row : List EventId} {i : EventId}

theorem mem_next_foldl_meet (w : Walk) (ids : List EventId) :
    i ∈ (ids.foldl Walk.meet w).next ↔ i ∈ w.next ∨ i ∉ w.seen ∧ i ∈ ids := by
  induction ids generalizing w with
  | nil => simp
  | cons id ids ih =>
    rw [List.foldl_cons, ih, (w.met_meet id).seen]
    unfold Walk.meet
    split
    · next hseen =>
      by_cases hi : i = id
      · subst hi
        simp [hseen]
      · simp [hi]
    · next hnew =>
      by_cases hi : i = id
      · subst hi
        simp [hnew]
      · simp [hi]

theorem mem_seen_foldl_load (es : List Event) (w : Walk) :
    i ∈ (es.foldl Walk.load w).seen ↔ i ∈ w.seen ∨ ∃ e ∈ es, i ∈ e.authEvents := by
  induction es generalizing w with
  | nil => simp
  | cons e es ih =>
    have hmet : i ∈ (w.load e).seen ↔ i ∈ e.authEvents ∨ i ∈ w.seen :=
      (w.met_foldl e.authEvents).seen i
    rw [List.foldl_cons, ih, hmet, List.exists_mem_cons_iff]
    tauto

theorem mem_next_foldl_load (es : List Event) (w : Walk) :
    i ∈ (es.foldl Walk.load w).next ↔
      i ∈ w.next ∨ i ∉ w.seen ∧ ∃ e ∈ es, i ∈ e.authEvents := by
  induction es generalizing w with
  | nil => simp
  | cons e es ih =>
    have hseen : i ∈ (w.load e).seen ↔ i ∈ e.authEvents ∨ i ∈ w.seen :=
      (w.met_foldl e.authEvents).seen i
    have hnext : i ∈ (w.load e).next ↔ i ∈ w.next ∨ i ∉ w.seen ∧ i ∈ e.authEvents :=
      mem_next_foldl_meet w e.authEvents
    rw [List.foldl_cons, ih, hseen, hnext, List.exists_mem_cons_iff]
    by_cases hold : i ∈ w.seen
    · simp [hold]
    · by_cases hcited : i ∈ e.authEvents <;> simp [hold, hcited]

theorem loaded_foldl_load (es : List Event) (w : Walk) :
    (es.foldl Walk.load w).loaded = es.reverse ++ w.loaded := by
  induction es generalizing w with
  | nil => rfl
  | cons e es ih =>
    have hloaded : (w.load e).loaded = e :: w.loaded :=
      congrArg (e :: ·) (w.met_foldl e.authEvents).loaded
    rw [List.foldl_cons, ih, hloaded, List.reverse_cons, List.append_assoc]
    rfl

theorem outcome_loadRow_eq_ok :
    (loadRow s w row).outcome = .ok v ↔
      ∃ es, s.answer row = .ok es ∧ row.length ≤ es.length ∧ es.foldl Walk.load w = v := by
  unfold loadRow
  rw [Fetched.outcome_bind, bind_eq_ok]
  refine exists_congr fun es => and_congr_right fun _ => ?_
  by_cases hshort : es.length < row.length
  · rw [if_pos hshort]
    constructor
    · intro h
      cases h
    · intro h
      omega
  · rw [if_neg hshort]
    constructor
    · intro h
      cases h
      exact ⟨by omega, rfl⟩
    · rintro ⟨-, rfl⟩
      rfl

/-! ## What the walk asks for -/

/-- The ids that come next stay in a part that citations do not lead out of. -/
theorem next_of_loadLevel (hcited : ∀ id cited, within id → g.Cites id cited → within cited)
    (hids : ∀ id ∈ ids, within id) (hw : ∀ id ∈ w.next, within id)
    (h : loadLevel g w ids = .ok w') : ∀ id ∈ w'.next, within id := by
  induction ids generalizing w with
  | nil =>
    cases h
    exact hw
  | cons id ids ih =>
    rw [loadLevel] at h
    split at h
    · next e he =>
      refine ih (fun i hi => hids i (List.mem_cons_of_mem _ hi)) (fun i hi => ?_) h
      rcases (w.met_foldl e.authEvents).next i hi with hcite | hnext
      · exact hcited id i (hids id List.mem_cons_self) ⟨e, he, hcite⟩
      · exact hw i hnext
    · cases h

theorem loadLevel_congr (hagree : ∀ id, within id → g.get? id = g'.get? id)
    (hids : ∀ id ∈ ids, within id) (w : Walk) : loadLevel g w ids = loadLevel g' w ids := by
  induction ids generalizing w with
  | nil => rfl
  | cons id ids ih =>
    rw [loadLevel, loadLevel, ← hagree id (hids id List.mem_cons_self)]
    split
    · exact ih (fun i hi => hids i (List.mem_cons_of_mem _ hi)) _
    · rfl

/-- Graphs that agree on a part that citations do not lead out of are walked alike from
there. -/
theorem walk_congr (within : EventId → Prop)
    (hcited : ∀ id cited, within id → g.Cites id cited → within cited)
    (hagree : ∀ id, within id → g.get? id = g'.get? id) (limit levels : Nat)
    (hw : ∀ id ∈ w.next, within id) : walk g limit levels w = walk g' limit levels w := by
  induction levels generalizing w with
  | zero => rfl
  | succ levels ih =>
    unfold walk
    split
    · rfl
    · simp only [← loadLevel_congr hagree hw]
      cases hload : loadLevel g { w with next := .empty } w.next.toList with
      | error e => rfl
      | ok w' => exact ih (next_of_loadLevel hcited hw (by simp) hload)

/-! ## What the walk brings back -/

/-- The roots have been come across, and everything that a loaded event cites; and what
has been come across is due to be loaded, or has been. -/
structure Walk.Complete (roots : SortedSet EventId) (w : Walk) (pending : List EventId) :
    Prop where
  roots : ∀ id ∈ roots, id ∈ w.seen
  cited : ∀ e ∈ w.loaded, ∀ id ∈ e.authEvents, id ∈ w.seen
  seen : ∀ id ∈ w.seen, id ∈ w.next ∨ id ∈ pending ∨ ∃ e ∈ w.loaded, e.id = id

variable {roots : SortedSet EventId} {pending : List EventId}

theorem Walk.Complete.load {e : Event} (h : w.Complete roots (e.id :: pending)) :
    (w.load e).Complete roots pending := by
  have hmet := w.met_foldl e.authEvents
  have hseen : ∀ id ∈ w.seen, id ∈ (w.load e).seen := fun id hid => (hmet.seen id).2 (.inr hid)
  have hloaded : ∀ d, d ∈ (w.load e).loaded ↔ d = e ∨ d ∈ w.loaded := fun d => by
    show d ∈ e :: (e.authEvents.foldl Walk.meet w).loaded ↔ _
    rw [hmet.loaded, List.mem_cons]
  refine ⟨fun id hid => hseen id (h.roots id hid), fun d hd id hid => ?_, fun id hid => ?_⟩
  · rcases (hloaded d).1 hd with rfl | hd
    · exact (hmet.seen id).2 (.inl hid)
    · exact hseen id (h.cited d hd id hid)
  · rcases hmet.due id hid with hnext | hold
    · exact .inl hnext
    · rcases h.seen id hold with hnext | hpending | ⟨d, hd, rfl⟩
      · exact .inl (hmet.keep id hnext)
      · rcases List.mem_cons.1 hpending with rfl | hpending
        · exact .inr (.inr ⟨e, (hloaded e).2 (.inl rfl), rfl⟩)
        · exact .inr (.inl hpending)
      · exact .inr (.inr ⟨d, (hloaded d).2 (.inr hd), rfl⟩)

theorem Walk.Complete.loadLevel (h : w.Complete roots pending)
    (hload : loadLevel g w pending = .ok w') : w'.Complete roots [] := by
  induction pending generalizing w with
  | nil =>
    cases hload
    exact h
  | cons id pending ih =>
    rw [EventStore.loadLevel] at hload
    split at hload
    · next e he =>
      cases g.keyed id e he
      exact ih h.load hload
    · cases hload

theorem Walk.Complete.nextLevel (h : w.Complete roots []) :
    Walk.Complete roots { w with next := .empty } w.next.toList where
  roots := h.roots
  cited := h.cited
  seen id hid := .inr ((h.seen id hid).imp_right fun hid => hid.resolve_left nofun)

/-- When nothing is due, the roots have been loaded and all that the events cite. -/
theorem Walk.Complete.done (h : w.Complete roots []) (hempty : w.next.isEmpty = true) :
    (∀ id ∈ roots, ∃ e ∈ w.loaded, e.id = id) ∧
      ∀ e ∈ w.loaded, ∀ id ∈ e.authEvents, ∃ d ∈ w.loaded, d.id = id := by
  have hloaded : ∀ id ∈ w.seen, ∃ e ∈ w.loaded, e.id = id := fun id hid => by
    rcases h.seen id hid with hnext | hpending | hloaded
    · rw [SortedSet.mem_def, List.isEmpty_iff.1 hempty] at hnext
      cases hnext
    · cases hpending
    · exact hloaded
  exact ⟨fun id hid => hloaded id (h.roots id hid),
    fun e he id hid => hloaded id (h.cited e he id hid)⟩

theorem mem_of_walk {limit levels : Nat} {es : List Event} (h : w.Complete roots [])
    (hwalk : walk g limit levels w = .ok es) :
    (∀ id ∈ roots, ∃ e ∈ es, e.id = id) ∧
      ∀ e ∈ es, ∀ id ∈ e.authEvents, ∃ d ∈ es, d.id = id := by
  induction levels generalizing w with
  | zero =>
    unfold walk at hwalk
    split at hwalk
    · next hempty =>
      cases hwalk
      simpa only [List.mem_reverse] using h.done hempty
    · cases hwalk
  | succ levels ih =>
    unfold walk at hwalk
    split at hwalk
    · next hempty =>
      cases hwalk
      simpa only [List.mem_reverse] using h.done hempty
    · obtain ⟨w', hload, hrest⟩ := bind_eq_ok.1 hwalk
      exact ih (h.nextLevel.loadLevel hload) hrest

/-! ## Loading a graph -/

theorem Walk.complete_roots (roots : SortedSet EventId) :
    Walk.Complete roots ⟨roots, roots, []⟩ [] where
  roots _ hid := hid
  cited := nofun
  seen _ hid := .inl hid

theorem outcome_load_eq_ok {loaded : EventGraph} {roots : List EventId} {batch limit : Nat} :
    (s.load roots batch limit).outcome = .ok loaded ↔
      ∃ es, (s.closure roots batch limit).outcome = .ok es ∧
        (EventGraph.ofEvents es).verifyAcyclic limit = .ok () ∧
        EventGraph.ofEvents es = loaded := by
  unfold load
  simp only [Fetched.outcome_bind, bind_eq_ok]
  refine exists_congr fun es => and_congr_right fun _ => ?_
  constructor
  · rintro ⟨_, hverified, h⟩
    cases h
    exact ⟨hverified, rfl⟩
  · rintro ⟨hverified, rfl⟩
    exact ⟨(), hverified, rfl⟩

/-- Whatever the store, how the roots are listed does not show. -/
theorem load_of_mem_iff (s : EventStore) {roots roots' : List EventId}
    (h : ∀ id, id ∈ roots ↔ id ∈ roots') (batch limit : Nat) :
    s.load roots batch limit = s.load roots' batch limit := by
  have hset : SortedSet.ofList roots = SortedSet.ofList roots' := SortedSet.ext (by simp [h])
  rw [load, load, closure, closure, hset]

/-- Loading over a graph depends on the set of its roots, and not on the lookups. -/
theorem outcome_load (g : EventGraph) (roots : List EventId) (batch limit : Nat) :
    ((ofGraph g).load roots batch limit).outcome = loadSet g (.ofList roots) limit := by
  unfold load closure loadSet
  rw [Fetched.outcome_bind, outcome_walkLevels]
  congr 1
  funext es
  rw [Fetched.outcome_bind]
  rfl

/-- Loading depends on the set of the roots and on the events that they reach. -/
theorem outcome_load_congr {g g' : EventGraph} {roots roots' : List EventId}
    (hroots : ∀ id, id ∈ roots ↔ id ∈ roots')
    (hagree : ∀ root ∈ roots, ∀ id, g.Reaches root id → g.get? id = g'.get? id)
    (batch batch' limit : Nat) :
    ((ofGraph g).load roots batch limit).outcome =
      ((ofGraph g').load roots' batch' limit).outcome := by
  have hset : SortedSet.ofList roots = SortedSet.ofList roots' := SortedSet.ext (by simp [hroots])
  rw [outcome_load, outcome_load, hset, loadSet, loadSet]
  congr 1
  refine walk_congr (fun id => ∃ root ∈ roots, g.Reaches root id) ?_ ?_ _ _ ?_
  · rintro id cited ⟨root, hroot, hreach⟩ hcites
    exact ⟨root, hroot, hreach.tail hcites⟩
  · rintro id ⟨root, hroot, hreach⟩
    exact hagree root hroot id hreach
  · intro id hid
    exact ⟨id, (hroots id).2 (SortedSet.mem_ofList.1 hid), .refl⟩

/-- What is loaded holds the roots and is closed. -/
theorem closed_of_load {g loaded : EventGraph} {roots : List EventId} {batch limit : Nat}
    (h : ((ofGraph g).load roots batch limit).outcome = .ok loaded) :
    ∃ within, loaded.Closed within ∧ ∀ id ∈ roots, within id := by
  rw [outcome_load] at h
  obtain ⟨es, hwalk, hrest⟩ := bind_eq_ok.1 h
  obtain ⟨_, -, hloaded⟩ := bind_eq_ok.1 hrest
  cases pure_eq_ok.1 hloaded
  obtain ⟨hroots, hcited⟩ := mem_of_walk (Walk.complete_roots _) hwalk
  refine ⟨fun id => ∃ e ∈ es, e.id = id, ⟨?_, ?_⟩, fun id hid => hroots id (by simpa using hid)⟩
  · rintro id ⟨e, he, rfl⟩
    exact EventGraph.exists_get?_ofEvents he
  · rintro id cited - ⟨e, he, hcites⟩
    exact hcited e (EventGraph.mem_of_get?_ofEvents he).1 cited hcites

end EventStore

end StateResolution
