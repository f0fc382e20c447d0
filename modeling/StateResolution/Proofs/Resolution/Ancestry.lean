import StateResolution.Proofs.Graph.Reach
import StateResolution.Resolution.Mainline

/-!
# Lineages step by step

The lineage of an event is the sequence of events that each step to the first power levels event
cited leads to (`ancestor?`).  It has an end (`LineageLength`), or it comes back to an event where
it has been (`ReturnsWithin`) and from there on goes round and round.

*The mainline.*  The walk that gathers a lineage gets all of it, oldest first (`Gathered`), unless
the lineage has more events than the bound (`gathers_or_endless`).  In what it gathers an event
stands at the place that is the length of its own lineage (`Gathered.getElem?`).

*Depths.*  The walk to the mainline passes events without a position (`Passes`).  It stops at the
first that has one or behind the last of all (`Meets`), unless it passes more events than the
bound (`meets_or_endless`).  Both walks also stop where they have been, which adds no way to fail:
what a lineage passes once and comes back to, it passes for ever (`Passes.forever`).
-/

namespace StateResolution

/-- The first power levels event that an event cites. -/
def levelsParent? (g : EventGraph) (e : Event) : Option Event :=
  (e.authEvents.filterMap g.get?).find? (·.holds .powerLevels)

/-- The event that the lineage of an event comes to in a number of steps. -/
def ancestor? (g : EventGraph) (e : Event) : Nat → Option Event
  | 0 => some e
  | n + 1 => (ancestor? g e n).bind (levelsParent? g)

/-- The lineage of an event has a number of events, and then it ends. -/
structure LineageLength (g : EventGraph) (e : Event) (n : Nat) : Prop where
  ends : ancestor? g e n = none
  goes : ∀ i < n, ∃ a, ancestor? g e i = some a

/-- Among a number of events, the lineage of an event comes to one of them twice. -/
def ReturnsWithin (g : EventGraph) (e : Event) (n : Nat) : Prop :=
  ∃ i j a, i < j ∧ j < n ∧ ancestor? g e i = some a ∧ ancestor? g e j = some a

/-- A number of events come first in the lineage of an event, and none of them has a position. -/
def Passes (g : EventGraph) (positions : Positions) (e : Event) (n : Nat) : Prop :=
  ∀ i < n, ∃ a, ancestor? g e i = some a ∧ positions.get? a.id = none

/-- Behind a number of events without a position, the lineage of an event meets the mainline at a
position; or it ends there, which counts as zero. -/
inductive Meets (g : EventGraph) (positions : Positions) (e : Event) (n : Nat) : Nat → Prop
  | on {a : Event} {position : Nat} : Passes g positions e n → ancestor? g e n = some a →
    positions.get? a.id = some position → Meets g positions e n position
  | off : Passes g positions e n → ancestor? g e n = none → Meets g positions e n 0

/-- The lineage of an event as a list, oldest first. -/
inductive Gathered (g : EventGraph) : Event → List Event → Prop
  | oldest {e : Event} : levelsParent? g e = none → Gathered g e [e]
  | newer {e older : Event} {es : List Event} : levelsParent? g e = some older →
    Gathered g older es → Gathered g e (es ++ [e])

/-- A walk along the lineage of an event has come to another, past events with some ids. -/
structure Walked (g : EventGraph) (start : Event) (passed : List EventId) (e : Event) : Prop where
  here : ancestor? g start passed.length = some e
  past : ∀ id ∈ passed, ∃ i < passed.length, ∃ a, ancestor? g start i = some a ∧ a.id = id

variable {g : EventGraph} {positions : Positions} {e older a b start : Event}
  {i m n limit room depth depth' : Nat} {es : List Event} {passed : List EventId}

/-! ## Steps -/

theorem ancestor?_add (n k : Nat) :
    ancestor? g e (n + k) = (ancestor? g e n).bind (ancestor? g · k) := by
  induction k with
  | zero => exact (Option.bind_fun_some _).symm
  | succ k ih =>
    rw [Nat.add_succ, ancestor?, ih, Option.bind_assoc]
    rfl

/-- All but the first of a lineage is the lineage of the power levels that the first cites. -/
theorem ancestor?_eq_bind (n : Nat) :
    ancestor? g e (n + 1) = (levelsParent? g e).bind (ancestor? g · n) := by
  rw [Nat.add_comm, ancestor?_add]
  rfl

theorem ancestor?_succ (h : levelsParent? g e = some older) (n : Nat) :
    ancestor? g e (n + 1) = ancestor? g older n := by
  rw [ancestor?_eq_bind, h, Option.bind_some]

theorem ancestor?_of_none (h : levelsParent? g e = none) (n : Nat) :
    ancestor? g e (n + 1) = none := by
  rw [ancestor?_eq_bind, h, Option.bind_none]

theorem ancestor?_next (h : ancestor? g e n = some a) :
    ancestor? g e (n + 1) = levelsParent? g a := by
  rw [ancestor?, h, Option.bind_some]

theorem ancestor?_eq_none_of_le (hmn : m ≤ n) (h : ancestor? g e m = none) :
    ancestor? g e n = none := by
  obtain ⟨k, rfl⟩ := Nat.exists_eq_add_of_le hmn
  rw [ancestor?_add, h, Option.bind_none]

theorem exists_ancestor_of_le (hmn : m ≤ n) (h : ancestor? g e n = some a) :
    ∃ b, ancestor? g e m = some b := by
  obtain ⟨k, rfl⟩ := Nat.exists_eq_add_of_le hmn
  rw [ancestor?_add, Option.bind_eq_some_iff] at h
  obtain ⟨b, hb, -⟩ := h
  exact ⟨b, hb⟩

theorem get?_of_levelsParent? (h : levelsParent? g e = some older) :
    g.get? older.id = some older := by
  obtain ⟨id, -, hid⟩ := List.mem_filterMap.1 (List.mem_of_find?_eq_some h)
  rwa [g.keyed id older hid]

theorem get?_of_ancestor? (he : g.get? e.id = some e) (h : ancestor? g e n = some a) :
    g.get? a.id = some a := by
  cases n with
  | zero =>
    cases h
    exact he
  | succ n =>
    obtain ⟨b, -, holder⟩ := Option.bind_eq_some_iff.1 h
    exact get?_of_levelsParent? holder

theorem eq_of_id_eq_of_get? (ha : g.get? a.id = some a) (hb : g.get? b.id = some b)
    (hid : a.id = b.id) : a = b := by
  rw [hid, hb] at ha
  cases ha
  rfl

theorem levelsParent_eq_ok (hcited : ∀ id cited, g.Cites id cited → ∃ e, g.get? cited = some e)
    (he : g.get? e.id = some e) : levelsParent g e = .ok (levelsParent? g e) :=
  EventGraph.findCited_eq_ok .powerLevels fun cited hmem => hcited e.id cited ⟨e, he, hmem⟩

/-- Once a lineage has come back to an event, it comes to no new ones. -/
theorem ReturnsWithin.round (h : ReturnsWithin g e n) (k : Nat) :
    ∃ m < n, ∃ b, ancestor? g e m = some b ∧ ancestor? g e k = some b := by
  obtain ⟨i, j, a, hij, hjn, hi, hj⟩ := h
  induction k using Nat.strongRecOn with
  | ind k ih =>
    by_cases hkj : k < j
    · obtain ⟨b, hb⟩ := exists_ancestor_of_le (Nat.le_of_lt hkj) hj
      exact ⟨k, by omega, b, hb, hb⟩
    · have hround : ancestor? g e k = ancestor? g e (i + (k - j)) := by
        rw [ancestor?_add, hi, ← hj, ← ancestor?_add, Nat.add_sub_cancel' (by omega)]
      rw [hround]
      exact ih (i + (k - j)) (by omega)

/-! ## Lengths -/

theorem LineageLength.le_of_none (h : LineageLength g e m) (hn : ancestor? g e n = none) :
    m ≤ n := by
  by_contra hlt
  obtain ⟨a, ha⟩ := h.goes n (by omega)
  rw [hn] at ha
  cases ha

theorem LineageLength.unique (h : LineageLength g e m) (h' : LineageLength g e n) : m = n :=
  Nat.le_antisymm (h.le_of_none h'.ends) (h'.le_of_none h.ends)

theorem exists_lineageLength (h : ancestor? g e n = none) : ∃ m, LineageLength g e m := by
  induction n with
  | zero => cases h
  | succ n ih =>
    cases hn : ancestor? g e n with
    | none => exact ih hn
    | some a =>
      exact ⟨n + 1, h, fun i hi => exists_ancestor_of_le (Nat.le_of_lt_succ hi) hn⟩

/-- A lineage that has an end comes to no event twice. -/
theorem LineageLength.not_returnsWithin (h : LineageLength g e m) (n : Nat) :
    ¬ ReturnsWithin g e n := by
  intro hreturns
  obtain ⟨-, -, b, -, hb⟩ := hreturns.round m
  rw [h.ends] at hb
  cases hb

theorem lineageLength_of_none (h : levelsParent? g e = none) : LineageLength g e 1 where
  ends := ancestor?_of_none h 0
  goes i hi := by
    cases Nat.lt_one_iff.1 hi
    exact ⟨e, rfl⟩

theorem lineageLength_succ (holder : levelsParent? g e = some older) :
    LineageLength g e (n + 1) ↔ LineageLength g older n := by
  constructor
  · rintro ⟨hends, hgoes⟩
    rw [ancestor?_succ holder] at hends
    refine ⟨hends, fun i hi => ?_⟩
    rw [← ancestor?_succ holder]
    exact hgoes (i + 1) (by omega)
  · rintro ⟨hends, hgoes⟩
    rw [← ancestor?_succ holder] at hends
    refine ⟨hends, fun i hi => ?_⟩
    cases i with
    | zero => exact ⟨e, rfl⟩
    | succ i =>
      rw [ancestor?_succ holder]
      exact hgoes i (by omega)

namespace Gathered

theorem lineageLength (h : Gathered g e es) : LineageLength g e es.length := by
  induction h with
  | oldest hnone => exact lineageLength_of_none hnone
  | newer holder _ ih =>
    rw [List.length_append, List.length_singleton]
    exact (lineageLength_succ holder).2 ih

/-- From the oldest end, an event is as far away as its own lineage is long. -/
theorem getElem? (h : Gathered g e es) (ha : es[i]? = some a) : LineageLength g a (i + 1) := by
  induction h with
  | oldest hnone =>
    rw [List.getElem?_singleton] at ha
    split at ha
    · next hi =>
      cases hi
      cases ha
      exact lineageLength_of_none hnone
    · cases ha
  | @newer e older es holder hline ih =>
    obtain ⟨hi, -⟩ := List.getElem?_eq_some_iff.1 ha
    rw [List.length_append, List.length_singleton] at hi
    rcases Nat.lt_succ_iff_lt_or_eq.1 hi with hi | rfl
    · rw [List.getElem?_append_left hi] at ha
      exact ih ha
    · rw [List.getElem?_concat_length] at ha
      cases ha
      exact (lineageLength_succ holder).2 hline.lineageLength

theorem mem_iff (h : Gathered g e es) : a ∈ es ↔ ∃ n, ancestor? g e n = some a := by
  induction h with
  | @oldest e hnone =>
    rw [List.mem_singleton]
    constructor
    · rintro rfl
      exact ⟨0, rfl⟩
    · rintro ⟨_ | n, hn⟩
      · exact (Option.some.inj hn).symm
      · rw [ancestor?_of_none hnone] at hn
        cases hn
  | @newer e older es holder hline ih =>
    rw [List.mem_append, List.mem_singleton, ih]
    constructor
    · rintro (⟨n, hn⟩ | rfl)
      · exact ⟨n + 1, by rw [ancestor?_succ holder, hn]⟩
      · exact ⟨0, rfl⟩
    · rintro ⟨_ | n, hn⟩
      · exact .inr (Option.some.inj hn).symm
      · exact .inl ⟨n, by rw [← ancestor?_succ holder, hn]⟩

end Gathered

/-! ## Events that are passed -/

theorem Passes.zero (g : EventGraph) (positions : Positions) (e : Event) :
    Passes g positions e 0 :=
  fun i hi => absurd hi i.not_lt_zero

theorem Passes.succ (h : Passes g positions e n) (ha : ancestor? g e n = some a)
    (hoff : positions.get? a.id = none) : Passes g positions e (n + 1) := by
  intro i hi
  rcases Nat.lt_succ_iff_lt_or_eq.1 hi with hi | rfl
  · exact h i hi
  · exact ⟨a, ha, hoff⟩

theorem Passes.mono (h : Passes g positions e n) (hmn : m ≤ n) : Passes g positions e m :=
  fun i hi => h i (Nat.lt_of_lt_of_le hi hmn)

/-- Events that are passed once, and then come back to, are passed for ever. -/
theorem Passes.forever (h : Passes g positions e n) (hreturns : ReturnsWithin g e n) (m : Nat) :
    Passes g positions e m := by
  intro k _
  obtain ⟨i, hi, b, hb, hk⟩ := hreturns.round k
  obtain ⟨a, ha, hoff⟩ := h i hi
  rw [hb] at ha
  cases ha
  exact ⟨b, hk, hoff⟩

theorem Passes.tail (holder : levelsParent? g e = some older)
    (h : Passes g positions e (n + 1)) : Passes g positions older n := by
  intro i hi
  rw [← ancestor?_succ holder]
  exact h (i + 1) (by omega)

namespace Meets

theorem passes (h : Meets g positions e n depth) : Passes g positions e n := by
  cases h with
  | on hpasses => exact hpasses
  | off hpasses => exact hpasses

/-- Where a lineage meets the mainline, it passes no further. -/
theorem not_passes (h : Meets g positions e n depth) : ¬ Passes g positions e (n + 1) := by
  intro hpasses
  obtain ⟨b, hb, hoff⟩ := hpasses n n.lt_succ_self
  cases h with
  | on _ ha hon =>
    rw [ha] at hb
    cases hb
    rw [hon] at hoff
    cases hoff
  | off _ hends =>
    rw [hends] at hb
    cases hb

theorem unique (h : Meets g positions e m depth) (h' : Meets g positions e n depth') :
    depth = depth' := by
  have hmn : m = n := by
    refine Nat.le_antisymm (Nat.not_lt.1 fun hlt => ?_) (Nat.not_lt.1 fun hlt => ?_)
    · exact h'.not_passes (h.passes.mono hlt)
    · exact h.not_passes (h'.passes.mono hlt)
  subst hmn
  cases h with
  | on _ ha hon =>
    cases h' with
    | on _ hb hon' =>
      rw [ha] at hb
      cases hb
      rw [hon] at hon'
      exact Option.some.inj hon'
    | off _ hends =>
      rw [ha] at hends
      cases hends
  | off _ hends =>
    cases h' with
    | on _ hb _ =>
      rw [hends] at hb
      cases hb
    | off => rfl

theorem tail (holder : levelsParent? g e = some older)
    (h : Meets g positions e (n + 1) depth) : Meets g positions older n depth := by
  cases h with
  | on hpasses ha hon => exact .on (hpasses.tail holder) (by rwa [← ancestor?_succ holder]) hon
  | off hpasses hends => exact .off (hpasses.tail holder) (by rwa [← ancestor?_succ holder])

end Meets

/-! ## Walks -/

namespace Walked

theorem init : Walked g e [] e where
  here := rfl
  past := fun _ hid => absurd hid List.not_mem_nil

theorem step (h : Walked g start passed e) (holder : levelsParent? g e = some older) :
    Walked g start (e.id :: passed) older where
  here := (ancestor?_next h.here).trans holder
  past := by
    intro id hid
    rw [List.length_cons]
    rcases List.mem_cons.1 hid with rfl | hid
    · exact ⟨passed.length, Nat.lt_succ_self _, e, h.here, rfl⟩
    · obtain ⟨i, hi, ha⟩ := h.past id hid
      exact ⟨i, Nat.lt_succ_of_lt hi, ha⟩

/-- An id that is met again is that of an event where the lineage has been. -/
theorem returnsWithin (hstart : g.get? start.id = some start) (h : Walked g start passed e)
    (hmem : e.id ∈ passed) : ReturnsWithin g start (passed.length + 1) := by
  obtain ⟨i, hi, a, ha, hid⟩ := h.past e.id hmem
  have heq : a = e :=
    eq_of_id_eq_of_get? (get?_of_ancestor? hstart ha) (get?_of_ancestor? hstart h.here) hid
  exact ⟨i, passed.length, e, hi, Nat.lt_succ_self _, heq ▸ ha, h.here⟩

end Walked

section

variable (hcited : ∀ id cited, g.Cites id cited → ∃ e, g.get? cited = some e)
  (hstart : g.get? start.id = some start)

include hcited hstart

/-- The walk along the mainline gathers what is left of a lineage, or the lineage goes on behind
as many events as the walk may take. -/
theorem gathers_or_endless (h : Walked g start passed e) (hroom : passed.length + room = limit) :
    (∃ es, Gathered g e es ∧ es.length ≤ room ∧
      mainlineFrom g room passed e = .ok (es.map Event.id ++ passed)) ∨
    (∃ a, ancestor? g start limit = some a) ∧
      ∃ named, mainlineFrom g room passed e =
        .error (.graphCorruption (.endlessLineage named)) := by
  induction room generalizing passed e with
  | zero => exact .inr ⟨⟨e, by rw [← hroom]; exact h.here⟩, passed.getLast?, rfl⟩
  | succ room ih =>
    unfold mainlineFrom
    split
    · next hmem =>
      -- The walk has not come to its bound here, but the lineage goes on past any bound.
      obtain ⟨-, -, a, -, ha⟩ := (h.returnsWithin hstart hmem).round limit
      exact .inr ⟨⟨a, ha⟩, passed.getLast?, rfl⟩
    · rw [levelsParent_eq_ok hcited (get?_of_ancestor? hstart h.here), Fallible.ok_bind]
      cases holder : levelsParent? g e with
      | none => exact .inl ⟨[e], .oldest holder, by simp, rfl⟩
      | some older =>
        refine (ih (h.step holder) (by rw [List.length_cons]; omega)).imp ?_ id
        rintro ⟨es, hline, hlength, hfound⟩
        exact ⟨es ++ [e], .newer holder hline, by simpa using hlength, by simp [hfound]⟩

/-- The walk to the mainline meets it or the end of the lineage, or it passes more events than it
may. -/
theorem meets_or_endless (h : Walked g start passed e)
    (hpasses : Passes g positions start passed.length) (hroom : passed.length + room = limit) :
    (∃ depth, ∃ n ≤ limit, Meets g positions start n depth ∧
      depthFrom g positions room passed e = .ok depth) ∨
    Passes g positions start (limit + 1) ∧
      ∃ id, depthFrom g positions room passed e =
        .error (.graphCorruption (.endlessAncestry id)) := by
  induction room generalizing passed e with
  | zero =>
    unfold depthFrom
    cases hon : positions.get? e.id with
    | some depth => exact .inl ⟨depth, _, by omega, .on hpasses h.here hon, rfl⟩
    | none => exact .inr ⟨by rw [← hroom]; exact hpasses.succ h.here hon, e.id, rfl⟩
  | succ room ih =>
    unfold depthFrom
    cases hon : positions.get? e.id with
    | some depth => exact .inl ⟨depth, _, by omega, .on hpasses h.here hon, rfl⟩
    | none =>
      have hpasses := hpasses.succ h.here hon
      dsimp only
      split
      · next hmem => exact .inr ⟨hpasses.forever (h.returnsWithin hstart hmem) _, e.id, rfl⟩
      · rw [levelsParent_eq_ok hcited (get?_of_ancestor? hstart h.here), Fallible.ok_bind]
        cases holder : levelsParent? g e with
        | none =>
          have hends := (ancestor?_next h.here).trans holder
          exact .inl ⟨0, passed.length + 1, by omega, .off hpasses hends, rfl⟩
        | some older =>
          exact ih (h.step holder) hpasses (by rw [List.length_cons]; omega)

end

end StateResolution
