import Mathlib.Data.List.Induction
import StateResolution.Proofs.Room.Sections

/-!
# One run at a time

A reader starts a run only where none is in flight, so one would think that no run is
started beside another.  That is nearly so.  A run that lands is told by its generation
alone, and a generation whose run has failed is run again: then a reader that waited for
the failed run, and settles late, takes the new run out of flight while it is still
under way (`Overtaken`).

`Stray` is what the new run has become, and `stray_iff` says that there is no other way
to become it.  `start_beside_iff` draws the conclusion: a run is started beside another
that is under way exactly when the other has been overtaken so.
-/

namespace StateResolution

namespace Room

/-- A run that is under way. -/
def UnderWay (r : Room) (run : Nat) : Prop := ∃ v, r.runs[run]? = some v ∧ v.outcome = none

/-- A run that is under way, and not in flight. -/
def Stray (r : Room) (run : Nat) : Prop :=
  r.UnderWay run ∧ ∀ ticket, r.slot.inFlight = some ticket → ticket.run ≠ run

/-- A reader waits for a run that has ended, and the run in flight is a later one of the
same generation, which is under way. -/
def Overtaken (r : Room) (reader run : Nat) : Prop :=
  r.UnderWay run ∧ ∃ ticket outcome, r.readers[reader]? = some (.waiting ticket) ∧
    r.outcome? ticket.run = some outcome ∧
    r.slot.inFlight = some ⟨ticket.generation, run⟩

/-- Somewhere in a schedule a reader goes on that a run has overtaken, and the run does
not end after that. -/
def OvertakenIn (id : RoomId) (schedule : List Action) (run : Nat) : Prop :=
  ∃ before reader after s, schedule = before ++ .proceed reader :: after ∧
    unopened.actAll? id before = some s ∧ s.Overtaken reader run ∧
    ∀ ending, .finish run ending ∉ after

variable {id : RoomId} {schedule : List Action} {r r' s : Room} {a : Action}
  {reader run : Nat} {ticket : Ticket}

/-! ## Runs under way -/

theorem UnderWay.lt (h : r.UnderWay run) : run < r.runs.length := by
  obtain ⟨v, hv, -⟩ := h
  exact (List.getElem?_eq_some_iff.1 hv).1

/-- A run that is started is the last one. -/
theorem underWay_started : r.started.UnderWay run ↔ r.UnderWay run ∨ run = r.runs.length := by
  constructor
  · rintro ⟨v, hv, hout⟩
    by_cases hlt : run < r.runs.length
    · exact .inl ⟨v, List.getElem?_append_left hlt ▸ hv, hout⟩
    · have hlength := (List.getElem?_eq_some_iff.1 hv).1
      simp only [started, List.length_append, List.length_singleton] at hlength
      exact .inr (by omega)
  · rintro (⟨v, hv, hout⟩ | rfl)
    · exact ⟨v, getElem?_append_of_some _ hv, hout⟩
    · exact ⟨_, List.getElem?_concat_length, rfl⟩

/-- Of the runs under way the one that ends is taken away. -/
theorem underWay_set {other : Nat} {v w : Run} (hv : r.runs[other]? = some v)
    (hw : w.outcome ≠ none) :
    UnderWay { r with runs := r.runs.set other w } run ↔ r.UnderWay run ∧ run ≠ other := by
  by_cases heq : other = run
  · subst heq
    have hself : (r.runs.set other w)[other]? = some w :=
      List.getElem?_set_self (List.getElem?_eq_some_iff.1 hv).1
    constructor
    · rintro ⟨u, hu, hout⟩
      cases hself.symm.trans hu
      exact absurd hout hw
    · exact fun h => absurd rfl h.2
  · simp [UnderWay, List.getElem?_set_ne heq, Ne.symm heq]

/-! ## How a run goes stray -/

@[simp] theorem stray_seat {state : Reader} : (r.seat reader state).Stray run ↔ r.Stray run :=
  Iff.rfl

@[simp] theorem stray_recorded {resolution : Resolution} :
    (r.recorded ticket resolution).Stray run ↔ (r.landed ticket).Stray run :=
  Iff.rfl

/-- Landing takes a run out of flight if the reader was waiting for a run of the same
generation. -/
theorem stray_landed :
    (r.landed ticket).Stray run ↔
      r.Stray run ∨ r.UnderWay run ∧ r.slot.inFlight = some ⟨ticket.generation, run⟩ := by
  have hrun : (r.landed ticket).UnderWay run ↔ r.UnderWay run := Iff.rfl
  have hslot : (r.landed ticket).slot = r.slot.land ticket := rfl
  rw [Stray, Stray, hrun, hslot, Slot.land]
  cases hflight : r.slot.inFlight with
  | none => simp [hflight]
  | some flight =>
    obtain ⟨generation, other⟩ := flight
    by_cases hgen : generation = ticket.generation
    · by_cases hother : other = run <;> simp [hgen, hother]
    · simp [hgen, hflight]

/-- With nothing in flight every run under way is stray. -/
theorem stray_iff_underWay (h : r.slot.inFlight = none) : r.Stray run ↔ r.UnderWay run := by
  simp [Stray, h]

/-- The new run is in flight, and so are the others where they were. -/
theorem stray_started (h : r.slot.inFlight = none) : r.started.Stray run ↔ r.Stray run := by
  have hflight : r.started.slot.inFlight = some ⟨r.slot.generation, r.runs.length⟩ := rfl
  rw [stray_iff_underWay h]
  constructor
  · rintro ⟨hrun, hother⟩
    exact (underWay_started.1 hrun).resolve_right (hother _ hflight).symm
  · intro hrun
    refine ⟨underWay_started.2 (.inl hrun), fun ticket hticket => ?_⟩
    cases hflight.symm.trans hticket
    exact Nat.ne_of_gt hrun.lt

theorem not_overtaken_of_entering (h : r.readers[reader]? = some .entering) :
    ¬ r.Overtaken reader run := by
  rintro ⟨-, ticket, outcome, hreader, -⟩
  cases h.symm.trans hreader

/-- Whether a reader is overtaken, when it is known which run it waits for. -/
theorem overtaken_iff {outcome : Except Error Resolution}
    (hreader : r.readers[reader]? = some (.waiting ticket))
    (hout : r.outcome? ticket.run = some outcome) :
    r.Overtaken reader run ↔
      r.UnderWay run ∧ r.slot.inFlight = some ⟨ticket.generation, run⟩ := by
  constructor
  · rintro ⟨hrun, other, _, hother, -, hflight⟩
    cases hreader.symm.trans hother
    exact ⟨hrun, hflight⟩
  · rintro ⟨hrun, hflight⟩
    exact ⟨hrun, ticket, outcome, hreader, hout, hflight⟩

/-- What one section does to the stray runs: it takes away the one that ends, and adds
the one that has overtaken the reader that goes on. -/
theorem Section.stray_iff (hs : Section id r a r') :
    r'.Stray run ↔
      (r.Stray run ∧ ∀ ending, a ≠ .finish run ending) ∨
        ∃ reader, a = .proceed reader ∧ r.Overtaken reader run := by
  cases hs with
  | «open» => simp [Stray, UnderWay]
  | update => simp [Stray, UnderWay, Slot.update]
  | generation => simp
  | arrive => simp [Stray, UnderWay, Room.arrive]
  | answer hreader | join hreader => simp [not_overtaken_of_entering hreader]
  | start hreader _ hflight => simp [not_overtaken_of_entering hreader, stray_started hflight]
  | discard hreader hout | fail hreader hout | record hreader hout =>
    simp [overtaken_iff hreader hout, stray_landed]
  | @finish other generation maps ending hrun =>
    have hset : UnderWay { r with runs := r.runs.set other _ } run ↔ _ :=
      underWay_set hrun (w := ⟨generation, maps, some (ending.outcome id maps)⟩) nofun
    have hother : (∀ e, Action.finish other ending ≠ .finish run e) ↔ run ≠ other := by
      constructor
      · rintro h rfl
        exact h ending rfl
      · intro h e heq
        cases heq
        exact h rfl
    simp only [Stray, hset, hother, reduceCtorEq, false_and, exists_false, or_false]
    exact and_right_comm

/-! ## Whole schedules -/

theorem overtakenIn_concat (hs : unopened.actAll? id schedule = some s) :
    OvertakenIn id (schedule ++ [a]) run ↔
      (OvertakenIn id schedule run ∧ ∀ ending, a ≠ .finish run ending) ∨
        ∃ reader, a = .proceed reader ∧ s.Overtaken reader run := by
  constructor
  · rintro ⟨before, reader, after, t, hsplit, ht, hover, hafter⟩
    rcases List.eq_nil_or_concat after with rfl | ⟨after, b, rfl⟩
    · obtain ⟨rfl, hb⟩ := List.append_inj' hsplit rfl
      cases hb
      cases hs.symm.trans ht
      exact .inr ⟨reader, rfl, hover⟩
    · rw [List.concat_eq_append, ← List.cons_append, ← List.append_assoc] at hsplit
      obtain ⟨rfl, hb⟩ := List.append_inj' hsplit rfl
      cases hb
      refine .inl ⟨⟨before, reader, after, t, rfl, ht, hover, fun ending h => ?_⟩, ?_⟩
      · exact hafter ending (by simp [h])
      · rintro ending rfl
        exact hafter ending (by simp)
  · rintro (⟨⟨before, reader, after, t, rfl, ht, hover, hafter⟩, ha⟩ | ⟨reader, rfl, hover⟩)
    · refine ⟨before, reader, after ++ [a], t, by simp, ht, hover, fun ending h => ?_⟩
      rcases List.mem_append.1 h with hold | hnew
      · exact hafter ending hold
      · exact ha ending (List.mem_singleton.1 hnew).symm
    · exact ⟨schedule, reader, [], s, rfl, hs, hover, by simp⟩

/-- A run is stray after a schedule exactly when it has overtaken a reader that went on
in it. -/
theorem stray_iff (h : unopened.actAll? id schedule = some r) :
    r.Stray run ↔ OvertakenIn id schedule run := by
  induction schedule using List.reverseRecOn generalizing r with
  | nil =>
    cases h
    constructor
    · rintro ⟨⟨v, hv, -⟩, -⟩
      cases hv
    · rintro ⟨before, reader, after, s, hsplit, -⟩
      cases before <;> cases hsplit
  | append_singleton before a ih =>
    obtain ⟨s, hs, hlast⟩ := actAll?_concat h
    rw [(Section.of_act? hlast).stray_iff, overtakenIn_concat hs, ih hs]

/-- A run is started only where none is in flight. -/
theorem Section.inFlight_of_start (hs : Section id r a r')
    (hstart : r.runs.length < r'.runs.length) : r.slot.inFlight = none := by
  cases hs with
  | start _ _ hflight => exact hflight
  | finish => simp at hstart
  | _ => exact absurd hstart (Nat.lt_irrefl _)

/-- A run that is started after a schedule finds another under way exactly when the
other has overtaken a reader that went on in the schedule, and has not ended since.
Where no reader is overtaken, all runs before it have ended. -/
theorem start_beside_iff (id : RoomId) (schedule : List Action) (a : Action) (r r' : Room)
    (run : Nat) (h : unopened.actAll? id schedule = some r) (hact : r.act? id a = some r')
    (hstart : r.runs.length < r'.runs.length) :
    r.UnderWay run ↔ OvertakenIn id schedule run := by
  have hflight := (Section.of_act? hact).inFlight_of_start hstart
  rw [← stray_iff_underWay hflight, stray_iff h]

/-- Two readers wait for a run, which fails for want of an event.  One of them settles,
a third reader starts the run again, and the other settles only then. -/
def lateReader : List Action :=
  [.open, .update [.insert .empty .create ⟨"$lost", by decide⟩], .arrive, .arrive,
    .proceed 0, .proceed 1, .finish 0 (.returned ⟨{}, .ofCapacity 1⟩ (.ofGraph .empty)),
    .proceed 0, .arrive, .proceed 2, .proceed 1, .arrive]

/-- A fourth reader that enters after that starts a third run, and the second is still
under way. -/
theorem lateReader_then_proceed :
    ((unopened.actAll? lobby lateReader).bind fun r => (r.act? lobby (.proceed 3)).map fun r' =>
      (r.runs.length, r'.runs.length, r.runs[1]?.map (·.outcome.isNone))) =
    some (2, 3, some true) := by
  decide +kernel

theorem two_runs_at_once :
    ∃ r r', unopened.actAll? lobby lateReader = some r ∧ r.act? lobby (.proceed 3) = some r' ∧
      r.runs.length < r'.runs.length ∧ r.UnderWay 1 := by
  obtain ⟨r, hr, hlater⟩ := Option.bind_eq_some_iff.1 lateReader_then_proceed
  obtain ⟨r', hr', hfacts⟩ := Option.map_eq_some_iff.1 hlater
  simp only [Prod.mk.injEq, Option.map_eq_some_iff, Option.isNone_iff_eq_none] at hfacts
  exact ⟨r, r', hr, hr', by omega, hfacts.2.2⟩

/-- The second run has overtaken the late reader. -/
theorem start_beside_lateReader : OvertakenIn lobby lateReader 1 := by
  obtain ⟨r, hr, hlater⟩ := Option.bind_eq_some_iff.1 lateReader_then_proceed
  obtain ⟨r', hr', hfacts⟩ := Option.map_eq_some_iff.1 hlater
  simp only [Prod.mk.injEq, Option.map_eq_some_iff, Option.isNone_iff_eq_none] at hfacts
  exact (start_beside_iff lobby lateReader (.proceed 3) r r' 1 hr hr' (by omega)).1 hfacts.2.2

end Room

end StateResolution
