import StateResolution.Room.Interleaving

/-!
# Sections of a room

`Section` says what each section under the lock does to a room, one constructor for
each way it can go, with everything that decided it.  `Section.of_act?` reads the
constructor off a step of an interleaving, so an invariant of the room is one case
for each constructor, and no later proof opens `Room.act?`.

A run is named by its index and is never taken away, and how it ended stays
(`Section.ended`).  A ticket is `Valid` when the run that it names is of its
generation.
-/

namespace StateResolution

namespace Room

/-- A room with a short name. -/
def lobby : RoomId := ⟨"!lobby", by decide⟩

/-- The room with one reader in a new state. -/
def seat (r : Room) (reader : Nat) (state : Reader) : Room :=
  { r with readers := r.readers.set reader state }

/-- The run that a reader starts for the present candidates. -/
def started (r : Room) : Room :=
  { r with
    slot := { r.slot with inFlight := some ⟨r.slot.generation, r.runs.length⟩ }
    runs := r.runs ++ [⟨r.slot.generation, r.slot.candidates, none⟩] }

/-- The room once a reader has found that its run has ended. -/
def landed (r : Room) (ticket : Ticket) : Room := { r with slot := r.slot.land ticket }

/-- The room once a reader has taken in the resolution of the present candidates. -/
def recorded (r : Room) (ticket : Ticket) (resolution : Resolution) : Room :=
  { r with slot := { r.slot.land ticket with current := some (ticket.generation, resolution) } }

/-- One section, with what decided it. -/
inductive Section (id : RoomId) : Room → Action → Room → Prop
  | open {r : Room} : Section id r .open { r with known := true }
  | update {r : Room} (candidates : List StateMap) :
    r.known = true →
    Section id r (.update candidates) { r with slot := r.slot.update candidates }
  | generation {r : Room} : Section id r .generation r
  | arrive {r : Room} : Section id r .arrive (r.arrive id)
  | answer {r : Room} {reader : Nat} {resolution : Resolution} :
    r.readers[reader]? = some .entering → r.slot.fresh? = some resolution →
    Section id r (.proceed reader) (r.seat reader (.answered (.ok resolution)))
  | join {r : Room} {reader : Nat} {ticket : Ticket} :
    r.readers[reader]? = some .entering → r.slot.fresh? = none →
    r.slot.inFlight = some ticket →
    Section id r (.proceed reader) (r.seat reader (.waiting ticket))
  | start {r : Room} {reader : Nat} :
    r.readers[reader]? = some .entering → r.slot.fresh? = none → r.slot.inFlight = none →
    Section id r (.proceed reader)
      (r.started.seat reader (.waiting ⟨r.slot.generation, r.runs.length⟩))
  | discard {r : Room} {reader : Nat} {ticket : Ticket} {outcome : Except Error Resolution} :
    r.readers[reader]? = some (.waiting ticket) → r.outcome? ticket.run = some outcome →
    r.slot.generation ≠ ticket.generation →
    Section id r (.proceed reader) ((r.landed ticket).seat reader .entering)
  | fail {r : Room} {reader : Nat} {ticket : Ticket} {e : Error} :
    r.readers[reader]? = some (.waiting ticket) → r.outcome? ticket.run = some (.error e) →
    r.slot.generation = ticket.generation →
    Section id r (.proceed reader) ((r.landed ticket).seat reader (.answered (.error e)))
  | record {r : Room} {reader : Nat} {ticket : Ticket} {resolution : Resolution} :
    r.readers[reader]? = some (.waiting ticket) →
    r.outcome? ticket.run = some (.ok resolution) → r.slot.generation = ticket.generation →
    Section id r (.proceed reader)
      ((r.recorded ticket resolution).seat reader (.answered (.ok resolution)))
  | finish {r : Room} {run : Nat} {generation : Nat} {candidates : List StateMap}
    (ending : Ending) :
    r.runs[run]? = some ⟨generation, candidates, none⟩ →
    Section id r (.finish run ending)
      { r with runs := r.runs.set run ⟨generation, candidates, some (ending.outcome id candidates)⟩ }

/-! ## Reading a section off a step -/

variable {id : RoomId} {r r' : Room} {a : Action}

@[simp] theorem land_generation (s : Slot) (ticket : Ticket) :
    (s.land ticket).generation = s.generation := by
  unfold Slot.land
  split <;> rfl

@[simp] theorem land_candidates (s : Slot) (ticket : Ticket) :
    (s.land ticket).candidates = s.candidates := by
  unfold Slot.land
  split <;> rfl

@[simp] theorem land_current (s : Slot) (ticket : Ticket) :
    (s.land ticket).current = s.current := by
  unfold Slot.land
  split <;> rfl

theorem settle_stale {s : Slot} {ticket : Ticket} (outcome : Except Error Resolution)
    (h : s.generation ≠ ticket.generation) :
    s.settle ticket outcome = (s.land ticket, none) := by
  simp [Slot.settle, h]

theorem settle_error {s : Slot} {ticket : Ticket} (e : Error)
    (h : s.generation = ticket.generation) :
    s.settle ticket (.error e) = (s.land ticket, some (.error e)) := by
  simp [Slot.settle, h]

theorem settle_ok {s : Slot} {ticket : Ticket} (resolution : Resolution)
    (h : s.generation = ticket.generation) :
    s.settle ticket (.ok resolution) =
      ({ s.land ticket with current := some (ticket.generation, resolution) },
        some (.ok resolution)) := by
  simp [Slot.settle, h]

/-- After landing, what is in flight was in flight before. -/
theorem inFlight_of_land {s : Slot} {ticket t : Ticket}
    (h : (s.land ticket).inFlight = some t) :
    s.inFlight = some t ∧ t.generation ≠ ticket.generation := by
  unfold Slot.land at h
  split at h
  · cases h
  · next hland =>
    refine ⟨h, fun hgen => hland ?_⟩
    simp [h, hgen]

/-- Entering answers from the slot, joins the run in flight, or starts one. -/
theorem Section.of_enter {reader : Nat} (h : r.readers[reader]? = some .entering) :
    Section id r (.proceed reader) (r.enter.1.seat reader r.enter.2) := by
  unfold enter Slot.enter
  cases hfresh : r.slot.fresh? with
  | some resolution => exact .answer h hfresh
  | none =>
    cases hflight : r.slot.inFlight with
    | some ticket => exact .join h hfresh hflight
    | none => exact .start h hfresh hflight

/-- Settling discards what is out of date, passes on an error, or takes in a
resolution. -/
theorem Section.of_settle {reader : Nat} {ticket : Ticket} {outcome : Except Error Resolution}
    (h : r.readers[reader]? = some (.waiting ticket))
    (hout : r.outcome? ticket.run = some outcome) :
    Section id r (.proceed reader)
      ((r.settle ticket outcome).1.seat reader (r.settle ticket outcome).2) := by
  unfold settle
  by_cases hgen : r.slot.generation = ticket.generation
  · cases outcome with
    | ok resolution =>
      rw [settle_ok resolution hgen]
      exact .record h hout hgen
    | error e =>
      rw [settle_error e hgen]
      exact .fail h hout hgen
  · rw [settle_stale outcome hgen]
    exact .discard h hout hgen

theorem Section.of_proceed? {reader : Nat} (h : r.proceed? reader = some r') :
    Section id r (.proceed reader) r' := by
  unfold proceed? at h
  split at h
  · next state hstate =>
    cases state with
    | entering =>
      simp only [advance?, Option.map_some, Option.some.injEq] at h
      subst h
      exact .of_enter hstate
    | waiting ticket =>
      simp only [advance?] at h
      cases hout : r.outcome? ticket.run with
      | none => simp [hout] at h
      | some outcome =>
        simp only [hout, Option.map_some, Option.some.injEq] at h
        subst h
        exact .of_settle hstate hout
    | answered answer => simp [advance?] at h
  · cases h

theorem Section.of_end? {run : Nat} {ending : Ending} (h : r.end? id run ending = some r') :
    Section id r (.finish run ending) r' := by
  unfold end? finish? at h
  cases hrun : r.runs[run]? with
  | none => simp [hrun] at h
  | some v =>
    obtain ⟨generation, candidates, outcome⟩ := v
    cases outcome with
    | some outcome => simp [hrun] at h
    | none =>
      simp only [hrun, Option.some.injEq] at h
      subst h
      exact .finish ending hrun

/-- Whatever happens to a room is a section. -/
theorem Section.of_act? (h : r.act? id a = some r') : Section id r a r' := by
  cases a with
  | «open» =>
    cases h
    exact .open
  | update candidates =>
    simp only [act?] at h
    split at h
    · next hknown =>
      cases h
      exact .update candidates hknown
    · cases h
  | generation =>
    cases h
    exact .generation
  | arrive =>
    cases h
    exact .arrive
  | proceed reader => exact .of_proceed? h
  | finish run ending => exact .of_end? h

/-! ## Rows of steps -/

theorem actAll?_append (r : Room) (before after : List Action) :
    r.actAll? id (before ++ after) = (r.actAll? id before).bind (actAll? id · after) := by
  induction before generalizing r with
  | nil => rfl
  | cons a before ih =>
    simp only [List.cons_append, actAll?]
    cases r.act? id a with
    | none => rfl
    | some r' => exact ih r'

theorem actAll?_concat {before : List Action}
    (h : unopened.actAll? id (before ++ [a]) = some r') :
    ∃ r, unopened.actAll? id before = some r ∧ r.act? id a = some r' := by
  rw [actAll?_append] at h
  obtain ⟨r, hr, hlast⟩ := Option.bind_eq_some_iff.1 h
  refine ⟨r, hr, ?_⟩
  simpa only [actAll?, Option.bind_some, Option.bind_fun_some] using hlast

/-! ## Runs and tickets -/

theorem getElem?_append_of_some {α : Type} {l : List α} (more : List α) {i : Nat} {v : α}
    (h : l[i]? = some v) : (l ++ more)[i]? = some v := by
  rw [List.getElem?_append_left (List.getElem?_eq_some_iff.1 h).1, h]

/-- The run that a ticket names is of its generation. -/
def Valid (r : Room) (ticket : Ticket) : Prop :=
  ∃ run, r.runs[ticket.run]? = some run ∧ run.generation = ticket.generation

theorem Valid.append {ticket : Ticket} (h : r.Valid ticket) (run : Run)
    (hr : r'.runs = r.runs ++ [run]) : r'.Valid ticket := by
  obtain ⟨v, hv, hgen⟩ := h
  exact ⟨v, hr ▸ getElem?_append_of_some _ hv, hgen⟩

theorem Valid.set {ticket : Ticket} (h : r.Valid ticket) {run : Nat} {v w : Run}
    (hv : r.runs[run]? = some v) (hr : r'.runs = r.runs.set run w)
    (hgen : w.generation = v.generation) : r'.Valid ticket := by
  obtain ⟨u, hu, hticket⟩ := h
  by_cases heq : run = ticket.run
  · subst heq
    have huv : u = v := Option.some.inj (hu.symm.trans hv)
    refine ⟨w, ?_, ?_⟩
    · rw [hr, List.getElem?_set_self (List.getElem?_eq_some_iff.1 hv).1]
    · rw [hgen, ← huv, hticket]
  · exact ⟨u, by rw [hr, List.getElem?_set_ne heq, hu], hticket⟩

/-- How a run ended does not change. -/
theorem Section.ended {run generation : Nat} {maps : List StateMap}
    {outcome : Except Error Resolution} (hs : Section id r a r')
    (h : r.runs[run]? = some ⟨generation, maps, some outcome⟩) :
    r'.runs[run]? = some ⟨generation, maps, some outcome⟩ := by
  cases hs with
  | start => exact getElem?_append_of_some _ h
  | @finish other _ _ _ hother =>
    have hne : other ≠ run := by
      rintro rfl
      rw [h] at hother
      cases hother
    show (r.runs.set other _)[run]? = _
    rw [List.getElem?_set_ne hne, h]
  | «open» | update | generation | arrive | answer | join | discard | fail | record => exact h

end Room

end StateResolution
