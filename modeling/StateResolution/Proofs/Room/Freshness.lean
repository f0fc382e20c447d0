import Mathlib.Data.List.Induction
import StateResolution.Proofs.Room.Sections

/-!
# Freshness

Readers wait without the lock, across any number of updates, so what they bring back
may be out of date.  It is never given out.

`Tracked` is the invariant.  It holds a room against the schedule that led to it:
every run, under way or ended, has the candidates of its own generation, a run that
ended well ended with what its resolver call returned, and what is recorded for a
generation came out of a run of that generation.  `Tracked.step` is one case for each
section.

An update makes the slot before it takes the lock.  A reader that enters in between
finds a slot with no candidates, and the answer it gets is that of no states at all
(`answered_before_update`).  So an answer is about the candidates of the latest update
exactly if there has been an update by then.

`answers_fresh` puts this together for every schedule: updates count up from one, an
answer came out of a run on the candidates that stand when it is given, and what is
recorded for a generation came out of a run on that generation's candidates.
-/

namespace StateResolution

namespace Action

def candidates? : Action → Option (List StateMap)
  | .update candidates => some candidates
  | _ => none

/-- The candidates of the updates of a schedule, in order. -/
def updates (schedule : List Action) : List (List StateMap) := schedule.filterMap candidates?

/-- What a generation is resolved from: the candidates of its update.  No update belongs to
generation zero, in which a slot is made, and there are no states to resolve then. -/
inductive CandidatesOf (schedule : List Action) : Nat → List StateMap → Prop
  | unset : CandidatesOf schedule 0 []
  | update {generation : Nat} {maps : List StateMap} :
    (updates schedule)[generation]? = some maps → CandidatesOf schedule (generation + 1) maps

theorem updates_append (before after : List Action) :
    updates (before ++ after) = updates before ++ updates after :=
  List.filterMap_append

theorem updates_concat_of_none {schedule : List Action} {a : Action} (h : a.candidates? = none) :
    updates (schedule ++ [a]) = updates schedule := by
  simp [updates, h]

/-- The candidates of a generation stay those of that generation. -/
theorem CandidatesOf.append {before : List Action} {generation : Nat} {maps : List StateMap}
    (h : CandidatesOf before generation maps) (after : List Action) :
    CandidatesOf (before ++ after) generation maps := by
  cases h with
  | unset => exact .unset
  | update h =>
    refine .update ?_
    rw [updates_append]
    exact Room.getElem?_append_of_some _ h

/-- The last generation is resolved from the candidates of the latest update, if there has been
one, and else from no states. -/
theorem CandidatesOf.latest {schedule : List Action} {maps : List StateMap}
    (h : CandidatesOf schedule (updates schedule).length maps) :
    updates schedule = [] ∧ maps = [] ∨ (updates schedule).getLast? = some maps := by
  generalize hn : (updates schedule).length = n at h
  cases h with
  | unset => exact .inl ⟨List.length_eq_zero_iff.1 hn, rfl⟩
  | update h =>
    rw [List.getLast?_eq_getElem?, hn]
    exact .inr h

end Action

open StateResolution.Action (CandidatesOf updates)

namespace Room

/-- A run ended when its resolver call returned a resolution of some states. -/
def Returned (id : RoomId) (schedule : List Action) (run : Nat) (maps : List StateMap)
    (resolution : Resolution) : Prop :=
  ∃ resolver store, .finish run (.returned resolver store) ∈ schedule ∧
    (resolver.resolve store id maps).2.outcome = .ok resolution

/-- A run of a generation has ended with a resolution, the one that its resolver call
returned for the generation's states. -/
def Resolved (id : RoomId) (schedule : List Action) (r : Room) (generation : Nat)
    (maps : List StateMap) (resolution : Resolution) : Prop :=
  ∃ run : Nat, r.runs[run]? = some ⟨generation, maps, some (.ok resolution)⟩ ∧
    Returned id schedule run maps resolution

/-- What a room is after a schedule. -/
structure Tracked (id : RoomId) (schedule : List Action) (r : Room) : Prop where
  /-- There has been one update for each generation. -/
  generation : r.slot.generation = (updates schedule).length
  /-- The candidates are those of the present generation. -/
  candidates : CandidatesOf schedule r.slot.generation r.slot.candidates
  /-- A run is on the candidates of its generation. -/
  runs : ∀ run ∈ r.runs, CandidatesOf schedule run.generation run.candidates
  /-- A run that ended well ended with what its resolver call returned. -/
  outcomes : ∀ (run generation : Nat) maps resolution,
    r.runs[run]? = some ⟨generation, maps, some (.ok resolution)⟩ →
    Returned id schedule run maps resolution
  /-- A reader waits for a run of its ticket's generation. -/
  waiting : ∀ ticket, .waiting ticket ∈ r.readers → r.Valid ticket
  /-- The run in flight is of its ticket's generation. -/
  inFlight : ∀ ticket, r.slot.inFlight = some ticket → r.Valid ticket
  /-- What is recorded for a generation came out of a run of that generation. -/
  current : ∀ generation resolution, r.slot.current = some (generation, resolution) →
    ∃ (run : Nat) (maps : List StateMap),
      r.runs[run]? = some ⟨generation, maps, some (.ok resolution)⟩

variable {id : RoomId} {schedule : List Action} {r r' : Room} {a : Action}

/-! ## The invariant -/

theorem tracked_unopened : Tracked id [] unopened where
  generation := rfl
  candidates := .unset
  runs := by simp [unopened]
  outcomes := by simp [unopened]
  waiting := by simp [unopened]
  inFlight := by simp [unopened]
  current := by simp [unopened]

/-- A longer schedule without another update says no less. -/
theorem Tracked.extend (h : Tracked id schedule r) (ha : a.candidates? = none) :
    Tracked id (schedule ++ [a]) r where
  generation := by rw [Action.updates_concat_of_none ha, h.generation]
  candidates := h.candidates.append _
  runs run hrun := (h.runs run hrun).append _
  outcomes run generation maps resolution hrun := by
    obtain ⟨resolver, store, hmem, hres⟩ := h.outcomes run generation maps resolution hrun
    exact ⟨resolver, store, List.mem_append_left _ hmem, hres⟩
  waiting := h.waiting
  inFlight := h.inFlight
  current := h.current

theorem Tracked.opened (h : Tracked id schedule r) :
    Tracked id schedule { r with known := true } where
  __ := h

/-- One reader's new state matters by the ticket that it holds. -/
theorem Tracked.seat (h : Tracked id schedule r) {reader : Nat} {state : Reader}
    (hstate : ∀ ticket, state = .waiting ticket → r.Valid ticket) :
    Tracked id schedule (r.seat reader state) where
  __ := h
  waiting ticket hticket := by
    rcases List.mem_or_eq_of_mem_set hticket with hold | hnew
    · exact h.waiting ticket hold
    · exact hstate ticket hnew.symm

theorem Tracked.arrive (h : Tracked id schedule r) : Tracked id schedule (r.arrive id) where
  __ := h
  waiting ticket hticket := by
    rcases List.mem_append.1 hticket with hold | hnew
    · exact h.waiting ticket hold
    · cases hknown : r.known <;> simp [hknown] at hnew

/-- A run is started on the candidates that stand. -/
theorem Tracked.started (h : Tracked id schedule r) : Tracked id schedule r.started where
  __ := h
  runs run hrun := by
    rcases List.mem_append.1 hrun with hold | hnew
    · exact h.runs run hold
    · rw [List.mem_singleton.1 hnew]
      exact h.candidates
  outcomes run generation maps resolution hrun := by
    by_cases hlt : run < r.runs.length
    · exact h.outcomes run generation maps resolution (List.getElem?_append_left hlt ▸ hrun)
    · have hnew := List.mem_of_getElem? (List.getElem?_append_right (Nat.not_lt.1 hlt) ▸ hrun)
      cases List.mem_singleton.1 hnew
  waiting ticket hticket := (h.waiting ticket hticket).append _ rfl
  inFlight ticket hticket := by
    cases hticket
    exact ⟨_, List.getElem?_concat_length, rfl⟩
  current generation resolution hcurrent := by
    obtain ⟨run, maps, hrun⟩ := h.current generation resolution hcurrent
    exact ⟨run, maps, getElem?_append_of_some _ hrun⟩

theorem Tracked.landed (h : Tracked id schedule r) (ticket : Ticket) :
    Tracked id schedule (r.landed ticket) where
  __ := h
  generation := by simpa only [Room.landed, land_generation] using h.generation
  candidates := by
    simpa only [Room.landed, land_generation, land_candidates] using h.candidates
  inFlight t ht := h.inFlight t (inFlight_of_land ht).1
  current := by simpa only [Room.landed, land_current] using h.current

theorem Tracked.recorded (h : Tracked id schedule r) {reader : Nat} {ticket : Ticket}
    {resolution : Resolution} (hreader : r.readers[reader]? = some (.waiting ticket))
    (hout : r.outcome? ticket.run = some (.ok resolution)) :
    Tracked id schedule (r.recorded ticket resolution) where
  __ := h.landed ticket
  current generation found hfound := by
    cases hfound
    obtain ⟨⟨_, maps, outcome⟩, hrun, rfl⟩ :=
      h.waiting ticket (List.mem_of_getElem? hreader)
    rw [outcome?, hrun] at hout
    cases hout
    exact ⟨ticket.run, maps, hrun⟩

/-- An update is a new generation; what is known of the older ones stands. -/
theorem Tracked.update (h : Tracked id schedule r) (maps : List StateMap) :
    Tracked id (schedule ++ [.update maps]) { r with slot := r.slot.update maps } where
  generation := by simp [Slot.update, updates, Action.candidates?, h.generation]
  candidates := by
    refine .update ?_
    rw [Action.updates_append, h.generation]
    exact List.getElem?_concat_length
  runs run hrun := (h.runs run hrun).append _
  outcomes run generation maps resolution hrun := by
    obtain ⟨resolver, store, hmem, hres⟩ := h.outcomes run generation maps resolution hrun
    exact ⟨resolver, store, List.mem_append_left _ hmem, hres⟩
  waiting := h.waiting
  inFlight := h.inFlight
  current := h.current

theorem Tracked.finish (h : Tracked id schedule r) {run generation : Nat}
    {maps : List StateMap} {ending : Ending} (hmem : .finish run ending ∈ schedule)
    (hrun : r.runs[run]? = some ⟨generation, maps, none⟩) :
    Tracked id schedule
      { r with runs := r.runs.set run ⟨generation, maps, some (ending.outcome id maps)⟩ } where
  __ := h
  runs v hv := by
    rcases List.mem_or_eq_of_mem_set hv with hold | rfl
    · exact h.runs v hold
    · exact h.runs ⟨generation, maps, none⟩ (List.mem_of_getElem? hrun)
  outcomes other generation' maps' resolution hother := by
    by_cases heq : run = other
    · subst heq
      rw [List.getElem?_set_self (List.getElem?_eq_some_iff.1 hrun).1] at hother
      cases ending with
      | broken reason => cases hother
      | returned resolver store =>
        injection hother with hother
        injection hother with _ hmaps hout
        subst hmaps
        exact ⟨resolver, store, hmem, Option.some.inj hout⟩
    · rw [List.getElem?_set_ne heq] at hother
      exact h.outcomes other generation' maps' resolution hother
  waiting ticket hticket := (h.waiting ticket hticket).set hrun rfl rfl
  inFlight ticket hticket := (h.inFlight ticket hticket).set hrun rfl rfl
  current generation' resolution hcurrent := by
    obtain ⟨other, maps', hother⟩ := h.current generation' resolution hcurrent
    have hfinish : Section id r (.finish run ending) _ := .finish ending hrun
    exact ⟨other, maps', hfinish.ended hother⟩

/-- Every section keeps the invariant. -/
theorem Tracked.step (h : Tracked id schedule r) (hs : Section id r a r') :
    Tracked id (schedule ++ [a]) r' := by
  cases hs with
  | «open» => exact (h.extend rfl).opened
  | update candidates => exact h.update candidates
  | generation => exact h.extend rfl
  | arrive => exact (h.extend rfl).arrive
  | answer => exact (h.extend rfl).seat nofun
  | join _ _ hflight =>
    refine (h.extend rfl).seat fun ticket hticket => ?_
    cases hticket
    exact h.inFlight _ hflight
  | start =>
    refine (h.extend rfl).started.seat fun ticket hticket => ?_
    cases hticket
    exact h.started.inFlight _ rfl
  | discard => exact ((h.extend rfl).landed _).seat nofun
  | fail => exact ((h.extend rfl).landed _).seat nofun
  | record hreader hout => exact ((h.extend rfl).recorded hreader hout).seat nofun
  | finish ending hrun => exact (h.extend rfl).finish (by simp) hrun

/-- The invariant holds after every schedule. -/
theorem tracked_of_actAll? (h : unopened.actAll? id schedule = some r) :
    Tracked id schedule r := by
  induction schedule using List.reverseRecOn generalizing r with
  | nil =>
    cases h
    exact tracked_unopened
  | append_singleton before a ih =>
    obtain ⟨s, hs, hlast⟩ := actAll?_concat h
    exact (ih hs).step (.of_act? hlast)

/-! ## Generations -/

/-- What the updates of a schedule return, in the order in which they take the lock. -/
def generationsGiven (id : RoomId) : Room → List Action → List Nat
  | _, [] => []
  | r, a :: rest =>
    match r.act? id a, a with
    | some r', .update maps =>
      (r.reply? (.update maps)).toList ++ generationsGiven id r' rest
    | some r', _ => generationsGiven id r' rest
    | none, _ => []

theorem Section.generation_eq (hs : Section id r a r') (ha : a.candidates? = none) :
    r'.slot.generation = r.slot.generation := by
  cases hs with
  | update => cases ha
  | discard | fail | record => exact land_generation ..
  | «open» | generation | arrive | answer | join | start | finish => rfl

/-- Updates count up by one, from the generation that a schedule finds. -/
theorem generationsGiven_eq (h : r.actAll? id schedule = some r') :
    generationsGiven id r schedule =
      List.range' (r.slot.generation + 1) (updates schedule).length := by
  induction schedule generalizing r with
  | nil => rfl
  | cons a rest ih =>
    obtain ⟨s, hs, hrest⟩ := Option.bind_eq_some_iff.1 h
    have hlater := ih hrest
    cases a with
    | update maps =>
      have hgen : s.slot.generation = r.slot.generation + 1 := by
        cases Section.of_act? hs
        rfl
      simp only [generationsGiven, hs, reply?, Option.toList_some, List.singleton_append, hlater,
        hgen, updates, List.filterMap_cons, Action.candidates?, List.length_cons]
      rfl
    | _ =>
      have hgen := (Section.of_act? hs).generation_eq rfl
      simp only [generationsGiven, hs, hlater, hgen, updates, List.filterMap_cons,
        Action.candidates?]

/-! ## Answers -/

theorem eq_of_seat {reader : Nat} {old state new : Reader} (hold : r.readers[reader]? = some old)
    (hnew : (r.seat reader state).readers[reader]? = some new) : state = new := by
  have hself : (r.seat reader state).readers[reader]? = some state :=
    List.getElem?_set_self (List.getElem?_eq_some_iff.1 hold).1
  exact Option.some.inj (hself.symm.trans hnew)

/-- A run that ended well is on the candidates of its generation. -/
theorem Tracked.resolved (h : Tracked id schedule r) {run generation : Nat} {maps : List StateMap}
    {resolution : Resolution}
    (hrun : r.runs[run]? = some ⟨generation, maps, some (.ok resolution)⟩) :
    ∃ maps, CandidatesOf schedule generation maps ∧
      Resolved id schedule r generation maps resolution :=
  ⟨maps, h.runs _ (List.mem_of_getElem? hrun), run, hrun, h.outcomes run _ maps resolution hrun⟩

/-- What is recorded for a generation came out of a run on that generation's candidates. -/
theorem Tracked.of_current (h : Tracked id schedule r) {generation : Nat} {resolution : Resolution}
    (hcurrent : r.slot.current = some (generation, resolution)) :
    ∃ maps, CandidatesOf schedule generation maps ∧
      Resolved id schedule r generation maps resolution := by
  obtain ⟨run, maps, hrun⟩ := h.current generation resolution hcurrent
  exact h.resolved hrun

/-- What a slot calls fresh is recorded for the present generation. -/
theorem current_of_fresh? {slot : Slot} {resolution : Resolution}
    (h : slot.fresh? = some resolution) : slot.current = some (slot.generation, resolution) := by
  unfold Slot.fresh? at h
  split at h
  · next generation found hcurrent =>
    split at h
    · next hgen =>
      cases h
      rw [hcurrent, hgen]
    · cases h
  · cases h

/-- The section in which a reader gets a resolution finds it fresh, or takes it out of
a run of the present generation. -/
theorem Tracked.answer (h : Tracked id schedule r) {reader : Nat} {resolution : Resolution}
    (hs : Section id r (.proceed reader) r')
    (hans : r'.readers[reader]? = some (.answered (.ok resolution))) :
    ∃ maps, CandidatesOf schedule r.slot.generation maps ∧
      Resolved id schedule r r.slot.generation maps resolution := by
  cases hs with
  | answer hreader hfresh =>
    cases eq_of_seat hreader hans
    exact h.of_current (current_of_fresh? hfresh)
  | @record _ ticket _ hreader hout hgen =>
    have hrecorded := h.recorded hreader hout
    cases eq_of_seat (r := r.recorded ticket _) hreader hans
    obtain ⟨run, maps, hrun⟩ := hrecorded.current _ _ rfl
    exact h.resolved (hgen ▸ hrun)
  | join hreader => cases eq_of_seat hreader hans
  | start hreader => cases eq_of_seat (r := r.started) hreader hans
  | @discard _ ticket _ hreader => cases eq_of_seat (r := r.landed ticket) hreader hans
  | @fail _ ticket _ hreader => cases eq_of_seat (r := r.landed ticket) hreader hans

/-! ## Before the first update -/

/-- A reader that goes on has not been answered before. -/
theorem Section.exists_unanswered {reader : Nat} (hs : Section id r (.proceed reader) r') :
    ∃ state ∈ r.readers, ∀ answer, state ≠ .answered answer := by
  cases hs with
  | answer hreader | join hreader | start hreader | discard hreader | fail hreader
    | record hreader => exact ⟨_, List.mem_of_getElem? hreader, fun _ h => by cases h⟩

/-- As long as no update has looked for the slot there is none, and readers are told so. -/
theorem unknown_of_actAll? (h : unopened.actAll? id schedule = some r) (hopen : .open ∉ schedule) :
    r.known = false ∧ ∀ state ∈ r.readers, state = .answered (.error (unknown id)) := by
  induction schedule using List.reverseRecOn generalizing r with
  | nil =>
    cases h
    exact ⟨rfl, nofun⟩
  | append_singleton before a ih =>
    obtain ⟨s, hs, hlast⟩ := actAll?_concat h
    obtain ⟨hknown, hreaders⟩ := ih hs fun hmem => hopen (List.mem_append_left _ hmem)
    have hlast := Section.of_act? hlast
    cases a with
    | «open» => exact absurd (List.mem_append_right _ List.mem_cons_self) hopen
    | update =>
      cases hlast with
      | update _ hslot => cases hslot.symm.trans hknown
    | generation =>
      cases hlast
      exact ⟨hknown, hreaders⟩
    | arrive =>
      cases hlast
      refine ⟨hknown, fun state hstate => ?_⟩
      rcases List.mem_append.1 hstate with hold | hnew
      · exact hreaders state hold
      · simpa [hknown] using hnew
    | proceed reader =>
      obtain ⟨state, hstate, hserved⟩ := hlast.exists_unanswered
      exact absurd (hreaders state hstate) (hserved _)
    | finish =>
      cases hlast
      exact ⟨hknown, hreaders⟩

/-- After every schedule the updates have returned one, two, three and so on, and the
generation is their number.  A reader that gets a resolution now gets one that a run of this
generation ended with.  The run is on the candidates of the latest update exactly if there has
been an update; before that some update has made the slot, and the run is on no states.  What is
recorded for a generation is what a run of that generation ended with, on its candidates. -/
theorem answers_fresh (id : RoomId) (schedule : List Action) (r : Room)
    (h : unopened.actAll? id schedule = some r) :
    generationsGiven id unopened schedule = List.range' 1 (updates schedule).length ∧
    r.reply? .generation = some (updates schedule).length ∧
    (∀ reader r' resolution, r.act? id (.proceed reader) = some r' →
      r'.readers[reader]? = some (.answered (.ok resolution)) →
      ((∃ maps, (updates schedule).getLast? = some maps ∧
          Resolved id schedule r (updates schedule).length maps resolution) ↔
        updates schedule ≠ []) ∧
      (updates schedule = [] → .open ∈ schedule ∧ Resolved id schedule r 0 [] resolution)) ∧
    (∀ generation resolution, r.slot.current = some (generation, resolution) →
      ∃ maps, CandidatesOf schedule generation maps ∧
        Resolved id schedule r generation maps resolution) := by
  have ht := tracked_of_actAll? h
  refine ⟨generationsGiven_eq h, congrArg some ht.generation, ?_, fun _ _ => ht.of_current⟩
  intro reader r' resolution hact hans
  have hs := Section.of_act? hact
  have hopen : .open ∈ schedule := by
    by_contra hnone
    obtain ⟨state, hstate, hserved⟩ := hs.exists_unanswered
    exact hserved _ ((unknown_of_actAll? h hnone).2 state hstate)
  obtain ⟨maps, hmaps, hresolved⟩ := ht.answer hs hans
  rw [ht.generation] at hmaps hresolved
  rcases hmaps.latest with ⟨hnone, rfl⟩ | hlatest
  · rw [hnone] at hresolved ⊢
    exact ⟨by simp, fun _ => ⟨hopen, hresolved⟩⟩
  · have hsome : updates schedule ≠ [] := fun hnone => by simp [hnone] at hlatest
    exact ⟨iff_of_true ⟨maps, hlatest, hresolved⟩ hsome, fun hnone => absurd hnone hsome⟩

def lobbyCreate : Event :=
  { Event.blank ⟨"$lobby", by decide⟩ lobby ⟨"@ian:lobby", by decide⟩ EventType.create with
    content := .object [("room_version", .string "10"), ("creator", .string "@ian:lobby")]
    stateKey := some "" }

def lobbySign : Event :=
  { Event.blank ⟨"$sign", by decide⟩ lobby lobbyCreate.sender "m.room.name" with
    stateKey := some ""
    authEvents := [lobbyCreate.id] }

def bareState : StateMap := .insert .empty .create lobbyCreate.id

def signedState : StateMap := bareState.insert ⟨"m.room.name", ""⟩ lobbySign.id

/-- A resolver that remembers nothing returns, from a store that has all. -/
def lobbyEnding : Ending :=
  .returned ⟨{}, .ofCapacity 1⟩ (.ofGraph (.ofEvents [lobbyCreate, lobbySign]))

/-- A reader's run ends well, and there has been an update by then, so the reader starts
another. -/
def updatedInFlight : List Action :=
  [.open, .update [bareState], .arrive, .proceed 0, .update [signedState], .finish 0 lobbyEnding,
    .proceed 0, .proceed 0, .finish 1 lobbyEnding]

/-- The first run has resolved the state without the sign.  The reader gets the state with it,
which was given by the latest update. -/
theorem answers_fresh_updatedInFlight :
    ∃ r r', unopened.actAll? lobby updatedInFlight = some r ∧
      r.act? lobby (.proceed 0) = some r' ∧
      r'.readers[0]? = some (.answered (.ok ⟨signedState, .empty⟩)) ∧
      Resolved lobby updatedInFlight r 1 [bareState] ⟨bareState, .empty⟩ ∧
      ∃ maps, (updates updatedInFlight).getLast? = some maps ∧
        Resolved lobby updatedInFlight r 2 maps ⟨signedState, .empty⟩ := by
  have hended : updatedInFlight[5]? = some (.finish 0 lobbyEnding) := rfl
  refine ⟨_, _, rfl, rfl, rfl, ⟨0, rfl, _, _, List.mem_of_getElem? hended, rfl⟩, ?_⟩
  obtain ⟨-, -, hanswers, -⟩ := answers_fresh lobby updatedInFlight _ rfl
  exact (hanswers 0 _ _ rfl rfl).1.2 (List.cons_ne_nil _ _)

/-- An update has made the slot and not taken the lock yet. -/
def openedOnly : List Action :=
  [.open, .arrive, .proceed 0, .finish 0 (.returned ⟨{}, .ofCapacity 1⟩ (.ofGraph .empty))]

/-- There has been no update, and the reader gets a state.  Had it come before the slot was made, it
would have been told that the room is not known. -/
theorem answered_before_update :
    (unopened.arrive lobby).readers[0]? = some (.answered (.error (unknown lobby))) ∧
      updates openedOnly = [] ∧
      ∃ r r', unopened.actAll? lobby openedOnly = some r ∧ r.act? lobby (.proceed 0) = some r' ∧
        r'.readers[0]? = some (.answered (.ok ⟨.empty, .empty⟩)) :=
  ⟨rfl, rfl, _, _, rfl, rfl, rfl⟩

end Room

end StateResolution
