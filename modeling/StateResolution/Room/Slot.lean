import StateResolution.Resolution.Basic

/-!
# Room slots

What is known of one room: the states that its current state is to be resolved
from, how often they have been replaced, the resolution of some of them, and the
run that is under way.

A slot is touched under its lock only, in sections that are each one step.  A
reader that asks for the current state enters once, gets the answer or a ticket
for a run, waits for the run without the lock, and then settles.  A run is
started only where none is under way, and a reader whose run is out of date
enters again.
-/

namespace StateResolution

/-- A place in the queue behind a run. -/
structure Ticket where
  /-- The generation that the run resolves. -/
  generation : Nat
  /-- The number of the run. -/
  run : Nat
deriving DecidableEq

/-- What is known of one room. -/
structure Slot where
  /-- The states to resolve. -/
  candidates : List StateMap := []
  /-- How often they have been replaced. -/
  generation : Nat := 0
  /-- The last resolution, with the generation it resolves. -/
  current : Option (Nat × Resolution) := none
  /-- The run under way. -/
  inFlight : Option Ticket := none

namespace Slot

/-- Replaces the states to resolve. -/
def update (s : Slot) (candidates : List StateMap) : Slot :=
  { s with candidates, generation := s.generation + 1 }

/-- The resolution of the present candidates. -/
def fresh? (s : Slot) : Option Resolution :=
  match s.current with
  | some (generation, resolution) => if generation = s.generation then some resolution else none
  | none => none

/-- What a reader gets on entering. -/
inductive Entry
  | answered (resolution : Resolution)
  /-- A ticket for a run under way. -/
  | joined (ticket : Ticket)
  /-- A ticket for a run that the reader starts. -/
  | started (ticket : Ticket)

/-- A reader enters; a run that it starts gets a number. -/
def enter (s : Slot) (run : Nat) : Slot × Entry :=
  match s.fresh? with
  | some resolution => (s, .answered resolution)
  | none =>
    match s.inFlight with
    | some ticket => (s, .joined ticket)
    | none =>
      let ticket : Ticket := ⟨s.generation, run⟩
      ({ s with inFlight := some ticket }, .started ticket)

/-- The slot once a run of a ticket's generation has landed.  A run under way is
told by its generation alone. -/
def land (s : Slot) (ticket : Ticket) : Slot :=
  if s.inFlight.any (·.generation == ticket.generation) then { s with inFlight := none } else s

/-- A reader whose run has ended leaves, or must enter again when the run is out
of date. -/
def settle (s : Slot) (ticket : Ticket) (outcome : Except Error Resolution) :
    Slot × Option (Except Error Resolution) :=
  let s := s.land ticket
  if s.generation ≠ ticket.generation then (s, none)
  else
    match outcome with
    | .ok resolution =>
      ({ s with current := some (ticket.generation, resolution) }, some (.ok resolution))
    | .error e => (s, some (.error e))

end Slot

end StateResolution
