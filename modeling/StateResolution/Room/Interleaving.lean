import StateResolution.Resolver.Basic
import StateResolution.Room.Slot

/-!
# Interleavings

Everything that can happen to one room, step by step: updates, calls that ask for
the generation, readers that come, enter, wait and settle, and runs that end at any
later time.  A section under a lock is one step.  A reader that waits can go on only
when its run has ended, and may go on at any time after that.

A room is known once it has a slot.  An update makes the slot in a section of its
own, before it takes the lock of the slot, so a reader may enter a slot that has not
been updated yet.
-/

namespace StateResolution

/-- A run of the resolver for a room. -/
structure Run where
  generation : Nat
  candidates : List StateMap
  /-- How it ended. -/
  outcome : Option (Except Error Resolution) := none

/-- How the task of a run ends. -/
inductive Ending
  /-- The resolver returns, from what it remembers and what a store answers. -/
  | returned (resolver : Resolver) (store : EventStore)
  | broken (reason : String)

/-- The outcome of a run of a room over its candidates. -/
def Ending.outcome (id : RoomId) (candidates : List StateMap) :
    Ending → Except Error Resolution
  | returned resolver store => (resolver.resolve store id candidates).2.outcome
  | broken reason => .error (.internal s!"resolution task failed: {reason}")

/-- Where a reader stands. -/
inductive Reader
  | entering
  | waiting (ticket : Ticket)
  | answered (answer : Except Error Resolution)

/-- A room with everything that is going on. -/
structure Room where
  /-- Whether the room has a slot. -/
  known : Bool := true
  /-- What is known of the room. -/
  slot : Slot := {}
  /-- Every run that was started, in order; a run's number is its index. -/
  runs : List Run := []
  /-- Every reader that came, in order. -/
  readers : List Reader := []

/-- Something that happens to a room. -/
inductive Action
  /-- An update finds the slot, or makes it. -/
  | open
  | update (candidates : List StateMap)
  | generation
  | arrive
  | proceed (reader : Nat)
  | finish (run : Nat) (ending : Ending)

namespace Room

def unopened : Room := { known := false }

/-- The error of a room without a slot. -/
def unknown (id : RoomId) : Error := .notFound (.room id)

/-- How a run ended. -/
def outcome? (r : Room) (run : Nat) : Option (Except Error Resolution) :=
  r.runs[run]?.bind Run.outcome

/-- A reader comes; a room without a slot has nothing to tell it. -/
def arrive (id : RoomId) (r : Room) : Room :=
  { r with readers := r.readers ++
      [if r.known then .entering else .answered (.error (unknown id))] }

def enter (r : Room) : Room × Reader :=
  match r.slot.enter r.runs.length with
  | (slot, .answered resolution) => ({ r with slot }, .answered (.ok resolution))
  | (slot, .joined ticket) => ({ r with slot }, .waiting ticket)
  | (slot, .started ticket) =>
    ({ r with slot, runs := r.runs ++ [⟨ticket.generation, slot.candidates, none⟩] },
      .waiting ticket)

/-- A reader whose run has ended settles. -/
def settle (r : Room) (ticket : Ticket) (outcome : Except Error Resolution) : Room × Reader :=
  match r.slot.settle ticket outcome with
  | (slot, some answer) => ({ r with slot }, .answered answer)
  | (slot, none) => ({ r with slot }, .entering)

/-- A reader goes on by one section; nothing when it waits for a run that has not
ended. -/
def advance? (r : Room) : Reader → Option (Room × Reader)
  | .entering => some r.enter
  | .waiting ticket => (r.outcome? ticket.run).map (r.settle ticket)
  | .answered _ => none

/-- A run that has not ended ends. -/
def finish? (r : Room) (run : Nat) (outcome : Except Error Resolution) : Option Room :=
  match r.runs[run]? with
  | some ⟨generation, candidates, none⟩ =>
    some { r with runs := r.runs.set run ⟨generation, candidates, some outcome⟩ }
  | _ => none

def end? (id : RoomId) (r : Room) (run : Nat) (ending : Ending) : Option Room :=
  match r.runs[run]? with
  | some ⟨_, candidates, _⟩ => r.finish? run (ending.outcome id candidates)
  | none => none

/-- A reader goes on by one section. -/
def proceed? (r : Room) (reader : Nat) : Option Room :=
  match r.readers[reader]? with
  | some state =>
    (r.advance? state).map fun (r, state) => { r with readers := r.readers.set reader state }
  | none => none

/-- The room after something that can happen to it. -/
def act? (id : RoomId) (r : Room) : Action → Option Room
  | .open => some { r with known := true }
  | .update candidates =>
    if r.known then some { r with slot := r.slot.update candidates } else none
  | .generation => some r
  | .arrive => some (r.arrive id)
  | .proceed reader => r.proceed? reader
  | .finish run ending => r.end? id run ending

/-- The room after a row of things that can happen to it. -/
def actAll? (id : RoomId) (r : Room) : List Action → Option Room
  | [] => some r
  | a :: rest => (r.act? id a).bind (actAll? id · rest)

/-- The number that a call of one section returns. -/
def reply? (r : Room) : Action → Option Nat
  | .update candidates => some (r.slot.update candidates).generation
  | .generation => some r.slot.generation
  | _ => none

end Room

end StateResolution
