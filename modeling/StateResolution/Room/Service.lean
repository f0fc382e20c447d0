import StateResolution.Room.Interleaving

/-!
# The room service

Serves the current states of many rooms, each from its slot, with one resolver
for all.  A call brings its readers to their answers, so between calls no run is
under way.

A reader goes on by one section at a time, and a run ends when a reader that
waits for it goes on.  `Service.current` is one reader alone.  `Service.race` is
several readers of one room at once, with updates that come while a run waits
for the store.
-/

namespace StateResolution

/-- A room that is being served. -/
structure Serving where
  resolver : Resolver
  room : Room
  /-- The lookups that the room's runs have made. -/
  lookups : List (List EventId) := []

namespace Serving

/-- Ends a run over a store, unless it has ended. -/
def conclude (store : EventStore) (id : RoomId) (v : Serving) (run : Nat) : Serving :=
  match v.room.runs[run]? with
  | some ⟨_, candidates, none⟩ =>
    let (resolver, fetched) := v.resolver.resolve store id candidates
    { resolver, room := (v.room.finish? run fetched.outcome).getD v.room,
      lookups := v.lookups ++ fetched.lookups }
  | _ => v

/-- Ends the run that a reader waits for. -/
def concludeFor (store : EventStore) (id : RoomId) (v : Serving) : Reader → Serving
  | .waiting ticket => v.conclude store id ticket.run
  | _ => v

/-- A reader goes on by one section; the run that it waits for ends first. -/
def advance (store : EventStore) (id : RoomId) (v : Serving) (reader : Reader) :
    Serving × Reader :=
  let v := v.concludeFor store id reader
  match v.room.advance? reader with
  | some (room, reader) => ({ v with room }, reader)
  | none => (v, reader)

/-- A reader goes on by a number of sections. -/
def attend (store : EventStore) (id : RoomId) : Nat → Serving → Reader → Serving × Reader
  | 0, v, reader => (v, reader)
  | n + 1, v, reader =>
    let (v, reader) := v.advance store id reader
    attend store id n v reader

/-- Every reader of a list goes on by one section, in turn. -/
def sweep (store : EventStore) (id : RoomId) : Serving → List Reader → Serving × List Reader
  | v, [] => (v, [])
  | v, reader :: rest =>
    let (v, reader) := v.advance store id reader
    let (v, rest) := sweep store id v rest
    (v, reader :: rest)

/-- Every reader of a list goes on by a number of sections, one at a time. -/
def sweeps (store : EventStore) (id : RoomId) :
    Nat → Serving → List Reader → Serving × List Reader
  | 0, v, readers => (v, readers)
  | n + 1, v, readers =>
    let (v, readers) := v.sweep store id readers
    sweeps store id n v readers

/-- Whether the runs that some readers wait for ask the store for anything. -/
def asksStore (store : EventStore) (id : RoomId) (v : Serving) (readers : List Reader) : Bool :=
  readers.any fun reader => (v.concludeFor store id reader).lookups.length != v.lookups.length

end Serving

/-- The answer of a reader; every reader of a call has one in the end. -/
def Reader.answer : Reader → Except Error Resolution
  | answered a => a
  | _ => .error (.internal "a reader was left waiting")

/-- Serves the current states of many rooms. -/
structure Service where
  resolver : Resolver
  /-- The rooms that have had an update. -/
  rooms : SortedMap RoomId Slot := .empty

namespace Service

/-- The slot of a room; a new one for a room without updates. -/
def slot (v : Service) (id : RoomId) : Slot := (v.rooms.get? id).getD {}

/-- Replaces the candidates of a room, and gives the new generation. -/
def update (v : Service) (id : RoomId) (candidates : List StateMap) : Service × Nat :=
  let slot := (v.slot id).update candidates
  ({ v with rooms := v.rooms.insert id slot }, slot.generation)

/-- Replaces the candidates of a room several times. -/
def updateAll (id : RoomId) : Service → List (List StateMap) → Service × List Nat
  | v, [] => (v, [])
  | v, candidates :: rest =>
    let (v, generation) := v.update id candidates
    let (v, generations) := updateAll id v rest
    (v, generation :: generations)

/-- How often the candidates of a room have been replaced. -/
def generation (v : Service) (id : RoomId) : Nat := (v.slot id).generation

/-- The current state of a room.  A reader alone enters, settles, and is done. -/
def current (v : Service) (store : EventStore) (id : RoomId) : Service × Fetched Resolution :=
  match v.rooms.get? id with
  | none => (v, throw (Room.unknown id))
  | some slot =>
    let (s, reader) := Serving.attend store id 2 ⟨v.resolver, { slot }, []⟩ .entering
    (⟨s.resolver, v.rooms.insert id s.room.slot⟩, ⟨s.lookups, reader.answer⟩)

/-- What came of several readers at once. -/
structure Race where
  /-- The generations that the updates gave. -/
  generations : List Nat
  /-- The answers of the readers. -/
  results : List (Except Error Resolution)
  /-- The lookups that were made. -/
  lookups : List (List EventId)

/-- Several readers of a room enter.  Those that wait for a run which asks the
store nothing settle.  Then the room is updated, and then the others go on: they
settle, enter again if their run is out of date, and settle again. -/
def race (v : Service) (store : EventStore) (id : RoomId) (readers : Nat)
    (updates : List (List StateMap)) : Service × Race :=
  match v.rooms.get? id with
  | none =>
    let (v, generations) := updateAll id v updates
    (v, ⟨generations, List.replicate readers (.error (Room.unknown id)), []⟩)
  | some slot =>
    let (s, waiting) :=
      Serving.sweep store id ⟨v.resolver, { slot }, []⟩ (List.replicate readers .entering)
    let (s, waiting) :=
      if s.asksStore store id waiting then (s, waiting) else s.sweep store id waiting
    -- The updates touch the slot only; runs under way keep their candidates.
    let (updated, generations) :=
      updateAll id ⟨s.resolver, v.rooms.insert id s.room.slot⟩ updates
    let (s, done) :=
      Serving.sweeps store id 3 { s with room := { s.room with slot := updated.slot id } } waiting
    (⟨s.resolver, updated.rooms.insert id s.room.slot⟩,
      ⟨generations, done.map Reader.answer, s.lookups⟩)

end Service

end StateResolution
