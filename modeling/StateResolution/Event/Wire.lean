import StateResolution.Event.Basic
import StateResolution.Json.Embedded

/-!
# The written form of events

An event is written as an object of named fields, or as a list of its fields in
their order.  Content, state key, references and depth may be left out.  Only
the state key and the content may be null.
-/

namespace StateResolution

namespace Document

/-- The event id a string names. -/
def eventId? (d : Document) : Option EventId := d.string?.bind EventId.ofText?

/-- A list of event ids. -/
def eventIds? (d : Document) : Option (List EventId) := d.items?.bind (·.mapM eventId?)

/-- The room id a string names. -/
def roomId? (d : Document) : Option RoomId := d.string?.bind RoomId.ofText?

/-- The user id a string names. -/
def userId? (d : Document) : Option UserId := d.string?.bind UserId.ofText?

/-- A string, or null for its absence. -/
def nullableString? : Document → Option (Option String)
  | null => some none
  | d => d.string?.map some

end Document

namespace Event

/-- The fields of an event, in the order of the list form. -/
def fieldNames : List String :=
  ["event_id", "room_id", "sender", "origin_server_ts", "type", "content", "state_key",
    "prev_events", "depth", "auth_events"]

/-- The event a document holds that may nest a number of levels. -/
def ofDocument? (levels : Nat) (d : Document) : Option Event := do
  let fields ← d.record? fieldNames
  let optional {α : Type} (name : String) (default : α) (read : Document → Option α) : Option α :=
    match fields.get? name with
    | some d => read d
    | none => some default
  let id ← (← fields.get? "event_id").eventId?
  let room ← (← fields.get? "room_id").roomId?
  let sender ← (← fields.get? "sender").userId?
  let timestamp ← (← fields.get? "origin_server_ts").unsigned?
  let type ← (← fields.get? "type").string?
  let content ← optional "content" Json.null (Document.toJson? (levels - 1))
  let stateKey ← optional "state_key" none Document.nullableString?
  let prevEvents ← optional "prev_events" [] Document.eventIds?
  let depth ← optional "depth" 0 Document.unsigned?
  let authEvents ← optional "auth_events" [] Document.eventIds?
  pure { id, room, sender, timestamp, type, content, stateKey, prevEvents, depth, authEvents }

def idsJson (ids : List EventId) : Json := .array (ids.map fun id => .string id.text)

/-- The event as JSON; a missing state key is left out. -/
def toJson (e : Event) : Json :=
  let stateKey := match e.stateKey with
    | some key => [("state_key", Json.string key)]
    | none => []
  .object <|
    [("event_id", .string e.id.text), ("room_id", .string e.room.text),
      ("sender", .string e.sender.text), ("origin_server_ts", .integer e.timestamp),
      ("type", .string e.type), ("content", e.content)]
    ++ stateKey
    ++ [("prev_events", idsJson e.prevEvents), ("depth", .integer e.depth),
      ("auth_events", idsJson e.authEvents)]

end Event

end StateResolution
