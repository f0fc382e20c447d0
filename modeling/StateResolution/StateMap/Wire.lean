import StateResolution.Event.Wire
import StateResolution.StateMap.Basic

/-!
# The written form of room states

A state is a list of entries in any order.  All entries are read before a
repeated place is looked for.
-/

namespace StateResolution

namespace StateEntry

/-- The fields of an entry, in the order of the list form. -/
def fieldNames : List String := ["type", "state_key", "event_id"]

/-- The entry a document holds. -/
def ofDocument? (d : Document) : Option StateEntry := do
  let fields ← d.record? fieldNames
  let type ← (← fields.get? "type").string?
  let key ← (← fields.get? "state_key").string?
  let event ← (← fields.get? "event_id").eventId?
  pure ⟨⟨type, key⟩, event⟩

def toJson (e : StateEntry) : Json :=
  .object [("type", .string e.place.type), ("state_key", .string e.place.key),
    ("event_id", .string e.event.text)]

end StateEntry

namespace StateMap

/-- The state a document holds. -/
def ofDocument (d : Document) : Except DecodeFault StateMap :=
  match d.items?.bind (·.mapM StateEntry.ofDocument?) with
  | some entries => ofEntries entries
  | none => .error .malformed

/-- The states a list holds. -/
def listOfDocument (d : Document) : Except DecodeFault (List StateMap) :=
  match d.items? with
  | some items => items.mapM ofDocument
  | none => .error .malformed

def toJson (m : StateMap) : Json := .array (m.toEntries.map StateEntry.toJson)

end StateMap

end StateResolution
