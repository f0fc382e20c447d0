import StateResolution.Error
import StateResolution.Json.Reader

/-!
# Configurations

The limits a resolver works under.  Every number must be positive and the
default version must not be empty; the version need not be one whose rules are
known, since it may never be asked for.
-/

namespace StateResolution

/-- The limits a resolver works under. -/
structure Configuration where
  /-- How many resolutions are remembered. -/
  cacheCapacity : Nat := 1024
  /-- How many events one lookup asks for. -/
  fetchBatchSize : Nat := 100
  /-- How long a chain of citations may be. -/
  maxAuthDepth : Nat := 10000
  /-- The version of a room without a create event. -/
  defaultRoomVersion : String := "10"
deriving DecidableEq

namespace Configuration

/-- The names of the settings, in the order they are written. -/
def settingNames : List String :=
  ["cache_capacity", "fetch_batch_size", "max_auth_depth", "default_room_version"]

/-- Fails at the first setting that cannot be used. -/
def validate (c : Configuration) : Except Error Unit :=
  if c.cacheCapacity = 0 then .error (.invalidConfig (.zero "cache_capacity"))
  else if c.fetchBatchSize = 0 then .error (.invalidConfig (.zero "fetch_batch_size"))
  else if c.maxAuthDepth = 0 then .error (.invalidConfig (.zero "max_auth_depth"))
  else if c.defaultRoomVersion = "" then .error (.invalidConfig (.blank "default_room_version"))
  else .ok ()

/-- The configuration a document holds; what it leaves out has its default. -/
def ofDocument? (d : Document) : Option Configuration := do
  let fields ← d.record? settingNames
  let setting {α : Type} (name : String) (default : α) (read : Document → Option α) : Option α :=
    match fields.get? name with
    | some d => read d
    | none => some default
  let usual : Configuration := {}
  let cacheCapacity ← setting "cache_capacity" usual.cacheCapacity Document.unsigned?
  let fetchBatchSize ← setting "fetch_batch_size" usual.fetchBatchSize Document.unsigned?
  let maxAuthDepth ← setting "max_auth_depth" usual.maxAuthDepth Document.unsigned?
  let defaultRoomVersion ←
    setting "default_room_version" usual.defaultRoomVersion Document.string?
  pure { cacheCapacity, fetchBatchSize, maxAuthDepth, defaultRoomVersion }

/-- The configuration a JSON text holds, if it can be used. -/
def ofText (text : String) : Except Error Configuration := do
  match (Document.ofText? text).bind ofDocument? with
  | some c => do
    c.validate
    pure c
  | none => .error (.config .malformed)

/-- The configuration as JSON, every setting in its order. -/
def toJson (c : Configuration) : Json :=
  .object [("cache_capacity", .integer c.cacheCapacity),
    ("fetch_batch_size", .integer c.fetchBatchSize), ("max_auth_depth", .integer c.maxAuthDepth),
    ("default_room_version", .string c.defaultRoomVersion)]

end Configuration

end StateResolution
