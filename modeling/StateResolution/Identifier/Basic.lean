import StateResolution.Identifier.ServerName
import StateResolution.SortedSet

/-!
# Identifiers

Events, rooms and users are named by texts of their own grammars.  An identifier
holds the proof that its text keeps its grammar, and is compared by that text.

* An event id starts with `$`.  With a colon in it, it has at most 255 bytes and
  a server name behind the first colon.
* A room id starts with `!` and has at most 255 bytes.
* A user id starts with `@`, has at most 255 bytes, and has a server name behind
  its first colon.
-/

namespace StateResolution

namespace Identifier

/-- The most bytes of an identifier with a bound. -/
def maxBytes : Nat := 255

/-- Whether a text starts with a sigil. -/
def startsWith (sigil : Char) (text : String) : Bool := text.toList.head? == some sigil

/-- Whether a text has at most the bytes of a bounded identifier. -/
def isBounded (text : String) : Bool := text.utf8ByteSize ≤ maxBytes

/-- Whether a server name stands behind the first colon of a text, or what is
said of a text without a colon. -/
def hasServer (withoutColon : Bool) (text : String) : Bool :=
  match splitColon? text.toList with
  | some (_, server) => isBounded text && isServerName server
  | none => withoutColon

/-- The grammar of event ids. -/
def isEventId (text : String) : Bool := startsWith '$' text && hasServer true text

/-- The grammar of room ids. -/
def isRoomId (text : String) : Bool := startsWith '!' text && isBounded text

/-- The grammar of user ids. -/
def isUserId (text : String) : Bool := startsWith '@' text && hasServer false text

end Identifier

open Identifier (isEventId isRoomId isUserId)

/-- The name of an event. -/
structure EventId where
  text : String
  grammatical : isEventId text = true

/-- The name of a room. -/
structure RoomId where
  text : String
  grammatical : isRoomId text = true

/-- The name of a user. -/
structure UserId where
  text : String
  grammatical : isUserId text = true

namespace EventId

@[ext] theorem ext {a b : EventId} (h : a.text = b.text) : a = b := by
  cases a; cases b; cases h; rfl

instance : DecidableEq EventId := fun a b =>
  decidable_of_iff (a.text = b.text) ⟨ext, congrArg text⟩

instance : Ord EventId := ⟨fun a b => compare a.text b.text⟩

instance : Std.TransOrd EventId :=
  inferInstanceAs (Std.TransCmp (compareOn EventId.text))

instance : Std.LawfulEqOrd EventId where
  compare_self {a} := compare_refl a.text
  eq_of_compare {a b} h :=
    ext (Std.LawfulEqCmp.eq_of_compare (show compare a.text b.text = .eq from h))

/-- The event id of a text that keeps the grammar. -/
def ofText? (text : String) : Option EventId :=
  if h : isEventId text = true then some ⟨text, h⟩ else none

end EventId

namespace RoomId

@[ext] theorem ext {a b : RoomId} (h : a.text = b.text) : a = b := by
  cases a; cases b; cases h; rfl

instance : DecidableEq RoomId := fun a b =>
  decidable_of_iff (a.text = b.text) ⟨ext, congrArg text⟩

instance : Ord RoomId := ⟨fun a b => compare a.text b.text⟩

instance : Std.TransOrd RoomId :=
  inferInstanceAs (Std.TransCmp (compareOn RoomId.text))

instance : Std.LawfulEqOrd RoomId where
  compare_self {a} := compare_refl a.text
  eq_of_compare {a b} h :=
    ext (Std.LawfulEqCmp.eq_of_compare (show compare a.text b.text = .eq from h))

/-- The room id of a text that keeps the grammar. -/
def ofText? (text : String) : Option RoomId :=
  if h : isRoomId text = true then some ⟨text, h⟩ else none

end RoomId

namespace UserId

@[ext] theorem ext {a b : UserId} (h : a.text = b.text) : a = b := by
  cases a; cases b; cases h; rfl

instance : DecidableEq UserId := fun a b =>
  decidable_of_iff (a.text = b.text) ⟨ext, congrArg text⟩

/-- The user id of a text that keeps the grammar. -/
def ofText? (text : String) : Option UserId :=
  if h : isUserId text = true then some ⟨text, h⟩ else none

end UserId

end StateResolution
