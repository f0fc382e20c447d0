import StateResolution.Event.StateKey
import StateResolution.Identifier.Basic
import StateResolution.Json.Value

/-!
# Events

A room event as authorization sees it.  Only a state event has a state key, and
then it holds the place of its type and that key (`Event.place?`).  What an
event says is its content; a field that is absent or not of the kind asked for
counts as not said.
-/

namespace StateResolution

/-- A room event. -/
structure Event where
  id : EventId
  room : RoomId
  sender : UserId
  /-- When the sender's server says it was sent, in milliseconds. -/
  timestamp : Nat
  type : String
  content : Json
  /-- Its key among the state events of its type. -/
  stateKey : Option String
  /-- The events it was sent after. -/
  prevEvents : List EventId
  /-- Its depth in the room's history. -/
  depth : Nat
  /-- The events that authorize it, in the order it cites them. -/
  authEvents : List EventId

/-- What an event makes of its user. -/
inductive Membership
  | join
  | invite
  | leave
  | ban
  | knock
  /-- Any other word. -/
  | other (text : String)
deriving DecidableEq

namespace Membership

/-- The membership a word means. -/
def ofText (text : String) : Membership :=
  if text = "join" then join
  else if text = "invite" then invite
  else if text = "leave" then leave
  else if text = "ban" then ban
  else if text = "knock" then knock
  else other text

def text : Membership → String
  | join => "join"
  | invite => "invite"
  | leave => "leave"
  | ban => "ban"
  | knock => "knock"
  | other text => text

/-- Whether the word has a meaning. -/
def isKnown : Membership → Bool
  | other _ => false
  | _ => true

@[simp] theorem text_ofText (s : String) : (ofText s).text = s := by
  unfold ofText
  repeat' split
  all_goals simp [text, *]

end Membership

namespace Event

/-- An event that says nothing: an empty object at time and depth zero, with no
state key and no references. -/
def blank (id : EventId) (room : RoomId) (sender : UserId) (type : String) : Event where
  id := id
  room := room
  sender := sender
  timestamp := 0
  type := type
  content := .object []
  stateKey := none
  prevEvents := []
  depth := 0
  authEvents := []

/-- Whether the event sets state. -/
def isState (e : Event) : Bool := e.stateKey.isSome

/-- The place in the room state that the event holds. -/
def place? (e : Event) : Option StateKey := e.stateKey.map (⟨e.type, ·⟩)

/-- Whether the event holds a place. -/
def holds (e : Event) (place : StateKey) : Bool := e.place? == some place

/-- The membership that a member event gives. -/
def membership? (e : Event) : Option Membership :=
  if e.type = EventType.member then (e.content.stringField? "membership").map .ofText else none

theorem holds_iff {e : Event} {k : StateKey} : e.holds k = true ↔ e.place? = some k := by
  simp [holds]

theorem place?_eq_some_iff {e : Event} {k : StateKey} :
    e.place? = some k ↔ e.type = k.type ∧ e.stateKey = some k.key := by
  cases k
  cases h : e.stateKey <;> simp [place?, h]

end Event

end StateResolution
