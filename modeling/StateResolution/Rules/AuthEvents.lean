import StateResolution.Rules.PowerLevels

/-!
# Auth events

The state that an event is judged against: at most one event for each place, and
each under the place it holds itself.  The join rule, the memberships and the
levels in force are read from it.

`authPlaces` says which places matter for an event.
-/

namespace StateResolution

/-- The events that an event is judged against, by the place each of them
holds. -/
structure AuthEvents where
  /-- The event at each place. -/
  events : SortedMap StateKey Event
  /-- Each event holds the place it is under. -/
  placed : ∀ k e, events.get? k = some e → e.place? = some k

namespace AuthEvents

def empty : AuthEvents := ⟨.empty, by simp⟩

/-- Puts an event at its place, instead of any other there.  An event that is no
state event changes nothing. -/
def insert (auth : AuthEvents) (e : Event) : AuthEvents :=
  match h : e.place? with
  | some k =>
    ⟨auth.events.insert k e, fun k' e' he => by
      rw [SortedMap.get?_insert] at he
      split at he
      · next hk =>
        cases he
        rw [h, hk]
      · exact auth.placed k' e' he⟩
  | none => auth

/-- Puts the events of a list at their places, one after another. -/
def insertAll (auth : AuthEvents) (es : List Event) : AuthEvents := es.foldl insert auth

/-- The events of a list at their places; of one place the last stays. -/
def ofList (es : List Event) : AuthEvents := empty.insertAll es

def get? (auth : AuthEvents) (k : StateKey) : Option Event := auth.events.get? k

def size (auth : AuthEvents) : Nat := auth.events.size

def isEmpty (auth : AuthEvents) : Bool := auth.events.isEmpty

def create? (auth : AuthEvents) : Option Event := auth.get? .create

def powerLevels? (auth : AuthEvents) : Option Event := auth.get? .powerLevels

/-- The join rule in force; by invite when none is set. -/
def joinRule (auth : AuthEvents) : String :=
  ((auth.get? .joinRules).bind (·.content.stringField? "join_rule")).getD "invite"

/-- The membership of a user. -/
def membership? (auth : AuthEvents) (user : String) : Option Membership :=
  (auth.get? (.member user)).bind Event.membership?

@[simp] theorem get?_empty (k : StateKey) : empty.get? k = none := rfl

theorem get?_insert (auth : AuthEvents) (e : Event) (k : StateKey) :
    (auth.insert e).get? k = if e.place? = some k then some e else auth.get? k := by
  unfold insert
  split
  · next k' h =>
    show (auth.events.insert k' e).get? k = _
    rw [SortedMap.get?_insert]
    by_cases hk : k = k'
    · simp [hk, h]
    · have : ¬ e.place? = some k := fun h' => hk (Option.some.inj (h'.symm.trans h))
      simp [hk, this, get?]
  · next h =>
    have : ¬ e.place? = some k := fun h' => by rw [h] at h'; cases h'
    simp [this]

end AuthEvents

/-- The creator that a create event names. -/
def roomCreator? (create : Event) (version : RoomVersion) : Option String :=
  if version.hasImplicitCreator then some create.sender.text
  else create.content.stringField? "creator"

/-- The levels in force. -/
def effectiveLevels (auth : AuthEvents) (version : RoomVersion) : PowerLevels :=
  match auth.powerLevels? with
  | some e => .ofContent e.content
  | none => .withoutEvent (auth.create?.bind (roomCreator? · version))

/-- The token of an invite of somebody outside. -/
def outsideToken? (e : Event) : Option String :=
  ((e.content.field? "third_party_invite").bind (·.field? "signed")).bind (·.stringField? "token")

/-- Who vouches for a join. -/
def authoriser? (e : Event) : Option String :=
  e.content.stringField? "join_authorised_via_users_server"

/-- The places that matter for a change of membership beside those that matter
for every event. -/
def memberPlaces (e : Event) (version : RoomVersion) (membership : Membership) : List StateKey :=
  (if membership = .join ∨ membership = .invite ∨ membership = .knock then [.joinRules] else [])
  ++ (match e.stateKey with
    | some target => [.member target]
    | none => [])
  ++ (match outsideToken? e with
    | some token => if membership = .invite then [.thirdPartyInvite token] else []
    | none => [])
  ++ (match authoriser? e with
    | some user => if membership = .join ∧ version.hasRestricted then [.member user] else []
    | none => [])

/-- The places whose holders authorize an event.  Nothing authorizes a create
event. -/
def authPlaces (e : Event) (version : RoomVersion) : SortedSet StateKey :=
  if e.type = EventType.create then .empty
  else
    .ofList <|
      [.powerLevels, .member e.sender.text, .create]
      ++ (match e.membership? with
        | some membership => memberPlaces e version membership
        | none => [])

end StateResolution
