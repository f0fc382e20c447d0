import StateResolution.SortedSet

/-!
# State keys

A piece of room state is held under the type of the event that set it and a key
of that event's own.  State is always listed by type and then by key.
-/

namespace StateResolution

/-! ## The event types that authorization knows -/

namespace EventType

/-- The first event of a room. -/
def create : String := "m.room.create"

/-- Who may do what. -/
def powerLevels : String := "m.room.power_levels"

/-- Who may join. -/
def joinRules : String := "m.room.join_rules"

/-- One user's membership. -/
def member : String := "m.room.member"

/-- An invite to somebody outside. -/
def thirdPartyInvite : String := "m.room.third_party_invite"

end EventType

/-- A place in the room state. -/
structure StateKey where
  type : String
  key : String
deriving DecidableEq

namespace StateKey

instance : Ord StateKey := ⟨compareLex (compareOn type) (compareOn key)⟩

instance : Std.TransOrd StateKey :=
  inferInstanceAs (Std.TransCmp (compareLex (compareOn type) (compareOn key)))

instance : Std.LawfulEqOrd StateKey where
  compare_self {a} := by
    show (compare a.type a.type).then (compare a.key a.key) = .eq
    rw [compare_refl, compare_refl]
    rfl
  eq_of_compare {a b} h := by
    have h : (compare a.type b.type).then (compare a.key b.key) = .eq := h
    obtain ⟨ht, hk⟩ := Ordering.then_eq_eq.1 h
    cases a
    cases b
    cases Std.LawfulEqCmp.eq_of_compare ht
    cases Std.LawfulEqCmp.eq_of_compare hk
    rfl

/-- Where the create event stands. -/
def create : StateKey := ⟨EventType.create, ""⟩

/-- Where the power levels stand. -/
def powerLevels : StateKey := ⟨EventType.powerLevels, ""⟩

/-- Where the join rules stand. -/
def joinRules : StateKey := ⟨EventType.joinRules, ""⟩

/-- Where a user's membership stands. -/
def member (user : String) : StateKey := ⟨EventType.member, user⟩

/-- Where an outside invite with a token stands. -/
def thirdPartyInvite (token : String) : StateKey := ⟨EventType.thirdPartyInvite, token⟩

end StateKey

end StateResolution
