import StateResolution.Proofs.Fallible
import StateResolution.Rules.Authorization

/-!
# What the rules ask for

What has been checked of an event that is accepted, for each of the two ways that the rules
take.  A change of membership has a module of its own.  Every other event is sent by a member,
whose level is high enough for it.

The rules are written as checks one after another, so each statement lists what they check in
that order.  It holds in both directions, since they check nothing else.
-/

namespace StateResolution

open Fallible (check_bind_eq_ok)

variable {e : Event} {auth : AuthEvents} {version : RoomVersion}

theorem require_eq_ok {condition : Bool} {otherwise : Denial} {u : Unit} :
    require condition otherwise = .ok u ↔ condition = true := by
  cases condition <;> simp [require]

theorem requireLevel_eq_ok {required actual : Int} {u : Unit} :
    requireLevel required actual = .ok u ↔ required ≤ actual := by
  unfold requireLevel
  split
  · next h => simpa using h
  · next h => simpa using h

/-- An event that is neither a create nor a member event is sent by a member whose level is
high enough for it. -/
theorem checkOther_eq_ok :
    checkOther e auth version = .ok () ↔
      auth.membership? e.sender.text = some .join ∧
        let levels := effectiveLevels auth version
        let level := levels.userLevel e.sender.text
        if e.type = EventType.thirdPartyInvite then levels.named .invite ≤ level
        else
          levels.sendLevel e.type e.isState ≤ level ∧ checkStateKey e = .ok () ∧
            (e.type = EventType.powerLevels → checkLevelChange e auth version level = .ok ()) := by
  unfold checkOther
  by_cases hjoined : auth.membership? e.sender.text = some .join
  · rw [if_neg (not_not.2 hjoined), and_iff_right hjoined]
    dsimp only
    split
    · exact requireLevel_eq_ok
    · rw [check_bind_eq_ok, check_bind_eq_ok, requireLevel_eq_ok]
      refine and_congr_right fun _ => and_congr_right fun _ => ?_
      split
      · next hlevels => rw [forall_prop_of_true hlevels]
      · next hlevels => exact ⟨fun _ h => absurd h hlevels, fun _ => rfl⟩
  · rw [if_pos hjoined]
    constructor
    · intro h
      cases h
    · rintro ⟨h, -⟩
      exact absurd h hjoined

/-- In a room that has been created, an event comes from a server that the room is open to,
and passes the rules for its type. -/
theorem checkEvent_eq_ok (hcreate : e.type ≠ EventType.create) :
    checkEvent e auth version = .ok () ↔
      ∃ create, auth.create? = some create ∧ checkFederation e.sender.text create = .ok () ∧
        if e.type = EventType.member then checkMembership e create auth version = .ok ()
        else checkOther e auth version = .ok () := by
  rw [checkEvent, if_neg hcreate]
  cases auth.create? with
  | none =>
    constructor
    · intro h
      cases h
    · rintro ⟨_, ⟨⟩, -⟩
  | some create =>
    simp only [check_bind_eq_ok, Option.some.injEq, exists_eq_left']
    refine and_congr_right fun _ => ?_
    split <;> rfl

end StateResolution
