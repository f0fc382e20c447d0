import StateResolution.Rules.AuthEvents

/-!
# Changes of power levels

A sender may change, add or remove a level only where neither the old nor the new
value is above their own, and may not touch another user of their own level.
Every place where the old or the new content has a level is compared.
-/

namespace StateResolution

/-- The places that a change compares: every name, then the keys of each table
in either content. -/
def comparedPlaces (old new : Json) : List LevelPlace :=
  NamedLevel.all.map .named
  ++ LevelTable.all.flatMap fun table =>
    ((tableKeys old table).union (tableKeys new table)).toList.map (.entry table)

/-- Judges the change at one place by a sender with a level. -/
def checkPlace (old new : Json) (sender : String) (level : Int) (place : LevelPlace) : Verdict :=
  let before := levelAt? old place
  let after := levelAt? new place
  if before.isSome ∧ before = after then .ok ()
  else
    let equal := match place with
      | .entry .users user => if user ≠ sender ∧ before = some level then some user else none
      | _ => none
    match equal with
    | some user => .error (.invalidPowerLevels (.equalUser user))
    | none =>
      match ([before, after].filterMap id).find? (level < ·) with
      | some above => .error (.insufficientPower above level)
      | none => .ok ()

/-- Judges a power levels event by a sender with a level. -/
def checkLevelChange (e : Event) (auth : AuthEvents) (version : RoomVersion) (level : Int) :
    Verdict := do
  checkLevelsContent e.content version
  match auth.powerLevels? with
  | none => .ok ()
  | some current =>
    (comparedPlaces current.content e.content).forM
      (checkPlace current.content e.content e.sender.text level)

end StateResolution
