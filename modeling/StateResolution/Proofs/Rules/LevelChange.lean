import Mathlib.Order.MinMax
import StateResolution.Proofs.Rules.Authority
import StateResolution.Proofs.Rules.PowerLevels

/-!
# How far a change of power levels reaches

The rules compare the levels of the old and the new content place by place.  `WithinReach`
says what they let a sender make of one place: what is there may stay, however high it is, and
anything else may change up to the sender's own level, except where an equal of the sender's
would lose the level.

Only places at which either content has something are compared, but elsewhere there is nothing
to ask for.  So an accepted change is within reach everywhere (`checkLevelChange_eq_ok`).  What
it gives a user is then bounded by what was there before.  A user's level is read with the
default for users behind it, and that one with zero behind it, which is why both stand in the
bound.
-/

namespace StateResolution

open Fallible (check_bind_eq_ok forM_eq_ok)

variable {e current : Event} {auth : AuthEvents} {version : RoomVersion} {old new content : Json}
  {sender user key : String} {level value : Int} {place : LevelPlace} {before after : Option Int}
  {table : LevelTable}

/-! ## Places with levels -/

theorem mem_tableKeys :
    key ∈ tableKeys content table ↔ (levelValue? content (.entry table key)).isSome = true := by
  rw [levelValue?_entry, tableKeys]
  cases tableEntries? content table with
  | none => simp
  | some entries => exact SortedMap.mem_keySet

theorem isSome_levelValue? (h : levelAt? content place = some value) :
    (levelValue? content place).isSome = true := by
  obtain ⟨json, hjson, -⟩ := Option.bind_eq_some_iff.1 h
  rw [hjson, Option.isSome_some]

/-- Each place at which the old or the new content has a level is compared. -/
theorem mem_comparedPlaces
    (h : levelAt? old place = some value ∨ levelAt? new place = some value) :
    place ∈ comparedPlaces old new := by
  rw [comparedPlaces, List.mem_append]
  cases place with
  | named level => exact .inl (List.mem_map_of_mem (NamedLevel.mem_all level))
  | entry table key =>
    refine .inr (List.mem_flatMap.2 ⟨table, LevelTable.mem_all table, List.mem_map_of_mem ?_⟩)
    rw [← SortedSet.mem_def, SortedSet.mem_union, mem_tableKeys, mem_tableKeys]
    exact h.imp isSome_levelValue? isSome_levelValue?

/-! ## One place -/

/-- What a sender with a level may make of the level at one place. -/
inductive WithinReach (sender : String) (level : Int) (place : LevelPlace) :
    Option Int → Option Int → Prop
  /-- What is there may stay, however high it is. -/
  | kept (value : Int) : WithinReach sender level place (some value) (some value)
  /-- A change goes no higher than the sender's own level, and spares the sender's equals. -/
  | changed {before after : Option Int} :
    (∀ value ∈ before, value ≤ level) →
    (∀ value ∈ after, value ≤ level) →
    (∀ user, place = .entry .users user → user ≠ sender → before ≠ some level) →
    WithinReach sender level place before after

theorem find?_above_eq_none :
    ([before, after].filterMap id).find? (level < ·) = none ↔
      (∀ value ∈ before, value ≤ level) ∧ ∀ value ∈ after, value ≤ level := by
  cases before <;> cases after <;> simp

theorem checkPlace_eq_ok :
    checkPlace old new sender level place = .ok () ↔
      WithinReach sender level place (levelAt? old place) (levelAt? new place) := by
  unfold checkPlace
  dsimp only
  generalize levelAt? old place = before
  generalize levelAt? new place = after
  by_cases hkept : before.isSome = true ∧ before = after
  · rw [if_pos hkept]
    obtain ⟨hsome, rfl⟩ := hkept
    obtain ⟨value, rfl⟩ := Option.isSome_iff_exists.1 hsome
    exact iff_of_true rfl (.kept value)
  · rw [if_neg hkept]
    constructor
    · intro h
      split at h
      · cases h
      · next hequal =>
        split at h
        · cases h
        · next hbelow =>
          obtain ⟨hbefore, hafter⟩ := find?_above_eq_none.1 hbelow
          refine .changed hbefore hafter ?_
          rintro user rfl hother heq
          dsimp only at hequal
          rw [if_pos ⟨hother, heq⟩] at hequal
          cases hequal
    · intro h
      cases h with
      | kept value => exact absurd ⟨rfl, rfl⟩ hkept
      | changed hbefore hafter hequal =>
        split
        · next user huser =>
          split at huser
          · next other =>
            split at huser
            · next hboth => exact absurd hboth.2 (hequal other rfl hboth.1)
            · cases huser
          · cases huser
        · rw [find?_above_eq_none.2 ⟨hbefore, hafter⟩]

/-- An equal keeps the level, although it is no higher than the sender's. -/
example :
    checkPlace (.object [("users", .object [(ada.text, .integer 60)])]) (.object []) bea.text 60
      (.entry .users ada.text) = .error (.invalidPowerLevels (.equalUser ada.text)) := by
  decide +kernel

section WithinReach

variable (h : WithinReach sender level place before after)
include h

/-- A level above the sender's stays. -/
theorem WithinReach.stays (hbefore : before = some value) (hvalue : level < value) :
    after = some value := by
  cases h with
  | kept => exact hbefore
  | changed hle => exact absurd hvalue (not_lt.2 (hle value hbefore))

/-- A level above the sender's was there before. -/
theorem WithinReach.was_there (hafter : after = some value) (hvalue : level < value) :
    before = some value := by
  cases h with
  | kept => exact hafter
  | changed _ hle => exact absurd hvalue (not_lt.2 (hle value hafter))

/-- The level of another user who is not below the sender stays. -/
theorem WithinReach.spares (hplace : place = .entry .users user) (hother : user ≠ sender)
    (hbefore : before = some value) (hvalue : level ≤ value) : after = some value := by
  rcases hvalue.eq_or_lt with rfl | habove
  · cases h with
    | kept => exact hbefore
    | changed _ _ hequal => exact absurd hbefore (hequal user hplace hother)
  · exact h.stays hbefore habove

/-- A new level is at most the sender's, or the old one. -/
theorem WithinReach.le_or_eq (hafter : after = some value) : value ≤ level ∨ before = some value :=
  (le_or_gt value level).imp_right (h.was_there hafter)

end WithinReach

/-! ## All places -/

/-- A change of levels that are set already is accepted when its content is in order and it
is within the sender's reach at every place. -/
theorem checkLevelChange_eq_ok (hcurrent : auth.powerLevels? = some current) :
    checkLevelChange e auth version level = .ok () ↔
      checkLevelsContent e.content version = .ok () ∧
        ∀ place, WithinReach e.sender.text level place (levelAt? current.content place)
          (levelAt? e.content place) := by
  rw [checkLevelChange, check_bind_eq_ok, hcurrent]
  refine and_congr_right fun _ => ?_
  simp only [forM_eq_ok, checkPlace_eq_ok]
  refine ⟨fun h place => ?_, fun h place _ => h place⟩
  by_cases hcompared : place ∈ comparedPlaces current.content e.content
  · exact h place hcompared
  · -- A place that is not compared has no level in either content.
    refine .changed (fun value hvalue => ?_) (fun value hvalue => ?_) fun user _ _ hvalue => ?_
    · exact absurd (mem_comparedPlaces (.inl hvalue)) hcompared
    · exact absurd (mem_comparedPlaces (.inr hvalue)) hcompared
    · exact absurd (mem_comparedPlaces (.inl hvalue)) hcompared

/-! ## Levels in force -/

/-- A change within reach at the places that a user's level is read from gives the user at most
the sender's level, the user's own, or a default. -/
theorem userLevel_le
    (h : ∀ place, WithinReach sender level place (levelAt? old place) (levelAt? new place)) :
    (PowerLevels.ofContent new).userLevel user ≤
      max (max level ((PowerLevels.ofContent old).userLevel user))
        (max ((PowerLevels.ofContent old).named .usersDefault) 0) := by
  rw [userLevel_ofContent]
  cases hentry : levelAt? new (.entry .users user) with
  | some value =>
    rw [Option.getD_some]
    rcases (h _).le_or_eq hentry with hle | hold
    · exact le_max_of_le_left (le_max_of_le_left hle)
    · rw [userLevel_ofContent, hold]
      exact le_max_of_le_left (le_max_right _ _)
  | none =>
    rw [Option.getD_none, named_ofContent]
    cases hdefault : levelAt? new (.named .usersDefault) with
    | some value =>
      rw [Option.getD_some]
      rcases (h _).le_or_eq hdefault with hle | hold
      · exact le_max_of_le_left (le_max_of_le_left hle)
      · rw [named_ofContent, hold]
        exact le_max_of_le_right (le_max_left _ _)
    | none => exact le_max_of_le_right (le_max_right _ _)

/-- Where the rules accept new power levels in place of current ones, no level above the
sender's goes or comes, no equal of the sender's is touched, and no user gets more than the
sender has, the user had, or users had by default. -/
theorem levels_above_sender_stand (e current : Event) (auth : AuthEvents) (version : RoomVersion)
    (htype : e.type = EventType.powerLevels) (hcurrent : auth.powerLevels? = some current)
    (h : checkEvent e auth version = .ok ()) :
    let levels := effectiveLevels auth version
    let level := levels.userLevel e.sender.text
    (∀ place value, levelAt? current.content place = some value → level < value →
      levelAt? e.content place = some value) ∧
    (∀ place value, levelAt? e.content place = some value → level < value →
      levelAt? current.content place = some value) ∧
    (∀ user value, user ≠ e.sender.text →
      levelAt? current.content (.entry .users user) = some value → level ≤ value →
      levelAt? e.content (.entry .users user) = some value) ∧
    ∀ user, (PowerLevels.ofContent e.content).userLevel user ≤
      max (max level (levels.userLevel user)) (max (levels.named .usersDefault) 0) := by
  intro levels level
  have hlevels : levels = .ofContent current.content := by
    simp only [levels, effectiveLevels, hcurrent]
  obtain ⟨_, -, -, hrules⟩ := (checkEvent_eq_ok (htype.trans_ne (by decide))).1 h
  rw [if_neg (htype.trans_ne (by decide)), checkOther_eq_ok] at hrules
  have hsend := hrules.2
  rw [if_neg (htype.trans_ne (by decide))] at hsend
  have hreach := ((checkLevelChange_eq_ok hcurrent).1 (hsend.2.2 htype)).2
  refine ⟨fun place value => (hreach place).stays, fun place value => (hreach place).was_there,
    fun user value => (hreach _).spares rfl, fun user => ?_⟩
  rw [hlevels]
  exact userLevel_le hreach

/-- A member below the creator raises the level of one who is banned, and names another. -/
def ranksRaised : Event :=
  { Event.blank ⟨"$raised", by decide⟩ mill bea EventType.powerLevels with
    content := .object [("ban", .integer 60), ("kick", .integer 50),
      ("users", .object [(ada.text, .integer 100), (bea.text, .integer 60),
        (col.text, .integer 60), (dot.text, .integer 40)])]
    stateKey := some "" }

/-- The creator keeps a level that the sender does not have, and nobody else comes to it. -/
theorem levels_above_sender_stand_ranksRaised :
    millAuth.powerLevels? = some millLevels ∧ checkEvent ranksRaised millAuth .v10 = .ok () ∧
      levelAt? ranksRaised.content (.entry .users ada.text) = some 100 ∧
      (PowerLevels.ofContent ranksRaised.content).userLevel col.text ≤ 60 := by
  have hcheck : checkEvent ranksRaised millAuth .v10 = .ok () := by decide +kernel
  obtain ⟨hstays, -, -, hbound⟩ :=
    levels_above_sender_stand ranksRaised millLevels millAuth .v10 rfl rfl hcheck
  refine ⟨rfl, hcheck, hstays _ 100 (by decide +kernel) (by decide +kernel), ?_⟩
  exact (hbound col.text).trans (by decide +kernel)

end StateResolution
