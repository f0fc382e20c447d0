import StateResolution.Proofs.Fallible
import StateResolution.Rules.PowerLevels

/-!
# What the content of power levels says

The content of a power levels event is read three times.  It is judged when the event is new
(`checkLevelsContent`), it is compared with other content place by place (`levelAt?`), and the
levels in force are read from it (`PowerLevels.ofContent`).  The three go through the content
in ways of their own, and the judge is stricter in some room versions than in others.

*The readers.*  The levels in force are what stands at the places, name by name and entry by
entry (`named_ofContent`, `get?_table_ofContent`).  A user's level is then an entry or a default.

*The judge.*  `LevelsInOrder` says which content is accepted, without the order in which the
places are gone through (`checkLevelsContent_eq_ok`).  What the judge takes for a level the
readers take for the same one, also where it asks for numbers and they do not
(`readLevel?_lenient`).  So nothing that was accepted is lost when it comes into force.
-/

namespace StateResolution

open Fallible (check_bind_eq_ok forM_eq_ok)

variable {content value : Json} {version : RoomVersion} {strict : Bool} {level : NamedLevel}
  {table : LevelTable} {key user : String} {n : Int}

/-! ## Levels in force -/

theorem levelValue?_entry :
    levelValue? content (.entry table key) = (tableEntries? content table).bind (·.get? key) :=
  (Option.bind_assoc ..).symm

theorem levelValue?_entry_eq_some_iff :
    levelValue? content (.entry table key) = some value ↔
      ∃ object entries, content.field? table.name = some object ∧
        object.members? = some entries ∧ entries.get? key = some value := by
  rw [levelValue?, Option.bind_eq_some_iff]
  simp only [Json.field?, Option.bind_eq_some_iff, exists_and_left]

theorem named_ofContent (level : NamedLevel) :
    (PowerLevels.ofContent content).named level =
      (levelAt? content (.named level)).getD level.default := rfl

theorem get?_table_ofContent :
    ((PowerLevels.ofContent content).table table).get? key =
      levelAt? content (.entry table key) := by
  simp only [levelAt?, levelValue?_entry, PowerLevels.ofContent]
  cases tableEntries? content table with
  | none => rfl
  | some entries => exact SortedMap.get?_filterMap ..

/-- The level of a user is the user's entry, or what users have by default. -/
theorem userLevel_ofContent :
    (PowerLevels.ofContent content).userLevel user =
      (levelAt? content (.entry .users user)).getD
        ((PowerLevels.ofContent content).named .usersDefault) := by
  rw [PowerLevels.userLevel, get?_table_ofContent]

/-- Before any power levels are set, only the creator has a level. -/
theorem userLevel_withoutEvent (creator : Option String) :
    (PowerLevels.withoutEvent creator).userLevel user =
      if creator = some user then 100 else 0 := by
  cases creator with
  | none => rfl
  | some name =>
    simp only [PowerLevels.userLevel, PowerLevels.withoutEvent, SortedMap.get?_insert,
      SortedMap.get?_empty, Option.some.injEq, eq_comm (a := name)]
    split <;> rfl

/-! ## Content in order -/

/-- Content whose tables are objects, that has nothing but levels where levels stand, and that
names users by user ids. -/
structure LevelsInOrder (content : Json) (strict : Bool) : Prop where
  tables (table : LevelTable) (value : Json) :
    content.field? table.name = some value → ∃ entries, value.members? = some entries
  levels (place : LevelPlace) (value : Json) :
    levelValue? content place = some value → ∃ n, readLevel? strict value = some n
  users (user : String) (value : Json) :
    levelValue? content (.entry .users user) = some value → Identifier.isUserId user = true

/-- Whoever asks for numbers reads nothing that others do not read. -/
theorem readLevel?_lenient (h : readLevel? strict value = some n) :
    readLevel? false value = some n := by
  cases strict with
  | false => exact h
  | true =>
    cases value with
    | number written => cases written <;> exact h
    | _ => cases h

theorem checkNamedLevel_eq_ok :
    checkNamedLevel content strict level = .ok () ↔
      ∀ value, content.field? level.name = some value → ∃ n, readLevel? strict value = some n := by
  cases hfield : content.field? level.name with
  | none => simp [checkNamedLevel, hfield]
  | some value => simp [checkNamedLevel, hfield, Option.isSome_iff_exists]

theorem checkLevelEntry_eq_ok :
    checkLevelEntry strict table (key, value) = .ok () ↔
      (table = .users → Identifier.isUserId key = true) ∧
        ∃ n, readLevel? strict value = some n := by
  rw [checkLevelEntry]
  split_ifs with huser hlevel
  · simp [huser]
  · simpa [← Option.isSome_iff_exists, hlevel] using huser
  · simp [← Option.isSome_iff_exists, hlevel]

theorem checkLevelTable_eq_ok :
    checkLevelTable content strict table = .ok () ↔
      ∀ value, content.field? table.name = some value → ∃ entries, value.members? = some entries ∧
        ∀ key entry, entries.get? key = some entry →
          (table = .users → Identifier.isUserId key = true) ∧
            ∃ n, readLevel? strict entry = some n := by
  cases hfield : content.field? table.name with
  | none => simp [checkLevelTable, hfield]
  | some value =>
    cases hmembers : value.members? with
    | none => simp [checkLevelTable, hfield, hmembers]
    | some entries =>
      have hjudged : checkLevelTable content strict table =
          entries.toList.forM (checkLevelEntry strict table) := by
        simp only [checkLevelTable, hfield, hmembers]
      simp [hjudged, -List.forM_eq_forM, forM_eq_ok, checkLevelEntry_eq_ok,
        SortedMap.mem_toList_iff, hmembers]

/-- Content is accepted when it is in order in the room's version. -/
theorem checkLevelsContent_eq_ok :
    checkLevelsContent content version = .ok () ↔
      LevelsInOrder content version.hasIntegerLevels := by
  simp only [checkLevelsContent, check_bind_eq_ok, forM_eq_ok, checkNamedLevel_eq_ok,
    checkLevelTable_eq_ok, NamedLevel.mem_all, LevelTable.mem_all, true_imp_iff]
  constructor
  · intro ⟨hnamed, htables⟩
    have hentries : ∀ table key entry, levelValue? content (.entry table key) = some entry →
        (table = .users → Identifier.isUserId key = true) ∧
          ∃ n, readLevel? version.hasIntegerLevels entry = some n := by
      intro table key entry h
      obtain ⟨value, entries, hfield, hmembers, hentry⟩ := levelValue?_entry_eq_some_iff.1 h
      obtain ⟨entries', hmembers', hjudged⟩ := htables table value hfield
      cases hmembers.symm.trans hmembers'
      exact hjudged key entry hentry
    refine ⟨fun table value hfield => ?_, fun place value h => ?_, fun user value h => ?_⟩
    · obtain ⟨entries, hmembers, -⟩ := htables table value hfield
      exact ⟨entries, hmembers⟩
    · cases place with
      | named level => exact hnamed level value h
      | entry table key => exact (hentries table key value h).2
    · exact (hentries .users user value h).1 rfl
  · intro h
    refine ⟨fun level => h.levels (.named level), fun table value hfield => ?_⟩
    obtain ⟨entries, hmembers⟩ := h.tables table value hfield
    refine ⟨entries, hmembers, fun key entry hentry => ?_⟩
    have hvalue : levelValue? content (.entry table key) = some entry :=
      levelValue?_entry_eq_some_iff.2 ⟨value, entries, hfield, hmembers, hentry⟩
    refine ⟨fun htable => ?_, h.levels _ entry hvalue⟩
    subst htable
    exact h.users key entry hvalue

/-- In content that is in order, whatever stands where a level does is read as one. -/
theorem LevelsInOrder.exists_level {place : LevelPlace} (h : LevelsInOrder content strict)
    (hvalue : levelValue? content place = some value) :
    ∃ n, readLevel? strict value = some n ∧ levelAt? content place = some n := by
  obtain ⟨n, hn⟩ := h.levels place value hvalue
  refine ⟨n, hn, ?_⟩
  rw [levelAt?, hvalue, Option.bind_some, readLevel?_lenient hn]

/-- The levels in force are what the places of the content are read as, and where the content
was accepted, each of its values is in force, as it was read when it was judged. -/
theorem levels_read_alike (content : Json) (version : RoomVersion) :
    let levels := PowerLevels.ofContent content
    (∀ level, levels.named level = (levelAt? content (.named level)).getD level.default) ∧
    (∀ table key, (levels.table table).get? key = levelAt? content (.entry table key)) ∧
    (checkLevelsContent content version = .ok () →
      (∀ (level : NamedLevel) (value : Json), content.field? level.name = some value →
        ∃ n, readLevel? version.hasIntegerLevels value = some n ∧ levels.named level = n) ∧
      ∀ (table : LevelTable) (value : Json), content.field? table.name = some value →
        ∃ entries, value.members? = some entries ∧ ∀ key entry, entries.get? key = some entry →
          ∃ n, readLevel? version.hasIntegerLevels entry = some n ∧
            (levels.table table).get? key = some n) := by
  intro levels
  refine ⟨named_ofContent, fun table key => get?_table_ofContent, fun haccepted => ?_⟩
  have horder := checkLevelsContent_eq_ok.1 haccepted
  constructor
  · intro level value hfield
    obtain ⟨n, hn, hread⟩ := horder.exists_level (show levelValue? _ (.named level) = _ from hfield)
    exact ⟨n, hn, by rw [named_ofContent, hread, Option.getD_some]⟩
  · intro table value hfield
    obtain ⟨entries, hmembers⟩ := horder.tables table value hfield
    refine ⟨entries, hmembers, fun key entry hentry => ?_⟩
    obtain ⟨n, hn, hread⟩ := horder.exists_level
      (levelValue?_entry_eq_some_iff.2 ⟨value, entries, hfield, hmembers, hentry⟩)
    exact ⟨n, hn, get?_table_ofContent.trans hread⟩

/-- Levels of which some are written as texts. -/
def ferryLevels : Json :=
  .object [("ban", .string " +75 "), ("users", .object [("@fay:ferry", .integer 100)]),
    ("events", .object [("m.room.topic", .string "-5")])]

/-- Texts that were accepted as levels are in force. -/
theorem levels_read_alike_ferryLevels :
    checkLevelsContent ferryLevels .v9 = .ok () ∧
      (PowerLevels.ofContent ferryLevels).named .ban = 75 ∧
      ((PowerLevels.ofContent ferryLevels).table .events).get? "m.room.topic" = some (-5) := by
  have haccepted : checkLevelsContent ferryLevels .v9 = .ok () := by decide +kernel
  obtain ⟨-, -, hkept⟩ := levels_read_alike ferryLevels .v9
  obtain ⟨hnamed, htables⟩ := hkept haccepted
  obtain ⟨ban, hban, hnamed⟩ := hnamed .ban (.string " +75 ") rfl
  obtain ⟨entries, hmembers, hentries⟩ := htables .events _ rfl
  cases hmembers
  obtain ⟨topic, htopic, hentry⟩ := hentries "m.room.topic" (.string "-5") rfl
  have hread : readLevel? false (.string " +75 ") = some 75 := by decide +kernel
  have hread' : readLevel? false (.string "-5") = some (-5) := by decide +kernel
  cases hban.symm.trans hread
  cases htopic.symm.trans hread'
  exact ⟨haccepted, hnamed, hentry⟩

end StateResolution
