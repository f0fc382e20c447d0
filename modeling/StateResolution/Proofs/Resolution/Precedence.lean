import StateResolution.Proofs.Resolution.Evaluation
import StateResolution.Proofs.Rules.AuthPlaces
import StateResolution.Proofs.Rules.Citations

/-!
# The state before the citations

An event chooses what it cites, and might cite what suits it: an old event that has been
replaced since, or one in whose place another stands.  It gains nothing by that.  Where the
state holds a place, the state is followed, and what is cited there does not matter.  Everywhere
else at most one event is cited, since citations are accepted only when they are apart.

So two events that differ only in their citations get the same verdict, provided they cite the
same events where the state has nothing to say.
-/

namespace StateResolution

variable {g : EventGraph} {version : RoomVersion} {r : Replay} {e c : Event} {k : StateKey}
  {ids : List EventId} {cited cited' : List Event}

/-- Citations that are apart are found by what they are, and not by where they are cited. -/
theorem Replay.cited?_eq_some_iff (hcited : e.authEvents.mapM g.get = .ok cited)
    (hapart : PlacedApart cited) :
    r.cited? g e k = some c ↔
      c ∈ cited ∧ r.rejected.contains c.id = false ∧ c.place? = some k := by
  have hplace : ∀ d : Event, (!r.rejected.contains d.id && d.holds k) = true → d.place? = some k := by
    intro d hd
    exact Event.holds_iff.1 (Bool.and_eq_true_iff.1 hd).2
  rw [cited?, filterMap_get?_of_mapM hcited, hapart.find?_reverse hplace,
    hapart.find?_eq_some_iff hplace, Bool.and_eq_true, Bool.not_eq_true', Event.holds_iff]

/-- What is in force at a place is the same for other citations, if they agree there or the
state holds the place. -/
theorem Replay.inForce?_withCitations (hstate : r.state.Placed g)
    (hcited : e.authEvents.mapM g.get = .ok cited) (hcited' : ids.mapM g.get = .ok cited')
    (hapart : PlacedApart cited) (hapart' : PlacedApart cited')
    (hagree : r.standing? k = none → ∀ c, c.place? = some k → r.rejected.contains c.id = false →
      (c ∈ cited ↔ c ∈ cited')) :
    r.inForce? g { e with authEvents := ids } k = r.inForce? g e k := by
  cases hstanding : r.standing? k with
  | some id =>
    obtain ⟨c, hget, -⟩ := hstate k id (standing?_eq_some_iff.1 hstanding).1
    rw [inForce?_of_standing hstanding hget, inForce?_of_standing hstanding hget]
  | none =>
    have hsame : r.cited? g { e with authEvents := ids } k = r.cited? g e k := by
      refine Option.ext fun c => ?_
      rw [cited?_eq_some_iff hcited hapart, cited?_eq_some_iff hcited' hapart']
      refine and_congr_left ?_
      rintro ⟨hkept, hplace⟩
      exact (hagree hstanding c hplace hkept).symm
    rw [inForce?, inForce?, hstanding, hsame]

/-- The rules do not look at the citations themselves. -/
theorem checkEvent_withCitations (e : Event) (ids : List EventId) (auth : AuthEvents)
    (version : RoomVersion) :
    checkEvent { e with authEvents := ids } auth version = checkEvent e auth version := rfl

/-- Two events that differ only in what they cite are judged alike, if both may cite what they
do and they cite the same events, less the rejected ones, at each place that matters and that
the state does not hold. -/
theorem evaluate_withCitations (g : EventGraph) (version : RoomVersion) (r : Replay) (e : Event)
    (ids : List EventId) (cited cited' : List Event) (hstate : r.state.Placed g)
    (hcited : e.authEvents.mapM g.get = .ok cited) (hcited' : ids.mapM g.get = .ok cited')
    (hcitations : checkCitations e cited version = .ok ())
    (hcitations' : checkCitations { e with authEvents := ids } cited' version = .ok ())
    (hagree : ∀ k ∈ authPlaces e version, r.standing? k = none → ∀ c, c.place? = some k →
      r.rejected.contains c.id = false → (c ∈ cited ↔ c ∈ cited')) :
    ∃ verdict, evaluate g version e r.state r.rejected = .ok verdict ∧
      evaluate g version { e with authEvents := ids } r.state r.rejected = .ok verdict := by
  obtain ⟨auth, hforce, hjudged⟩ := exists_auth_evaluate hstate hcited hcitations
  obtain ⟨auth', hforce', hjudged'⟩ := exists_auth_evaluate hstate hcited' hcitations'
  rw [checkEvent_withCitations] at hjudged'
  refine ⟨checkEvent e auth version, hjudged, hjudged'.trans (congrArg _ ?_)⟩
  by_cases hcreate : e.type = EventType.create
  · rw [checkEvent_of_create hcreate, checkEvent_of_create hcreate]
  · refine checkEvent_of_agreeOn (fun k hk => ?_) hcreate
    rw [hforce k hk, hforce' k hk]
    exact Replay.inForce?_withCitations hstate hcited hcited'
      (placedApart_of_checkCitations hcreate hcitations)
      (placedApart_of_checkCitations (e := { e with authEvents := ids }) hcreate hcitations')
      (hagree k hk)

def danMoved : Event :=
  { Event.blank ⟨"$moved", by decide⟩ den dan EventType.member with
    content := .object [("membership", .string "join")]
    stateKey := some dan.text }

/-- Power levels that have been replaced since. -/
def danRaised : Event :=
  { Event.blank ⟨"$floor", by decide⟩ den cat EventType.powerLevels with
    content := .object [("users", .object [(cat.text, .integer 100), (dan.text, .integer 50)])]
    stateKey := some "" }

def danLowered : Event :=
  { Event.blank ⟨"$cellar", by decide⟩ den cat EventType.powerLevels with
    content := .object [("users", .object [(cat.text, .integer 100)])]
    stateKey := some "" }

/-- A topic that cites the power levels under which it would be allowed. -/
def danTopic : Event :=
  { Event.blank ⟨"$slogan", by decide⟩ den dan "m.room.topic" with
    stateKey := some ""
    authEvents := [denCreate.id, danMoved.id, danRaised.id] }

def denLowered : EventGraph := .ofEvents [denCreate, danMoved, danRaised, danLowered]

def loweredState : StateMap := SortedMap.empty.insert .powerLevels danLowered.id

/-- The topic would be allowed by what it cites.  It is refused, as it is when it cites the power
levels that stand. -/
theorem evaluate_withCitations_danTopic :
    let refused : Verdict := .error (.insufficientPower 50 0)
    evaluate denLowered .v10 danTopic .empty .empty = .ok (.ok ()) ∧
      evaluate denLowered .v10 danTopic loweredState .empty = .ok refused ∧
      evaluate denLowered .v10
        { danTopic with authEvents := [danLowered.id, denCreate.id, danMoved.id] }
        loweredState .empty = .ok refused := by
  intro refused
  have hrefused : evaluate denLowered .v10 danTopic loweredState .empty = .ok refused := by rfl
  have hagree : ∀ k ∈ authPlaces danTopic .v10,
      (Replay.mk loweredState .empty).standing? k = none → ∀ c : Event, c.place? = some k →
      (SortedMap.empty : Rejections).contains c.id = false →
      (c ∈ [denCreate, danMoved, danRaised] ↔ c ∈ [danLowered, denCreate, danMoved]) := by
    intro k _ hstanding c hplace _
    have hk : some StateKey.powerLevels ≠ some k := by
      rintro ⟨⟩
      exact absurd hstanding (by decide +kernel)
    have hraised : c ≠ danRaised := by
      rintro rfl
      exact hk hplace
    have hlowered : c ≠ danLowered := by
      rintro rfl
      exact hk hplace
    simp only [List.mem_cons, List.not_mem_nil, or_false, false_or, hraised, hlowered]
  obtain ⟨verdict, hverdict, hverdict'⟩ := evaluate_withCitations denLowered .v10
    ⟨loweredState, .empty⟩ danTopic [danLowered.id, denCreate.id, danMoved.id]
    [denCreate, danMoved, danRaised] [danLowered, denCreate, danMoved] (by decide +kernel)
    (by rfl) (by rfl) (by rfl) (by rfl) hagree
  cases hrefused.symm.trans hverdict
  exact ⟨by rfl, hrefused, hverdict'⟩

end StateResolution
