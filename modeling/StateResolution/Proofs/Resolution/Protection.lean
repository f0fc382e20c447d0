import Mathlib.Data.List.Find
import StateResolution.Proofs.Resolution.Evaluation
import StateResolution.Proofs.Resolution.Replay
import StateResolution.Proofs.Rules.AuthPlaces
import StateResolution.Proofs.Rules.Membership
import StateResolution.Resolution.PowerOrder

/-!
# What a replay of other events cannot undo

Once the power events have been replayed, the create event, the power levels and the join
rules stand, whatever is replayed after them: an event that could take their places is a
power event.  A user whom somebody else has banned stays banned as well, since every other
way out of a ban is closed by the rules, except one.  The creator's first join asks for
nothing but the create event that is in force for it.

`Undisturbed` is what one judgment keeps, and so a whole replay.
-/

namespace StateResolution

variable {g : EventGraph} {version : RoomVersion} {base r : Replay} {e create ban : Event}
  {auth : AuthEvents} {k : StateKey} {user : String} {ids : List EventId}

theorem Event.place?_eq_member_iff :
    e.place? = some (.member user) ↔ e.type = EventType.member ∧ e.stateKey = some user :=
  place?_eq_some_iff

/-! ## Power events -/

/-- What holds the place of the create event, the power levels or the join rules is a power
event. -/
theorem isPowerEvent_of_place (hk : k ∈ [StateKey.create, .powerLevels, .joinRules])
    (hplace : e.place? = some k) : isPowerEvent e = true := by
  obtain ⟨htype, hkey⟩ := Event.place?_eq_some_iff.1 hplace
  have hempty : k.key = "" ∧
      (k.type = EventType.create ∨ k.type = EventType.powerLevels ∨
        k.type = EventType.joinRules) := by
    rcases List.mem_cons.1 hk with rfl | hk
    · exact ⟨rfl, .inl rfl⟩
    · rcases List.mem_pair.1 hk with rfl | rfl
      · exact ⟨rfl, .inr (.inl rfl)⟩
      · exact ⟨rfl, .inr (.inr rfl)⟩
  rw [isPowerEvent, if_pos (by rw [htype]; exact hempty.2), beq_iff_eq, hkey, hempty.1]

theorem isPowerEvent_of_removal (htype : e.type = EventType.member)
    (hm : e.membership? = some .leave ∨ e.membership? = some .ban)
    (hother : e.stateKey ≠ some e.sender.text) : isPowerEvent e = true := by
  rw [isPowerEvent, if_neg (by rw [htype]; decide), Bool.and_eq_true, Bool.or_eq_true]
  exact ⟨hm.imp beq_iff_eq.2 beq_iff_eq.2, bne_iff_ne.2 hother⟩

/-- What changes the membership of a banned user is a power event, unless it is the
creator's first join. -/
theorem isPowerEvent_of_lifted (hban : auth.membership? user = some .ban)
    (hplace : e.place? = some (.member user)) (h : checkEvent e auth version = .ok ())
    (hfirst : ∀ create, auth.create? = some create →
      isCreatorsFirstJoin e create version user = false) :
    isPowerEvent e = true := by
  obtain ⟨htype, htarget⟩ := Event.place?_eq_member_iff.1 hplace
  obtain ⟨create, membership, hcreated, hm, hjoin | hallowed⟩ :=
    allowed_of_checkEvent htype htarget h
  · rw [hfirst create hcreated] at hjoin
    cases hjoin
  · obtain ⟨hother, hremoval⟩ := hallowed.removal_of_banned
      (fun heq : user = e.sender.text => by simp only [Scene.ofEvent, heq]) hban
    refine isPowerEvent_of_removal htype ?_ ?_
    · rcases hremoval with rfl | rfl
      · exact .inl hm
      · exact .inr hm
    · rw [htarget]
      exact fun heq => hother (Option.some.inj heq)

/-! ## What a replay keeps -/

/-- A replay of some events has come to a sound state with the places of power as they were,
and has not rejected anything else. -/
structure Undisturbed (g : EventGraph) (ids : List EventId) (base r : Replay) : Prop where
  placed : r.state.Placed g
  power : ∀ k ∈ [StateKey.create, .powerLevels, .joinRules], r.state.get? k = base.state.get? k
  rejected : ∀ id, id ∉ ids → r.rejected.get? id = base.rejected.get? id

theorem Undisturbed.refl (hbase : base.state.Placed g) : Undisturbed g ids base base where
  placed := hbase
  power _ _ := rfl
  rejected _ _ := rfl

theorem Undisturbed.contains_rejected (h : Undisturbed g ids base r) {id : EventId}
    (hid : id ∉ ids) : r.rejected.contains id = base.rejected.contains id := by
  rw [SortedMap.contains, SortedMap.contains, h.rejected id hid]

theorem Undisturbed.apply {j : Judgment} (h : Undisturbed g ids base r)
    (hj : j.event.id ∈ ids) (hget : g.get? j.event.id = some j.event)
    (hpower : isPowerEvent j.event = false) :
    Undisturbed g ids base (r.apply j.event j.verdict) where
  placed k id hk := by
    rw [Replay.get?_state_apply] at hk
    split at hk
    · next hholds =>
      cases hk
      rw [Judgment.holds, Bool.and_eq_true, Event.holds_iff] at hholds
      exact ⟨j.event, hget, hholds.2⟩
    · exact h.placed k id hk
  power k hk := by
    rw [Replay.get?_state_apply, if_neg, h.power k hk]
    intro hholds
    rw [Judgment.holds, Bool.and_eq_true, Event.holds_iff] at hholds
    rw [isPowerEvent_of_place hk hholds.2] at hpower
    cases hpower
  rejected id hid := by
    have hne : id ≠ j.event.id := fun heq => hid (heq ▸ hj)
    rw [Replay.get?_rejected_apply, ← h.rejected id hid]
    split
    · rfl
    · rw [if_neg hne]

/-- The create event that is in force for an event stays so. -/
theorem Undisturbed.inForce?_create (h : Undisturbed g ids base r)
    (hpower : ∀ id ∈ ids, ∀ e, g.get? id = some e → isPowerEvent e = false)
    (hbase : base.state.Placed g) (e : Event) :
    r.inForce? g e .create = base.inForce? g e .create := by
  have hcreates : StateKey.create ∈ [StateKey.create, .powerLevels, .joinRules] :=
    List.mem_cons_self
  -- Create events are power events, so none is replayed and none is newly rejected.
  have hrejected : ∀ id c, g.get? id = some c → c.place? = some .create →
      r.rejected.contains id = base.rejected.contains id := by
    intro id c hget hplace
    refine h.contains_rejected fun hid => ?_
    have hother := hpower id hid c hget
    rw [isPowerEvent_of_place hcreates hplace] at hother
    cases hother
  have hstanding : r.standing? .create = base.standing? .create := by
    refine Option.ext fun id => ?_
    rw [Replay.standing?_eq_some_iff, Replay.standing?_eq_some_iff, h.power _ hcreates]
    refine and_congr_right fun hid => ?_
    obtain ⟨c, hget, hplace⟩ := hbase _ _ hid
    rw [hrejected id c hget hplace]
  have hcited : r.cited? g e .create = base.cited? g e .create := by
    refine List.find?_congr fun c hc => ?_
    obtain ⟨id, -, hget⟩ := List.mem_filterMap.1 (List.mem_reverse.1 hc)
    cases g.keyed id c hget
    cases hholds : c.holds .create with
    | true => rw [hrejected c.id c hget (Event.holds_iff.1 hholds)]
    | false => rw [Bool.and_false, Bool.and_false]
  rw [Replay.inForce?, Replay.inForce?, hstanding, hcited]

/-! ## Bans -/

/-- An event that is accepted where a banned user's membership stands is a power event,
unless it is the creator's first join. -/
theorem isPowerEvent_of_accepted (hplaced : r.state.Placed g)
    (hget : g.get? ban.id = some ban) (hstate : r.state.get? (.member user) = some ban.id)
    (hban : ban.membership? = some .ban) (haccepted : r.rejected.contains ban.id = false)
    (hplace : e.place? = some (.member user))
    (hfirst : ∀ create, r.inForce? g e .create = some create →
      isCreatorsFirstJoin e create version user = false)
    (h : evaluate g version e r.state r.rejected = .ok (.ok ())) :
    isPowerEvent e = true := by
  obtain ⟨auth, hauth, hcheck⟩ := exists_auth_of_evaluate hplaced h
  obtain ⟨htype, htarget⟩ := Event.place?_eq_member_iff.1 hplace
  obtain ⟨_, membership, -, hm, -⟩ := allowed_of_checkEvent htype htarget hcheck
  have hcreate : e.type ≠ EventType.create := htype.trans_ne (by decide)
  have hbanned : auth.membership? user = some .ban := by
    have hstands : r.standing? (.member user) = some ban.id :=
      Replay.standing?_eq_some_iff.2 ⟨hstate, haccepted⟩
    rw [AuthEvents.membership?, hauth _ (target_mem_authPlaces hm htarget),
      Replay.inForce?_of_standing hstands hget]
    exact hban
  refine isPowerEvent_of_lifted hbanned hplace hcheck fun create hcreated => hfirst create ?_
  rw [← hauth _ (create_mem_authPlaces hcreate)]
  exact hcreated

/-- A ban by another user is a power event, so it is not among other events. -/
theorem unlisted_of_ban (hbase : base.state.Placed g)
    (hpower : ∀ id ∈ ids, ∀ e, g.get? id = some e → isPowerEvent e = false)
    (hget : g.get? ban.id = some ban) (hstate : base.state.get? (.member user) = some ban.id)
    (hban : ban.membership? = some .ban) (hother : ban.sender.text ≠ user) : ban.id ∉ ids := by
  intro hid
  obtain ⟨d, hd, hplace⟩ := hbase _ _ hstate
  cases hget.symm.trans hd
  obtain ⟨htype, htarget⟩ := Event.place?_eq_member_iff.1 hplace
  have hremoval : isPowerEvent ban = true := by
    refine isPowerEvent_of_removal htype (.inr hban) ?_
    rw [htarget]
    exact fun heq => hother (Option.some.inj heq).symm
  rw [hpower _ hid _ hget] at hremoval
  cases hremoval

/-- Where a ban stands, it stands after one more event that is not a power event. -/
theorem Undisturbed.ban_stands {j : Judgment} (h : Undisturbed g ids base r)
    (hget : g.get? ban.id = some ban) (hban : ban.membership? = some .ban)
    (hunlisted : ban.id ∉ ids) (haccepted : base.rejected.contains ban.id = false)
    (hpower : isPowerEvent j.event = false)
    (hfirst : j.event.stateKey = some user → ∀ create, r.inForce? g j.event .create = some create →
      isCreatorsFirstJoin j.event create version user = false)
    (hverdict : evaluate g version j.event r.state r.rejected = .ok j.verdict)
    (hstands : r.state.get? (.member user) = some ban.id) :
    (r.apply j.event j.verdict).state.get? (.member user) = some ban.id := by
  rw [Replay.get?_state_apply, if_neg, hstands]
  intro hholds
  rw [Judgment.holds, Bool.and_eq_true, Event.holds_iff] at hholds
  obtain ⟨hok, hplace⟩ := hholds
  have hallowed : evaluate g version j.event r.state r.rejected = .ok (.ok ()) := by
    cases hv : j.verdict with
    | ok => rw [hverdict, hv]
    | error reason =>
      rw [hv] at hok
      cases hok
  have hkept : r.rejected.contains ban.id = false := by
    rw [h.contains_rejected hunlisted, haccepted]
  have htarget := (Event.place?_eq_member_iff.1 hplace).2
  have hlifted := isPowerEvent_of_accepted h.placed hget hstands hban hkept hplace
    (hfirst htarget) hallowed
  rw [hpower] at hlifted
  cases hlifted

/-- A replay of events none of which is a power event leaves the create event, the power
levels and the join rules as they were, and every user banned who was banned by another,
unless it comes to that user's join as the creator of the room. -/
theorem power_and_bans_stand (g : EventGraph) (version : RoomVersion) (base r : Replay)
    (ids : List EventId) (hbase : base.state.Placed g)
    (hpower : ∀ id ∈ ids, ∀ e, g.get? id = some e → isPowerEvent e = false)
    (h : Replay.runAll g version base ids = .ok r) :
    (∀ k ∈ [StateKey.create, .powerLevels, .joinRules],
      r.state.get? k = base.state.get? k) ∧
    ∀ (user : String) (ban : Event),
      g.get? ban.id = some ban → base.state.get? (.member user) = some ban.id →
      ban.membership? = some .ban → ban.sender.text ≠ user →
      base.rejected.contains ban.id = false →
      (∀ id ∈ ids, ∀ e, g.get? id = some e → e.stateKey = some user →
        ∀ create, base.inForce? g e .create = some create →
          isCreatorsFirstJoin e create version user = false) →
      r.state.get? (.member user) = some ban.id := by
  obtain ⟨js, hjs, hjudged, rfl⟩ := Replay.judged_of_runAll h
  have hlisted : ∀ j ∈ js, j.event.id ∈ ids := fun j hj => by
    rw [← hjs]
    exact List.mem_map_of_mem hj
  have hstep : ∀ (r : Replay) (j : Judgment), j ∈ js → Undisturbed g ids base r →
      g.get? j.event.id = some j.event → Undisturbed g ids base (r.apply j.event j.verdict) :=
    fun r j hj hr hget => hr.apply (hlisted j hj) hget (hpower _ (hlisted j hj) _ hget)
  constructor
  · have hkept : Undisturbed g ids base (base.after js) :=
      hjudged.keeps (.refl hbase) fun r j hj hr hget _ => hstep r j hj hr hget
    exact hkept.power
  · intro user ban hget hstate hban hother haccepted hfirst
    have hunlisted : ban.id ∉ ids := unlisted_of_ban hbase hpower hget hstate hban hother
    refine (hjudged.keeps (P := fun r => Undisturbed g ids base r ∧
      r.state.get? (.member user) = some ban.id) ⟨.refl hbase, hstate⟩ ?_).2
    rintro r j hj ⟨hr, hstands⟩ hjget hverdict
    have hplain := hpower _ (hlisted j hj) _ hjget
    refine ⟨hstep r j hj hr hjget, hr.ban_stands hget hban hunlisted haccepted hplain ?_ hverdict
      hstands⟩
    intro htarget create hcreate
    rw [hr.inForce?_create hpower hbase] at hcreate
    exact hfirst _ (hlisted j hj) _ hjget htarget create hcreate

def danBanned : Event :=
  { Event.blank ⟨"$banned", by decide⟩ den cat EventType.member with
    content := .object [("membership", .string "ban")]
    stateKey := some dan.text
    authEvents := [denCreate.id, catJoined.id] }

def denTopic : Event :=
  { Event.blank ⟨"$lair", by decide⟩ den cat "m.room.topic" with
    stateKey := some ""
    authEvents := [denCreate.id, catJoined.id] }

def denGraph : EventGraph :=
  .ofEvents [denCreate, catJoined, denRestricted, danBanned, danJoins, denTopic]

/-- The room with one user banned. -/
def denState : StateMap :=
  (((SortedMap.empty.insert .create denCreate.id).insert .joinRules denRestricted.id).insert
    (.member cat.text) catJoined.id).insert (.member dan.text) danBanned.id

/-- The topic is accepted, and the join that a member vouches for does not lift the ban. -/
theorem power_and_bans_stand_danBanned :
    ∃ r : Replay,
      Replay.runAll denGraph .v10 ⟨denState, .empty⟩ [danJoins.id, denTopic.id] = .ok r ∧
        r.state.get? ⟨"m.room.topic", ""⟩ = some denTopic.id ∧
        r.state.get? .joinRules = denState.get? .joinRules ∧
        r.state.get? (.member dan.text) = some danBanned.id := by
  have hrun : (Replay.runAll denGraph .v10 ⟨denState, .empty⟩
      [danJoins.id, denTopic.id]).toOption.any
        (fun r => decide (r.state.get? ⟨"m.room.topic", ""⟩ = some denTopic.id)) = true := by
    decide +kernel
  have hlisted : ∀ id ∈ [danJoins.id, denTopic.id], ∀ e, denGraph.get? id = some e →
      isPowerEvent e = false ∧
        ∀ create, isCreatorsFirstJoin e create .v10 dan.text = false := by
    have hget : ∀ id ∈ [danJoins.id, denTopic.id],
        (denGraph.get? id).all fun e => !isPowerEvent e && e.prevEvents.isEmpty := by
      decide +kernel
    intro id hid e he
    have hplain := hget id hid
    rw [he, Option.all_some, Bool.and_eq_true, Bool.not_eq_true', List.isEmpty_iff] at hplain
    refine ⟨hplain.1, fun create => ?_⟩
    simp [isCreatorsFirstJoin, hplain.2]
  obtain ⟨r, hr, htopic⟩ := Fallible.exists_of_any hrun
  have hboth := power_and_bans_stand denGraph .v10 ⟨denState, .empty⟩ r _ (by decide +kernel)
    (fun id hid e he => (hlisted id hid e he).1) hr
  refine ⟨r, hr, of_decide_eq_true htopic, hboth.1 _ (by decide), ?_⟩
  exact hboth.2 dan.text danBanned rfl (by decide +kernel) (by decide +kernel) (by decide)
    (by decide) fun id hid e he _ create _ => (hlisted id hid e he).2 create

end StateResolution
