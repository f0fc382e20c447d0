import StateResolution.Proofs.Rules.Authorization

/-!
# What lets a change of membership through

`Allowed` has one constructor for each way in which the rules accept a change of membership
in its scene, with all that was asked for on that way.  The creator's first join is not
judged in a scene, and stands apart (`allowed_of_checkMembership`).

So what the rules grant is read off the constructors.  Where the target is banned, the only
ways left are those of another user who removes the target again.
-/

namespace StateResolution

open Fallible (check_bind_eq_ok)

variable {e create : Event} {auth : AuthEvents} {version : RoomVersion} {s : Scene}
  {membership : Membership} {target user : String}

/-- A change of membership that the rules accept in its scene. -/
inductive Allowed (e : Event) (auth : AuthEvents) (version : RoomVersion) (s : Scene) :
    Membership → Prop
  | join :
    s.sender = s.target →
    s.targetIs ≠ some .ban →
    checkJoinRule e auth version s = .ok () →
    Allowed e auth version s .join
  /-- The invite of somebody outside, by whoever made the outside invite. -/
  | outsideInvite :
    checkOutsideInvite e s.target auth = .ok () →
    s.targetIs ≠ some .ban →
    Allowed e auth version s .invite
  | invite :
    s.senderIs = some .join →
    s.targetIs ≠ some .ban →
    s.targetIs ≠ some .join →
    s.levels.named .invite ≤ s.senderLevel →
    Allowed e auth version s .invite
  /-- Who is invited or knocking turns back. -/
  | withdraw :
    s.senderIs = some .invite ∨ s.senderIs = some .knock →
    s.target = s.sender →
    Allowed e auth version s .leave
  | leave :
    s.senderIs = some .join →
    (s.targetIs = some .ban → s.levels.named .ban ≤ s.senderLevel) →
    s.target = s.sender ∨
      (s.levels.named .kick ≤ s.senderLevel ∧ s.targetLevel < s.senderLevel) →
    Allowed e auth version s .leave
  | ban :
    s.senderIs = some .join →
    s.levels.named .ban ≤ s.senderLevel →
    s.targetLevel < s.senderLevel →
    Allowed e auth version s .ban
  | knock :
    version.hasKnock = true →
    allowsKnock version s.joinRule = true →
    s.target = s.sender →
    s.targetIs ≠ some .join →
    s.senderIs ≠ some .invite →
    s.targetIs ≠ some .ban →
    Allowed e auth version s .knock

/-! ## The rules one by one -/

theorem allowed_of_checkJoin (h : checkJoin e auth version s = .ok ()) :
    Allowed e auth version s .join := by
  simp only [checkJoin, check_bind_eq_ok, require_eq_ok] at h
  obtain ⟨hself, hbanned, hrule⟩ := h
  exact .join (by simpa using hself) (by simpa [Scene.targetBanned] using hbanned) hrule

theorem allowed_of_checkInvite (hsender : s.senderIs = some .join) (h : checkInvite s = .ok ()) :
    Allowed e auth version s .invite := by
  simp only [checkInvite, check_bind_eq_ok, require_eq_ok, requireLevel_eq_ok] at h
  obtain ⟨hbanned, hjoined, hlevel⟩ := h
  exact .invite hsender (by simpa [Scene.targetBanned] using hbanned)
    (by simpa [Scene.targetJoined] using hjoined) hlevel

theorem allowed_of_checkLeave (hsender : s.senderIs = some .join) (h : checkLeave s = .ok ()) :
    Allowed e auth version s .leave := by
  simp only [checkLeave, check_bind_eq_ok, require_eq_ok] at h
  obtain ⟨hunban, houtranked⟩ := h
  refine .leave hsender (fun hbanned => ?_) (by simpa using houtranked)
  simpa [Scene.targetBanned, hbanned] using hunban

theorem allowed_of_checkBan (hsender : s.senderIs = some .join) (h : checkBan s = .ok ()) :
    Allowed e auth version s .ban := by
  simp only [checkBan, check_bind_eq_ok, require_eq_ok, requireLevel_eq_ok] at h
  obtain ⟨hlevel, houtranked⟩ := h
  exact .ban hsender hlevel (by simpa using houtranked)

theorem allowed_of_checkKnock (hversion : version.hasKnock = true)
    (h : checkKnock version s = .ok ()) : Allowed e auth version s .knock := by
  simp only [checkKnock, check_bind_eq_ok, require_eq_ok] at h
  obtain ⟨hrule, hself, hjoined, hinvited, hbanned⟩ := h
  exact .knock hversion hrule (by simpa using hself)
    (by simpa [Scene.targetJoined] using hjoined) (by simpa [Scene.senderInvited] using hinvited)
    (by simpa [Scene.targetBanned] using hbanned)

/-- What only a member may do is done by a member, unless it is a user's own withdrawal. -/
theorem checkByMember_eq_ok {judged : Verdict} (h : checkByMember membership s judged = .ok ()) :
    (membership = .leave ∧ (s.senderIs = some .invite ∨ s.senderIs = some .knock) ∧
        s.target = s.sender) ∨
      (s.senderIs = some .join ∧ judged = .ok ()) := by
  unfold checkByMember at h
  split at h
  · next hwithdraw =>
    simp only [Bool.and_eq_true, Bool.or_eq_true, Scene.senderInvited, Scene.senderKnocking,
      beq_iff_eq] at hwithdraw
    obtain ⟨⟨hsender, hleave⟩, hself⟩ := hwithdraw
    exact .inl ⟨hleave, hsender, hself⟩
  · split at h
    · cases h
    · next hjoined => exact .inr ⟨by simpa [Scene.senderJoined] using hjoined, h⟩

theorem allowed_of_checkChange (h : checkChange e auth version membership s = .ok ()) :
    Allowed e auth version s membership := by
  cases membership with
  | join => exact allowed_of_checkJoin h
  | knock =>
    simp only [checkChange] at h
    split at h
    · next hversion => exact allowed_of_checkKnock hversion h
    · cases h
  | invite =>
    simp only [checkChange] at h
    split at h
    · obtain ⟨houtside, hbanned⟩ := check_bind_eq_ok.1 h
      exact .outsideInvite houtside (by simpa [require_eq_ok, Scene.targetBanned] using hbanned)
    · rcases checkByMember_eq_ok h with ⟨hleave, -⟩ | ⟨hsender, hinvite⟩
      · cases hleave
      · exact allowed_of_checkInvite hsender hinvite
  | leave =>
    rcases checkByMember_eq_ok h with ⟨-, hsender, hself⟩ | ⟨hsender, hleave⟩
    · exact .withdraw hsender hself
    · exact allowed_of_checkLeave hsender hleave
  | ban =>
    rcases checkByMember_eq_ok h with ⟨hleave, -⟩ | ⟨hsender, hban⟩
    · cases hleave
    · exact allowed_of_checkBan hsender hban
  | other word =>
    rcases checkByMember_eq_ok h with ⟨hleave, -⟩ | ⟨-, hunknown⟩
    · cases hleave
    · cases hunknown

theorem allowed_of_checkMembership (h : checkMembership e create auth version = .ok ()) :
    ∃ membership target, e.membership? = some membership ∧ e.stateKey = some target ∧
      (isCreatorsFirstJoin e create version target = true ∨
        Allowed e auth version (.ofEvent e target auth version) membership) := by
  unfold checkMembership at h
  split at h
  · cases h
  · cases h
  · next membership target hm htarget =>
    refine ⟨membership, target, hm, htarget, ?_⟩
    split at h
    · next hfirst => exact .inl hfirst
    · obtain ⟨-, hchange⟩ := check_bind_eq_ok.1 h
      exact .inr (allowed_of_checkChange hchange)

/-- A member event that the rules accept is the creator's first join or an allowed change. -/
theorem allowed_of_checkEvent (htype : e.type = EventType.member)
    (htarget : e.stateKey = some target) (h : checkEvent e auth version = .ok ()) :
    ∃ create membership, auth.create? = some create ∧ e.membership? = some membership ∧
      (isCreatorsFirstJoin e create version target = true ∨
        Allowed e auth version (.ofEvent e target auth version) membership) := by
  obtain ⟨create, hcreated, -, hrules⟩ :=
    (checkEvent_eq_ok (htype.trans_ne (by decide))).1 h
  rw [if_pos htype] at hrules
  obtain ⟨membership, target', hm, htarget', hallowed⟩ := allowed_of_checkMembership hrules
  cases htarget.symm.trans htarget'
  exact ⟨create, membership, hcreated, hm, hallowed⟩

/-! ## Bans -/

/-- A user who is banned stays so unless somebody else removes or bans the user. -/
theorem Allowed.removal_of_banned (h : Allowed e auth version s membership)
    (hself : s.target = s.sender → s.targetIs = s.senderIs) (hban : s.targetIs = some .ban) :
    s.target ≠ s.sender ∧ (membership = .leave ∨ membership = .ban) := by
  -- A banned user is no member, and neither invited nor knocking.
  have hother : ∀ m, s.senderIs = some m → m ≠ .ban → s.target ≠ s.sender := by
    rintro m hm hne heq
    cases hban.symm.trans ((hself heq).trans hm)
    exact hne rfl
  cases h with
  | join _ hbanned => exact absurd hban hbanned
  | outsideInvite _ hbanned => exact absurd hban hbanned
  | invite _ hbanned => exact absurd hban hbanned
  | withdraw hsender heq =>
    rcases hsender with hsender | hsender
    · exact absurd heq (hother _ hsender nofun)
    · exact absurd heq (hother _ hsender nofun)
  | leave hsender => exact ⟨hother _ hsender nofun, .inl rfl⟩
  | ban hsender => exact ⟨hother _ hsender nofun, .inr rfl⟩
  | knock _ _ _ _ _ hbanned => exact absurd hban hbanned

end StateResolution
