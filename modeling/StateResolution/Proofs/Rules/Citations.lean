import Mathlib.Data.List.Nodup
import StateResolution.Proofs.Fallible
import StateResolution.Proofs.Rules.AuthPlaces
import StateResolution.Rules.Citations

/-!
# What an event may cite

The check of the citations goes through them once and keeps the places it has seen.  Nothing
of this shows in what it comes to (`checkCited_eq_ok`): the cited events are of the room, at
places that are allowed and not seen before, and no two are at one place.

So at each place there is one cited event at most, and which of several a look-up would take
does not matter.

*Acceptance.*  `Citable` says what an event may cite without an order to go through it in, and
the check accepts exactly that (`checkCitations_eq_ok`).  Whoever looks up a holder of each
place that matters, and finds the create event among them, has such a list (`citable_of_holders`).
-/

namespace StateResolution

open Fallible (bind_eq_ok)

variable {e c d : Event} {version : RoomVersion} {allowed seen places : SortedSet StateKey}
  {cited cited' : List Event} {k : StateKey}

/-- No two events of a list are at one place. -/
def PlacedApart (es : List Event) : Prop := (es.map Event.place?).Nodup

theorem checkCited_cons_eq_ok :
    checkCited e allowed seen (c :: cited) = .ok places ↔
      c.room = e.room ∧ ∃ k ∈ allowed, k ∉ seen ∧ c.place? = some k ∧
        checkCited e allowed (seen.insert k) cited = .ok places := by
  rw [checkCited]
  by_cases hroom : c.room = e.room
  · rw [if_neg (not_not.2 hroom), and_iff_right hroom]
    cases hplace : c.place? with
    | none => simp
    | some k =>
      simp only [Option.some.injEq]
      by_cases hseen : k ∈ seen
      · simp [hseen]
      · by_cases hallowed : k ∈ allowed <;> simp [hseen, hallowed]
  · simp [hroom]

theorem checkCited_eq_ok :
    checkCited e allowed seen cited = .ok places ↔
      (∀ c ∈ cited, c.room = e.room ∧ ∃ k ∈ allowed, k ∉ seen ∧ c.place? = some k) ∧
        PlacedApart cited ∧ ∀ k, k ∈ places ↔ k ∈ seen ∨ ∃ c ∈ cited, c.place? = some k := by
  induction cited generalizing seen with
  | nil =>
    constructor
    · rintro ⟨⟩
      exact ⟨by simp, List.nodup_nil, by simp⟩
    · rintro ⟨-, -, hplaces⟩
      have hsame : seen = places := SortedSet.ext fun k => by simp [hplaces]
      rw [checkCited, hsame]
  | cons c cited ih =>
    rw [checkCited_cons_eq_ok, PlacedApart, List.map_cons, List.nodup_cons, List.forall_mem_cons]
    have hmem : ∀ {k}, c.place? = some k → ∀ x,
        (x ∈ seen.insert k ∨ ∃ d ∈ cited, d.place? = some x) ↔
          x ∈ seen ∨ ∃ d ∈ c :: cited, d.place? = some x := by
      intro k hplace x
      rw [SortedSet.mem_insert, List.exists_mem_cons_iff, hplace, Option.some.injEq,
        eq_comm (a := k), or_assoc, or_left_comm]
    constructor
    · rintro ⟨hroom, k, hallowed, hseen, hplace, hrest⟩
      obtain ⟨hcited, hapart, hplaces⟩ := ih.1 hrest
      refine ⟨⟨⟨hroom, k, hallowed, hseen, hplace⟩, fun d hd => ?_⟩, ⟨fun hmapped => ?_, hapart⟩,
        fun x => (hplaces x).trans (hmem hplace x)⟩
      · obtain ⟨hdroom, j, hj, hnew, hjplace⟩ := hcited d hd
        exact ⟨hdroom, j, hj, fun h => hnew (SortedSet.mem_insert.2 (.inr h)), hjplace⟩
      · obtain ⟨d, hd, heq⟩ := List.mem_map.1 hmapped
        obtain ⟨-, j, -, hnew, hjplace⟩ := hcited d hd
        have hjk : j = k := Option.some.inj (hjplace.symm.trans (heq.trans hplace))
        exact hnew (SortedSet.mem_insert.2 (.inl hjk))
    · rintro ⟨⟨⟨hroom, k, hallowed, hseen, hplace⟩, hcited⟩, ⟨hhead, hapart⟩, hplaces⟩
      refine ⟨hroom, k, hallowed, hseen, hplace, ih.2 ⟨fun d hd => ?_, hapart,
        fun x => (hplaces x).trans (hmem hplace x).symm⟩⟩
      obtain ⟨hdroom, j, hj, hnew, hjplace⟩ := hcited d hd
      refine ⟨hdroom, j, hj, fun hinsert => ?_, hjplace⟩
      rcases SortedSet.mem_insert.1 hinsert with rfl | hseen'
      · exact hhead (List.mem_map.2 ⟨d, hd, hjplace.trans hplace.symm⟩)
      · exact hnew hseen'

/-- Citations that are accepted are apart, unless nothing is asked of them. -/
theorem placedApart_of_checkCitations (hcreate : e.type ≠ EventType.create)
    (h : checkCitations e cited version = .ok ()) : PlacedApart cited := by
  rw [checkCitations, if_neg hcreate] at h
  obtain ⟨places, hplaces, -⟩ := bind_eq_ok.1 h
  exact (checkCited_eq_ok.1 hplaces).2.1

/-- Of events that are apart, one at most passes a test that asks for a place. -/
theorem PlacedApart.find?_eq_some_iff (h : PlacedApart cited) {test : Event → Bool}
    (htest : ∀ c, test c = true → c.place? = some k) :
    cited.find? test = some d ↔ d ∈ cited ∧ test d = true := by
  constructor
  · intro hfind
    exact ⟨List.mem_of_find?_eq_some hfind, List.find?_some hfind⟩
  · intro hd
    cases hfind : cited.find? test with
    | none => exact absurd hd.2 (List.find?_eq_none.1 hfind d hd.1)
    | some c =>
      have hplaces := (htest c (List.find?_some hfind)).trans (htest d hd.2).symm
      rw [List.inj_on_of_nodup_map h (List.mem_of_find?_eq_some hfind) hd.1 hplaces]

/-- So a search from the end finds what a search from the front does. -/
theorem PlacedApart.find?_reverse (h : PlacedApart cited) {test : Event → Bool}
    (htest : ∀ c, test c = true → c.place? = some k) :
    cited.reverse.find? test = cited.find? test := by
  have hreverse : PlacedApart cited.reverse := by
    rw [PlacedApart, List.map_reverse, List.nodup_reverse]
    exact h
  refine Option.ext fun d => ?_
  rw [hreverse.find?_eq_some_iff htest, h.find?_eq_some_iff htest, List.mem_reverse]

/-! ## What is accepted -/

/-- What an event other than a create event may cite. -/
structure Citable (e : Event) (version : RoomVersion) (cited : List Event) : Prop where
  room : ∀ c ∈ cited, c.room = e.room
  /-- Each is a state event at a place that matters for the event. -/
  matters : ∀ c ∈ cited, ∃ k ∈ authPlaces e version, c.place? = some k
  apart : PlacedApart cited
  create : ∃ c ∈ cited, c.place? = some .create

theorem checkCitations_eq_ok :
    checkCitations e cited version = .ok () ↔
      e.type = EventType.create ∨ Citable e version cited := by
  by_cases hcreate : e.type = EventType.create
  · simp [checkCitations, hcreate]
  · rw [checkCitations, if_neg hcreate, or_iff_right hcreate, bind_eq_ok]
    constructor
    · rintro ⟨places, hplaces, hseen⟩
      obtain ⟨hcited, hapart, hmem⟩ := checkCited_eq_ok.1 hplaces
      have hfound : .create ∈ places := by
        by_contra hnone
        rw [if_neg hnone] at hseen
        cases hseen
      refine ⟨fun c hc => (hcited c hc).1, fun c hc => ?_, hapart,
        ((hmem _).1 hfound).resolve_left (SortedSet.not_mem_empty _)⟩
      obtain ⟨-, k, hk, -, hplace⟩ := hcited c hc
      exact ⟨k, hk, hplace⟩
    · rintro ⟨hroom, hmatters, hapart, hfound⟩
      have hplaces : ∀ k, k ∈ SortedSet.ofList (cited.filterMap Event.place?) ↔
          k ∈ (SortedSet.empty : SortedSet StateKey) ∨ ∃ c ∈ cited, c.place? = some k := by
        intro k
        rw [SortedSet.mem_ofList, List.mem_filterMap, or_iff_right (SortedSet.not_mem_empty k)]
      refine ⟨_, checkCited_eq_ok.2 ⟨fun c hc => ⟨hroom c hc, ?_⟩, hapart, hplaces⟩, ?_⟩
      · obtain ⟨k, hk, hplace⟩ := hmatters c hc
        exact ⟨k, hk, SortedSet.not_mem_empty k, hplace⟩
      · exact if_pos ((hplaces _).2 (.inr hfound))

theorem Citable.of_perm (h : Citable e version cited) (hperm : cited.Perm cited') :
    Citable e version cited' where
  room c hc := h.room c (hperm.mem_iff.2 hc)
  matters c hc := h.matters c (hperm.mem_iff.2 hc)
  apart := (hperm.map _).nodup_iff.1 h.apart
  create := by
    obtain ⟨c, hc, hplace⟩ := h.create
    exact ⟨c, hperm.mem_iff.1 hc, hplace⟩

section Holders

variable {holder : StateKey → Option Event}
  (hholder : ∀ k c, holder k = some c → c.room = e.room ∧ c.place? = some k)
include hholder

/-- Holders of places are apart, as the places are. -/
theorem placedApart_of_holders {ks : List StateKey} (hks : ks.Nodup) :
    PlacedApart (ks.filterMap holder) := by
  refine List.pairwise_map.2 (List.Pairwise.filterMap holder ?_ hks)
  intro j k hne c hc d hd hsame
  rw [(hholder j c hc).2, (hholder k d hd).2] at hsame
  exact hne (Option.some.inj hsame)

/-- An event may cite the holders of the places that matter for it, if one of them is a create
event. -/
theorem citable_of_holders (htype : e.type ≠ EventType.create)
    (hcreate : (holder .create).isSome = true) :
    Citable e version ((authPlaces e version).toList.filterMap holder) where
  room c hc := by
    obtain ⟨k, -, hk⟩ := List.mem_filterMap.1 hc
    exact (hholder k c hk).1
  matters c hc := by
    obtain ⟨k, hmem, hk⟩ := List.mem_filterMap.1 hc
    exact ⟨k, hmem, (hholder k c hk).2⟩
  apart := placedApart_of_holders hholder (authPlaces e version).nodup_toList
  create := by
    obtain ⟨c, hc⟩ := Option.isSome_iff_exists.1 hcreate
    exact ⟨c, List.mem_filterMap.2 ⟨.create, create_mem_authPlaces htype, hc⟩,
      (hholder _ c hc).2⟩

end Holders

/-- The check of citations accepts what is citable, in any order, and so any list that holds
one event for each of some places that matter, with a create event among them. -/
theorem checkCitations_by_place (e : Event) (version : RoomVersion) (cited : List Event) :
    (checkCitations e cited version = .ok () ↔
        e.type = EventType.create ∨ Citable e version cited) ∧
      (∀ cited', cited.Perm cited' →
        (checkCitations e cited version = .ok () ↔ checkCitations e cited' version = .ok ())) ∧
      ∀ holder : StateKey → Option Event,
        (∀ k c, holder k = some c → c.room = e.room ∧ c.place? = some k) →
          (holder .create).isSome = true →
            cited.Perm ((authPlaces e version).toList.filterMap holder) →
              checkCitations e cited version = .ok () := by
  have hperm : ∀ {l m : List Event}, l.Perm m → checkCitations e l version = .ok () →
      checkCitations e m version = .ok () := fun hlm hl =>
    checkCitations_eq_ok.2 ((checkCitations_eq_ok.1 hl).imp_right fun h => h.of_perm hlm)
  refine ⟨checkCitations_eq_ok, fun cited' h => ⟨hperm h, hperm h.symm⟩, ?_⟩
  intro holder hholder hcreate hcited
  refine hperm hcited.symm (checkCitations_eq_ok.2 ?_)
  by_cases htype : e.type = EventType.create
  · exact .inl htype
  · exact .inr (citable_of_holders hholder htype hcreate)

/-- Who holds a place of the den that matters for the join. -/
def denHolder (k : StateKey) : Option Event :=
  [denCreate, catJoined, denRestricted, eveBanned].find? (·.holds k)

theorem holds_of_denHolder (k : StateKey) (c : Event) (h : denHolder k = some c) :
    c.room = danJoins.room ∧ c.place? = some k := by
  have hmem : c ∈ [denCreate, catJoined, denRestricted, eveBanned] := List.mem_of_find?_eq_some h
  have hholds : c.holds k = true := by simpa using List.find?_some h
  refine ⟨?_, Event.holds_iff.1 hholds⟩
  simp only [List.mem_cons, List.not_mem_nil, or_false] at hmem
  rcases hmem with rfl | rfl | rfl | rfl <;> rfl

/-- The join may cite the holders of the places that matter for it, the create event last. -/
theorem checkCitations_by_place_danJoins :
    (denHolder .create).isSome = true ∧
      [denRestricted, catJoined, denCreate].Perm
        ((authPlaces danJoins .v10).toList.filterMap denHolder) ∧
      checkCitations danJoins [denRestricted, catJoined, denCreate] .v10 = .ok () := by
  have hplaces : (authPlaces danJoins .v10).toList =
      [.create, .joinRules, .member cat.text, .member dan.text, .powerLevels] := by decide +kernel
  have hholders : (authPlaces danJoins .v10).toList.filterMap denHolder =
      [denCreate, denRestricted, catJoined] := by
    rw [hplaces]
    rfl
  have hcreate : (denHolder .create).isSome = true := by decide +kernel
  have hcited : [denRestricted, catJoined, denCreate].Perm
      ((authPlaces danJoins .v10).toList.filterMap denHolder) := by
    rw [hholders]
    exact @List.perm_append_comm _ [denRestricted, catJoined] [denCreate]
  exact ⟨hcreate, hcited, (checkCitations_by_place danJoins .v10 _).2.2 denHolder
    holds_of_denHolder hcreate hcited⟩

/-- Of one place it may cite only one event, and be it the same. -/
example : checkCitations danJoins [denCreate, catJoined, denCreate] .v10 =
    .error (.duplicateAuthEvent .create) := by
  rfl

end StateResolution
