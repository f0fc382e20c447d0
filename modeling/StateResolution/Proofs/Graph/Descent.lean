import Mathlib.Data.List.Chain
import Mathlib.Data.List.Perm.Subperm
import StateResolution.Proofs.Graph.Acyclic

/-!
# How far a depth-first walk goes down

The check for cycles goes down from the events in the order of their ids, and below an event
it has finished it does not go again.  So it comes to each event by one way only: from the
smallest id that leads there, and at each step by the first citation that leads there
(`FirstWay`).  It is the length of these ways that the check bounds, and not the length of
every path.

When a walk has been past some events, what is finished is what they lead to (`Finished`).
This is kept from one citation to the next (`Ends`), and with it the check comes out exactly:
it succeeds if and only if every event is grounded and no first way is too long
(`verifyAcyclic_eq_ok_iff`).  A first way is a path, so the check raises no false alarm.
-/

namespace StateResolution.EventGraph

open Fallible (bind_eq_ok pure_eq_ok)

/-- Events of a graph, each of which cites the next. -/
structure IsPath (g : EventGraph) (path : List EventId) : Prop where
  held : ∀ id ∈ path, ∃ e, g.get? id = some e
  cites : path.IsChain g.Cites

/-- A way to an event that goes on, from each event on it, to the first citation that leads
there. -/
inductive LeadsFirst (g : EventGraph) (last : EventId) : List EventId → Prop
  | last : LeadsFirst g last [last]
  | cite {id next : EventId} {e : Event} {before after rest : List EventId} :
    g.get? id = some e → e.authEvents = before ++ next :: after →
    (∀ cited ∈ before, ¬ g.Reaches cited last) → LeadsFirst g last (next :: rest) →
    LeadsFirst g last (id :: next :: rest)

/-- The first way to an event starts from the smallest id that leads there. -/
structure FirstWay (g : EventGraph) (last : EventId) (way : List EventId) : Prop where
  leads : g.LeadsFirst last way
  least : ∀ start ∈ way.head?, ∀ id ∈ g.ids, g.Reaches id last → (compare start id).isLE = true

/-- One of some events leads to an event. -/
def ReachedFrom (g : EventGraph) (starts : List EventId) (id : EventId) : Prop :=
  ∃ start ∈ starts, g.Reaches start id

/-- What is finished when a walk has been past some events. -/
def Finished (g : EventGraph) (starts : List EventId) (s : SortedSet EventId) : Prop :=
  ∀ id, id ∈ s ↔ g.ReachedFrom starts id

/-- Below an event, ways that lead to what some events do not lead to hold at most a number of
events. -/
def Short (g : EventGraph) (starts : List EventId) (n : Nat) (id : EventId) : Prop :=
  ∀ last rest, g.LeadsFirst last (id :: rest) → ¬ g.ReachedFrom starts last →
    (id :: rest).length ≤ n

/-- How a walk past some events ends: it succeeds on a condition, and then it has finished what
they lead to. -/
structure Ends (g : EventGraph) (starts : List EventId) (fine : Prop)
    (outcome : Except Error (SortedSet EventId)) : Prop where
  ok : (∃ s, outcome = .ok s) ↔ fine
  finished : ∀ s, outcome = .ok s → g.Finished starts s

variable {g : EventGraph} {id next last cited : EventId} {e : Event} {s : SortedSet EventId}
  {starts more before after path rest way : List EventId} {n limit : Nat}

theorem IsPath.mem_ids (h : g.IsPath path) (hid : id ∈ path) : id ∈ g.ids :=
  SortedMap.mem_keys_iff.2 (h.held id hid)

theorem reachedFrom_append :
    g.ReachedFrom (starts ++ more) id ↔ g.ReachedFrom starts id ∨ g.ReachedFrom more id := by
  simp only [ReachedFrom, List.mem_append, or_and_right, exists_or]

theorem reachedFrom_singleton : g.ReachedFrom [next] id ↔ g.Reaches next id := by
  simp [ReachedFrom]

theorem ReachedFrom.reaches (h : g.ReachedFrom starts next) (hreach : g.Reaches next id) :
    g.ReachedFrom starts id := by
  obtain ⟨start, hstart, hnext⟩ := h
  exact ⟨start, hstart, hnext.trans hreach⟩

/-- An event leads to itself and to what its citations lead to. -/
theorem reaches_iff (he : g.get? id = some e) :
    g.Reaches id next ↔ next = id ∨ g.ReachedFrom e.authEvents next := by
  rw [Reaches, Relation.ReflTransGen.cases_head_iff]
  refine or_congr eq_comm ⟨?_, ?_⟩
  · rintro ⟨cited, ⟨e', he', hmem⟩, hreach⟩
    cases he.symm.trans he'
    exact ⟨cited, hmem, hreach⟩
  · rintro ⟨cited, hmem, hreach⟩
    exact ⟨cited, ⟨e, he, hmem⟩, hreach⟩

theorem LeadsFirst.reaches (h : g.LeadsFirst last (id :: rest)) : g.Reaches id last := by
  generalize hway : id :: rest = way at h
  induction h generalizing id rest with
  | last =>
    cases hway
    exact .refl
  | cite he hsplit _ _ ih =>
    cases hway
    exact .head ⟨_, he, by simp [hsplit]⟩ (ih rfl)

/-- The first way to an event of the graph is a path. -/
theorem LeadsFirst.isPath (h : g.LeadsFirst last way) (hlast : last ∈ g.ids) :
    g.IsPath way := by
  induction h with
  | last =>
    exact ⟨List.forall_mem_singleton.2 (SortedMap.mem_keys_iff.1 hlast), .singleton _⟩
  | cite he hsplit _ _ ih =>
    obtain ⟨hheld, hcites⟩ := ih
    refine ⟨List.forall_mem_cons.2 ⟨⟨_, he⟩, hheld⟩, ?_⟩
    exact List.isChain_cons_cons.2 ⟨⟨_, he, by simp [hsplit]⟩, hcites⟩

/-! ## One event -/

/-- The ways below an event are those below its citations, one event longer. -/
theorem short_succ_iff (he : g.get? id = some e) :
    g.Short starts (n + 1) id ↔ ∀ before cited after, e.authEvents = before ++ cited :: after →
      g.Short (starts ++ before) n cited := by
  constructor
  · intro h before cited after hsplit last rest hleads hnew
    rw [reachedFrom_append, not_or] at hnew
    have hbefore : ∀ c ∈ before, ¬ g.Reaches c last := fun c hc hreach =>
      hnew.2 ⟨c, hc, hreach⟩
    have hlong := h last (cited :: rest) (.cite he hsplit hbefore hleads) hnew.1
    exact Nat.le_of_succ_le_succ hlong
  · intro h last rest hleads hnew
    cases hleads with
    | last => exact Nat.succ_le_succ (Nat.zero_le n)
    | @cite _ next e' before after rest he' hsplit hbefore hleads =>
      cases he.symm.trans he'
      refine Nat.succ_le_succ (h before next after hsplit last rest hleads ?_)
      rw [reachedFrom_append, not_or]
      exact ⟨hnew, fun ⟨c, hc, hreach⟩ => hbefore c hc hreach⟩

/-- A walk past some events goes past one after another. -/
theorem ends_foldlM {α : Type} (name : α → EventId) {l : List α}
    {step : SortedSet EventId → α → Except Error (SortedSet EventId)}
    (hstep : ∀ a ∈ l, ∀ starts s, g.Finished starts s →
      Ends g (starts ++ [name a]) (g.Short starts n (name a)) (step s a))
    (hs : g.Finished starts s) :
    Ends g (starts ++ l.map name)
      (∀ before a after, l = before ++ a :: after →
        g.Short (starts ++ before.map name) n (name a))
      (l.foldlM step s) := by
  induction l generalizing starts s with
  | nil =>
    refine ⟨⟨fun _ before _ _ hsplit => ?_, fun _ => ⟨s, rfl⟩⟩, fun s' hs' => ?_⟩
    · cases before <;> cases hsplit
    · cases pure_eq_ok.1 hs'
      simpa using hs
  | cons a l ih =>
    have hfirst := hstep a List.mem_cons_self starts s hs
    have hrest : ∀ mid, step s a = .ok mid → _ := fun mid hmid =>
      ih (fun b hb => hstep b (List.mem_cons_of_mem _ hb)) (hfirst.finished mid hmid)
    constructor
    case ok =>
      constructor
      · rintro ⟨s', hs'⟩ before b after hsplit
        obtain ⟨mid, hmid, hlater⟩ := bind_eq_ok.1 hs'
        cases before with
        | nil =>
          cases hsplit
          simpa using hfirst.ok.1 ⟨mid, hmid⟩
        | cons c before =>
          cases hsplit
          simpa using (hrest mid hmid).ok.1 ⟨s', hlater⟩ before b after rfl
      · intro h
        obtain ⟨mid, hmid⟩ := hfirst.ok.2 (by simpa using h [] a l rfl)
        obtain ⟨s', hs'⟩ := (hrest mid hmid).ok.2 fun before b after hsplit => by
          simpa using h (a :: before) b after (congrArg (a :: ·) hsplit)
        exact ⟨s', bind_eq_ok.2 ⟨mid, hmid, hs'⟩⟩
    case finished =>
      intro s' hs'
      obtain ⟨mid, hmid, hlater⟩ := bind_eq_ok.1 hs'
      simpa using (hrest mid hmid).finished s' hlater

/-- An event is finished behind its citations. -/
theorem Ends.finish {outcome : Except Error (SortedSet EventId)} (he : g.get? e.id = some e)
    (h : Ends g (starts ++ e.authEvents) (∀ before cited after,
      e.authEvents = before ++ cited :: after → g.Short (starts ++ before) n cited) outcome) :
    Ends g (starts ++ [e.id]) (g.Short starts (n + 1) e.id)
      (do pure ((← outcome).insert e.id)) where
  ok := by
    rw [short_succ_iff he, ← h.ok]
    simp only [bind_eq_ok, pure_eq_ok]
    constructor
    · rintro ⟨_, s, hs, -⟩
      exact ⟨s, hs⟩
    · rintro ⟨s, hs⟩
      exact ⟨_, s, hs, rfl⟩
  finished s' hs' := by
    obtain ⟨s, hs, hend⟩ := bind_eq_ok.1 hs'
    cases pure_eq_ok.1 hend
    intro id
    rw [SortedSet.mem_insert, h.finished s hs, reachedFrom_append, reachedFrom_append,
      reachedFrom_singleton, reaches_iff he]
    exact or_left_comm

/-- Below an event that is finished nothing is new. -/
theorem ends_finished (hs : g.Finished starts s) (hmem : id ∈ s) :
    Ends g (starts ++ [id]) (g.Short starts n id) (.ok s) := by
  have hreached := (hs id).1 hmem
  constructor
  case ok =>
    refine ⟨fun _ last rest hleads hnew => ?_, fun _ => ⟨s, rfl⟩⟩
    exact absurd (hreached.reaches hleads.reaches) hnew
  case finished =>
    intro s' hs' other
    cases hs'
    rw [hs other, reachedFrom_append, reachedFrom_singleton]
    exact ⟨.inl, fun h => h.elim (fun h => h) hreached.reaches⟩

/-- Nothing that an event cites is on the path to it, unless there is a cycle. -/
theorem ends_step {down : Except Error (SortedSet EventId)} (hground : g.Grounded e.id)
    (he : g.get? e.id = some e) (hpath : ∀ id ∈ path, g.Reaches id e.id)
    (hcited : cited ∈ e.authEvents) (hs : g.Finished starts s)
    (hdown : ¬ g.ReachedFrom starts cited →
      Ends g (starts ++ [cited]) (g.Short starts n cited) down) :
    Ends g (starts ++ [cited]) (g.Short starts n cited)
      (if cited ∈ path then .error (.graphCorruption (.cycle e.id cited))
        else if cited ∈ s then .ok s else down) := by
  have hcites : g.Cites e.id cited := ⟨e, he, hcited⟩
  rw [if_neg fun hmem => hground.not_transGen (.head' hcites (hpath cited hmem))]
  split
  · next hfinished => exact ends_finished hs hfinished
  · next hnew => exact hdown fun hreached => hnew ((hs cited).2 hreached)

/-- The walk below an event goes past its citations, and then finishes the event. -/
theorem ends_citations {down : SortedSet EventId → EventId → Except Error (SortedSet EventId)}
    (hground : g.Grounded e.id) (he : g.get? e.id = some e)
    (hpath : ∀ id ∈ path, g.Reaches id e.id) (hs : g.Finished starts s)
    (hdown : ∀ cited ∈ e.authEvents, ∀ starts s, g.Finished starts s →
      ¬ g.ReachedFrom starts cited →
      Ends g (starts ++ [cited]) (g.Short starts n cited) (down s cited)) :
    Ends g (starts ++ [e.id]) (g.Short starts (n + 1) e.id) (do
      let finished ← e.authEvents.foldlM (fun finished cited =>
        if cited ∈ path then .error (.graphCorruption (.cycle e.id cited))
        else if cited ∈ finished then .ok finished
        else down finished cited) s
      pure (finished.insert e.id)) := by
  have hrow := ends_foldlM (fun cited => cited) (fun cited hcited starts s hs =>
    ends_step hground he hpath hcited hs (hdown cited hcited starts s hs)) hs
  simp only [List.map_id_fun'] at hrow
  exact hrow.finish he

theorem ends_descend {d : Descent} {room : Nat} (hg : g.AllGrounded)
    (he : g.get? e.id = some e) (hpath : ∀ id ∈ path, g.Reaches id e.id)
    (hs : g.Finished starts s) :
    Ends g (starts ++ [e.id]) (g.Short starts (room + 1) e.id) (g.descend d room path e s) := by
  have hground := hg e.id e he
  induction room generalizing path e starts s with
  | zero =>
    unfold descend
    refine ends_citations hground he hpath hs fun cited _ starts s _ hnew => ?_
    -- There is no room, and the citation itself is new.
    constructor
    case ok =>
      constructor
      · rintro ⟨_, hdown⟩
        cases hdown
      · intro hshort
        exact absurd (hshort cited [] .last hnew) (Nat.not_succ_le_zero _)
    case finished =>
      intro _ hdown
      cases hdown
  | succ room ih =>
    unfold descend
    refine ends_citations hground he hpath hs fun cited hcited starts s hs _ => ?_
    have hcites : g.Cites e.id cited := ⟨e, he, hcited⟩
    have hheld := hground.cites hcites
    obtain ⟨c, hc⟩ := (closed_grounded g).present cited hheld
    cases g.keyed cited c hc
    rw [get_eq_ok_iff.2 hc]
    refine ih hc (fun id hid => ?_) hs hheld
    rcases List.mem_cons.1 hid with rfl | hid
    · exact .refl
    · exact (hpath id hid).tail hcites

/-! ## The whole walk -/

theorem map_id_toList (g : EventGraph) : g.toList.map Event.id = g.ids := by
  simp only [toList, ids, SortedMap.values, SortedMap.keys, List.map_map]
  refine List.map_congr_left fun entry hentry => ?_
  exact g.keyed entry.1 entry.2 (SortedMap.mem_toList_iff.1 hentry)

theorem ends_descendFrom (hg : g.AllGrounded) (he : g.get? e.id = some e)
    (hs : g.Finished starts s) :
    Ends g (starts ++ [e.id]) (g.Short starts (max limit 1) e.id) (g.descendFrom limit s e) := by
  have hroom : limit - 1 + 1 = max limit 1 := by omega
  unfold descendFrom
  split
  · next hfinished => exact ends_finished hs hfinished
  · rw [← hroom]
    exact ends_descend hg he (List.forall_mem_singleton.2 .refl) hs

theorem compare_of_ids_eq (h : g.ids = before ++ id :: after) :
    (∀ other ∈ before, compare other id = .lt) ∧ ∀ other ∈ after, compare id other = .lt := by
  have hsorted : (before ++ id :: after).Pairwise fun a b => compare a b = .lt :=
    h ▸ g.events.keySet.ascending
  obtain ⟨-, hlater, hacross⟩ := List.pairwise_append.1 hsorted
  exact ⟨fun other hother => hacross other hother id List.mem_cons_self,
    (List.pairwise_cons.1 hlater).1⟩

theorem isLE_of_ids_eq (h : g.ids = before ++ id :: after) (hnext : next ∈ g.ids)
    (hnew : next ∉ before) : (compare id next).isLE = true := by
  rw [h] at hnext
  rcases List.mem_cons.1 ((List.mem_append.1 hnext).resolve_left hnew) with rfl | hafter
  · rw [compare_refl]
    rfl
  · rw [(compare_of_ids_eq h).2 next hafter]
    rfl

/-- Below an id, what the smaller ids do not lead to is what it is the smallest to lead to. -/
theorem forall_short_iff (hg : g.AllGrounded) :
    (∀ before id after, g.ids = before ++ id :: after → g.Short before n id) ↔
      ∀ last ∈ g.ids, ∀ way, g.FirstWay last way → way.length ≤ n := by
  constructor
  · intro h last hlast way hway
    cases way with
    | nil => exact Nat.zero_le n
    | cons start rest =>
      have hstart : start ∈ g.ids := (hway.leads.isPath hlast).mem_ids List.mem_cons_self
      obtain ⟨before, after, hsplit⟩ := List.append_of_mem hstart
      refine h before start after hsplit last rest hway.leads ?_
      rintro ⟨other, hother, hreach⟩
      have hleast := hway.least start rfl other (by simp [hsplit, hother]) hreach
      rw [Std.OrientedCmp.gt_of_lt ((compare_of_ids_eq hsplit).1 other hother)] at hleast
      cases hleast
  · intro h before id after hsplit last rest hleads hnew
    obtain ⟨e, he⟩ := SortedMap.mem_keys_iff.1 (show id ∈ g.ids by simp [hsplit])
    have hlast := (closed_grounded g).present last ((hg id e he).reaches hleads.reaches)
    refine h last (SortedMap.mem_keys_iff.2 hlast) _ ⟨hleads, ?_⟩
    rintro _ ⟨⟩ other hother hreach
    exact isLE_of_ids_eq hsplit hother fun hbefore => hnew ⟨other, hbefore, hreach⟩

theorem ends_verifyAcyclic (hg : g.AllGrounded) :
    Ends g g.ids (∀ before id after, g.ids = before ++ id :: after →
      g.Short before (max limit 1) id) (g.toList.foldlM (g.descendFrom limit) .empty) := by
  have hnone : g.Finished [] .empty := fun id => by simp [ReachedFrom]
  have hrow : Ends g ([] ++ g.toList.map Event.id) _
      (g.toList.foldlM (g.descendFrom limit) .empty) :=
    ends_foldlM Event.id (fun e he _ _ => ends_descendFrom hg (get?_of_mem_toList he)) hnone
  simp only [List.nil_append, map_id_toList] at hrow
  refine ⟨hrow.ok.trans ⟨fun h before id after hsplit => ?_, fun h before e after hsplit => ?_⟩,
    hrow.finished⟩
  · rw [← map_id_toList] at hsplit
    obtain ⟨before, rest, hlist, rfl, hrest⟩ := List.map_eq_append_iff.1 hsplit
    obtain ⟨e, after, rfl, rfl, -⟩ := List.map_eq_cons_iff.1 hrest
    exact h before e after hlist
  · refine h _ _ (after.map Event.id) ?_
    rw [← map_id_toList, hsplit, List.map_append, List.map_cons]

/-- The check for cycles succeeds if every event is grounded and the first way to each is short
enough, and not otherwise. -/
theorem verifyAcyclic_eq_ok_iff : g.verifyAcyclic limit = .ok () ↔
    g.AllGrounded ∧ ∀ last ∈ g.ids, ∀ way, g.FirstWay last way → way.length ≤ max limit 1 := by
  constructor
  · intro h
    have hg : g.AllGrounded := fun id e he => grounded_of_verifyAcyclic h he
    obtain ⟨s, hs, -⟩ := bind_eq_ok.1 h
    exact ⟨hg, (forall_short_iff hg).1 ((ends_verifyAcyclic hg).ok.1 ⟨s, hs⟩)⟩
  · rintro ⟨hg, hways⟩
    obtain ⟨s, hs⟩ := (ends_verifyAcyclic hg).ok.2 ((forall_short_iff hg).2 hways)
    exact bind_eq_ok.2 ⟨s, hs, rfl⟩

/-- The check for cycles lets a graph pass only if every citation leads to an event of the graph
and none leads back; and of such graphs it stops none whose paths keep to the limit. -/
theorem verifyAcyclic_sound_complete (g : EventGraph) (limit : Nat) :
    (g.verifyAcyclic limit = .ok () →
      (∀ id cited, g.Cites id cited → ∃ e, g.get? cited = some e) ∧
        ∀ id, ¬ Relation.TransGen g.Cites id id) ∧
    ((∀ id cited, g.Cites id cited → ∃ e, g.get? cited = some e) →
      (∀ id, ¬ Relation.TransGen g.Cites id id) →
      (∀ path, g.IsPath path → path.length ≤ limit) → g.verifyAcyclic limit = .ok ()) := by
  refine ⟨acyclic_of_verifyAcyclic, fun hcited hacyclic hpaths => ?_⟩
  have hg : g.AllGrounded := fun id e he => grounded_of_acyclic hcited hacyclic he
  refine verifyAcyclic_eq_ok_iff.2 ⟨hg, fun last hlast way hway => ?_⟩
  exact (hpaths way (hway.leads.isPath hlast)).trans (Nat.le_max_left limit 1)

/-- Without cycles a path holds no more events than the graph. -/
theorem IsPath.length_le (h : g.IsPath path) (hacyclic : ∀ id, ¬ Relation.TransGen g.Cites id id) :
    path.length ≤ g.size := by
  have hpath : path.Pairwise (Relation.TransGen g.Cites) :=
    List.isChain_iff_pairwise.1 (h.cites.imp fun _ _ => .single)
  have hnodup : path.Nodup := hpath.imp fun {a b} hbelow heq => by
    subst heq
    exact hacyclic a hbelow
  have hsubset : path ⊆ g.ids := fun id hid => h.mem_ids hid
  simpa [ids, size] using
    (List.subperm_of_subset hnodup hsubset).length_le

/-- A message of a diary, which cites earlier ones. -/
def diaryNote (id : EventId) (cited : List EventId) : Event :=
  { Event.blank id ⟨"!diary", by decide⟩ ⟨"@ivy:diary", by decide⟩ "m.room.message" with
    authEvents := cited }

def earlyNote : Event := diaryNote ⟨"$early", by decide⟩ []

def middleNote : Event := diaryNote ⟨"$middle", by decide⟩ [earlyNote.id]

def recentNote : Event := diaryNote ⟨"$recent", by decide⟩ [middleNote.id, earlyNote.id]

def diary : EventGraph := .ofEvents [recentNote, middleNote, earlyNote]

/-- Two ways lead from the recent note to the early one, which is no cycle. -/
theorem verifyAcyclic_diary :
    (∀ id cited, diary.Cites id cited → ∃ e, diary.get? cited = some e) ∧
      (∀ id, ¬ Relation.TransGen diary.Cites id id) ∧
      (∀ path, diary.IsPath path → path.length ≤ 3) ∧ diary.verifyAcyclic 3 = .ok () := by
  obtain ⟨hcited, hacyclic⟩ := (verifyAcyclic_sound_complete diary 3).1 (by decide +kernel)
  have hpaths : ∀ path, diary.IsPath path → path.length ≤ 3 := fun path hpath =>
    hpath.length_le hacyclic
  exact ⟨hcited, hacyclic, hpaths, (verifyAcyclic_sound_complete diary 3).2 hcited hacyclic hpaths⟩

end StateResolution.EventGraph
