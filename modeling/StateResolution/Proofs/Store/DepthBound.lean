import StateResolution.Proofs.Graph.Descent
import StateResolution.Proofs.Store.Closure

/-!
# What the limit bounds in a loaded graph

In a graph without cycles there is one first way to each event (`exists_firstWay`,
`FirstWay.unique`).  A graph is loaded if its first ways keep to the limit, and not otherwise
(`load_eq_ok_iff_firstWays`).  Of the other paths that lead to an event nothing is said: each of them
leaves a citation aside that leads there as well, or starts from an id that is not the smallest,
and there the walk below it does not go again.  So a path in a loaded graph can hold more events
than the limit, and whether it may depends on how the ids happen to sort (`load_past_limit`).
-/

namespace StateResolution

namespace EventGraph

variable {g : EventGraph} {id start last : EventId} {e : Event} {way way' : List EventId}

theorem eq_of_first {α : Type} {P : α → Prop} {before before' after after' : List α} {a a' : α}
    (h : before ++ a :: after = before' ++ a' :: after') (ha : P a) (ha' : P a')
    (hbefore : ∀ b ∈ before, ¬ P b) (hbefore' : ∀ b ∈ before', ¬ P b) : a = a' := by
  classical
  have hfind : (before ++ a :: after).find? (fun a => decide (P a)) = some a :=
    List.find?_eq_some_iff_append.2 ⟨by simpa, before, after, rfl, by simpa using hbefore⟩
  have hfind' : (before ++ a :: after).find? (fun a => decide (P a)) = some a' :=
    List.find?_eq_some_iff_append.2 ⟨by simpa, before', after', h, by simpa using hbefore'⟩
  exact Option.some.inj (hfind.symm.trans hfind')

/-! ## First ways -/

theorem Grounded.exists_leadsFirst (h : g.Grounded id) (hreach : g.Reaches id last) :
    ∃ rest, g.LeadsFirst last (id :: rest) := by
  induction h with
  | @intro id e he _ ih =>
    rcases (reaches_iff he).1 hreach with rfl | hbelow
    · exact ⟨[], .last⟩
    · obtain ⟨before, next, after, hsplit, hnext, hbefore⟩ := exists_first hbelow
      obtain ⟨rest, hrest⟩ := ih next (by simp [hsplit]) hnext
      exact ⟨next :: rest, .cite he hsplit hbefore hrest⟩

/-- There is one first way from an event to another. -/
theorem LeadsFirst.unique {rest rest' : List EventId} (hg : g.AllGrounded)
    (h : g.LeadsFirst last (id :: rest)) (h' : g.LeadsFirst last (id :: rest')) :
    rest = rest' := by
  -- An event that cites what leads back to it would be on a cycle.
  have hback : ∀ {id next e before after}, g.get? id = some e →
      e.authEvents = before ++ next :: after → ¬ g.Reaches next id := fun he hsplit hreach =>
    (hg _ _ he).not_transGen (.head' ⟨_, he, by simp [hsplit]⟩ hreach)
  generalize hway : id :: rest = way at h
  induction h generalizing id rest rest' with
  | last =>
    cases hway
    cases h' with
    | last => rfl
    | cite he hsplit _ hleads => exact absurd hleads.reaches (hback he hsplit)
  | @cite _ next e before after tail he hsplit hbefore hleads ih =>
    cases hway
    cases h' with
    | last => exact absurd hleads.reaches (hback he hsplit)
    | @cite _ next' e' before' after' tail' he' hsplit' hbefore' hleads' =>
      cases he.symm.trans he'
      cases eq_of_first (hsplit.symm.trans hsplit') hleads.reaches hleads'.reaches hbefore hbefore'
      rw [ih hleads' rfl]

theorem exists_firstWay (hg : g.AllGrounded) (hid : id ∈ g.ids) : ∃ way, g.FirstWay id way := by
  obtain ⟨before, start, after, hsplit, hstart, hbefore⟩ :=
    exists_first (P := fun start => g.Reaches start id) ⟨id, hid, .refl⟩
  have hmem : start ∈ g.ids := by simp [hsplit]
  obtain ⟨e, he⟩ := SortedMap.mem_keys_iff.1 hmem
  obtain ⟨rest, hrest⟩ := (hg start e he).exists_leadsFirst hstart
  refine ⟨start :: rest, hrest, ?_⟩
  rintro _ ⟨⟩ other hother hreach
  exact isLE_of_ids_eq hsplit hother fun hmem => hbefore other hmem hreach

theorem FirstWay.unique (hg : g.AllGrounded) (hid : id ∈ g.ids) (h : g.FirstWay id way)
    (h' : g.FirstWay id way') : way = way' := by
  cases way with
  | nil => cases h.leads
  | cons start rest =>
    cases way' with
    | nil => cases h'.leads
    | cons start' rest' =>
      have hstart : start ∈ g.ids := (h.leads.isPath hid).mem_ids List.mem_cons_self
      have hstart' : start' ∈ g.ids := (h'.leads.isPath hid).mem_ids List.mem_cons_self
      have hsame : start = start' := Std.LawfulEqCmp.eq_of_compare
        (Std.OrientedCmp.isLE_antisymm (h.least start rfl start' hstart' h'.leads.reaches)
          (h'.least start' rfl start hstart h.leads.reaches))
      subst hsame
      rw [LeadsFirst.unique hg h.leads h'.leads]

end EventGraph

namespace EventStore

open EventGraph (exists_firstWay verifyAcyclic_eq_ok_iff diary earlyNote middleNote recentNote)

/-- A graph is loaded if what the store hands out is grounded and the first way to each event
keeps to the limit, and not otherwise. -/
theorem load_eq_ok_iff_firstWays (s : EventStore) (roots : List EventId) (batch limit : Nat)
    (loaded : EventGraph) (hlimit : 1 ≤ limit) :
    (s.load roots batch limit).outcome = .ok loaded ↔
      (∃ es, (s.closure roots batch limit).outcome = .ok es ∧ EventGraph.ofEvents es = loaded) ∧
        loaded.AllGrounded ∧
        ∀ id ∈ loaded.ids, ∃ way, loaded.FirstWay id way ∧ way.length ≤ limit := by
  rw [outcome_load_eq_ok]
  constructor
  · rintro ⟨es, hes, hverified, rfl⟩
    obtain ⟨hg, hshort⟩ := verifyAcyclic_eq_ok_iff.1 hverified
    rw [Nat.max_eq_left hlimit] at hshort
    refine ⟨⟨es, hes, rfl⟩, hg, fun id hid => ?_⟩
    obtain ⟨way, hway⟩ := exists_firstWay hg hid
    exact ⟨way, hway, hshort id hid way hway⟩
  · rintro ⟨⟨es, hes, rfl⟩, hg, hways⟩
    refine ⟨es, hes, verifyAcyclic_eq_ok_iff.2 ⟨hg, fun id hid way hway => ?_⟩, rfl⟩
    obtain ⟨short, hshort, hlength⟩ := hways id hid
    rw [hway.unique hg hid hshort]
    exact hlength.trans (Nat.le_max_left limit 1)

/-- The diary is loaded from its recent note with a limit of two.  The first way to each note is
the note alone, as each has a smaller id than those that cite it. -/
theorem load_eq_ok_iff_firstWays_diary :
    1 ≤ 2 ∧ ((ofGraph diary).load [recentNote.id] 100 2).outcome =
        .ok (.ofEvents [recentNote, earlyNote, middleNote]) ∧
      ∀ id ∈ (EventGraph.ofEvents [recentNote, earlyNote, middleNote]).ids,
        ∃ way, (EventGraph.ofEvents [recentNote, earlyNote, middleNote]).FirstWay id way ∧
          way.length ≤ 2 := by
  have hload : ((ofGraph diary).load [recentNote.id] 100 2).outcome =
      .ok (.ofEvents [recentNote, earlyNote, middleNote]) := rfl
  refine ⟨by decide, hload, ?_⟩
  exact ((load_eq_ok_iff_firstWays _ _ 100 2 _ (by decide)).1 hload).2.2

/-- In the diary that a limit of two has let pass, a path holds three notes. -/
theorem load_past_limit :
    ∃ loaded, ((ofGraph diary).load [recentNote.id] 100 2).outcome = .ok loaded ∧
      loaded.IsPath [recentNote.id, middleNote.id, earlyNote.id] := by
  refine ⟨.ofEvents [recentNote, earlyNote, middleNote], rfl, ?_, ?_⟩
  · refine List.forall_mem_cons.2 ⟨⟨recentNote, rfl⟩, List.forall_mem_cons.2 ⟨?_, ?_⟩⟩
    · exact ⟨middleNote, rfl⟩
    · exact List.forall_mem_singleton.2 ⟨earlyNote, rfl⟩
  · refine .cons_cons ⟨recentNote, rfl, by decide⟩ ?_
    exact .cons_cons ⟨middleNote, rfl, by decide⟩ (.singleton _)

/-- The same three notes are refused under ids that sort the other way. -/
example :
    let late := EventGraph.diaryNote ⟨"$c", by decide⟩ []
    let mid := EventGraph.diaryNote ⟨"$b", by decide⟩ [late.id]
    let top := EventGraph.diaryNote ⟨"$a", by decide⟩ [mid.id, late.id]
    ((ofGraph (.ofEvents [top, mid, late])).load [top.id] 100 2).outcome =
      .error (.graphCorruption (.chainTooLong top.id 2)) := rfl

end EventStore

end StateResolution
