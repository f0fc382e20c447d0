import StateResolution.Proofs.Graph.Acyclic
import StateResolution.Resolution.Mainline

/-!
# What the mainline sort gives

Each event is placed, and the placements are put in order; none is lost or added
(`perm_of_mainlineSort`), and it does not matter in which order they come
(`Placement.sort_eq_of_perm`).

A sort can fail.  Where all events are grounded, no lineage meets a gap or comes back to where
it has been, so the sort fails only at a lineage of more events than the limit (`Overlong`,
`overlong_of_mainlineSort`).
-/

namespace StateResolution

open Fallible (bind_eq_ok pure_eq_ok map_of_mapM bind_eq_error error_of_bind exists_of_mapM_error)

namespace Placement

theorem perm_insertSorted (p : Placement) (ps : List Placement) :
    (insertSorted p ps).Perm (p :: ps) := by
  induction ps with
  | nil => exact .refl _
  | cons q rest ih =>
    unfold insertSorted
    split
    · exact .refl _
    · exact (ih.cons q).trans (.swap p q rest)

theorem perm_sort (ps : List Placement) : (sort ps).Perm ps := by
  have hfold : ∀ sorted : List Placement,
      (ps.foldl (fun sorted p => insertSorted p sorted) sorted).Perm (ps ++ sorted) := by
    induction ps with
    | nil => exact fun sorted => .refl _
    | cons p ps ih =>
      intro sorted
      exact (ih _).trans (((perm_insertSorted p sorted).append_left ps).trans List.perm_middle)
  simpa only [sort, List.append_nil] using hfold []

instance : Std.LawfulEqOrd Placement where
  compare_self {p} := by
    show (compare p.depth p.depth).then
      ((compare p.timestamp p.timestamp).then (compare p.id p.id)) = .eq
    rw [compare_refl, compare_refl, compare_refl]
    rfl
  eq_of_compare {p q} h := by
    have h : (compare p.depth q.depth).then
      ((compare p.timestamp q.timestamp).then (compare p.id q.id)) = .eq := h
    obtain ⟨hdepth, h⟩ := Ordering.then_eq_eq.1 h
    obtain ⟨htimestamp, hid⟩ := Ordering.then_eq_eq.1 h
    cases p
    cases q
    cases Std.LawfulEqCmp.eq_of_compare hdepth
    cases Std.LawfulEqCmp.eq_of_compare htimestamp
    cases Std.LawfulEqCmp.eq_of_compare hid
    rfl

theorem pairwise_insertSorted (p : Placement) {ps : List Placement}
    (h : ps.Pairwise fun a b => (compare a b).isLE = true) :
    (insertSorted p ps).Pairwise fun a b => (compare a b).isLE = true := by
  induction ps with
  | nil => exact List.pairwise_singleton _ _
  | cons q rest ih =>
    obtain ⟨hq, hrest⟩ := List.pairwise_cons.1 h
    unfold insertSorted
    split
    · next hlt =>
      have hle : (compare p q).isLE = true := by rw [hlt]; rfl
      refine List.pairwise_cons.2 ⟨List.forall_mem_cons.2 ⟨hle, fun b hb => ?_⟩, h⟩
      exact Std.TransCmp.isLE_trans hle (hq b hb)
    · next hnot =>
      refine List.pairwise_cons.2 ⟨fun b hb => ?_, ih hrest⟩
      rcases List.mem_cons.1 ((perm_insertSorted p rest).mem_iff.1 hb) with rfl | hb
      · rwa [← Std.OrientedCmp.gt_iff_lt, ← Ordering.isLE_iff_ne_gt] at hnot
      · exact hq b hb

theorem pairwise_sort (ps : List Placement) :
    (sort ps).Pairwise fun a b => (compare a b).isLE = true := by
  have hfold : ∀ sorted : List Placement,
      sorted.Pairwise (fun a b => (compare a b).isLE = true) →
      (ps.foldl (fun sorted p => insertSorted p sorted) sorted).Pairwise
        fun a b => (compare a b).isLE = true := by
    induction ps with
    | nil => exact fun sorted h => h
    | cons p ps ih => exact fun sorted h => ih _ (pairwise_insertSorted p h)
  exact hfold [] .nil

/-- Placements are sorted alike in whatever order they come. -/
theorem sort_eq_of_perm {ps qs : List Placement} (h : ps.Perm qs) : sort ps = sort qs := by
  refine List.Perm.eq_of_pairwise (fun p q _ _ hpq hqp => ?_) (pairwise_sort ps) (pairwise_sort qs)
    ((perm_sort ps).trans (h.trans (perm_sort qs).symm))
  exact Std.LawfulEqCmp.eq_of_compare (Std.OrientedCmp.isLE_antisymm hpq hqp)

end Placement

variable {g : EventGraph} {positions : Positions} {limit : Nat}

theorem id_of_placementOf {id : EventId} {p : Placement}
    (h : placementOf g positions limit id = .ok p) : p.id = id := by
  obtain ⟨e, -, h⟩ := bind_eq_ok.1 h
  obtain ⟨depth, -, h⟩ := bind_eq_ok.1 h
  cases pure_eq_ok.1 h
  rfl

/-- A mainline sort gives the events that it is given. -/
theorem perm_of_mainlineSort {ids order : List EventId} {resolved : Option EventId}
    (h : mainlineSort g ids resolved limit = .ok order) : order.Perm ids := by
  obtain ⟨positions, -, h⟩ := bind_eq_ok.1 h
  obtain ⟨placements, hplacements, h⟩ := bind_eq_ok.1 h
  cases pure_eq_ok.1 h
  have hids : placements.map Placement.id = ids :=
    map_of_mapM (fun _ _ => id_of_placementOf) hplacements
  exact ((Placement.perm_sort placements).map Placement.id).trans (.of_eq hids)

/-! ## Lineages -/

/-- The lineage of an event of the graph as far as another; those passed before it are last
first. -/
inductive Lineage (g : EventGraph) : List Event → Event → Prop
  | start {e : Event} : g.get? e.id = some e → Lineage g [] e
  | parent {passed : List Event} {e parent : Event} : Lineage g passed e →
    levelsParent g e = .ok (some parent) → Lineage g (e :: passed) parent

/-- A lineage has more events than a limit, and this is the error that says so. -/
inductive Overlong (g : EventGraph) (limit : Nat) : Error → Prop
  /-- The lineage of the resolved power levels, named by the newest. -/
  | line {passed : List Event} {e : Event} : Lineage g passed e → (e :: passed).Nodup →
    passed.length = limit →
    Overlong g limit (.graphCorruption (.endlessLineage (passed.map Event.id).getLast?))
  /-- The lineage of another event, named by the first past the limit. -/
  | ancestry {passed : List Event} {e : Event} : Lineage g passed e → (e :: passed).Nodup →
    passed.length = limit → Overlong g limit (.graphCorruption (.endlessAncestry e.id))

variable {passed : List Event} {e : Event} {err : Error} {room : Nat}

theorem cites_of_levelsParent {parent : Event} (he : g.get? e.id = some e)
    (h : levelsParent g e = .ok (some parent)) :
    g.Cites e.id parent.id ∧ g.get? parent.id = some parent := by
  obtain ⟨id, hid, hparent⟩ := EventGraph.mem_of_findCited h
  cases g.keyed id parent hparent
  exact ⟨⟨e, he, hid⟩, hparent⟩

namespace Lineage

theorem get? (h : Lineage g passed e) : g.get? e.id = some e := by
  induction h with
  | start he => exact he
  | parent _ hparent ih => exact (cites_of_levelsParent ih hparent).2

/-- The events of a lineage lead to its last. -/
theorem transGen (h : Lineage g passed e) :
    ∀ p ∈ passed, Relation.TransGen g.Cites p.id e.id := by
  induction h with
  | start => exact nofun
  | @parent passed e parent hline hparent ih =>
    have hcites := (cites_of_levelsParent hline.get? hparent).1
    intro p hp
    rcases List.mem_cons.1 hp with rfl | hp
    · exact .single hcites
    · exact (ih p hp).tail hcites

/-- Without cycles a lineage does not come back to where it has been. -/
theorem fresh (hg : g.AllGrounded) (h : Lineage g passed e) : e.id ∉ passed.map Event.id := by
  intro hmem
  obtain ⟨p, hp, heq⟩ := List.mem_map.1 hmem
  have hcycle := h.transGen p hp
  rw [heq] at hcycle
  exact (hg e.id e h.get?).not_transGen hcycle

theorem nodup (hg : g.AllGrounded) (h : Lineage g passed e) : (e :: passed).Nodup := by
  induction h with
  | start => exact List.pairwise_singleton _ _
  | parent hline hparent ih =>
    have hfresh := (hline.parent hparent).fresh hg
    exact List.nodup_cons.2 ⟨fun hmem => hfresh (List.mem_map_of_mem hmem), ih⟩

end Lineage

theorem exists_levelsParent (hg : g.AllGrounded) (he : g.get? e.id = some e) :
    ∃ parent, levelsParent g e = .ok parent :=
  EventGraph.exists_findCited .powerLevels
    ((EventGraph.closed_grounded g).exists_cited_get? (hg e.id e he) he)

/-- The mainline fails only when it comes to an event past its bound. -/
theorem overlong_of_mainlineFrom (hg : g.AllGrounded) (hline : Lineage g passed e)
    (hlength : passed.length + room = limit)
    (h : mainlineFrom g room (passed.map Event.id) e = .error err) : Overlong g limit err := by
  induction room generalizing passed e with
  | zero =>
    cases h
    exact .line hline (hline.nodup hg) hlength
  | succ room ih =>
    unfold mainlineFrom at h
    rw [if_neg (hline.fresh hg)] at h
    obtain ⟨found, hfound⟩ := exists_levelsParent hg hline.get?
    have h := error_of_bind hfound h
    cases found with
    | none => cases h
    | some parent => exact ih (.parent hline hfound) (by rw [List.length_cons]; omega) h

theorem overlong_of_depthFrom (hg : g.AllGrounded) (hline : Lineage g passed e)
    (hlength : passed.length + room = limit)
    (h : depthFrom g positions room (passed.map Event.id) e = .error err) :
    Overlong g limit err := by
  induction room generalizing passed e with
  | zero =>
    unfold depthFrom at h
    split at h
    · cases h
    · cases h
      exact .ancestry hline (hline.nodup hg) hlength
  | succ room ih =>
    unfold depthFrom at h
    split at h
    · cases h
    · dsimp only at h
      rw [if_neg (hline.fresh hg)] at h
      obtain ⟨found, hfound⟩ := exists_levelsParent hg hline.get?
      have h := error_of_bind hfound h
      cases found with
      | none => cases h
      | some parent => exact ih (.parent hline hfound) (by rw [List.length_cons]; omega) h

theorem exists_lineage {id : EventId} (h : ∃ e, g.get? id = some e) :
    ∃ e, g.get id = .ok e ∧ Lineage g [] e := by
  obtain ⟨e, he⟩ := h
  refine ⟨e, EventGraph.get_eq_ok_iff.2 he, ?_⟩
  cases g.keyed id e he
  exact .start he

/-- A mainline sort of events of the graph fails only at a lineage past the limit. -/
theorem overlong_of_mainlineSort (hg : g.AllGrounded) {ids : List EventId}
    {resolved : Option EventId} (hresolved : ∀ id, resolved = some id → ∃ e, g.get? id = some e)
    (hids : ∀ id ∈ ids, ∃ e, g.get? id = some e)
    (h : mainlineSort g ids resolved limit = .error err) : Overlong g limit err := by
  rcases bind_eq_error.1 h with h | ⟨positions, -, h⟩
  · cases resolved with
    | none => cases h
    | some id =>
      obtain ⟨newest, hnewest, hline⟩ := exists_lineage (hresolved id rfl)
      have h := error_of_bind hnewest h
      rcases bind_eq_error.1 h with h | ⟨line, -, h⟩
      · exact overlong_of_mainlineFrom hg hline (Nat.zero_add limit) h
      · cases h
  · rcases bind_eq_error.1 h with h | ⟨placements, -, h⟩
    · obtain ⟨id, hid, h⟩ := exists_of_mapM_error h
      obtain ⟨e, he, hline⟩ := exists_lineage (hids id hid)
      have h := error_of_bind he h
      rcases bind_eq_error.1 h with h | ⟨depth, -, h⟩
      · exact overlong_of_depthFrom hg hline (Nat.zero_add limit) h
      · cases h
    · cases h

end StateResolution
