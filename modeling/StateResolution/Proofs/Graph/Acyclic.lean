import Mathlib.Data.Fintype.EquivFin
import Mathlib.Data.Fintype.Sets
import StateResolution.Graph.Acyclic
import StateResolution.Proofs.Graph.Reach

/-!
# Grounded events

An event is grounded when its citations can be followed down to events that cite nothing: the
graph has everything on the way, and no way leads back.  `Grounded` says so by induction over
citations, so an argument that goes down the citations of a grounded event is an induction
on it.

The depth-first walk finishes nothing but grounded events (`settled_of_descend`), so in a
graph that it gets through, every event is grounded (`grounded_of_verifyAcyclic`).  In other
words, every citation is resolved and there is no cycle; and as a graph is finite, these two
say no less (`grounded_of_acyclic`).
-/

namespace StateResolution.EventGraph

open Fallible (bind_eq_ok pure_eq_ok)

/-- The graph has an event, and what it cites is grounded. -/
inductive Grounded (g : EventGraph) : EventId → Prop
  | intro {id : EventId} {e : Event} :
    g.get? id = some e → (∀ cited ∈ e.authEvents, Grounded g cited) → Grounded g id

/-- Every event of the graph is grounded. -/
def AllGrounded (g : EventGraph) : Prop := ∀ id e, g.get? id = some e → g.Grounded id

variable {g : EventGraph} {id cited : EventId} {e : Event}

theorem Grounded.cites (h : g.Grounded id) (hcites : g.Cites id cited) : g.Grounded cited := by
  cases h with
  | intro he hcited =>
    obtain ⟨e', he', hmem⟩ := hcites
    cases he.symm.trans he'
    exact hcited cited hmem

theorem Grounded.reaches (h : g.Grounded id) (hreach : g.Reaches id cited) :
    g.Grounded cited := by
  induction hreach with
  | refl => exact h
  | tail _ hcites ih => exact ih.cites hcites

/-- The grounded events are a closed part of the graph. -/
theorem closed_grounded (g : EventGraph) : g.Closed g.Grounded where
  present id h := by
    cases h with
    | intro he _ => exact ⟨_, he⟩
  cited _ _ h hcites := h.cites hcites

/-- Nothing that is grounded leads back to itself. -/
theorem Grounded.not_transGen (h : g.Grounded id) : ¬ Relation.TransGen g.Cites id id := by
  induction h with
  | @intro id e he _ ih =>
    intro hcycle
    obtain ⟨next, hnext, hback⟩ := Relation.TransGen.head'_iff.1 hcycle
    have hstep : next ∈ e.authEvents := by
      obtain ⟨e', he', hmem⟩ := hnext
      cases he.symm.trans he'
      exact hmem
    exact ih next hstep (Relation.TransGen.tail' hback hnext)

/-- A relation without cycles that leads down within a list leads down to an end. -/
theorem acc_of_acyclic {α : Type} [DecidableEq α] {r : α → α → Prop} {l : List α}
    (hwithin : ∀ a b, r a b → a ∈ l) (hacyclic : ∀ a, ¬ Relation.TransGen r a a) (a : α) :
    Acc r a := by
  let below : {a // a ∈ l} → {a // a ∈ l} → Prop := fun a b => Relation.TransGen r a.1 b.1
  have htrans : IsTrans _ below := ⟨fun _ _ _ hab hbc => hab.trans hbc⟩
  have hirrefl : Std.Irrefl below := ⟨fun a => hacyclic a.1⟩
  have hfinite : Finite {a // a ∈ l} := inferInstance
  have hmem : ∀ a : {a // a ∈ l}, Acc r a.1 := fun a => by
    induction a using (Finite.wellFounded_of_trans_of_irrefl below).induction with
    | _ a ih => exact .intro a.1 fun b hb => ih ⟨b, hwithin b a.1 hb⟩ (.single hb)
  exact .intro a fun b hb => hmem ⟨b, hwithin b a hb⟩

/-- Where every citation is resolved and none leads back, every event is grounded. -/
theorem grounded_of_acyclic (hcited : ∀ id cited, g.Cites id cited → ∃ e, g.get? cited = some e)
    (hacyclic : ∀ id, ¬ Relation.TransGen g.Cites id id) (hid : g.get? id = some e) :
    g.Grounded id := by
  have hacc : Acc (fun cited id => g.Cites id cited) id := by
    refine acc_of_acyclic (l := g.ids) (fun cited id hcites => ?_) (fun id hback => ?_) id
    · exact SortedMap.mem_keys_iff.2 (hcited id cited hcites)
    · exact hacyclic id (Relation.transGen_swap.1 hback)
  induction hacc generalizing e with
  | intro id _ ih =>
    refine .intro hid fun cited hmem => ?_
    obtain ⟨d, hd⟩ := hcited id cited ⟨e, hid, hmem⟩
    exact ih cited ⟨e, hid, hmem⟩ hd

/-! ## The depth-first walk -/

/-- What a walk does to the finished events when it gets past some ids: it finishes them,
and all that is finished is grounded. -/
structure Settled (g : EventGraph) (ids : List EventId) (s s' : SortedSet EventId) : Prop where
  keep : ∀ id ∈ s, id ∈ s'
  all : ∀ id ∈ ids, id ∈ s'
  grounded : ∀ id ∈ s', g.Grounded id

variable {ids : List EventId} {s s' : SortedSet EventId}

theorem Settled.refl (hs : ∀ id ∈ s, g.Grounded id) (hid : id ∈ s) : Settled g [id] s s where
  keep _ h := h
  all := List.forall_mem_singleton.2 hid
  grounded := hs

theorem settled_of_foldlM {α : Type} (name : α → EventId) {l : List α}
    {step : SortedSet EventId → α → Except Error (SortedSet EventId)}
    (hstep : ∀ a ∈ l, ∀ s s', (∀ id ∈ s, g.Grounded id) → step s a = .ok s' →
      Settled g [name a] s s')
    (hs : ∀ id ∈ s, g.Grounded id) (h : l.foldlM step s = .ok s') :
    Settled g (l.map name) s s' := by
  induction l generalizing s with
  | nil =>
    cases pure_eq_ok.1 h
    exact ⟨fun _ hid => hid, nofun, hs⟩
  | cons a l ih =>
    obtain ⟨mid, hmid, hrest⟩ := bind_eq_ok.1 h
    have hfirst := hstep a List.mem_cons_self s mid hs hmid
    have hlater := ih (fun b hb => hstep b (List.mem_cons_of_mem _ hb)) hfirst.grounded hrest
    refine ⟨fun id hid => hlater.keep id (hfirst.keep id hid), ?_, hlater.grounded⟩
    intro id hid
    rcases List.mem_cons.1 hid with rfl | hid
    · exact hlater.keep _ (hfirst.all _ List.mem_cons_self)
    · exact hlater.all id hid

/-- An event whose citations are finished can be finished. -/
theorem Settled.finish (h : Settled g e.authEvents s s') (he : g.get? e.id = some e) :
    Settled g [e.id] s (s'.insert e.id) where
  keep id hid := SortedSet.mem_insert.2 (.inr (h.keep id hid))
  all := List.forall_mem_singleton.2 (SortedSet.mem_insert.2 (.inl rfl))
  grounded id hid := by
    rcases SortedSet.mem_insert.1 hid with rfl | hid
    · exact .intro he fun cited hcited => h.grounded cited (h.all cited hcited)
    · exact h.grounded id hid

/-- A step of the walk that stays above what it descends to goes past the citation. -/
theorem settled_of_step {path : List EventId} {down : Except Error (SortedSet EventId)}
    (hs : ∀ id ∈ s, g.Grounded id)
    (h : (if cited ∈ path then .error (.graphCorruption (.cycle e.id cited))
      else if cited ∈ s then .ok s else down) = .ok s')
    (hdown : down = .ok s' → Settled g [cited] s s') : Settled g [cited] s s' := by
  split at h
  · cases h
  · split at h
    · next hfinished =>
      cases h
      exact .refl hs hfinished
    · exact hdown h

theorem settled_of_descend {d : Descent} {room : Nat} {path : List EventId}
    (he : g.get? e.id = some e) (hs : ∀ id ∈ s, g.Grounded id)
    (h : g.descend d room path e s = .ok s') : Settled g [e.id] s s' := by
  induction room generalizing path e s s' with
  | zero =>
    unfold descend at h
    obtain ⟨done, hdone, hend⟩ := bind_eq_ok.1 h
    cases pure_eq_ok.1 hend
    have hcited := settled_of_foldlM (fun cited => cited) (fun _ _ _ _ ht hstep =>
      settled_of_step ht hstep fun hdown => by cases hdown) hs hdone
    exact .finish (by simpa using hcited) he
  | succ room ih =>
    unfold descend at h
    obtain ⟨done, hdone, hend⟩ := bind_eq_ok.1 h
    cases pure_eq_ok.1 hend
    have hcited := settled_of_foldlM (fun cited => cited) (fun cited _ t t' ht hstep => by
      refine settled_of_step ht hstep fun hdown => ?_
      obtain ⟨c, hc, hdown⟩ := bind_eq_ok.1 hdown
      have hc := get_eq_ok_iff.1 hc
      cases g.keyed cited c hc
      exact ih hc ht hdown) hs hdone
    exact .finish (by simpa using hcited) he

theorem get?_of_mem_toList (h : e ∈ g.toList) : g.get? e.id = some e := by
  obtain ⟨k, hk⟩ := SortedMap.mem_values_iff.1 h
  rw [g.keyed k e hk]
  exact hk

/-- In a graph that passes the check for cycles every event is grounded. -/
theorem grounded_of_verifyAcyclic {limit : Nat} (h : g.verifyAcyclic limit = .ok ())
    (hid : g.get? id = some e) : g.Grounded id := by
  obtain ⟨finished, hfinished, -⟩ := bind_eq_ok.1 h
  have hall : Settled g (g.toList.map Event.id) .empty finished := by
    refine settled_of_foldlM Event.id (fun root hroot s s' hs hstep => ?_) (by simp) hfinished
    unfold descendFrom at hstep
    split at hstep
    · next hdone =>
      cases hstep
      exact .refl hs hdone
    · exact settled_of_descend (get?_of_mem_toList hroot) hs hstep
  have hmem : e ∈ g.toList := SortedMap.mem_values_iff.2 ⟨id, hid⟩
  rw [← g.keyed id e hid]
  exact hall.grounded _ (hall.all _ (List.mem_map_of_mem hmem))

/-- A graph that passes the check for cycles has what its events cite, and no cycle. -/
theorem acyclic_of_verifyAcyclic {limit : Nat} (h : g.verifyAcyclic limit = .ok ()) :
    (∀ id cited, g.Cites id cited → ∃ e, g.get? cited = some e) ∧
      ∀ id, ¬ Relation.TransGen g.Cites id id := by
  constructor
  · rintro id cited ⟨e, he, hmem⟩
    have hcited := (grounded_of_verifyAcyclic h he).cites ⟨e, he, hmem⟩
    exact (closed_grounded g).present cited hcited
  · intro id hcycle
    obtain ⟨_, ⟨e, he, -⟩, -⟩ := Relation.TransGen.head'_iff.1 hcycle
    exact (grounded_of_verifyAcyclic h he).not_transGen hcycle

end StateResolution.EventGraph
