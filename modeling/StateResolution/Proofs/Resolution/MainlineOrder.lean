import Mathlib.Data.List.Perm.Basic
import StateResolution.Proofs.Resolution.Ancestry
import StateResolution.Proofs.Resolution.Mainline

/-!
# The order along the mainline

Over a graph in which every citation leads to an event, the mainline order can be said by lineages
alone (`MainlineOrder`).

An event on the mainline has the length of its own lineage as its position
(`get?_of_mainlinePositions`).  The depth of any other event is the position at which its lineage
meets the mainline, so an event is never placed below the power levels it cites first
(`le_of_mainlineDepth`).

A sort places each event and puts the placements in order.  Since no two placements are level
unless they are equal, it gives one order for all the ways in which the events can be listed
(`mainlineSort_of_perm`).

There may be cycles.  A walk that comes upon one fails, and the walks of other events are as they
would be without it (`mainlineOrder_by_lineage`).
-/

namespace StateResolution

open Fallible (bind_eq_ok pure_eq_ok mapM_eq_ok mem_mapM exists_mapM exists_of_mapM)

/-- An event is in the lineage of some power levels, as far from its oldest end as the position
says. -/
structure OnMainline (g : EventGraph) (resolved : Option EventId) (a : Event) (position : Nat) :
    Prop where
  reached : ∃ newest n, resolved.bind g.get? = some newest ∧ ancestor? g newest n = some a
  length : LineageLength g a position

namespace Placement

/-- A placement comes before another, or is level with it. -/
def AtMost (p q : Placement) : Prop :=
  p.depth < q.depth ∨
    p.depth = q.depth ∧
      (p.timestamp < q.timestamp ∨
        p.timestamp = q.timestamp ∧ (compare p.id q.id).isLE = true)

/-- A placement is that of an event of the graph. -/
def Along (g : EventGraph) (positions : Positions) (limit : Nat) (p : Placement) : Prop :=
  ∃ e, g.get? p.id = some e ∧ mainlineDepth g positions e limit = .ok p.depth ∧
    e.timestamp = p.timestamp

end Placement

/-- What the mainline order of some events is, under some power levels and with a limit on
lineages. -/
structure MainlineOrder (g : EventGraph) (resolved : Option EventId) (limit : Nat)
    (ids : List EventId) : Prop where
  /-- The mainline is numbered if no event comes twice in it and it keeps to the limit. -/
  numbered : (∃ positions, mainlinePositions g resolved limit = .ok positions) ↔
    ∀ newest, resolved.bind g.get? = some newest →
      (∀ n, ¬ ReturnsWithin g newest n) ∧ ancestor? g newest limit = none
  /-- Then every event of it has a position. -/
  covered : ∀ positions newest n a, mainlinePositions g resolved limit = .ok positions →
    resolved.bind g.get? = some newest → ancestor? g newest n = some a →
      ∃ p, positions.get? a.id = some p
  /-- The oldest has position one, and the others count from there. -/
  position : ∀ positions, mainlinePositions g resolved limit = .ok positions →
    ∀ id p, positions.get? id = some p ↔ ∃ a, a.id = id ∧ OnMainline g resolved a p
  /-- An event is as deep as the mainline is where its lineage meets it. -/
  depth : ∀ positions e d, g.get? e.id = some e →
    (mainlineDepth g positions e limit = .ok d ↔ ∃ n ≤ limit, Meets g positions e n d)
  /-- It has no depth if it passes too many events, or one of them twice, off the mainline. -/
  corrupt : ∀ positions e, g.get? e.id = some e →
    ((∃ kind, mainlineDepth g positions e limit = .error (.graphCorruption kind)) ↔
      Passes g positions e (limit + 1) ∨ ∃ n, Passes g positions e n ∧ ReturnsWithin g e n)
  /-- It is no less deep than the power levels that it cites first. -/
  monotone : ∀ positions e older d d', mainlinePositions g resolved limit = .ok positions →
    g.get? e.id = some e → levelsParent? g e = some older →
      mainlineDepth g positions e limit = .ok d →
        mainlineDepth g positions older limit = .ok d' → d' ≤ d
  /-- The events are sorted if the mainline is numbered and each of them has a depth. -/
  sorts : (∃ order, mainlineSort g ids resolved limit = .ok order) ↔
    ∃ positions, mainlinePositions g resolved limit = .ok positions ∧
      ∀ id ∈ ids, ∃ e d, g.get? id = some e ∧ mainlineDepth g positions e limit = .ok d
  /-- The order has the events that were listed, by depth, time and id. -/
  sorted : ∀ positions order, mainlinePositions g resolved limit = .ok positions →
    mainlineSort g ids resolved limit = .ok order →
      order.Perm ids ∧ ∃ ps : List Placement, ps.map Placement.id = order ∧
        (∀ p ∈ ps, p.Along g positions limit) ∧ ps.Pairwise Placement.AtMost
  /-- It does not depend on how they were listed. -/
  same : ∀ ids' order, ids'.Perm ids → mainlineSort g ids resolved limit = .ok order →
    mainlineSort g ids' resolved limit = .ok order

variable {g : EventGraph} {positions : Positions} {resolved : Option EventId}
  {e older newest start a : Event} {id : EventId} {ids ids' order : List EventId}
  {es : List Event} {limit n position d d' : Nat} {p q : Placement}

/-! ## Positions -/

theorem OnMainline.get? (h : OnMainline g resolved a position) : g.get? a.id = some a := by
  obtain ⟨newest, n, hnewest, hn⟩ := h.reached
  obtain ⟨id, -, hid⟩ := Option.bind_eq_some_iff.1 hnewest
  exact get?_of_ancestor? (by rwa [g.keyed id newest hid]) hn

/-- Right below an event on the mainline stand the power levels that it cites first. -/
theorem OnMainline.parent (h : OnMainline g resolved a position)
    (holder : levelsParent? g a = some older) :
    ∃ below, position = below + 1 ∧ OnMainline g resolved older below := by
  obtain ⟨newest, n, hnewest, hn⟩ := h.reached
  cases position with
  | zero => cases h.length.ends
  | succ below =>
    have hnext := (ancestor?_next hn).trans holder
    exact ⟨below, rfl, ⟨newest, n + 1, hnewest, hnext⟩, (lineageLength_succ holder).1 h.length⟩

theorem mem_zip_range_iff {α : Type} {l : List α} {x : α} {p : Nat} :
    (x, p) ∈ l.zip (List.range' 1 l.length) ↔ 1 ≤ p ∧ l[p - 1]? = some x := by
  rw [← List.zipIdx_eq_zip_range', List.mk_mem_zipIdx_iff_le_and_getElem?_sub]

/-- A lineage is numbered by the lengths of the lineages of its events. -/
theorem mem_entries_iff (hline : Gathered g start es) :
    (id, position) ∈ (es.map Event.id).zip (List.range' 1 (es.map Event.id).length) ↔
      ∃ a, a.id = id ∧ (∃ n, ancestor? g start n = some a) ∧ LineageLength g a position := by
  rw [mem_zip_range_iff, List.getElem?_map]
  simp only [Option.map_eq_some_iff, ← hline.mem_iff]
  constructor
  · rintro ⟨hposition, a, ha, rfl⟩
    have hlength := hline.getElem? ha
    rw [Nat.sub_add_cancel hposition] at hlength
    exact ⟨a, rfl, List.mem_of_getElem? ha, hlength⟩
  · rintro ⟨a, rfl, hmem, hlength⟩
    obtain ⟨i, hi⟩ := List.getElem?_of_mem hmem
    obtain rfl := hlength.unique (hline.getElem? hi)
    exact ⟨Nat.le_add_left 1 i, a, hi, rfl⟩

theorem get?_numbered (hstart : g.get? start.id = some start) (hline : Gathered g start es) :
    (numbered (es.map Event.id)).get? id = some position ↔
      ∃ a, a.id = id ∧ (∃ n, ancestor? g start n = some a) ∧ LineageLength g a position := by
  rw [numbered, SortedMap.get?_ofList_eq_some_iff, mem_entries_iff hline]
  -- Entries of one id are of one event, and its lineage has one length.
  intro p p' hp hp'
  obtain ⟨a, ha, ⟨n, hn⟩, hlength⟩ := (mem_entries_iff hline).1 hp
  obtain ⟨b, hb, ⟨m, hm⟩, hlength'⟩ := (mem_entries_iff hline).1 hp'
  cases eq_of_id_eq_of_get? (get?_of_ancestor? hstart hn) (get?_of_ancestor? hstart hm)
    (ha.trans hb.symm)
  exact hlength.unique hlength'

section

variable (hcited : ∀ id cited, g.Cites id cited → ∃ e, g.get? cited = some e)

include hcited

/-- The positions of some power levels are those of their gathered lineage, or it goes on behind
as many events as the limit. -/
theorem positions_or_endless (hid : g.get? id = some newest) (limit : Nat) :
    (∃ es, Gathered g newest es ∧ es.length ≤ limit ∧
      mainlinePositions g (some id) limit = .ok (numbered (es.map Event.id))) ∨
    (∃ a, ancestor? g newest limit = some a) ∧
      ∃ named, mainlinePositions g (some id) limit =
        .error (.graphCorruption (.endlessLineage named)) := by
  have hnewest : g.get? newest.id = some newest := by rwa [g.keyed id newest hid]
  rw [mainlinePositions, EventGraph.get_eq_ok_iff.2 hid, Fallible.ok_bind]
  rcases gathers_or_endless hcited hnewest .init (Nat.zero_add limit) with
    ⟨es, hline, hlength, hfound⟩ | ⟨hgoes, named, hfound⟩
  · exact .inl ⟨es, hline, hlength, by rw [hfound, List.append_nil]; rfl⟩
  · exact .inr ⟨hgoes, named, by rw [hfound]; rfl⟩

/-- An event on the mainline has the length of its own lineage as its position. -/
theorem get?_of_mainlinePositions (h : mainlinePositions g resolved limit = .ok positions) :
    positions.get? id = some position ↔ ∃ a, a.id = id ∧ OnMainline g resolved a position := by
  cases resolved with
  | none =>
    cases h
    rw [SortedMap.get?_empty]
    constructor
    · intro hnone
      cases hnone
    · rintro ⟨a, -, ⟨newest, n, hnone, -⟩, -⟩
      cases hnone
  | some top =>
    obtain ⟨newest, hnewest, -⟩ := bind_eq_ok.1 h
    have hnewest := EventGraph.get_eq_ok_iff.1 hnewest
    rcases positions_or_endless hcited hnewest limit with
      ⟨es, hline, -, hfound⟩ | ⟨-, named, hfound⟩
    · rw [hfound] at h
      cases h
      rw [get?_numbered (by rwa [g.keyed top newest hnewest]) hline]
      refine exists_congr fun a => and_congr_right fun _ => ?_
      constructor
      · rintro ⟨⟨n, hn⟩, hlength⟩
        exact ⟨⟨newest, n, hnewest, hn⟩, hlength⟩
      · rintro ⟨⟨other, n, hother, hn⟩, hlength⟩
        cases hnewest.symm.trans hother
        exact ⟨⟨n, hn⟩, hlength⟩
    · rw [hfound] at h
      cases h

theorem mainlinePositions_ok_iff
    (hresolved : ∀ id, resolved = some id → ∃ e, g.get? id = some e) :
    (∃ positions, mainlinePositions g resolved limit = .ok positions) ↔
      ∀ newest, resolved.bind g.get? = some newest →
        (∀ n, ¬ ReturnsWithin g newest n) ∧ ancestor? g newest limit = none := by
  cases resolved with
  | none =>
    refine ⟨fun _ newest hnone => ?_, fun _ => ⟨.empty, rfl⟩⟩
    cases hnone
  | some id =>
    obtain ⟨newest, hnewest⟩ := hresolved id rfl
    rcases positions_or_endless hcited hnewest limit with
      ⟨es, hline, hlength, hfound⟩ | ⟨⟨a, ha⟩, named, hfound⟩
    · refine ⟨fun _ other hother => ?_, fun _ => ⟨_, hfound⟩⟩
      cases hnewest.symm.trans hother
      exact ⟨hline.lineageLength.not_returnsWithin,
        ancestor?_eq_none_of_le hlength hline.lineageLength.ends⟩
    · constructor
      · rintro ⟨positions, h⟩
        rw [hfound] at h
        cases h
      · intro h
        rw [(h newest hnewest).2] at ha
        cases ha

theorem exists_position (hresolved : ∀ id, resolved = some id → ∃ e, g.get? id = some e)
    (h : mainlinePositions g resolved limit = .ok positions)
    (hnewest : resolved.bind g.get? = some newest) (ha : ancestor? g newest n = some a) :
    ∃ position, positions.get? a.id = some position := by
  obtain ⟨-, hends⟩ := (mainlinePositions_ok_iff hcited hresolved).1 ⟨positions, h⟩ newest hnewest
  have hafter := ancestor?_eq_none_of_le (Nat.le_add_left limit n) hends
  rw [ancestor?_add, ha, Option.bind_some] at hafter
  obtain ⟨position, hlength⟩ := exists_lineageLength hafter
  exact ⟨position,
    (get?_of_mainlinePositions hcited h).2 ⟨a, rfl, ⟨newest, n, hnewest, ha⟩, hlength⟩⟩

/-! ## Depths -/

theorem depth_or_endless (he : g.get? e.id = some e) :
    (∃ d, ∃ n ≤ limit, Meets g positions e n d ∧ mainlineDepth g positions e limit = .ok d) ∨
    Passes g positions e (limit + 1) ∧
      ∃ id, mainlineDepth g positions e limit = .error (.graphCorruption (.endlessAncestry id)) :=
  meets_or_endless hcited he .init (Passes.zero g positions e) (Nat.zero_add limit)

theorem mainlineDepth_eq_ok_iff (he : g.get? e.id = some e) :
    mainlineDepth g positions e limit = .ok d ↔ ∃ n ≤ limit, Meets g positions e n d := by
  rcases depth_or_endless hcited he with ⟨d', n', hn', hmeets', hfound⟩ | ⟨hpasses, id, hfound⟩
  · rw [hfound]
    constructor
    · rintro ⟨⟩
      exact ⟨n', hn', hmeets'⟩
    · rintro ⟨n, -, hmeets⟩
      rw [hmeets.unique hmeets']
  · rw [hfound]
    constructor
    · intro h
      cases h
    · rintro ⟨n, hn, hmeets⟩
      exact absurd (hpasses.mono (Nat.succ_le_succ hn)) hmeets.not_passes

theorem mainlineDepth_corrupt_iff (he : g.get? e.id = some e) :
    (∃ kind, mainlineDepth g positions e limit = .error (.graphCorruption kind)) ↔
      Passes g positions e (limit + 1) ∨ ∃ n, Passes g positions e n ∧ ReturnsWithin g e n := by
  rcases depth_or_endless hcited he with ⟨d, n, hn, hmeets, hfound⟩ | ⟨hpasses, id, hfound⟩
  · have hshort : ¬ Passes g positions e (limit + 1) := fun hpasses =>
      hmeets.not_passes (hpasses.mono (Nat.succ_le_succ hn))
    constructor
    · rintro ⟨kind, h⟩
      rw [hfound] at h
      cases h
    · rintro (hpasses | ⟨m, hpasses, hreturns⟩)
      · exact absurd hpasses hshort
      · exact absurd (hpasses.forever hreturns _) hshort
  · exact ⟨fun _ => .inl hpasses, fun _ => ⟨_, hfound⟩⟩

/-- An event is no less deep than the power levels that it cites first. -/
theorem le_of_mainlineDepth (h : mainlinePositions g resolved limit = .ok positions)
    (he : g.get? e.id = some e) (holder : levelsParent? g e = some older)
    (hd : mainlineDepth g positions e limit = .ok d)
    (hd' : mainlineDepth g positions older limit = .ok d') : d' ≤ d := by
  obtain ⟨n, -, hmeets⟩ := (mainlineDepth_eq_ok_iff hcited he).1 hd
  obtain ⟨n', -, hmeets'⟩ :=
    (mainlineDepth_eq_ok_iff hcited (get?_of_levelsParent? holder)).1 hd'
  cases n with
  | succ n =>
    -- Off the mainline, the event is as deep as what it cites.
    exact Nat.le_of_eq (hmeets'.unique (hmeets.tail holder))
  | zero =>
    cases hmeets with
    | off _ hends => cases hends
    | on _ hself hon =>
      cases hself
      obtain ⟨a, hid, ha⟩ := (get?_of_mainlinePositions hcited h).1 hon
      cases eq_of_id_eq_of_get? ha.get? he hid
      obtain ⟨below, rfl, hbelow⟩ := ha.parent holder
      have hthere : positions.get? older.id = some below :=
        (get?_of_mainlinePositions hcited h).2 ⟨older, rfl, hbelow⟩
      rw [hmeets'.unique (.on (Passes.zero g positions older) rfl hthere)]
      exact Nat.le_succ below

end

/-! ## The order -/

theorem Placement.isLE_iff : (compare p q).isLE = true ↔ p.AtMost q := by
  show ((compare p.depth q.depth).then
    ((compare p.timestamp q.timestamp).then (compare p.id q.id))).isLE = true ↔ _
  simp only [Ordering.isLE_then_iff_or, compare_lt_iff_lt, compare_eq_iff_eq]
  rfl

theorem placementOf_eq_ok_iff :
    placementOf g positions limit id = .ok p ↔ p.id = id ∧ p.Along g positions limit := by
  constructor
  · intro h
    obtain ⟨e, he, h⟩ := bind_eq_ok.1 h
    obtain ⟨depth, hdepth, h⟩ := bind_eq_ok.1 h
    cases pure_eq_ok.1 h
    exact ⟨rfl, e, EventGraph.get_eq_ok_iff.1 he, hdepth, rfl⟩
  · rintro ⟨rfl, e, he, hdepth, htimestamp⟩
    refine bind_eq_ok.2 ⟨e, EventGraph.get_eq_ok_iff.2 he, bind_eq_ok.2 ⟨p.depth, hdepth, ?_⟩⟩
    rw [htimestamp]
    rfl

theorem mainlineSort_eq_ok_iff : mainlineSort g ids resolved limit = .ok order ↔
    ∃ positions, mainlinePositions g resolved limit = .ok positions ∧
      ∃ ps, ids.mapM (placementOf g positions limit) = .ok ps ∧
        (Placement.sort ps).map Placement.id = order := by
  simp only [mainlineSort, bind_eq_ok, pure_eq_ok]

theorem exists_mainlineSort_iff : (∃ order, mainlineSort g ids resolved limit = .ok order) ↔
    ∃ positions, mainlinePositions g resolved limit = .ok positions ∧
      ∀ id ∈ ids, ∃ e d, g.get? id = some e ∧ mainlineDepth g positions e limit = .ok d := by
  simp only [mainlineSort_eq_ok_iff]
  constructor
  · rintro ⟨order, positions, hpositions, ps, hps, -⟩
    refine ⟨positions, hpositions, fun id hid => ?_⟩
    obtain ⟨p, hp⟩ := exists_of_mapM hps hid
    obtain ⟨rfl, e, he, hdepth, -⟩ := placementOf_eq_ok_iff.1 hp
    exact ⟨e, p.depth, he, hdepth⟩
  · rintro ⟨positions, hpositions, hall⟩
    obtain ⟨ps, hps⟩ := exists_mapM (f := placementOf g positions limit) fun id hid => by
      obtain ⟨e, d, he, hdepth⟩ := hall id hid
      exact ⟨⟨d, e.timestamp, id⟩, placementOf_eq_ok_iff.2 ⟨rfl, e, he, hdepth, rfl⟩⟩
    exact ⟨_, positions, hpositions, ps, hps, rfl⟩

theorem placements_of_mainlineSort (hpositions : mainlinePositions g resolved limit = .ok positions)
    (h : mainlineSort g ids resolved limit = .ok order) :
    ∃ ps : List Placement, ps.map Placement.id = order ∧
      (∀ p ∈ ps, p.Along g positions limit) ∧ ps.Pairwise Placement.AtMost := by
  obtain ⟨found, hfound, ps, hps, rfl⟩ := mainlineSort_eq_ok_iff.1 h
  cases hpositions.symm.trans hfound
  refine ⟨Placement.sort ps, rfl, fun p hp => ?_, ?_⟩
  · obtain ⟨id, -, hid⟩ := (mem_mapM hps p).1 ((Placement.perm_sort ps).mem_iff.1 hp)
    exact (placementOf_eq_ok_iff.1 hid).2
  · exact (Placement.pairwise_sort ps).imp Placement.isLE_iff.1

/-- Events are sorted alike in whatever order they are listed. -/
theorem mainlineSort_of_perm (hperm : ids'.Perm ids)
    (h : mainlineSort g ids resolved limit = .ok order) :
    mainlineSort g ids' resolved limit = .ok order := by
  obtain ⟨positions, hpositions, ps, hps, rfl⟩ := mainlineSort_eq_ok_iff.1 h
  obtain ⟨ps', hps', hsame⟩ := List.perm_comp_forall₂ hperm (mapM_eq_ok.1 hps)
  refine mainlineSort_eq_ok_iff.2 ⟨positions, hpositions, ps', mapM_eq_ok.2 hps', ?_⟩
  rw [Placement.sort_eq_of_perm hsame]

/-- Over a graph without gaps, the mainline order is what the lineages of the events make it. -/
theorem mainlineOrder_by_lineage (g : EventGraph) (resolved : Option EventId) (limit : Nat)
    (ids : List EventId) (hcited : ∀ id cited, g.Cites id cited → ∃ e, g.get? cited = some e)
    (hresolved : ∀ id, resolved = some id → ∃ e, g.get? id = some e) :
    MainlineOrder g resolved limit ids where
  numbered := mainlinePositions_ok_iff hcited hresolved
  covered _ _ _ _ h hnewest ha := exists_position hcited hresolved h hnewest ha
  position _ h _ _ := get?_of_mainlinePositions hcited h
  depth _ _ _ he := mainlineDepth_eq_ok_iff hcited he
  corrupt _ _ he := mainlineDepth_corrupt_iff hcited he
  monotone _ _ _ _ _ h he holder hd hd' := le_of_mainlineDepth hcited h he holder hd hd'
  sorts := exists_mainlineSort_iff
  sorted _ _ hpositions h := ⟨perm_of_mainlineSort h, placements_of_mainlineSort hpositions h⟩
  same _ _ hperm h := mainlineSort_of_perm hperm h

def villageEvent (id : EventId) (type : String) (timestamp : Nat) (cited : List EventId) : Event :=
  { Event.blank id ⟨"!green:village", by decide⟩ ⟨"@eve:village", by decide⟩ type with
    stateKey := some ""
    timestamp := timestamp
    authEvents := cited }

def charter : Event := villageEvent ⟨"$charter", by decide⟩ EventType.powerLevels 1 []

def reform : Event := villageEvent ⟨"$reform", by decide⟩ EventType.powerLevels 2 [charter.id]

/-- Power levels that did not prevail, and a topic under them. -/
def schism : Event := villageEvent ⟨"$schism", by decide⟩ EventType.powerLevels 3 [charter.id]

def anthem : Event := villageEvent ⟨"$anthem", by decide⟩ "m.room.topic" 9 [schism.id]

def banner : Event := villageEvent ⟨"$banner", by decide⟩ "m.room.name" 4 [reform.id]

def henId : EventId := ⟨"$hen", by decide⟩

/-- Power levels that cite each other. -/
def egg : Event := villageEvent ⟨"$egg", by decide⟩ EventType.powerLevels 5 [henId]

def hen : Event := villageEvent henId EventType.powerLevels 6 [egg.id]

def village : EventGraph := .ofEvents [charter, reform, schism, anthem, banner, egg, hen]

/-- The mainline and the way of the topic to it are just as long as the limit allows. -/
theorem mainlineOrder_by_lineage_village :
    (∀ id cited, village.Cites id cited → ∃ e, village.get? cited = some e) ∧
      (∀ id, some reform.id = some id → ∃ e, village.get? id = some e) ∧
      (∃ n ≤ 2, Meets village (numbered [charter.id, reform.id]) anthem n 1) ∧
      ancestor? village reform 2 = none ∧
      (Passes village (numbered [charter.id, reform.id]) egg 3 ∨
        ∃ n, Passes village (numbered [charter.id, reform.id]) egg n ∧
          ReturnsWithin village egg n) ∧
      mainlineSort village [anthem.id, banner.id] (some reform.id) 2 =
        .ok [anthem.id, banner.id] := by
  have hcited : ∀ id cited, village.Cites id cited → ∃ e, village.get? cited = some e := by
    rintro id cited ⟨e, he, hmem⟩
    obtain ⟨hevent, -⟩ := EventGraph.mem_of_get?_ofEvents he
    have hall : ∀ e ∈ [charter, reform, schism, anthem, banner, egg, hen],
        ∀ cited ∈ e.authEvents, (village.get? cited).isSome = true := by
      decide
    exact Option.isSome_iff_exists.1 (hall e hevent cited hmem)
  have hresolved : ∀ id, some reform.id = some id → ∃ e, village.get? id = some e := by
    rintro id ⟨⟩
    exact ⟨reform, rfl⟩
  have horder := mainlineOrder_by_lineage village (some reform.id) 2 [banner.id, anthem.id]
    hcited hresolved
  refine ⟨hcited, hresolved, ?_, ?_, ?_, ?_⟩
  · exact (horder.depth _ anthem 1 rfl).1 rfl
  · exact (horder.numbered.1 ⟨numbered [charter.id, reform.id], rfl⟩ reform rfl).2
  · exact (horder.corrupt _ egg rfl).1 ⟨_, rfl⟩
  · exact horder.same _ _ (.swap _ _ _) rfl

end StateResolution
