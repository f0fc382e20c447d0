import Mathlib.Data.List.Nodup
import StateResolution.Proofs.Text.ByteOrder
import StateResolution.StateMap.Basic

/-!
# The entries of a state

A state is written as its entries and read from any list of entries that has no place twice
(`StateMap.ListedBy`).  The lists that are read as one state are the orders of its entries, and
of them the one that is written goes by the bytes of the types and then of the keys
(`StateKey.Before`).

So a state that is written and read is the same state, and a list that is read and written is
the same list, sorted (`StateMap.entries_read_back`).  A list that cannot be read is refused
for the first place that it has again (`StateMap.fault_of_ofEntries`).
-/

namespace StateResolution

/-! ## The order of places -/

namespace StateKey

variable {k j : StateKey}

/-- A place is listed before another for the bytes of its type, or of its key where the types
are the same. -/
def Before (k j : StateKey) : Prop :=
  utf8 k.type < utf8 j.type ∨ k.type = j.type ∧ utf8 k.key < utf8 j.key

instance : Decidable (Before k j) := inferInstanceAs (Decidable (_ ∨ _))

theorem before_iff : k.Before j ↔ compare k j = .lt := by
  have htext : ∀ {s t : String}, compare s t = .lt ↔ utf8 s < utf8 t := fun {s t} =>
    compareOfLessAndEq_eq_lt.trans utf8_lt_iff.symm
  show _ ↔ (compare k.type j.type).then (compare k.key j.key) = .lt
  rw [Ordering.then_eq_lt, htext, htext, Std.LawfulEqCmp.compare_eq_iff_eq, Before]

end StateKey

namespace StateEntry

/-- An entry as a place with what is under it. -/
def pair (e : StateEntry) : StateKey × EventId := (e.place, e.event)

@[simp] theorem fst_pair (e : StateEntry) : e.pair.1 = e.place := rfl

theorem mem_map_pair {entries : List StateEntry} {k : StateKey} {id : EventId} :
    (k, id) ∈ entries.map pair ↔ ⟨k, id⟩ ∈ entries := by
  constructor
  · intro h
    obtain ⟨e, he, heq⟩ := List.mem_map.1 h
    cases heq
    exact he
  · exact List.mem_map_of_mem (f := pair)

end StateEntry

namespace StateMap

variable {m n : StateMap} {entries entries' : List StateEntry} {e : StateEntry}

/-! ## Lists of a state -/

/-- A list has each entry of a state once, and nothing else. -/
structure ListedBy (m : StateMap) (entries : List StateEntry) : Prop where
  apart : (entries.map StateEntry.place).Nodup
  mem_iff : ∀ e, e ∈ entries ↔ m.get? e.place = some e.event

theorem ListedBy.of_perm (h : m.ListedBy entries) (hperm : entries.Perm entries') :
    m.ListedBy entries' where
  apart := (hperm.map _).nodup_iff.1 h.apart
  mem_iff e := hperm.mem_iff.symm.trans (h.mem_iff e)

theorem ListedBy.perm (h : m.ListedBy entries) (h' : m.ListedBy entries') :
    entries.Perm entries' :=
  (List.perm_ext_iff_of_nodup h.apart.of_map h'.apart.of_map).2 fun e =>
    (h.mem_iff e).trans (h'.mem_iff e).symm

/-- The list that is written is in the order of the places. -/
theorem ordered_toEntries (m : StateMap) :
    m.toEntries.Pairwise fun d e => d.place.Before e.place :=
  List.pairwise_map.2 (m.ascending.imp StateKey.before_iff.2)

theorem listedBy_toEntries (m : StateMap) : m.ListedBy m.toEntries where
  apart := by
    have hplaces : m.toEntries.map StateEntry.place = m.keySet.toList := List.map_map ..
    rw [hplaces]
    exact m.keySet.nodup_toList
  mem_iff e := by
    rw [← SortedMap.mem_toList_iff, toEntries, List.mem_map]
    constructor
    · rintro ⟨_, hd, rfl⟩
      exact hd
    · intro he
      exact ⟨_, he, rfl⟩

/-! ## What is read -/

theorem addEntries_cons_eq_ok :
    addEntries m (e :: entries) = .ok n ↔
      m.get? e.place = none ∧ addEntries (m.insert e.place e.event) entries = .ok n := by
  rw [addEntries]
  cases htaken : m.contains e.place with
  | true =>
    have hsome : m.get? e.place ≠ none := Option.isSome_iff_ne_none.1 htaken
    simp [hsome]
  | false =>
    have hfree : m.get? e.place = none := by simpa [SortedMap.contains] using htaken
    simp [hfree]

theorem get?_insert_eq_none {d : StateEntry} :
    (m.insert e.place e.event).get? d.place = none ↔
      m.get? d.place = none ∧ e.place ≠ d.place := by
  rw [SortedMap.get?_insert]
  split
  · next h => simp [h]
  · next h => rw [and_iff_left (Ne.symm h)]

theorem addEntries_eq_ok :
    addEntries m entries = .ok n ↔
      (∀ e ∈ entries, m.get? e.place = none) ∧ (entries.map StateEntry.place).Nodup ∧
        m.insertAll (entries.map StateEntry.pair) = n := by
  induction entries generalizing m with
  | nil => simp [addEntries, SortedMap.insertAll]
  | cons e entries ih =>
    have hapart : e.place ∉ entries.map StateEntry.place ↔ ∀ d ∈ entries, e.place ≠ d.place := by
      rw [List.mem_map]
      constructor
      · intro h d hd heq
        exact h ⟨d, hd, heq.symm⟩
      · rintro h ⟨d, hd, heq⟩
        exact h d hd heq.symm
    have hlast : m.insertAll ((e :: entries).map StateEntry.pair) =
        (m.insert e.place e.event).insertAll (entries.map StateEntry.pair) := rfl
    rw [addEntries_cons_eq_ok, ih, hlast, List.forall_mem_cons, List.map_cons, List.nodup_cons,
      hapart]
    simp only [get?_insert_eq_none, imp_and, forall_and, and_assoc]

/-- A state is read from the lists of its entries. -/
theorem ofEntries_eq_ok : ofEntries entries = .ok m ↔ m.ListedBy entries := by
  rw [ofEntries, addEntries_eq_ok]
  have hone : (entries.map StateEntry.place).Nodup → ∀ k v w, (k, v) ∈ entries.map StateEntry.pair →
      (k, w) ∈ entries.map StateEntry.pair → v = w := by
    intro hapart k v w hv hw
    have heq := List.inj_on_of_nodup_map hapart (StateEntry.mem_map_pair.1 hv)
      (StateEntry.mem_map_pair.1 hw) rfl
    exact congrArg StateEntry.event heq
  constructor
  · rintro ⟨-, hapart, rfl⟩
    refine ⟨hapart, fun e => ?_⟩
    exact StateEntry.mem_map_pair.symm.trans
      (SortedMap.get?_ofList_eq_some_iff (hone hapart e.place)).symm
  · rintro ⟨hapart, hmem⟩
    refine ⟨fun _ _ => rfl, hapart, SortedMap.ext fun k => Option.ext fun v => ?_⟩
    exact (SortedMap.get?_ofList_eq_some_iff (hone hapart k)).trans
      (StateEntry.mem_map_pair.trans (hmem ⟨k, v⟩))

theorem exists_ofEntries_iff :
    (∃ m, ofEntries entries = .ok m) ↔ (entries.map StateEntry.place).Nodup := by
  constructor
  · rintro ⟨m, hm⟩
    exact (ofEntries_eq_ok.1 hm).apart
  · intro hapart
    exact ⟨_, addEntries_eq_ok.2 ⟨fun _ _ => rfl, hapart, rfl⟩⟩

/-- What a list is refused for is a place that it has already had, the first such. -/
theorem fault_of_addEntries {fault : DecodeFault} (h : addEntries m entries = .error fault) :
    ∃ before e after n, entries = before ++ e :: after ∧ addEntries m before = .ok n ∧
      n.contains e.place = true ∧ fault = .repeatedEntry e.place := by
  induction entries generalizing m with
  | nil => cases h
  | cons e entries ih =>
    rw [addEntries] at h
    split at h
    · next htaken =>
      cases h
      exact ⟨[], e, entries, m, rfl, rfl, htaken, rfl⟩
    · next hfree =>
      obtain ⟨before, d, after, n, rfl, hbefore, hd, rfl⟩ := ih h
      refine ⟨e :: before, d, after, n, rfl, ?_, hd, rfl⟩
      rw [addEntries, if_neg hfree, hbefore]

theorem fault_of_ofEntries {fault : DecodeFault} (h : ofEntries entries = .error fault) :
    ∃ before e after, entries = before ++ e :: after ∧ (before.map StateEntry.place).Nodup ∧
      e.place ∈ before.map StateEntry.place ∧ fault = .repeatedEntry e.place := by
  obtain ⟨before, e, after, n, hentries, hbefore, htaken, hfault⟩ := fault_of_addEntries h
  have hlisted : n.ListedBy before := ofEntries_eq_ok.1 hbefore
  obtain ⟨id, hid⟩ := SortedMap.contains_iff.1 htaken
  exact ⟨before, e, after, hentries, hlisted.apart,
    List.mem_map.2 ⟨⟨e.place, id⟩, (hlisted.mem_iff _).2 hid, rfl⟩, hfault⟩

/-- A state that is written is read as it was.  A list of entries is read exactly if no place
stands in it twice; written again it is the same list in the order of the places, and so is
every other order of it. -/
theorem entries_read_back :
    (∀ m : StateMap, ofEntries m.toEntries = .ok m) ∧
      ∀ entries : List StateEntry,
        ((∃ m, ofEntries entries = .ok m) ↔ (entries.map StateEntry.place).Nodup) ∧
          ∀ m, ofEntries entries = .ok m →
            m.toEntries.Perm entries ∧
              (m.toEntries.Pairwise fun d e => d.place.Before e.place) ∧
              ∀ entries', entries.Perm entries' → ofEntries entries' = .ok m := by
  refine ⟨fun m => ofEntries_eq_ok.2 (listedBy_toEntries m), fun entries =>
    ⟨exists_ofEntries_iff, fun m hm => ?_⟩⟩
  have hlisted := ofEntries_eq_ok.1 hm
  exact ⟨(listedBy_toEntries m).perm hlisted, ordered_toEntries m, fun entries' hperm =>
    ofEntries_eq_ok.2 (hlisted.of_perm hperm)⟩

end StateMap

def wharfEvent : EventId := ⟨"$wharf", by decide⟩

def shipEvent : EventId := ⟨"$ship", by decide⟩

/-- Two entries whose types differ in one letter, of four bytes and of three.  In units of
sixteen bits they would be the other way round. -/
def wharfEntries : List StateEntry :=
  [⟨⟨"m.🚢", ""⟩, shipEvent⟩, ⟨⟨"m.ｗ", ""⟩, wharfEvent⟩]

def wharfState : StateMap :=
  .insert (.insert .empty ⟨"m.ｗ", ""⟩ wharfEvent) ⟨"m.🚢", ""⟩ shipEvent

/-- The entries are read in either order, and written in the second. -/
theorem entries_read_back_wharf :
    StateMap.ofEntries wharfEntries = .ok wharfState ∧
      wharfState.toEntries = wharfEntries.reverse ∧
      wharfState.toEntries.Perm wharfEntries ∧
      StateMap.ofEntries wharfEntries.reverse = .ok wharfState := by
  have hread : StateMap.ofEntries wharfEntries = .ok wharfState := by decide +kernel
  obtain ⟨hperm, -, hany⟩ := (StateMap.entries_read_back.2 wharfEntries).2 wharfState hread
  exact ⟨hread, by decide +kernel, hperm, hany _ (List.reverse_perm _).symm⟩

end StateResolution
