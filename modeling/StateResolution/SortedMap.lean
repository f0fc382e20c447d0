import StateResolution.SortedSet

/-!
# Sorted maps

A finite map kept as its entries in strictly ascending key order.  Room states,
event graphs, level tables and rejections are all of this kind, and each is
shown in key order.

The view of a map is `SortedMap.get?`.  Every operation has an equation that
says what it does to the view, and `SortedMap.ext` says a map is its view.
-/

namespace StateResolution

open Std (TransOrd LawfulEqOrd)

/-- A finite map, as its entries in strictly ascending key order. -/
structure SortedMap (κ ν : Type) [Ord κ] where
  /-- The entries, smallest key first. -/
  toList : List (κ × ν)
  /-- Each key is smaller than every later one. -/
  ascending : toList.Pairwise fun a b => compare a.1 b.1 = .lt

namespace SortedMap

variable {κ ν μ : Type} [Ord κ]

instance [DecidableEq κ] [DecidableEq ν] : DecidableEq (SortedMap κ ν) := fun m n =>
  decidable_of_iff (m.toList = n.toList) (by cases m; cases n; simp)

/-- The map without entries. -/
def empty : SortedMap κ ν := ⟨[], .nil⟩

instance : Inhabited (SortedMap κ ν) := ⟨empty⟩

/-- The value under a key in a list of entries. -/
def lookup (k : κ) : List (κ × ν) → Option ν
  | [] => none
  | (k', v) :: rest =>
    match compare k k' with
    | .eq => some v
    | _ => lookup k rest

/-- The value under a key. -/
def get? (m : SortedMap κ ν) (k : κ) : Option ν := lookup k m.toList

/-- Whether the map has an entry for a key. -/
def contains (m : SortedMap κ ν) (k : κ) : Bool := (m.get? k).isSome

def size (m : SortedMap κ ν) : Nat := m.toList.length

def isEmpty (m : SortedMap κ ν) : Bool := m.toList.isEmpty

/-- The keys in ascending order. -/
def keys (m : SortedMap κ ν) : List κ := m.toList.map Prod.fst

/-- The values, in the order of their keys. -/
def values (m : SortedMap κ ν) : List ν := m.toList.map Prod.snd

def keySet (m : SortedMap κ ν) : SortedSet κ :=
  ⟨m.keys, List.pairwise_map.2 m.ascending⟩

/-- Sets the value under a key in a list of ascending entries. -/
def place (k : κ) (v : ν) : List (κ × ν) → List (κ × ν)
  | [] => [(k, v)]
  | (k', v') :: rest =>
    match compare k k' with
    | .lt => (k, v) :: (k', v') :: rest
    | .eq => (k, v) :: rest
    | .gt => (k', v') :: place k v rest

/-- The map whose value under each key is changed by a function. -/
def mapValues (f : ν → μ) (m : SortedMap κ ν) : SortedMap κ μ :=
  ⟨m.toList.map fun e => (e.1, f e.2), List.pairwise_map.2 m.ascending⟩

def filter (m : SortedMap κ ν) (test : κ → ν → Bool) : SortedMap κ ν :=
  ⟨m.toList.filter fun e => test e.1 e.2, m.ascending.filter _⟩

/-- The map without a key. -/
def erase (m : SortedMap κ ν) (k : κ) : SortedMap κ ν := m.filter fun k' _ => compare k k' != .eq

/-- The entries whose value a function takes to a new one. -/
def filterMap (f : ν → Option μ) (m : SortedMap κ ν) : SortedMap κ μ :=
  ⟨m.toList.filterMap fun e => (f e.2).map (e.1, ·),
    m.ascending.filterMap _ fun a b hab x hx y hy => by
      obtain ⟨v, _, rfl⟩ := Option.map_eq_some_iff.1 hx
      obtain ⟨w, _, rfl⟩ := Option.map_eq_some_iff.1 hy
      exact hab⟩

/-- The map over a set of keys that a function fills where it has a value. -/
def tabulate (ks : SortedSet κ) (f : κ → Option ν) : SortedMap κ ν :=
  ⟨ks.toList.filterMap fun k => (f k).map (k, ·),
    ks.ascending.filterMap _ fun a b hab x hx y hy => by
      obtain ⟨v, _, rfl⟩ := Option.map_eq_some_iff.1 hx
      obtain ⟨w, _, rfl⟩ := Option.map_eq_some_iff.1 hy
      exact hab⟩

@[simp] theorem get?_empty (k : κ) : (empty : SortedMap κ ν).get? k = none := rfl

@[simp] theorem length_keys (m : SortedMap κ ν) : m.keys.length = m.size := List.length_map ..

section Lawful

variable [TransOrd κ] [LawfulEqOrd κ]

omit [TransOrd κ] in
theorem lookup_cons [DecidableEq κ] (k k' : κ) (v : ν) (rest : List (κ × ν)) :
    lookup k ((k', v) :: rest) = if k = k' then some v else lookup k rest := by
  by_cases h : k = k'
  · subst h
    simp [lookup]
  · simp [lookup, h]

omit [TransOrd κ] in
theorem lookup_place [DecidableEq κ] (k k' : κ) (v : ν) (l : List (κ × ν)) :
    lookup k (place k' v l) = if k = k' then some v else lookup k l := by
  induction l with
  | nil => rw [place, lookup_cons]
  | cons e rest ih =>
    obtain ⟨j, w⟩ := e
    unfold place
    cases h : compare k' j with
    | lt => simp only [lookup_cons]
    | eq =>
      have : k' = j := Std.LawfulEqCmp.eq_of_compare h
      subst this
      simp only [lookup_cons]
      split <;> rfl
    | gt =>
      simp only [lookup_cons, ih]
      by_cases hk : k = k'
      · subst hk
        have : k ≠ j := by
          rintro rfl
          rw [compare_refl] at h
          cases h
        simp [this]
      · simp [hk]

omit [TransOrd κ] [LawfulEqOrd κ] in
theorem fst_mem_place {k : κ} {v : ν} {e : κ × ν} {l : List (κ × ν)} (h : e ∈ place k v l) :
    e.1 = k ∨ e ∈ l := by
  induction l with
  | nil =>
    simp only [place, List.mem_singleton] at h
    exact .inl (h ▸ rfl)
  | cons d rest ih =>
    obtain ⟨j, w⟩ := d
    unfold place at h
    split at h
    · rcases List.mem_cons.1 h with rfl | h
      · exact .inl rfl
      · exact .inr h
    · rcases List.mem_cons.1 h with rfl | h
      · exact .inl rfl
      · exact .inr (List.mem_cons_of_mem _ h)
    · rcases List.mem_cons.1 h with rfl | h
      · exact .inr (by simp)
      · exact (ih h).imp_right (List.mem_cons_of_mem _)

theorem place_ascending {k : κ} {v : ν} {l : List (κ × ν)}
    (h : l.Pairwise fun a b => compare a.1 b.1 = .lt) :
    (place k v l).Pairwise fun a b => compare a.1 b.1 = .lt := by
  induction l with
  | nil => simp [place]
  | cons e rest ih =>
    obtain ⟨j, w⟩ := e
    have hj := List.pairwise_cons.1 h
    unfold place
    cases hk : compare k j with
    | lt =>
      refine List.pairwise_cons.2 ⟨?_, h⟩
      intro x hx
      rcases List.mem_cons.1 hx with rfl | hx
      · exact hk
      · exact Std.TransCmp.lt_trans hk (hj.1 x hx)
    | eq =>
      have : k = j := Std.LawfulEqCmp.eq_of_compare hk
      subst this
      exact List.pairwise_cons.2 hj
    | gt =>
      refine List.pairwise_cons.2 ⟨?_, ih hj.2⟩
      intro x hx
      rcases fst_mem_place hx with hx | hx
      · simpa only [hx] using Std.OrientedCmp.gt_iff_lt.1 hk
      · exact hj.1 x hx

/-- The map with the value under one key set. -/
def insert (m : SortedMap κ ν) (k : κ) (v : ν) : SortedMap κ ν :=
  ⟨place k v m.toList, place_ascending m.ascending⟩

/-- Sets the entries of a list one after another; of one key the last stays. -/
def insertAll (m : SortedMap κ ν) (l : List (κ × ν)) : SortedMap κ ν :=
  l.foldl (fun m e => m.insert e.1 e.2) m

/-- The map of a list of entries; of one key the last stays. -/
def ofList (l : List (κ × ν)) : SortedMap κ ν := empty.insertAll l

/-- Overlays the entries of a second map, which win over those of the first. -/
def overlay (m n : SortedMap κ ν) : SortedMap κ ν := m.insertAll n.toList

@[simp] theorem get?_insert [DecidableEq κ] (m : SortedMap κ ν) (k k' : κ) (v : ν) :
    (m.insert k' v).get? k = if k = k' then some v else m.get? k :=
  lookup_place k k' v m.toList

omit [TransOrd κ] in
theorem mem_toList_iff {m : SortedMap κ ν} {k : κ} {v : ν} :
    (k, v) ∈ m.toList ↔ m.get? k = some v := by
  obtain ⟨l, hl⟩ := m
  simp only [get?]
  induction l with
  | nil => simp [lookup]
  | cons e rest ih =>
    obtain ⟨j, w⟩ := e
    have hj := List.pairwise_cons.1 hl
    specialize ih hj.2
    by_cases hk : compare k j = .eq
    · have : k = j := Std.LawfulEqCmp.eq_of_compare hk
      subst this
      simp only [lookup, hk, List.mem_cons, Prod.mk.injEq, true_and, Option.some.injEq]
      constructor
      · rintro (rfl | h)
        · rfl
        · have := hj.1 _ h
          rw [hk] at this
          cases this
      · rintro rfl
        exact .inl rfl
    · have hne : k ≠ j := by
        rintro rfl
        exact hk (compare_refl k)
      have : lookup k ((j, w) :: rest) = lookup k rest := by
        simp only [lookup]
      rw [this, List.mem_cons, ih]
      simp [hne]

omit [TransOrd κ] in
theorem mem_keys_iff {m : SortedMap κ ν} {k : κ} : k ∈ m.keys ↔ ∃ v, m.get? k = some v := by
  simp only [keys, List.mem_map, Prod.exists, exists_and_right, exists_eq_right, mem_toList_iff]

omit [TransOrd κ] [LawfulEqOrd κ] in
theorem contains_iff {m : SortedMap κ ν} {k : κ} : m.contains k = true ↔ ∃ v, m.get? k = some v :=
  Option.isSome_iff_exists

omit [TransOrd κ] in
theorem mem_keySet {m : SortedMap κ ν} {k : κ} : k ∈ m.keySet ↔ m.contains k = true :=
  mem_keys_iff.trans contains_iff.symm

/-- A map is its view. -/
theorem ext {m n : SortedMap κ ν} (h : ∀ k, m.get? k = n.get? k) : m = n := by
  have keyEq : m.keySet = n.keySet := SortedSet.ext fun k => by
    rw [mem_keySet, mem_keySet, contains, contains, h]
  have hkeys : m.keys = n.keys := congrArg SortedSet.toList keyEq
  have hmem : ∀ e, e ∈ m.toList ↔ e ∈ n.toList := fun e => by
    rw [mem_toList_iff (k := e.1), mem_toList_iff (k := e.1), h]
  obtain ⟨l, hl⟩ := m
  obtain ⟨r, hr⟩ := n
  have : l = r := by
    simp only [keys] at hkeys
    clear h keyEq
    induction l generalizing r with
    | nil =>
      cases r with
      | nil => rfl
      | cons e r => simp at hkeys
    | cons d l ih =>
      cases r with
      | nil => simp at hkeys
      | cons e r =>
        simp only [List.map_cons, List.cons.injEq] at hkeys
        have hd := List.pairwise_cons.1 hl
        have he := List.pairwise_cons.1 hr
        have self : ∀ {a : κ}, compare a a ≠ .lt := by
          intro a ha
          rw [compare_refl] at ha
          cases ha
        have hde : d = e := by
          rcases List.mem_cons.1 ((hmem d).1 (by simp)) with h | h
          · exact h
          · exact (self (hkeys.1 ▸ he.1 d h)).elim
        subst hde
        congr 1
        refine ih hd.2 r he.2 hkeys.2 fun x => ?_
        constructor
        · intro hx
          rcases List.mem_cons.1 ((hmem x).1 (List.mem_cons_of_mem _ hx)) with h | h
          · subst h
            exact (self (hd.1 x hx)).elim
          · exact h
        · intro hx
          rcases List.mem_cons.1 ((hmem x).2 (List.mem_cons_of_mem _ hx)) with h | h
          · subst h
            exact (self (he.1 x hx)).elim
          · exact h
  subst this
  rfl

omit [TransOrd κ] in
@[simp] theorem get?_filter (m : SortedMap κ ν) (test : κ → ν → Bool) (k : κ) :
    (m.filter test).get? k = (m.get? k).filter (test k) := by
  refine Option.ext fun v => ?_
  rw [← mem_toList_iff, Option.filter_eq_some_iff, ← mem_toList_iff]
  simp [filter]

omit [TransOrd κ] in
@[simp] theorem get?_erase [DecidableEq κ] (m : SortedMap κ ν) (k k' : κ) :
    (m.erase k').get? k = if k = k' then none else m.get? k := by
  rw [erase, get?_filter]
  by_cases h : k = k'
  · subst h
    simp
  · have : compare k' k ≠ .eq := fun e => h (Std.LawfulEqCmp.eq_of_compare e).symm
    cases m.get? k <;> simp [h, this]

omit [TransOrd κ] [LawfulEqOrd κ] in
@[simp] theorem get?_mapValues (f : ν → μ) (m : SortedMap κ ν) (k : κ) :
    (m.mapValues f).get? k = (m.get? k).map f := by
  obtain ⟨l, hl⟩ := m
  simp only [get?, mapValues]
  clear hl
  induction l with
  | nil => rfl
  | cons e rest ih =>
    simp only [List.map_cons, lookup]
    split
    · rfl
    · exact ih

omit [TransOrd κ] [LawfulEqOrd κ] in
@[simp] theorem contains_mapValues (f : ν → μ) (m : SortedMap κ ν) (k : κ) :
    (m.mapValues f).contains k = m.contains k := by
  simp [contains]

omit [TransOrd κ] in
@[simp] theorem get?_filterMap (f : ν → Option μ) (m : SortedMap κ ν) (k : κ) :
    (m.filterMap f).get? k = (m.get? k).bind f := by
  refine Option.ext fun v => ?_
  rw [← mem_toList_iff, Option.bind_eq_some_iff]
  simp only [filterMap, List.mem_filterMap, Option.map_eq_some_iff, Prod.mk.injEq, Prod.exists]
  constructor
  · rintro ⟨_, w, hw, _, hf, rfl, rfl⟩
    exact ⟨w, mem_toList_iff.1 hw, hf⟩
  · rintro ⟨w, hw, hf⟩
    exact ⟨k, w, mem_toList_iff.2 hw, v, hf, rfl, rfl⟩

omit [TransOrd κ] in
@[simp] theorem get?_tabulate (ks : SortedSet κ) (f : κ → Option ν) (k : κ) :
    (tabulate ks f).get? k = if k ∈ ks then f k else none := by
  refine Option.ext fun v => ?_
  rw [← mem_toList_iff]
  by_cases h : k ∈ ks
  · simp only [tabulate, List.mem_filterMap, Option.map_eq_some_iff, Prod.mk.injEq, h, if_true]
    constructor
    · rintro ⟨_, _, _, hf, rfl, rfl⟩
      exact hf
    · intro hf
      exact ⟨k, h, v, hf, rfl, rfl⟩
  · simp only [tabulate, List.mem_filterMap, Option.map_eq_some_iff, Prod.mk.injEq, h, if_false]
    constructor
    · rintro ⟨_, hm, _, _, rfl, _⟩
      exact absurd hm h
    · intro hf
      cases hf

/-- Under a key, the last entry of the list that has it wins, else the map's own. -/
theorem get?_insertAll [DecidableEq κ] (m : SortedMap κ ν) (l : List (κ × ν)) (k : κ) :
    (m.insertAll l).get? k = ((l.reverse.find? (·.1 = k)).map Prod.snd).or (m.get? k) := by
  induction l generalizing m with
  | nil => simp [insertAll]
  | cons e rest ih =>
    have := ih (m.insert e.1 e.2)
    simp only [insertAll, List.foldl_cons] at this ⊢
    rw [this, get?_insert, List.reverse_cons, List.find?_append]
    cases hf : rest.reverse.find? (·.1 = k) with
    | some d => simp
    | none =>
      by_cases he : k = e.1
      · simp [he]
      · have he' : ¬ e.1 = k := fun h => he h.symm
        simp [he, he']

/-- A list with one value under a key gives it to its map. -/
theorem get?_ofList_eq_some_iff [DecidableEq κ] {l : List (κ × ν)} {k : κ} {v : ν}
    (hone : ∀ w w', (k, w) ∈ l → (k, w') ∈ l → w = w') :
    (ofList l).get? k = some v ↔ (k, v) ∈ l := by
  have hfound : ∀ e, l.reverse.find? (·.1 = k) = some e → e ∈ l ∧ e.1 = k := fun e he =>
    ⟨List.mem_reverse.1 (List.mem_of_find?_eq_some he), by simpa using List.find?_some he⟩
  rw [ofList, get?_insertAll, get?_empty, Option.or_none, Option.map_eq_some_iff]
  constructor
  · rintro ⟨e, he, rfl⟩
    obtain ⟨hmem, rfl⟩ := hfound e he
    exact hmem
  · intro hmem
    have hsome : (l.reverse.find? (·.1 = k)).isSome = true :=
      List.find?_isSome.2 ⟨(k, v), List.mem_reverse.2 hmem, by simp⟩
    obtain ⟨⟨k', w⟩, he⟩ := Option.isSome_iff_exists.1 hsome
    obtain ⟨hmem', rfl⟩ := hfound _ he
    exact ⟨_, he, hone w v hmem' hmem⟩

/-- An overlay has what the second map has, and else what the first has. -/
theorem get?_overlay [DecidableEq κ] (m n : SortedMap κ ν) (k : κ) :
    (m.overlay n).get? k = (n.get? k).or (m.get? k) := by
  rw [overlay, get?_insertAll]
  congr 1
  cases hfind : n.toList.reverse.find? (·.1 = k) with
  | none =>
    refine (Option.eq_none_iff_forall_ne_some.2 fun v hv => ?_).symm
    have hmem := List.mem_reverse.2 (mem_toList_iff.2 hv)
    simpa using List.find?_eq_none.1 hfind _ hmem
  | some e =>
    obtain ⟨k', v⟩ := e
    have hkey : k' = k := by simpa using List.find?_some hfind
    subst hkey
    exact (mem_toList_iff.1 (List.mem_reverse.1 (List.mem_of_find?_eq_some hfind))).symm

omit [TransOrd κ] in
theorem mem_values_iff {m : SortedMap κ ν} {v : ν} : v ∈ m.values ↔ ∃ k, m.get? k = some v := by
  simp only [values, List.mem_map, Prod.exists, exists_eq_right, mem_toList_iff]

end Lawful

end SortedMap

end StateResolution
