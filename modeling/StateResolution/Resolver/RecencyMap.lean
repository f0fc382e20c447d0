/-!
# Maps that forget

A map with room for a number of entries.  Where there is no room for another one, the entry
that has gone unused for longest makes room.

`Recency` has the operations of such a map, and `LawfulRecency` says what is asked of them.  A
map shows two things: what it has under a key, and its keys in the order in which they were
last used.  The laws say of each operation what becomes of both, and no more of a map is used
anywhere.  `RecencyMap` keeps a list of its entries in that order.
-/

namespace StateResolution

/-- A map with room for a number of entries. -/
class Recency (m : Type) (κ ν : outParam Type) where
  /-- A map without entries.  There is always room for one. -/
  ofCapacity : Nat → m
  /-- How many entries there is room for. -/
  capacity : m → Nat
  /-- The keys, the one used last first. -/
  keys : m → List κ
  /-- What is under a key, without using it. -/
  peek? : m → κ → Option ν
  /-- What is under a key, which is used by that. -/
  get : m → κ → Option ν × m
  /-- Puts a value under a key, which is used by that. -/
  put : m → κ → ν → m
  /-- Forgets every entry. -/
  clear : m → m

/-- What is asked of such a map. -/
class LawfulRecency (m : Type) (κ ν : outParam Type) [DecidableEq κ] [Recency m κ ν] : Prop where
  nodup_keys (c : m) : (Recency.keys c).Nodup
  mem_keys_iff (c : m) (k : κ) : k ∈ Recency.keys c ↔ ∃ v, Recency.peek? c k = some v
  length_keys_le (c : m) : (Recency.keys c).length ≤ Recency.capacity c
  capacity_pos (c : m) : 0 < Recency.capacity c
  capacity_ofCapacity (n : Nat) : Recency.capacity (Recency.ofCapacity n : m) = max n 1
  keys_ofCapacity (n : Nat) : Recency.keys (Recency.ofCapacity n : m) = []
  get_fst (c : m) (k : κ) : (Recency.get c k).1 = Recency.peek? c k
  /-- A key that is not there is not used. -/
  get_of_none {c : m} {k : κ} : Recency.peek? c k = none → (Recency.get c k).2 = c
  keys_get {c : m} {k : κ} : k ∈ Recency.keys c →
    Recency.keys (Recency.get c k).2 = k :: (Recency.keys c).erase k
  peek?_get (c : m) (k j : κ) : Recency.peek? (Recency.get c k).2 j = Recency.peek? c j
  capacity_get (c : m) (k : κ) : Recency.capacity (Recency.get c k).2 = Recency.capacity c
  /-- The key used longest ago is forgotten if there are too many. -/
  keys_put (c : m) (k : κ) (v : ν) : Recency.keys (Recency.put c k v) =
    (k :: (Recency.keys c).erase k).take (Recency.capacity c)
  peek?_put {c : m} {k j : κ} {v : ν} : j ∈ Recency.keys (Recency.put c k v) →
    Recency.peek? (Recency.put c k v) j = if j = k then some v else Recency.peek? c j
  capacity_put (c : m) (k : κ) (v : ν) :
    Recency.capacity (Recency.put c k v) = Recency.capacity c
  keys_clear (c : m) : Recency.keys (Recency.clear c) = []
  capacity_clear (c : m) : Recency.capacity (Recency.clear c) = Recency.capacity c

namespace LawfulRecency

section Laws

variable {m κ ν : Type} [DecidableEq κ] [Recency m κ ν] [LawfulRecency m κ ν] {c : m} {k j : κ}
  {v w : ν}

theorem peek?_eq_none_iff : Recency.peek? c k = none ↔ k ∉ Recency.keys c := by
  rw [mem_keys_iff, Option.eq_none_iff_forall_ne_some, not_exists]

theorem peek?_ofCapacity (n : Nat) (k : κ) :
    Recency.peek? (Recency.ofCapacity n : m) k = none := by
  rw [peek?_eq_none_iff, keys_ofCapacity]
  exact List.not_mem_nil

/-- What is put under a key is found there. -/
theorem peek?_put_self (c : m) (k : κ) (v : ν) :
    Recency.peek? (Recency.put c k v) k = some v := by
  have hpos := capacity_pos c
  have hmem : k ∈ Recency.keys (Recency.put c k v) := by
    rw [keys_put]
    cases hcapacity : Recency.capacity c with
    | zero => omega
    | succ n => exact List.mem_cons_self
  rw [peek?_put hmem, if_pos rfl]

/-- A value that is found is the one that was put, or was there before. -/
theorem of_peek?_put (h : Recency.peek? (Recency.put c k v) j = some w) :
    j = k ∧ w = v ∨ Recency.peek? c j = some w := by
  rw [peek?_put ((mem_keys_iff _ j).2 ⟨w, h⟩)] at h
  split at h
  · next hj => exact .inl ⟨hj, (Option.some.inj h).symm⟩
  · exact .inr h

end Laws

end LawfulRecency

/-- A list of entries under different keys, the one used last first. -/
structure RecencyMap (κ ν : Type) where
  /-- How many entries there is room for. -/
  capacity : Nat
  entries : List (κ × ν)
  room : 0 < capacity
  apart : (entries.map Prod.fst).Nodup
  bounded : entries.length ≤ capacity

namespace RecencyMap

variable {κ ν : Type} [DecidableEq κ]

/-- What is under a key. -/
def find? (c : RecencyMap κ ν) (k : κ) : Option ν := (c.entries.find? (·.1 = k)).map Prod.snd

/-- The entries other than that of a key. -/
def others (c : RecencyMap κ ν) (k : κ) : List (κ × ν) := c.entries.filter (·.1 ≠ k)

theorem map_fst_others (c : RecencyMap κ ν) (k : κ) :
    (c.others k).map Prod.fst = (c.entries.map Prod.fst).erase k := by
  rw [c.apart.erase_eq_filter, List.filter_map, others]
  exact congrArg _ (List.filter_congr fun e _ => Bool.eq_iff_iff.2 (by simp))

/-- The map with an entry in front of all others.  The last is left out if there are too many. -/
def front (c : RecencyMap κ ν) (k : κ) (v : ν) : RecencyMap κ ν where
  capacity := c.capacity
  entries := ((k, v) :: c.others k).take c.capacity
  room := c.room
  apart := by
    have hkeys : (((k, v) :: c.others k).map Prod.fst).Nodup := by
      rw [List.map_cons, map_fst_others]
      exact List.nodup_cons.2 ⟨c.apart.not_mem_erase, c.apart.erase k⟩
    exact hkeys.sublist ((List.take_sublist ..).map _)
  bounded := List.length_take_le ..

instance : Recency (RecencyMap κ ν) κ ν where
  ofCapacity n := ⟨max n 1, [], by omega, .nil, Nat.zero_le _⟩
  capacity := capacity
  keys c := c.entries.map Prod.fst
  peek? := find?
  get c k :=
    match c.find? k with
    | some v => (some v, c.front k v)
    | none => (none, c)
  put := front
  clear c := { c with entries := [], apart := .nil, bounded := Nat.zero_le _ }

variable {c : RecencyMap κ ν} {k j : κ} {v w : ν}

theorem find?_eq_some_iff : c.find? k = some v ↔ (k, v) ∈ c.entries := by
  constructor
  · intro h
    obtain ⟨⟨i, w⟩, hfind, rfl⟩ := Option.map_eq_some_iff.1 h
    have hi : i = k := by simpa using List.find?_some hfind
    rw [← hi]
    exact List.mem_of_find?_eq_some hfind
  · intro h
    obtain ⟨before, after, hsplit⟩ := List.append_of_mem h
    have happart := c.apart
    rw [hsplit, List.map_append, List.map_cons, List.nodup_append] at happart
    have hbefore : ∀ e ∈ before, e.1 ≠ k := fun e he =>
      happart.2.2 _ (List.mem_map_of_mem he) _ List.mem_cons_self
    exact Option.map_eq_some_iff.2 ⟨(k, v), List.find?_eq_some_iff_append.2
      ⟨by simp, before, after, hsplit, fun e he => by simp [hbefore e he]⟩, rfl⟩

theorem mem_map_fst_iff : k ∈ c.entries.map Prod.fst ↔ ∃ v, c.find? k = some v := by
  rw [List.mem_map]
  constructor
  · rintro ⟨⟨i, v⟩, hv, rfl⟩
    exact ⟨v, find?_eq_some_iff.2 hv⟩
  · rintro ⟨v, hv⟩
    exact ⟨_, find?_eq_some_iff.1 hv, rfl⟩

theorem find?_eq_none_iff : c.find? k = none ↔ k ∉ c.entries.map Prod.fst := by
  rw [mem_map_fst_iff, Option.eq_none_iff_forall_ne_some, not_exists]

theorem map_fst_front : (c.front k v).entries.map Prod.fst =
    (k :: (c.entries.map Prod.fst).erase k).take c.capacity := by
  rw [front, List.map_take, List.map_cons, map_fst_others]

/-- Nothing is left out if the key is there already. -/
theorem map_fst_front_of_mem (h : k ∈ c.entries.map Prod.fst) :
    (c.front k v).entries.map Prod.fst = k :: (c.entries.map Prod.fst).erase k := by
  rw [map_fst_front]
  refine List.take_of_length_le ?_
  have hbounded := c.bounded
  have hpos := List.length_pos_of_mem h
  rw [List.length_map] at hpos
  rw [List.length_cons, List.length_erase_of_mem h, List.length_map]
  omega

theorem find?_front (hj : j ∈ (c.front k v).entries.map Prod.fst) :
    (c.front k v).find? j = if j = k then some v else c.find? j := by
  obtain ⟨⟨i, w⟩, hw, rfl⟩ := List.mem_map.1 hj
  rw [find?_eq_some_iff.2 hw]
  rcases List.mem_cons.1 (List.mem_of_mem_take hw) with heq | hold
  · cases heq
    rw [if_pos rfl]
  · have hne : i ≠ k := by simpa using (List.mem_filter.1 hold).2
    rw [if_neg hne, find?_eq_some_iff.2 (List.mem_filter.1 hold).1]

/-- Looking a key up leaves everything where it is. -/
theorem find?_front_of_find? (h : c.find? k = some v) (j : κ) :
    (c.front k v).find? j = c.find? j := by
  have hmem : k ∈ c.entries.map Prod.fst := List.mem_map_of_mem (find?_eq_some_iff.1 h)
  by_cases hj : j ∈ (c.front k v).entries.map Prod.fst
  · rw [find?_front hj]
    split
    · next heq => rw [heq, h]
    · rfl
  · have hold : j ∉ c.entries.map Prod.fst := by
      rw [map_fst_front_of_mem hmem, List.mem_cons, not_or] at hj
      exact fun hin => hj.2 ((List.mem_erase_of_ne hj.1).2 hin)
    rw [find?_eq_none_iff.2 hj, find?_eq_none_iff.2 hold]

/-- A lookup finds nothing and changes nothing, or it brings what it finds to the front. -/
theorem get_cases (c : RecencyMap κ ν) (k : κ) :
    c.find? k = none ∧ Recency.get c k = (none, c) ∨
      ∃ v, c.find? k = some v ∧ Recency.get c k = (some v, c.front k v) := by
  cases hfind : c.find? k with
  | none => exact .inl ⟨rfl, by simp only [Recency.get, hfind]⟩
  | some v => exact .inr ⟨v, rfl, by simp only [Recency.get, hfind]⟩

instance : LawfulRecency (RecencyMap κ ν) κ ν where
  nodup_keys c := c.apart
  mem_keys_iff _ _ := mem_map_fst_iff
  length_keys_le c := Nat.le_trans (Nat.le_of_eq (List.length_map _)) c.bounded
  capacity_pos c := c.room
  capacity_ofCapacity _ := rfl
  keys_ofCapacity _ := rfl
  get_fst c k := by
    rcases get_cases c k with ⟨hfind, hget⟩ | ⟨v, hfind, hget⟩ <;> exact hget ▸ hfind.symm
  get_of_none {c k} h := by
    rcases get_cases c k with ⟨-, hget⟩ | ⟨v, hfind, -⟩
    · rw [hget]
    · cases hfind.symm.trans h
  keys_get {c k} h := by
    rcases get_cases c k with ⟨hfind, -⟩ | ⟨v, -, hget⟩
    · exact absurd h (find?_eq_none_iff.1 hfind)
    · rw [hget]
      exact map_fst_front_of_mem h
  peek?_get c k j := by
    rcases get_cases c k with ⟨-, hget⟩ | ⟨v, hfind, hget⟩ <;> rw [hget]
    exact find?_front_of_find? hfind j
  capacity_get c k := by
    rcases get_cases c k with ⟨-, hget⟩ | ⟨v, -, hget⟩ <;> rw [hget]
    rfl
  keys_put _ _ _ := map_fst_front
  peek?_put h := find?_front h
  capacity_put _ _ _ := rfl
  keys_clear _ := rfl
  capacity_clear _ := rfl

end RecencyMap

end StateResolution
