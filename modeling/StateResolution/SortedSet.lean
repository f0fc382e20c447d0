/-!
# Sorted sets

A set over an ordered type, kept as the list of its members in strictly
ascending order.  The order is part of what the program shows: event ids are
listed, walked and compared in it.  A member occurs once, so two sets with the
same members are the same list (`SortedSet.ext`), and how a set was built
leaves no trace.
-/

namespace StateResolution

open Std (TransOrd LawfulEqOrd)

/-- A value is level with itself. -/
theorem compare_refl {α : Type} [Ord α] [LawfulEqOrd α] (a : α) : compare a a = .eq :=
  Std.ReflCmp.compare_self

/-- A finite set, as its members in strictly ascending order. -/
structure SortedSet (α : Type) [Ord α] where
  /-- The members, smallest first. -/
  toList : List α
  /-- Each member is smaller than every later one. -/
  ascending : toList.Pairwise fun a b => compare a b = .lt

namespace SortedSet

variable {α : Type} [Ord α]

instance : Membership α (SortedSet α) := ⟨fun s a => a ∈ s.toList⟩

instance [DecidableEq α] : DecidableEq (SortedSet α) := fun s t =>
  decidable_of_iff (s.toList = t.toList) (by cases s; cases t; simp)

theorem mem_def {a : α} {s : SortedSet α} : a ∈ s ↔ a ∈ s.toList := Iff.rfl

/-- The set without members. -/
def empty : SortedSet α := ⟨[], .nil⟩

instance : Inhabited (SortedSet α) := ⟨empty⟩

@[simp] theorem not_mem_empty (a : α) : ¬ a ∈ (empty : SortedSet α) := by
  simp [mem_def, empty]

/-- Puts a value into its place of an ascending list, unless it is there. -/
def place (a : α) : List α → List α
  | [] => [a]
  | b :: rest =>
    match compare a b with
    | .lt => a :: b :: rest
    | .eq => b :: rest
    | .gt => b :: place a rest

def size (s : SortedSet α) : Nat := s.toList.length

def contains (s : SortedSet α) (a : α) : Bool := s.toList.any fun b => compare a b == .eq

def filter (s : SortedSet α) (test : α → Bool) : SortedSet α :=
  ⟨s.toList.filter test, s.ascending.filter _⟩

@[simp] theorem mem_filter {a : α} {s : SortedSet α} {test : α → Bool} :
    a ∈ s.filter test ↔ a ∈ s ∧ test a = true := by
  simp [mem_def, filter]

/-- The set without a value. -/
def erase (s : SortedSet α) (a : α) : SortedSet α := s.filter fun b => compare a b != .eq

def isEmpty (s : SortedSet α) : Bool := s.toList.isEmpty

/-- A member occurs once. -/
theorem nodup_toList [LawfulEqOrd α] (s : SortedSet α) : s.toList.Nodup := by
  refine s.ascending.imp fun {a b} hlt heq => ?_
  subst heq
  rw [compare_refl] at hlt
  cases hlt

section Lawful

variable [TransOrd α] [LawfulEqOrd α]

omit [TransOrd α] in
theorem mem_place {a x : α} {l : List α} : x ∈ place a l ↔ x = a ∨ x ∈ l := by
  induction l with
  | nil => simp [place]
  | cons b rest ih =>
    unfold place
    cases h : compare a b with
    | lt => simp
    | eq =>
      have hab : a = b := Std.LawfulEqCmp.eq_of_compare h
      subst hab
      simp
    | gt =>
      simp only [List.mem_cons, ih]
      constructor
      · rintro (h | h | h) <;> simp [h]
      · rintro (h | h | h) <;> simp [h]

theorem place_ascending {a : α} {l : List α}
    (h : l.Pairwise fun a b => compare a b = .lt) :
    (place a l).Pairwise fun a b => compare a b = .lt := by
  induction l with
  | nil => simp [place]
  | cons b rest ih =>
    have hb := List.pairwise_cons.1 h
    unfold place
    cases hab : compare a b with
    | lt =>
      refine List.pairwise_cons.2 ⟨?_, h⟩
      intro x hx
      rcases List.mem_cons.1 hx with rfl | hx
      · exact hab
      · exact Std.TransCmp.lt_trans hab (hb.1 x hx)
    | eq => exact h
    | gt =>
      refine List.pairwise_cons.2 ⟨?_, ih hb.2⟩
      intro x hx
      rcases mem_place.1 hx with rfl | hx
      · exact Std.OrientedCmp.gt_iff_lt.1 hab
      · exact hb.1 x hx

omit [TransOrd α] in
theorem contains_iff {s : SortedSet α} {a : α} : s.contains a = true ↔ a ∈ s := by
  simp only [contains, List.any_eq_true, beq_iff_eq, mem_def]
  constructor
  · rintro ⟨b, hb, hab⟩
    rwa [Std.LawfulEqCmp.eq_of_compare hab]
  · intro h
    exact ⟨a, h, compare_refl a⟩

instance (a : α) (s : SortedSet α) : Decidable (a ∈ s) := decidable_of_iff _ contains_iff

omit [TransOrd α] in
@[simp] theorem mem_erase {a x : α} {s : SortedSet α} : x ∈ s.erase a ↔ x ∈ s ∧ x ≠ a := by
  simp only [erase, mem_filter, bne_iff_ne, ne_eq, Std.LawfulEqCmp.compare_eq_iff_eq]
  exact ⟨fun h => ⟨h.1, fun e => h.2 e.symm⟩, fun h => ⟨h.1, fun e => h.2 e.symm⟩⟩

omit [TransOrd α] in
theorem size_of_mem {a : α} {s : SortedSet α} (h : a ∈ s) : s.size = (s.erase a).size + 1 := by
  have hperm : s.toList.Perm (a :: (s.erase a).toList) := by
    refine (List.perm_ext_iff_of_nodup s.nodup_toList ?_).2 fun x => ?_
    · exact List.nodup_cons.2 ⟨fun hmem => (mem_erase.1 hmem).2 rfl, (s.erase a).nodup_toList⟩
    · rw [List.mem_cons, ← mem_def (s := s.erase a), mem_erase, ← mem_def]
      by_cases hx : x = a
      · subst hx
        simp [h]
      · simp [hx]
  exact hperm.length_eq

/-- The set with one more member. -/
def insert (s : SortedSet α) (a : α) : SortedSet α :=
  ⟨place a s.toList, place_ascending s.ascending⟩

@[simp] theorem mem_insert {a x : α} {s : SortedSet α} : x ∈ s.insert a ↔ x = a ∨ x ∈ s :=
  mem_place

/-- The set with all values of a list added. -/
def insertAll (s : SortedSet α) (l : List α) : SortedSet α := l.foldl insert s

@[simp] theorem mem_insertAll {x : α} {s : SortedSet α} {l : List α} :
    x ∈ s.insertAll l ↔ x ∈ s ∨ x ∈ l := by
  induction l generalizing s with
  | nil => simp [insertAll]
  | cons b rest ih =>
    have := @ih (s.insert b)
    simp only [insertAll, List.foldl_cons] at this ⊢
    rw [this, mem_insert, List.mem_cons]
    constructor
    · rintro ((h | h) | h) <;> simp [h]
    · rintro (h | h | h) <;> simp [h]

/-- The values of a list, sorted and each once. -/
def ofList (l : List α) : SortedSet α := empty.insertAll l

@[simp] theorem mem_ofList {x : α} {l : List α} : x ∈ ofList l ↔ x ∈ l := by
  simp [ofList]

/-- The members of either set. -/
def union (s t : SortedSet α) : SortedSet α := s.insertAll t.toList

@[simp] theorem mem_union {x : α} {s t : SortedSet α} : x ∈ s.union t ↔ x ∈ s ∨ x ∈ t := by
  simp [union, mem_def (s := t)]

omit [LawfulEqOrd α] in
/-- Strictly ascending lists with the same members are equal. -/
theorem eq_of_mem_iff {l m : List α} (hl : l.Pairwise fun a b => compare a b = .lt)
    (hm : m.Pairwise fun a b => compare a b = .lt) (h : ∀ a, a ∈ l ↔ a ∈ m) : l = m := by
  have irrefl : ∀ {a b : α}, compare a b = .lt → compare b a = .lt → False := by
    intro a b hab hba
    rw [Std.OrientedCmp.gt_of_lt hab] at hba
    cases hba
  induction l generalizing m with
  | nil =>
    cases m with
    | nil => rfl
    | cons b m => exact absurd ((h b).2 (by simp)) (by simp)
  | cons a l ih =>
    cases m with
    | nil => exact absurd ((h a).1 (by simp)) (by simp)
    | cons b m =>
      have ha := List.pairwise_cons.1 hl
      have hb := List.pairwise_cons.1 hm
      have hab : a = b := by
        rcases List.mem_cons.1 ((h a).1 (by simp)) with e | ham
        · exact e
        · rcases List.mem_cons.1 ((h b).2 (by simp)) with e | hbl
          · exact e.symm
          · exact (irrefl (ha.1 b hbl) (hb.1 a ham)).elim
      subst hab
      congr 1
      refine ih ha.2 hb.2 fun x => ?_
      constructor
      · intro hx
        rcases List.mem_cons.1 ((h x).1 (List.mem_cons_of_mem _ hx)) with e | hxm
        · subst e
          exact (irrefl (ha.1 x hx) (ha.1 x hx)).elim
        · exact hxm
      · intro hx
        rcases List.mem_cons.1 ((h x).2 (List.mem_cons_of_mem _ hx)) with e | hxl
        · subst e
          exact (irrefl (hb.1 x hx) (hb.1 x hx)).elim
        · exact hxl

omit [LawfulEqOrd α] in
/-- A set is its members. -/
theorem ext {s t : SortedSet α} (h : ∀ a, a ∈ s ↔ a ∈ t) : s = t := by
  cases s with
  | mk l hl =>
    cases t with
    | mk m hm =>
      have : l = m := eq_of_mem_iff hl hm h
      subst this
      rfl

theorem erase_of_not_mem {a : α} {s : SortedSet α} (h : a ∉ s) : s.erase a = s :=
  ext fun x => by
    rw [mem_erase, and_iff_left_of_imp]
    rintro hx rfl
    exact h hx

end Lawful

end SortedSet

end StateResolution
