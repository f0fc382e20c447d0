import Mathlib.Data.List.Forall2

/-!
# Computations that can fail

What a successful computation over `Except` says about its parts, and when a computation
over a list succeeds.  The resolver is written in this monad throughout, so these are the
lemmas by which its definitions are taken apart.
-/

namespace StateResolution.Fallible

variable {ε α β : Type}

theorem bind_eq_ok {x : Except ε α} {f : α → Except ε β} {b : β} :
    (x >>= f) = .ok b ↔ ∃ a, x = .ok a ∧ f a = .ok b := by
  cases x with
  | ok a =>
    constructor
    · intro h
      exact ⟨a, rfl, h⟩
    · rintro ⟨_, ⟨⟩, h⟩
      exact h
  | error e =>
    constructor
    · intro h
      cases h
    · rintro ⟨_, h, -⟩
      cases h

/-- A check has nothing to hand on. -/
theorem check_bind_eq_ok {x : Except ε Unit} {f : Unit → Except ε β} {b : β} :
    (x >>= f) = .ok b ↔ x = .ok () ∧ f () = .ok b :=
  bind_eq_ok.trans Unique.exists_iff

theorem ok_bind (a : α) (f : α → Except ε β) : (Except.ok a >>= f) = f a := rfl

theorem pure_eq_ok {a b : α} : (pure a : Except ε α) = .ok b ↔ a = b := by
  constructor
  · rintro ⟨⟩
    rfl
  · rintro rfl
    rfl

theorem bind_eq_error {x : Except ε α} {f : α → Except ε β} {e : ε} :
    (x >>= f) = .error e ↔ x = .error e ∨ ∃ a, x = .ok a ∧ f a = .error e := by
  cases x with
  | ok a =>
    constructor
    · intro h
      exact .inr ⟨a, rfl, h⟩
    · rintro (h | ⟨_, ⟨⟩, h⟩)
      · cases h
      · exact h
  | error d =>
    constructor
    · rintro ⟨⟩
      exact .inl rfl
    · rintro (⟨⟨⟩⟩ | ⟨_, h, -⟩)
      · rfl
      · cases h

/-- Past a part that succeeds the fault lies in the rest. -/
theorem error_of_bind {x : Except ε α} {f : α → Except ε β} {a : α} {e : ε} (hx : x = .ok a)
    (h : (x >>= f) = .error e) : f a = .error e := by
  cases hx
  exact h

theorem exists_of_any {x : Except ε α} {test : α → Bool} (h : x.toOption.any test = true) :
    ∃ a, x = .ok a ∧ test a = true := by
  cases x with
  | ok a => exact ⟨a, rfl, h⟩
  | error e => cases h

/-- A row of computations succeeds with the results of its members. -/
theorem mapM_eq_ok {f : α → Except ε β} {l : List α} {r : List β} :
    l.mapM f = .ok r ↔ List.Forall₂ (fun a b => f a = .ok b) l r := by
  induction l generalizing r with
  | nil =>
    rw [List.mapM_nil, pure_eq_ok, List.forall₂_nil_left_iff, eq_comm]
  | cons a l ih =>
    simp only [List.mapM_cons, bind_eq_ok, pure_eq_ok, ih]
    constructor
    · rintro ⟨b, hb, bs, hbs, rfl⟩
      exact .cons hb hbs
    · rintro (_ | ⟨hb, hbs⟩)
      exact ⟨_, hb, _, hbs, rfl⟩

theorem mem_mapM {f : α → Except ε β} {l : List α} {r : List β} (h : l.mapM f = .ok r) (b : β) :
    b ∈ r ↔ ∃ a ∈ l, f a = .ok b := by
  induction mapM_eq_ok.1 h with
  | nil => simp
  | @cons a c l r hac htail ih =>
    rw [List.mem_cons, List.exists_mem_cons_iff, ih (mapM_eq_ok.2 htail), hac, Except.ok.injEq,
      eq_comm]

/-- Where a row succeeds, each member does. -/
theorem exists_of_mapM {f : α → Except ε β} {l : List α} {r : List β} (h : l.mapM f = .ok r)
    {a : α} (ha : a ∈ l) : ∃ b, f a = .ok b := by
  induction mapM_eq_ok.1 h with
  | nil => cases ha
  | cons hab htail ih =>
    rcases List.mem_cons.1 ha with rfl | ha
    · exact ⟨_, hab⟩
    · exact ih (mapM_eq_ok.2 htail) ha

/-- A row that names where each result comes from names the members. -/
theorem map_of_mapM {f : α → Except ε β} {source : β → α} {l : List α} {r : List β}
    (hsource : ∀ a b, f a = .ok b → source b = a) (h : l.mapM f = .ok r) :
    r.map source = l := by
  induction mapM_eq_ok.1 h with
  | nil => rfl
  | cons hab htail ih => rw [List.map_cons, hsource _ _ hab, ih (mapM_eq_ok.2 htail)]

theorem mapM_congr {f g : α → Except ε β} {l : List α} (h : ∀ a ∈ l, f a = g a) :
    l.mapM f = l.mapM g := by
  induction l with
  | nil => rfl
  | cons a l ih =>
    rw [List.mapM_cons, List.mapM_cons, h a List.mem_cons_self,
      ih fun a' ha' => h a' (List.mem_cons_of_mem _ ha')]

theorem exists_mapM {f : α → Except ε β} {l : List α} (h : ∀ a ∈ l, ∃ b, f a = .ok b) :
    ∃ r, l.mapM f = .ok r := by
  induction l with
  | nil => exact ⟨[], rfl⟩
  | cons a l ih =>
    obtain ⟨b, hb⟩ := h a List.mem_cons_self
    obtain ⟨r, hr⟩ := ih fun a' ha' => h a' (List.mem_cons_of_mem _ ha')
    exact ⟨b :: r, mapM_eq_ok.2 (.cons hb (mapM_eq_ok.1 hr))⟩

/-- A row that fails has a member that does. -/
theorem exists_of_mapM_error {f : α → Except ε β} {l : List α} {e : ε}
    (h : l.mapM f = .error e) : ∃ a ∈ l, f a = .error e := by
  induction l with
  | nil => cases h
  | cons a l ih =>
    rw [List.mapM_cons] at h
    rcases bind_eq_error.1 h with h | ⟨b, -, h⟩
    · exact ⟨a, List.mem_cons_self, h⟩
    · rcases bind_eq_error.1 h with h | ⟨bs, -, h⟩
      · obtain ⟨a', ha', h⟩ := ih h
        exact ⟨a', List.mem_cons_of_mem _ ha', h⟩
      · cases h

/-- What each step of a fold keeps holds in the end. -/
theorem foldlM_keeps {f : β → α → Except ε β} {P : β → Prop} {l : List α} {b b' : β}
    (hstep : ∀ a ∈ l, ∀ c c', P c → f c a = .ok c' → P c') (hb : P b)
    (h : l.foldlM f b = .ok b') : P b' := by
  induction l generalizing b with
  | nil =>
    cases pure_eq_ok.1 h
    exact hb
  | cons a l ih =>
    obtain ⟨c, hc, hrest⟩ := bind_eq_ok.1 h
    refine ih (fun a' ha' => hstep a' (List.mem_cons_of_mem _ ha')) ?_ hrest
    exact hstep a List.mem_cons_self b c hb hc

theorem exists_foldlM {f : β → α → Except ε β} {l : List α}
    (h : ∀ a ∈ l, ∀ b, ∃ b', f b a = .ok b') (b : β) : ∃ b', l.foldlM f b = .ok b' := by
  induction l generalizing b with
  | nil => exact ⟨b, rfl⟩
  | cons a l ih =>
    obtain ⟨c, hc⟩ := h a List.mem_cons_self b
    obtain ⟨b', hb'⟩ := ih (fun a' ha' => h a' (List.mem_cons_of_mem _ ha')) c
    exact ⟨b', bind_eq_ok.2 ⟨c, hc, hb'⟩⟩

/-- A row of checks passes when each of them does. -/
theorem forM_eq_ok {f : α → Except ε Unit} {l : List α} :
    l.forM f = .ok () ↔ ∀ a ∈ l, f a = .ok () := by
  induction l with
  | nil => exact ⟨fun _ _ h => absurd h List.not_mem_nil, fun _ => rfl⟩
  | cons a l ih => rw [List.forall_mem_cons, ← ih, List.forM, check_bind_eq_ok]

theorem exists_filterM {test : α → Except ε Bool} {l : List α}
    (h : ∀ a ∈ l, ∃ b, test a = .ok b) : ∃ r, l.filterM test = .ok r := by
  suffices haux : ∀ kept, ∃ r, l.filterAuxM test kept = .ok r by
    obtain ⟨r, hr⟩ := haux []
    exact ⟨r.reverse, bind_eq_ok.2 ⟨r, hr, rfl⟩⟩
  induction l with
  | nil => exact fun kept => ⟨kept, rfl⟩
  | cons a l ih =>
    intro kept
    obtain ⟨b, hb⟩ := h a List.mem_cons_self
    obtain ⟨r, hr⟩ := ih (fun a' ha' => h a' (List.mem_cons_of_mem _ ha')) (cond b (a :: kept) kept)
    exact ⟨r, bind_eq_ok.2 ⟨b, hb, hr⟩⟩

theorem mem_filterAuxM {test : α → Except ε Bool} {l kept r : List α}
    (h : l.filterAuxM test kept = .ok r) (a : α) :
    a ∈ r ↔ a ∈ kept ∨ a ∈ l ∧ test a = .ok true := by
  induction l generalizing kept with
  | nil =>
    cases pure_eq_ok.1 h
    simp
  | cons c l ih =>
    obtain ⟨b, hb, hrest⟩ := bind_eq_ok.1 h
    rw [ih hrest]
    cases b with
    | true =>
      simp only [cond_true, List.mem_cons]
      constructor
      · rintro ((rfl | hkept) | ⟨hl, ha⟩)
        · exact .inr ⟨.inl rfl, hb⟩
        · exact .inl hkept
        · exact .inr ⟨.inr hl, ha⟩
      · rintro (hkept | ⟨rfl | hl, ha⟩)
        · exact .inl (.inr hkept)
        · exact .inl (.inl rfl)
        · exact .inr ⟨hl, ha⟩
    | false =>
      simp only [cond_false, List.mem_cons]
      constructor
      · rintro (hkept | ⟨hl, ha⟩)
        · exact .inl hkept
        · exact .inr ⟨.inr hl, ha⟩
      · rintro (hkept | ⟨rfl | hl, ha⟩)
        · exact .inl hkept
        · rw [hb] at ha
          cases ha
        · exact .inr ⟨hl, ha⟩

theorem mem_filterM {test : α → Except ε Bool} {l r : List α} (h : l.filterM test = .ok r)
    (a : α) : a ∈ r ↔ a ∈ l ∧ test a = .ok true := by
  obtain ⟨kept, hkept, hr⟩ := bind_eq_ok.1 h
  cases pure_eq_ok.1 hr
  rw [List.mem_reverse, mem_filterAuxM hkept]
  simp

end StateResolution.Fallible
