import StateResolution.Digest.Fingerprint

/-!
# The order of texts and of their bytes

Texts are compared by the numbers of their characters.  Their bytes are in the same order
(`utf8_lt_iff`), so it does not matter which of the two a list is sorted by.

A character is written as a first byte and up to three further ones.  The further bytes hold
six bits of its number each, the highest first, so among characters with as many of them the
bytes are in the order of the numbers (`written_lt`).  The first byte of a character with more
of them is greater (`Takes.first_lt`).  Either way two characters are told apart before the
bytes of one of them end, whatever comes behind.
-/

namespace StateResolution

/-! ## Rows of bytes -/

section Rows

variable {α β : Type} [LT α] [LT β] {write : α → List β} {l m : List α}

/-- Rows of values keep their order when each value is written out, if two values are told
apart whatever comes behind them. -/
theorem flatMap_lt (hfilled : ∀ a, write a ≠ [])
    (hwrite : ∀ a b, a < b → ∀ r s, write a ++ r < write b ++ s) (h : l < m) :
    l.flatMap write < m.flatMap write := by
  induction h with
  | @nil b m =>
    rw [List.flatMap_nil, List.flatMap_cons]
    obtain ⟨x, rest, hx⟩ := List.exists_cons_of_ne_nil (hfilled b)
    rw [hx]
    exact List.nil_lt_cons x _
  | rel hab => exact hwrite _ _ hab _ _
  | cons _ ih => exact List.append_left_lt ih

end Rows

/-! ## Characters -/

variable {n m j k : Nat}

/-- The bits of a first byte that tell how many bytes follow it. -/
def countMark : Nat → Nat
  | 0 => 0
  | 1 => 0xc0
  | 2 => 0xe0
  | _ => 0xf0

/-- What is left of a number for its first byte. -/
def leading : Nat → Nat → Nat
  | 0, n => n
  | further + 1, n => leading further (n / 64)

/-- A number in a first byte, which has a mark, and some further bytes. -/
def written (mark : Nat) : Nat → Nat → List UInt8
  | 0, n => [UInt8.ofNat (mark + n)]
  | further + 1, n => written mark further (n / 64) ++ [UInt8.ofNat (0x80 + n % 64)]

/-- How many further bytes the number of a character takes. -/
inductive Takes (n : Nat) : Nat → Prop
  | none : n ≤ 0x7f → Takes n 0
  | one : 0x7f < n → n ≤ 0x7ff → Takes n 1
  | two : 0x7ff < n → n ≤ 0xffff → Takes n 2
  | three : 0xffff < n → n < 0x110000 → Takes n 3

theorem exists_takes (c : Char) :
    ∃ k, Takes c.toNat k ∧ String.utf8EncodeChar c = written (countMark k) k c.toNat := by
  have hvalid : c.toNat < 0x110000 := by
    have h := c.valid
    simp only [UInt32.isValidChar, Nat.isValidChar] at h
    show c.val.toNat < _
    omega
  fun_cases String.utf8EncodeChar c with
  | case1 v h =>
    refine ⟨0, .none h, ?_⟩
    rw [countMark, written, Nat.zero_add]
    rfl
  | case2 v h h' =>
    refine ⟨1, .one (Nat.lt_of_not_le h) h', ?_⟩
    have hfirst : v / 64 % 32 = v / 64 := by omega
    rw [show c.toNat = v from rfl, hfirst]
    simp only [countMark, written, List.cons_append, List.nil_append, Nat.add_comm]
  | case3 v h h' h'' =>
    refine ⟨2, .two (Nat.lt_of_not_le h') h'', ?_⟩
    have hfirst : v / 4096 % 16 = v / 64 / 64 := by omega
    rw [show c.toNat = v from rfl, hfirst]
    simp only [countMark, written, List.cons_append, List.nil_append, Nat.add_comm]
  | case4 v h h' h'' =>
    refine ⟨3, .three (Nat.lt_of_not_le h'') hvalid, ?_⟩
    rw [show c.toNat = v from rfl] at hvalid ⊢
    have hfirst : v / 262144 % 8 = v / 64 / 64 / 64 := by omega
    have hsecond : v / 4096 = v / 64 / 64 := by omega
    rw [hfirst, hsecond]
    simp only [countMark, written, List.cons_append, List.nil_append, Nat.add_comm]

theorem Takes.le (hn : Takes n j) (hm : Takes m k) (hlt : n < m) : j ≤ k := by
  cases hn <;> cases hm <;> omega

theorem Takes.first_lt (hn : Takes n j) (hm : Takes m k) (hlt : j < k) :
    countMark j + leading j n < countMark k + leading k m := by
  cases hn <;> cases hm <;> simp only [countMark, leading] <;> omega

theorem Takes.first_lt_size (hn : Takes n k) : countMark k + leading k n < 256 := by
  cases hn <;> simp only [countMark, leading] <;> omega

theorem ofNat_lt (hlt : n < m) (hm : m < 256) : UInt8.ofNat n < UInt8.ofNat m := by
  rw [UInt8.lt_iff_toNat_lt, UInt8.toNat_ofNat', UInt8.toNat_ofNat']
  omega

theorem exists_written (mark k n : Nat) :
    ∃ rest, written mark k n = UInt8.ofNat (mark + leading k n) :: rest := by
  induction k generalizing n with
  | zero => exact ⟨[], rfl⟩
  | succ k ih =>
    obtain ⟨rest, h⟩ := ih (n / 64)
    exact ⟨_, by rw [written, h, List.cons_append, leading]⟩

theorem written_lt {mark : Nat} (hfirst : mark + leading k m < 256) (hlt : n < m)
    (r s : List UInt8) : written mark k n ++ r < written mark k m ++ s := by
  induction k generalizing n m r s with
  | zero => exact List.cons_lt_cons_iff.2 (.inl (ofNat_lt (Nat.add_lt_add_left hlt _) hfirst))
  | succ k ih =>
    rw [written, written, List.append_assoc, List.append_assoc]
    by_cases hdiv : n / 64 < m / 64
    · exact ih hfirst hdiv _ _
    · -- Only the last six bits differ.
      have hsame : n / 64 = m / 64 := by omega
      rw [hsame]
      refine List.append_left_lt (List.cons_lt_cons_iff.2 (.inl (ofNat_lt ?_ ?_))) <;> omega

theorem utf8EncodeChar_lt (c d : Char) (h : c < d) (r s : List UInt8) :
    String.utf8EncodeChar c ++ r < String.utf8EncodeChar d ++ s := by
  have hlt : c.toNat < d.toNat := h
  obtain ⟨j, hc, hwritten⟩ := exists_takes c
  obtain ⟨k, hd, hwritten'⟩ := exists_takes d
  rw [hwritten, hwritten']
  rcases Nat.lt_or_eq_of_le (hc.le hd hlt) with hjk | rfl
  · obtain ⟨rest, hrest⟩ := exists_written (countMark j) j c.toNat
    obtain ⟨rest', hrest'⟩ := exists_written (countMark k) k d.toNat
    rw [hrest, hrest']
    exact List.cons_lt_cons_iff.2 (.inl (ofNat_lt (hc.first_lt hd hjk) hd.first_lt_size))
  · exact written_lt hd.first_lt_size hlt r s

/-! ## Texts -/

theorem utf8_eq_flatMap (s : String) : utf8 s = s.toList.flatMap String.utf8EncodeChar := by
  have hbytes : s.toUTF8 = s.toList.utf8Encode := by
    rw [← String.toByteArray_ofList, String.ofList_toList]
    rfl
  rw [utf8, hbytes]
  exact List.toList_data_toByteArray

theorem utf8_lt {s t : String} (h : s < t) : utf8 s < utf8 t := by
  rw [utf8_eq_flatMap, utf8_eq_flatMap]
  exact flatMap_lt (fun _ => String.utf8EncodeChar_ne_nil) utf8EncodeChar_lt h

/-- A text is before another if its bytes are before the other's. -/
theorem utf8_lt_iff {s t : String} : utf8 s < utf8 t ↔ s < t := by
  refine ⟨fun h => Decidable.byContradiction fun hnot => ?_, utf8_lt⟩
  have hle : t ≤ s := String.not_lt.1 hnot
  by_cases hge : s ≤ t
  · rw [String.le_antisymm hge hle] at h
    exact List.lt_irrefl _ h
  · exact List.lt_asymm h (utf8_lt (String.not_le.1 hge))

end StateResolution
