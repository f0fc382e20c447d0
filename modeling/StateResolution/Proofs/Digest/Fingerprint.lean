import Mathlib.Data.List.Nodup
import StateResolution.Digest.Fingerprint

/-!
# What a fingerprint tells apart

The bytes that are hashed can be cut up in only one way.  A text stands behind its length,
a fingerprint has 32 bytes, and neither leads on into another (`SelfDelimiting`), so a row
of them has one reading.

Hence equal fingerprints of inputs come from one room and one set of states, as long as
SHA-256 has no collision among the byte strings that were hashed, and one room and one set of
states always have one fingerprint (`fingerprints_separate`).  The length has eight bytes, so
this is said of texts whose length they can hold.
-/

namespace StateResolution

variable {α : Type} {readable : α → Prop} {encode : α → List UInt8}

/-- Of two rows of bytes that start with an encoding each, one is the other only if they
start with the same value. -/
def SelfDelimiting (readable : α → Prop) (encode : α → List UInt8) : Prop :=
  ∀ a b, readable a → readable b → ∀ l m, encode a ++ l = encode b ++ m → a = b ∧ l = m

theorem SelfDelimiting.eq_of_flatMap (h : SelfDelimiting readable encode)
    (hfilled : ∀ a, encode a ≠ []) {as bs : List α} (has : ∀ a ∈ as, readable a)
    (hbs : ∀ b ∈ bs, readable b) (heq : as.flatMap encode = bs.flatMap encode) : as = bs := by
  induction as generalizing bs with
  | nil =>
    cases bs with
    | nil => rfl
    | cons b bs =>
      rw [List.flatMap_nil, List.flatMap_cons] at heq
      exact absurd (List.append_eq_nil_iff.1 heq.symm).1 (hfilled b)
  | cons a as ih =>
    cases bs with
    | nil =>
      rw [List.flatMap_nil, List.flatMap_cons] at heq
      exact absurd (List.append_eq_nil_iff.1 heq).1 (hfilled a)
    | cons b bs =>
      rw [List.forall_mem_cons] at has hbs
      rw [List.flatMap_cons, List.flatMap_cons] at heq
      obtain ⟨rfl, hrest⟩ := h a b has.1 hbs.1 _ _ heq
      rw [ih has.2 hbs.2 hrest]

/-! ## Texts behind their lengths -/

theorem length_lengthBytes (n : Nat) : (Sha256.lengthBytes n).length = 8 := rfl

/-- What is left of a number at one byte is told by that byte and what is left at the next. -/
theorem shiftRight_eq {n m shift : Nat} (hleft : n >>> (shift + 8) = m >>> (shift + 8))
    (hbyte : UInt8.ofNat (n >>> shift) = UInt8.ofNat (m >>> shift)) :
    n >>> shift = m >>> shift := by
  have hmod : (n >>> shift) % 256 = (m >>> shift) % 256 := by
    simpa using congrArg UInt8.toNat hbyte
  rw [Nat.shiftRight_add, Nat.shiftRight_add, Nat.shiftRight_eq_div_pow _ 8,
    Nat.shiftRight_eq_div_pow _ 8] at hleft
  omega

/-- The eight bytes of a number give it back, if it is below `2 ^ 64`. -/
theorem lengthBytes_inj {n m : Nat} (hn : n < UInt64.size) (hm : m < UInt64.size)
    (h : Sha256.lengthBytes n = Sha256.lengthBytes m) : n = m := by
  simp only [Sha256.lengthBytes, List.map_cons, List.map_nil, List.cons.injEq, and_true] at h
  obtain ⟨h56, h48, h40, h32, h24, h16, h8, h0⟩ := h
  have hnone : n >>> 64 = m >>> 64 := by
    rw [Nat.shiftRight_eq_zero n 64 hn, Nat.shiftRight_eq_zero m 64 hm]
  -- From the highest byte down, each step brings in one byte more.
  have hhigh : n >>> 32 = m >>> 32 :=
    shiftRight_eq (shiftRight_eq (shiftRight_eq (shiftRight_eq hnone h56) h48) h40) h32
  exact shiftRight_eq (shiftRight_eq (shiftRight_eq (shiftRight_eq hhigh h24) h16) h8) h0

theorem utf8_inj {s t : String} (h : utf8 s = utf8 t) : s = t :=
  String.toByteArray_inj.1 (ByteArray.ext (Array.toList_inj.1 h))

/-- A text whose length goes into eight bytes. -/
def Framable (s : String) : Prop := (utf8 s).length < UInt64.size

instance (s : String) : Decidable (Framable s) := inferInstanceAs (Decidable (_ < _))

theorem framed_ne_nil (s : String) : framed s ≠ [] := by
  simp [framed, Sha256.lengthBytes]

theorem selfDelimiting_framed : SelfDelimiting Framable framed := by
  intro s t hs ht l m h
  rw [framed, framed, List.append_assoc, List.append_assoc] at h
  obtain ⟨hlengths, htexts⟩ :=
    List.append_inj h (by rw [length_lengthBytes, length_lengthBytes])
  have hlength : (utf8 s).length = (utf8 t).length := lengthBytes_inj hs ht hlengths
  obtain ⟨htext, hrest⟩ := List.append_inj htexts hlength
  exact ⟨utf8_inj htext, hrest⟩

/-! ## States and inputs -/

theorem selfDelimiting_bytes : SelfDelimiting (fun _ => True) Digest.bytes := by
  intro d e _ _ l m h
  obtain ⟨hbytes, hrest⟩ := List.append_inj h (d.length_eq.trans e.length_eq.symm)
  exact ⟨Digest.ext hbytes, hrest⟩

theorem Digest.bytes_ne_nil (d : Digest) : d.bytes ≠ [] := by
  intro h
  have hlength := d.length_eq
  rw [h] at hlength
  cases hlength

/-- An entry whose texts have lengths that go into eight bytes. -/
def FramableEntry (e : StateKey × EventId) : Prop :=
  Framable e.1.type ∧ Framable e.1.key ∧ Framable e.2.text

instance (e : StateKey × EventId) : Decidable (FramableEntry e) :=
  inferInstanceAs (Decidable (_ ∧ _))

namespace StateMap

def Framable (m : StateMap) : Prop := ∀ e ∈ m.toList, FramableEntry e

instance (m : StateMap) : Decidable m.Framable := inferInstanceAs (Decidable (∀ _ ∈ _, _))

theorem entryBytes_ne_nil (e : StateKey × EventId) : entryBytes e ≠ [] := by
  rw [entryBytes, List.append_assoc]
  exact List.append_ne_nil_of_left_ne_nil (framed_ne_nil e.1.type) _

theorem selfDelimiting_entryBytes : SelfDelimiting FramableEntry entryBytes := by
  rintro ⟨⟨type, key⟩, id⟩ ⟨⟨type', key'⟩, id'⟩ ⟨htype, hkey, hid⟩ ⟨htype', hkey', hid'⟩ l m h
  simp only [entryBytes, List.append_assoc] at h
  obtain ⟨htypes, hkeys⟩ := selfDelimiting_framed _ _ htype htype' _ _ h
  obtain ⟨hkeys, hids⟩ := selfDelimiting_framed _ _ hkey hkey' _ _ hkeys
  obtain ⟨hids, hrest⟩ := selfDelimiting_framed _ _ hid hid' _ _ hids
  cases htypes
  cases hkeys
  cases EventId.ext hids
  exact ⟨rfl, hrest⟩

/-- The bytes of a state tell what the state is. -/
theorem eq_of_toBytes {m n : StateMap} (hm : m.Framable) (hn : n.Framable)
    (h : m.toBytes = n.toBytes) : m = n := by
  have hentries := selfDelimiting_entryBytes.eq_of_flatMap entryBytes_ne_nil hm hn h
  cases m
  cases n
  cases hentries
  rfl

end StateMap

theorem RoomId.framable (room : RoomId) : Framable room.text := by
  have hbounded := (Bool.and_eq_true_iff.1 room.grammatical).2
  exact Nat.lt_of_le_of_lt (of_decide_eq_true hbounded) (by decide)

namespace InputKey

/-- The bytes of a room and some states tell the room and the fingerprints of the states. -/
theorem eq_of_inputBytes {room room' : RoomId} {maps maps' : List StateMap}
    (h : inputBytes room maps = inputBytes room' maps') :
    room = room' ∧ ∀ d, d ∈ maps.map StateMap.identity ↔ d ∈ maps'.map StateMap.identity := by
  obtain ⟨htext, hrest⟩ := selfDelimiting_framed _ _ room.framable room'.framable _ _ h
  have hdigests := selfDelimiting_bytes.eq_of_flatMap Digest.bytes_ne_nil
    (fun _ _ => trivial) (fun _ _ => trivial) hrest
  refine ⟨RoomId.ext htext, fun d => ?_⟩
  rw [← SortedSet.mem_ofList, ← SortedSet.mem_ofList, SortedSet.mem_def, SortedSet.mem_def,
    hdigests]

end InputKey

/-! ## Fingerprints without collisions -/

/-- No two byte strings among some have the same hash. -/
def CollisionFree (hashed : List (List UInt8)) : Prop :=
  ∀ b ∈ hashed, ∀ b' ∈ hashed, Sha256.digest b = Sha256.digest b' → b = b'

theorem CollisionFree.of_nodup {hashed distinct : List (List UInt8)}
    (hdistinct : (distinct.map Sha256.digest).Nodup) (hsubset : hashed ⊆ distinct) :
    CollisionFree hashed := fun _ hb _ hb' =>
  List.inj_on_of_nodup_map hdistinct (hsubset hb) (hsubset hb')

namespace InputKey

/-- What is hashed for the fingerprint of a room and some states. -/
def hashed (room : RoomId) (maps : List StateMap) : List (List UInt8) :=
  inputBytes room maps :: maps.map StateMap.toBytes

variable {room room' : RoomId} {maps maps' : List StateMap} {bytes : List (List UInt8)}

theorem mem_of_identity (hfree : CollisionFree bytes) (hmaps : ∀ m ∈ maps, m.Framable)
    (hmaps' : ∀ m ∈ maps', m.Framable) (hhashed : hashed room maps ⊆ bytes)
    (hhashed' : hashed room' maps' ⊆ bytes)
    (hidentities : ∀ d, d ∈ maps.map StateMap.identity → d ∈ maps'.map StateMap.identity) :
    ∀ m ∈ maps, m ∈ maps' := by
  intro m hm
  obtain ⟨n, hn, hdigest⟩ := List.mem_map.1 (hidentities _ (List.mem_map_of_mem hm))
  have hbytes : n.toBytes = m.toBytes :=
    hfree _ (hhashed' (List.mem_cons_of_mem _ (List.mem_map_of_mem hn)))
      _ (hhashed (List.mem_cons_of_mem _ (List.mem_map_of_mem hm))) hdigest
  cases StateMap.eq_of_toBytes (hmaps' n hn) (hmaps m hm) hbytes
  exact hn

/-- Without a collision, a fingerprint tells the room and the set of the states. -/
theorem eq_of_ofInputs (hfree : CollisionFree bytes) (hmaps : ∀ m ∈ maps, m.Framable)
    (hmaps' : ∀ m ∈ maps', m.Framable) (hhashed : hashed room maps ⊆ bytes)
    (hhashed' : hashed room' maps' ⊆ bytes) (h : ofInputs room maps = ofInputs room' maps') :
    room = room' ∧ ∀ m, m ∈ maps ↔ m ∈ maps' := by
  have hbytes : inputBytes room maps = inputBytes room' maps' :=
    hfree _ (hhashed List.mem_cons_self) _ (hhashed' List.mem_cons_self)
      (congrArg InputKey.digest h)
  obtain ⟨hroom, hidentities⟩ := eq_of_inputBytes hbytes
  exact ⟨hroom, fun m =>
    ⟨mem_of_identity hfree hmaps hmaps' hhashed hhashed' (fun d => (hidentities d).1) m,
      mem_of_identity hfree hmaps' hmaps hhashed' hhashed (fun d => (hidentities d).2) m⟩⟩

/-- Neither order nor repetition of the states shows in a fingerprint. -/
theorem ofInputs_congr (h : ∀ m, m ∈ maps ↔ m ∈ maps') :
    ofInputs room maps = ofInputs room maps' := by
  have hidentities : SortedSet.ofList (maps.map StateMap.identity) =
      SortedSet.ofList (maps'.map StateMap.identity) := SortedSet.ext fun d => by
    simp only [SortedSet.mem_ofList, List.mem_map, h]
  rw [ofInputs, ofInputs, inputBytes, inputBytes, hidentities]

end InputKey

/-- The bytes of a state tell it from every other state.  Unless the hash collides on what is
hashed for two fingerprints of inputs, these are equal exactly when the inputs are one room and
one set of states. -/
theorem fingerprints_separate :
    (∀ m n : StateMap, m.Framable → n.Framable → m.toBytes = n.toBytes → m = n) ∧
    ∀ (room room' : RoomId) (maps maps' : List StateMap),
      (∀ m ∈ maps ++ maps', m.Framable) →
      CollisionFree (InputKey.hashed room maps ++ InputKey.hashed room' maps') →
      (InputKey.ofInputs room maps = InputKey.ofInputs room' maps' ↔
        room = room' ∧ ∀ m, m ∈ maps ↔ m ∈ maps') := by
  refine ⟨fun m n hm hn => StateMap.eq_of_toBytes hm hn, ?_⟩
  intro room room' maps maps' hframable hfree
  obtain ⟨hmaps, hmaps'⟩ := List.forall_mem_append.1 hframable
  constructor
  · intro h
    exact InputKey.eq_of_ofInputs hfree hmaps hmaps' (List.subset_append_left _ _)
      (List.subset_append_right _ _) h
  · intro h
    obtain ⟨rfl, hsame⟩ := h
    exact InputKey.ofInputs_congr hsame

def pierRoom : RoomId := ⟨"!pier", by decide⟩

def pierEvent : EventId := ⟨"$pier", by decide⟩

def pierState : StateMap := .insert .empty ⟨"m.tag", "sea"⟩ pierEvent

/-- The texts of the first state, with the letters cut apart at another place. -/
def pierOther : StateMap := .insert .empty ⟨"m.tags", "ea"⟩ pierEvent

/-- States of the same letters have fingerprints of their own, and listing them again changes
nothing. -/
theorem fingerprints_separate_pier :
    pierState.toBytes ≠ pierOther.toBytes ∧
      InputKey.ofInputs pierRoom [pierState] ≠ InputKey.ofInputs pierRoom [pierOther] ∧
      InputKey.ofInputs pierRoom [pierState, pierOther] =
        InputKey.ofInputs pierRoom [pierOther, pierState, pierOther] := by
  obtain ⟨hstates, hinputs⟩ := fingerprints_separate
  have hne : pierState ≠ pierOther := by decide +kernel
  have hdistinct : ((InputKey.hashed pierRoom [pierState, pierOther] ++
      [InputKey.inputBytes pierRoom [pierState], InputKey.inputBytes pierRoom [pierOther]]).map
        Sha256.digest).Nodup := by decide +kernel
  have hfree : CollisionFree (InputKey.hashed pierRoom [pierState] ++
      InputKey.hashed pierRoom [pierOther]) := .of_nodup hdistinct (by decide +kernel)
  have hfree' : CollisionFree (InputKey.hashed pierRoom [pierState, pierOther] ++
      InputKey.hashed pierRoom [pierOther, pierState, pierOther]) :=
    .of_nodup hdistinct (by decide +kernel)
  refine ⟨fun h => hne ?_, fun h => hne ?_, ?_⟩
  · exact hstates pierState pierOther (by decide +kernel) (by decide +kernel) h
  · obtain ⟨-, hsame⟩ := (hinputs _ _ _ _ (by decide +kernel) hfree).1 h
    exact List.mem_singleton.1 ((hsame pierState).1 (List.mem_singleton_self pierState))
  · exact (hinputs _ _ _ _ (by decide +kernel) hfree').2 ⟨rfl, by simp [or_comm]⟩

end StateResolution
