import StateResolution.Digest.Sha256
import StateResolution.StateMap.Basic

/-!
# Fingerprints

What is hashed to tell room states apart, and the inputs of a resolution.  Each
text stands behind its length in eight bytes, so the texts can be told apart in
the row of bytes.  The fingerprint of a list of states takes each state once, in
the order of their own fingerprints, so neither order nor repetition shows.
-/

namespace StateResolution

/-- The bytes of a text. -/
def utf8 (s : String) : List UInt8 := s.toUTF8.data.toList

/-- A text behind its length. -/
def framed (s : String) : List UInt8 := Sha256.lengthBytes (utf8 s).length ++ utf8 s

namespace StateMap

/-- The bytes that stand for one entry. -/
def entryBytes (e : StateKey × EventId) : List UInt8 :=
  framed e.1.type ++ framed e.1.key ++ framed e.2.text

/-- The bytes that stand for a state. -/
def toBytes (m : StateMap) : List UInt8 := m.toList.flatMap entryBytes

/-- The fingerprint of a state. -/
def identity (m : StateMap) : Digest := Sha256.digest m.toBytes

end StateMap

/-- The fingerprint of a room and a set of states. -/
structure InputKey where
  digest : Digest
deriving DecidableEq

namespace InputKey

/-- The bytes that stand for a room and a list of states. -/
def inputBytes (room : RoomId) (maps : List StateMap) : List UInt8 :=
  framed room.text ++ (SortedSet.ofList (maps.map StateMap.identity)).toList.flatMap Digest.bytes

/-- The fingerprint of a room and a list of states. -/
def ofInputs (room : RoomId) (maps : List StateMap) : InputKey :=
  ⟨Sha256.digest (inputBytes room maps)⟩

/-- The first sixteen digits of the fingerprint. -/
def short (k : InputKey) : String := Digest.hexBytes (k.digest.bytes.take 8)

end InputKey

end StateResolution
