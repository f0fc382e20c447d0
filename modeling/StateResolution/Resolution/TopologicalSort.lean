import StateResolution.Error
import StateResolution.SortedMap

/-!
# Topological sort

Puts events in an order in which each follows all it points at.  Among the
events that could come next, the one of a sender with the highest level comes
first, then the earliest, then the smallest id, so there is one such order.

The sort keeps the events that are ready, and for each other event what it still
waits for.  Taking the first ready event frees those that waited for it alone.
-/

namespace StateResolution

/-- What decides between two events that could both come next. -/
structure Standing where
  /-- The level of the sender. -/
  powerLevel : Int
  /-- When the event was sent. -/
  timestamp : Nat
deriving DecidableEq

/-- The standing of an event, and the event. -/
structure SortKey extends Standing where
  /-- The event. -/
  id : EventId
deriving DecidableEq

namespace SortKey

/-- The level of the sender of a key. -/
def level (k : SortKey) : Int := k.powerLevel

/-- The time of a key. -/
def time (k : SortKey) : Nat := k.timestamp

/-- The higher level comes first, then the earlier event, then the smaller id. -/
instance : Ord SortKey :=
  ⟨compareLex (fun a b => compareOn level b a) (compareLex (compareOn time) (compareOn id))⟩

instance : Std.TransOrd SortKey :=
  inferInstanceAs (Std.TransCmp
    (compareLex (fun a b => compareOn level b a) (compareLex (compareOn time) (compareOn id))))

instance : Std.LawfulEqOrd SortKey where
  compare_self {a} := by
    show (compare a.level a.level).then ((compare a.time a.time).then (compare a.id a.id)) = .eq
    rw [compare_refl, compare_refl, compare_refl]
    rfl
  eq_of_compare {a b} h := by
    have h : (compare b.level a.level).then ((compare a.time b.time).then (compare a.id b.id)) =
        .eq := h
    obtain ⟨hl, h⟩ := Ordering.then_eq_eq.1 h
    obtain ⟨ht, hi⟩ := Ordering.then_eq_eq.1 h
    have hl : b.powerLevel = a.powerLevel := Std.LawfulEqCmp.eq_of_compare hl
    have ht : a.timestamp = b.timestamp := Std.LawfulEqCmp.eq_of_compare ht
    have hi : a.id = b.id := Std.LawfulEqCmp.eq_of_compare hi
    obtain ⟨⟨la, ta⟩, ia⟩ := a
    obtain ⟨⟨lb, tb⟩, ib⟩ := b
    cases hl
    cases ht
    cases hi
    rfl

end SortKey

/-- Events, each with the events it points at. -/
abbrev IdGraph := SortedMap EventId (SortedSet EventId)

namespace TopologicalSort

/-- The key of an event that has become ready. -/
def keyOf (standing : EventId → Except Error Standing) (id : EventId) : Except Error SortKey := do
  pure ⟨← standing id, id⟩

/-- The events that wait for nothing. -/
def freed (waiting : IdGraph) : List EventId := (waiting.filter fun _ edges => edges.isEmpty).keys

/-- The events that wait for something. -/
def blocked (waiting : IdGraph) : IdGraph := waiting.filter fun _ edges => !edges.isEmpty

/-- Takes at most a number of events, the first ready one each time. -/
def takeReady (standing : EventId → Except Error Standing) :
    Nat → IdGraph → SortedSet SortKey → Except Error (List EventId)
  | 0, _, _ => .ok []
  | n + 1, waiting, ready =>
    match ready.toList with
    | [] => .ok []
    | key :: _ => do
      -- Every event that waited for this one alone becomes ready.
      let waiting := waiting.mapValues (·.erase key.id)
      let keys ← (freed waiting).mapM (keyOf standing)
      let rest ← takeReady standing n (blocked waiting) ((ready.erase key).insertAll keys)
      pure (key.id :: rest)

end TopologicalSort

open TopologicalSort in
/-- The events of a graph, each behind all it points at. -/
def topologicalSort (graph : IdGraph) (standing : EventId → Except Error Standing) :
    Except Error (List EventId) := do
  let keys ← (freed graph).mapM (keyOf standing)
  let sorted ← takeReady standing graph.size (blocked graph) (.ofList keys)
  if sorted.length = graph.size then pure sorted
  else throw (.graphCorruption (.unsortable (graph.size - sorted.length)))

end StateResolution
