import StateResolution.Proofs.Resolution.Conflicts
import StateResolution.Proofs.Store.Closure
import StateResolution.Resolver.Basic

/-!
# Convergence

Servers that hold the same states of a room come to the same result, in whatever order
and how often they list them, whatever else their stores hold, and however they cut their
lookups and size their caches.  That is so of errors as well.

`resolve_congr` is that for the resolution over a graph that is closed, and
`resolver_converges` for fresh resolvers over two stores.
-/

namespace StateResolution

open Fallible (bind_eq_ok)

variable {g : EventGraph} {maps maps' : List StateMap} {within : EventId → Prop}

theorem roomVersionOf_congr (room : RoomId) (g : EventGraph) (defaultVersion : String)
    (h : ∀ m, m ∈ maps ↔ m ∈ maps') :
    roomVersionOf room maps g defaultVersion = roomVersionOf room maps' g defaultVersion := by
  have hcreates : SortedSet.ofList (maps.filterMap (·.get? .create)) =
      SortedSet.ofList (maps'.filterMap (·.get? .create)) := SortedSet.ext fun id => by
    simp only [SortedSet.mem_ofList, List.mem_filterMap, h]
  rw [roomVersionOf, roomVersionOf, hcreates]

theorem fullConflictedSet_congr (hg : g.Closed within)
    (hmaps : ∀ m ∈ maps, ∀ id ∈ m.eventIds, within id) (h : ∀ m, m ∈ maps ↔ m ∈ maps')
    (conflicts : Conflicts) :
    fullConflictedSet g conflicts maps = fullConflictedSet g conflicts maps' := by
  rw [fullConflictedSet, fullConflictedSet, authDifference_congr hg hmaps h]

/-- Over a closed graph the order of the states and their repetition do not show in the
resolution, nor do the limits that it does not ask for. -/
theorem resolve_congr (hg : g.Closed within)
    (hmaps : ∀ m ∈ maps, ∀ id ∈ m.eventIds, within id) (h : ∀ m, m ∈ maps ↔ m ∈ maps')
    (room : RoomId) {config config' : Configuration}
    (hdepth : config.maxAuthDepth = config'.maxAuthDepth)
    (hversion : config.defaultRoomVersion = config'.defaultRoomVersion) :
    resolve room maps g config = resolve room maps' g config' := by
  simp only [resolve, resolveConflicts, roomVersionOf_congr room g _ h,
    Conflicts.separate_congr h, fullConflictedSet_congr hg hmaps h, hdepth, hversion]

/-- What some states resolve to does not depend on how they are listed. -/
theorem resolve_of_mem_iff (h : ∀ m, m ∈ maps ↔ m ∈ maps') {room : RoomId}
    {config : Configuration} {r : Resolution} (hr : resolve room maps g config = .ok r) :
    resolve room maps' g config = .ok r := by
  obtain ⟨_, hroom, hr⟩ := bind_eq_ok.1 hr
  obtain ⟨version, hversion, hr⟩ := bind_eq_ok.1 hr
  rw [roomVersionOf_congr room g _ h] at hversion
  refine bind_eq_ok.2 ⟨_, hroom, bind_eq_ok.2 ⟨version, hversion, ?_⟩⟩
  dsimp only at hr ⊢
  rw [← Conflicts.separate_congr h]
  split at hr
  · next hconflicted =>
    obtain ⟨full, hfull, hreplays⟩ := bind_eq_ok.1 hr
    obtain ⟨difference, hdifference, hheld⟩ := bind_eq_ok.1 hfull
    have hfull' : fullConflictedSet g (Conflicts.separate maps) maps' = .ok full :=
      bind_eq_ok.2 ⟨difference, authDifference_of_mem_iff h hdifference, hheld⟩
    rw [if_pos hconflicted]
    exact bind_eq_ok.2 ⟨full, hfull', hreplays⟩
  · next hagreed =>
    rw [if_neg hagreed]
    exact hr

theorem outcome_resolveFrom (s : EventStore) (config : Configuration) (room : RoomId)
    (maps : List StateMap) :
    (resolveFrom s config room maps).outcome =
      (s.load (maps.flatMap StateMap.eventIds) config.fetchBatchSize config.maxAuthDepth).outcome
        >>= fun g => resolve room maps g config :=
  Fetched.outcome_bind _ _

theorem Resolver.eq_of_ofConfiguration {config : Configuration} {r : Resolver}
    (h : ofConfiguration config = .ok r) : r = ⟨config, .ofCapacity config.cacheCapacity⟩ := by
  obtain ⟨_, -, hbuilt⟩ := bind_eq_ok.1 h
  split at hbuilt
  · cases hbuilt
  · cases hbuilt
    rfl

/-- A fresh resolver gives what comes from its store. -/
theorem Resolver.outcome_resolve_fresh {config : Configuration} {r : Resolver}
    (h : ofConfiguration config = .ok r) (s : EventStore) (room : RoomId)
    (maps : List StateMap) :
    (r.resolve s room maps).2.outcome = (resolveFrom s config room maps).outcome := by
  cases eq_of_ofConfiguration h
  have hget := ResolutionCache.get_of_peek?_none (ResolutionCache.peek?_ofCapacity
    config.cacheCapacity (.ofInputs room maps))
  cases hfetched : (resolveFrom s config room maps).outcome <;> simp only [resolve, hget, hfetched]

/-- Fresh resolvers with the same bound on chains and the same default version, over
stores that have the same events where the states lead, end the same way for the same
states. -/
theorem resolver_converges (room : RoomId) (maps maps' : List StateMap) (g g' : EventGraph)
    (config config' : Configuration) (r r' : Resolver)
    (hr : Resolver.ofConfiguration config = .ok r)
    (hr' : Resolver.ofConfiguration config' = .ok r')
    (hdepth : config.maxAuthDepth = config'.maxAuthDepth)
    (hversion : config.defaultRoomVersion = config'.defaultRoomVersion)
    (hmaps : ∀ m, m ∈ maps ↔ m ∈ maps')
    (hagree : ∀ m ∈ maps, ∀ root ∈ m.eventIds, ∀ id, g.Reaches root id →
      g.get? id = g'.get? id) :
    (r.resolve (.ofGraph g) room maps).2.outcome =
      (r'.resolve (.ofGraph g') room maps').2.outcome := by
  have hroots : ∀ id, id ∈ maps.flatMap StateMap.eventIds ↔ id ∈ maps'.flatMap StateMap.eventIds :=
    fun id => by simp only [List.mem_flatMap, hmaps]
  have hload := EventStore.outcome_load_congr hroots
    (fun root hroot => by
      obtain ⟨m, hm, hroot⟩ := List.mem_flatMap.1 hroot
      exact hagree m hm root hroot)
    config.fetchBatchSize config'.fetchBatchSize config.maxAuthDepth
  rw [Resolver.outcome_resolve_fresh hr, Resolver.outcome_resolve_fresh hr', outcome_resolveFrom,
    outcome_resolveFrom, ← hdepth, ← hload]
  cases hloaded : ((EventStore.ofGraph g).load (maps.flatMap StateMap.eventIds)
      config.fetchBatchSize config.maxAuthDepth).outcome with
  | error e => rfl
  | ok loaded =>
    obtain ⟨within, hclosed, hwithin⟩ := EventStore.closed_of_load hloaded
    have hheld : ∀ m ∈ maps, ∀ id ∈ m.eventIds, within id := fun m hm id hid =>
      hwithin id (List.mem_flatMap.2 ⟨m, hm, hid⟩)
    exact resolve_congr hclosed hheld hmaps room hdepth hversion

/-- Whatever is reached over the events of a list is where it starts, or cited in the list. -/
theorem cited_of_reaches {es : List Event} {root id : EventId}
    (h : (EventGraph.ofEvents es).Reaches root id) : id = root ∨ ∃ e ∈ es, id ∈ e.authEvents := by
  cases h with
  | refl => exact .inl rfl
  | tail _ hcites =>
    obtain ⟨e, he, hcited⟩ := hcites
    exact .inr ⟨e, (EventGraph.mem_of_get?_ofEvents he).1, hcited⟩

/-- The other resolver looks up one event at a time, in a store that has the events in another
order and one of another room among them, and is given one of the two states twice. -/
theorem resolver_converges_forge :
    ((Resolver.mk {} (.ofCapacity 1024)).resolve (.ofGraph (.ofEvents forgeEvents)) forge
        [coldState, hotState]).2.outcome.isOk = true ∧
      ((Resolver.mk {} (.ofCapacity 1024)).resolve (.ofGraph (.ofEvents forgeEvents)) forge
          [coldState, hotState]).2.outcome =
        ((Resolver.mk { cacheCapacity := 1, fetchBatchSize := 1 } (.ofCapacity 1)).resolve
          (.ofGraph (.ofEvents (soleCreate :: forgeEvents.reverse))) forge
          [hotState, coldState, hotState]).2.outcome := by
  refine ⟨by decide +kernel, resolver_converges forge _ _ _ _ {}
    { cacheCapacity := 1, fetchBatchSize := 1 } _ _ rfl rfl rfl rfl (by simp [or_comm]) ?_⟩
  intro m hm root hroot id hreach
  have hheld : ∀ m ∈ [coldState, hotState], ∀ id ∈ m.eventIds, id ∈ forgeEvents.map Event.id := by
    decide +kernel
  have hcited : ∀ e ∈ forgeEvents, ∀ id ∈ e.authEvents, id ∈ forgeEvents.map Event.id := by
    decide +kernel
  have hid : id ∈ forgeEvents.map Event.id := by
    rcases cited_of_reaches hreach with rfl | ⟨e, he, hid⟩
    · exact hheld m hm _ hroot
    · exact hcited e he id hid
  simp only [forgeEvents, List.map_cons, List.map_nil, List.mem_cons, List.not_mem_nil,
    or_false] at hid
  rcases hid with rfl | rfl | rfl | rfl | rfl | rfl | rfl | rfl <;> rfl

end StateResolution
