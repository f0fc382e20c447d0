import StateResolution.Resolver.Cache
import StateResolution.Store.Closure

/-!
# The resolver

Resolves states over a store: it loads what the states rest on, resolves, and
remembers the result.  A call that fails remembers nothing, so it can be made
again once the store has what was missing.
-/

namespace StateResolution

/-- A resolver with its limits and what it remembers. -/
structure Resolver where
  config : Configuration
  /-- What it remembers. -/
  cache : ResolutionCache

/-- Resolves some states of a room over a store, remembering nothing. -/
def resolveFrom (s : EventStore) (config : Configuration) (room : RoomId) (maps : List StateMap) :
    Fetched Resolution := do
  let g ← s.load (maps.flatMap StateMap.eventIds) config.fetchBatchSize config.maxAuthDepth
  resolve room maps g config

namespace Resolver

/-- A resolver that remembers nothing yet, under limits that can be used.  Its
cache is laid out at once. -/
def ofConfiguration (config : Configuration) : Except Error Resolver := do
  config.validate
  if ResolutionCache.maxCapacity < config.cacheCapacity then
    .error (.invalidConfig (.beyondMemory "cache_capacity"))
  else pure ⟨config, .ofCapacity config.cacheCapacity⟩

/-- Resolves some states of a room over a store. -/
def resolve (r : Resolver) (s : EventStore) (room : RoomId) (maps : List StateMap) :
    Resolver × Fetched Resolution :=
  let key := InputKey.ofInputs room maps
  match r.cache.get key with
  | (some found, cache) => ({ r with cache }, pure found)
  | (none, cache) =>
    let fetched := resolveFrom s r.config room maps
    match fetched.outcome with
    | .ok resolution => ({ r with cache := cache.insert key resolution }, fetched)
    | .error _ => ({ r with cache }, fetched)

end Resolver

end StateResolution
