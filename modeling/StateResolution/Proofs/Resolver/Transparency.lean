import Mathlib.Data.List.Induction
import StateResolution.Proofs.Digest.Fingerprint
import StateResolution.Proofs.Resolution.Convergence

/-!
# The cache does not show

A resolver that has been called before gives what one without a memory would.  Each entry
of its cache comes from a call that went to the store (`Remembers`), and stands under the
fingerprint of that call.  A call that finds it has the same fingerprint, so it is about the
same room and the same set of states, and these resolve to the same over any store.

A call that succeeds is remembered, and the next one with the same states does without the
store (`Resolver.resolve_again`).

Nothing is asked of the store but that it does not change.  Its answers need not be sound:
an entry is put in only where the resolution succeeded, and a success is the same in
whatever order the states are listed, which a failure over a bad store need not be.
-/

namespace StateResolution

/-- A call of a resolver. -/
structure Call where
  room : RoomId
  maps : List StateMap

namespace Call

/-- The fingerprint that the call goes by. -/
def key (c : Call) : InputKey := .ofInputs c.room c.maps

/-- What is hashed for that fingerprint. -/
def hashed (c : Call) : List (List UInt8) := InputKey.hashed c.room c.maps

end Call

namespace Resolver

/-- What is left of a resolver after some calls over a store. -/
def afterCalls (r : Resolver) (s : EventStore) (calls : List Call) : Resolver :=
  calls.foldl (fun r c => (r.resolve s c.room c.maps).1) r

end Resolver

variable {s : EventStore} {config : Configuration} {r : Resolver} {calls : List Call}
  {key : InputKey} {resolution : Resolution}

/-! ## One call -/

/-- How a call ends, and what it leaves of the resolver: it finds an entry, or it goes to the
store and succeeds or fails there. -/
inductive Served (s : EventStore) (r : Resolver) (c : Call) (r' : Resolver)
    (outcome : Except Error Resolution) : Prop
  | found {resolution : Resolution} (houtcome : outcome = .ok resolution)
      (hentry : r.cache.peek? c.key = some resolution)
      (hkept : ∀ key found, r'.cache.peek? key = some found → r.cache.peek? key = some found)
  | resolved {resolution : Resolution} (houtcome : outcome = .ok resolution)
      (hstore : (resolveFrom s r.config c.room c.maps).outcome = outcome)
      (hkept : ∀ key found, r'.cache.peek? key = some found →
        key = c.key ∧ found = resolution ∨ r.cache.peek? key = some found)
  | failed {e : Error} (houtcome : outcome = .error e)
      (hstore : (resolveFrom s r.config c.room c.maps).outcome = outcome)
      (hkept : r'.cache.entries = r.cache.entries)

theorem Resolver.served_resolve (s : EventStore) (r : Resolver) (c : Call) :
    Served s r c (r.resolve s c.room c.maps).1 (r.resolve s c.room c.maps).2.outcome := by
  unfold resolve
  cases hpeek : r.cache.peek? (.ofInputs c.room c.maps) with
  | some found =>
    have hget := ResolutionCache.get_of_peek? hpeek
    refine .found ?_ hpeek fun key other hother => ?_
    · simp only [hget]
      rfl
    · rw [← ResolutionCache.peek?_get r.cache (.ofInputs c.room c.maps)]
      simpa only [hget] using hother
  | none =>
    have hget := ResolutionCache.get_of_peek?_none hpeek
    simp only [hget]
    cases hstore : (resolveFrom s r.config c.room c.maps).outcome with
    | ok resolution =>
      exact .resolved hstore rfl fun key found hfound => ResolutionCache.of_peek?_insert hfound
    | error e => exact .failed hstore rfl rfl

theorem Resolver.config_resolve (s : EventStore) (r : Resolver) (c : Call) :
    (r.resolve s c.room c.maps).1.config = r.config := by
  unfold resolve
  dsimp only
  split
  · rfl
  · split <;> rfl

/-- What a call has resolved is kept. -/
theorem Resolver.peek?_resolve {c : Call}
    (h : (r.resolve s c.room c.maps).2.outcome = .ok resolution) :
    (r.resolve s c.room c.maps).1.cache.peek? c.key = some resolution := by
  unfold resolve at h ⊢
  cases hpeek : r.cache.peek? (.ofInputs c.room c.maps) with
  | some found =>
    have hget := ResolutionCache.get_of_peek? hpeek
    have hkept := ResolutionCache.peek?_get r.cache (.ofInputs c.room c.maps) c.key
    simp only [hget] at h hkept ⊢
    cases h
    exact hkept.trans hpeek
  | none =>
    simp only [ResolutionCache.get_of_peek?_none hpeek] at h ⊢
    cases hstore : (resolveFrom s r.config c.room c.maps).outcome with
    | ok found =>
      simp only [hstore] at h ⊢
      cases h
      exact ResolutionCache.peek?_insert_self _ _ _
    | error e =>
      simp only [hstore] at h
      cases h

/-- Called again with the same states, in any order, a resolver gives the same resolution and does
not ask the store, which may have changed by then. -/
theorem Resolver.resolve_again {room : RoomId} {maps maps' : List StateMap}
    (h : (r.resolve s room maps).2.outcome = .ok resolution) (t : EventStore)
    (hmaps : ∀ m, m ∈ maps ↔ m ∈ maps') :
    ((r.resolve s room maps).1.resolve t room maps').2 = pure resolution := by
  have hkept : (r.resolve s room maps).1.cache.peek? (.ofInputs room maps) = some resolution :=
    peek?_resolve (c := ⟨room, maps⟩) h
  rw [resolve, ← InputKey.ofInputs_congr hmaps, ResolutionCache.get_of_peek? hkept]

/-! ## Any number of calls -/

/-- All that a resolver remembers comes from some calls over a store. -/
structure Remembers (s : EventStore) (config : Configuration) (calls : List Call)
    (r : Resolver) : Prop where
  config_eq : r.config = config
  entries : ∀ key resolution, r.cache.peek? key = some resolution →
    ∃ c ∈ calls, c.key = key ∧ (resolveFrom s config c.room c.maps).outcome = .ok resolution

theorem Remembers.fresh (h : Resolver.ofConfiguration config = .ok r) :
    Remembers s config [] r := by
  cases Resolver.eq_of_ofConfiguration h
  refine ⟨rfl, fun key resolution hentry => ?_⟩
  cases (ResolutionCache.peek?_ofCapacity config.cacheCapacity key).symm.trans hentry

/-- A call over a store adds nothing wrong to what comes from another store, where all that the
one resolves to the other does. -/
theorem Remembers.resolve {t : EventStore} (h : Remembers s config calls r) (c : Call)
    (hsound : ∀ resolution, (resolveFrom t config c.room c.maps).outcome = .ok resolution →
      (resolveFrom s config c.room c.maps).outcome = .ok resolution) :
    Remembers s config (calls ++ [c]) (r.resolve t c.room c.maps).1 := by
  have hearlier : ∀ key resolution, r.cache.peek? key = some resolution →
      ∃ d ∈ calls ++ [c], d.key = key ∧
        (resolveFrom s config d.room d.maps).outcome = .ok resolution := by
    intro key resolution hentry
    obtain ⟨d, hd, hcall⟩ := h.entries key resolution hentry
    exact ⟨d, List.mem_append_left _ hd, hcall⟩
  refine ⟨(Resolver.config_resolve t r c).trans h.config_eq, fun key resolution hentry => ?_⟩
  cases Resolver.served_resolve t r c with
  | found _ _ hkept => exact hearlier key resolution (hkept _ _ hentry)
  | resolved houtcome hstore hkept =>
    rcases hkept _ _ hentry with ⟨rfl, rfl⟩ | hentry
    · rw [houtcome, h.config_eq] at hstore
      exact ⟨c, List.mem_append_right _ (List.mem_singleton_self c), rfl, hsound _ hstore⟩
    · exact hearlier key resolution hentry
  | failed _ _ hkept =>
    rw [ResolutionCache.peek?, hkept] at hentry
    exact hearlier key resolution hentry

theorem Remembers.afterCalls (h : Remembers s config [] r) (calls : List Call) :
    Remembers s config calls (r.afterCalls s calls) := by
  induction calls using List.reverseRecOn with
  | nil => exact h
  | append_singleton calls c ih =>
    rw [Resolver.afterCalls, List.foldl_concat]
    exact ih.resolve c fun _ hok => hok

/-! ## The same inputs -/

/-- What some states resolve to over a store does not depend on how they are listed. -/
theorem outcome_resolveFrom_of_mem_iff {room : RoomId} {maps maps' : List StateMap}
    (h : ∀ m, m ∈ maps ↔ m ∈ maps')
    (hok : (resolveFrom s config room maps).outcome = .ok resolution) :
    (resolveFrom s config room maps').outcome = .ok resolution := by
  rw [outcome_resolveFrom] at hok ⊢
  have hroots : ∀ id, id ∈ maps.flatMap StateMap.eventIds ↔ id ∈ maps'.flatMap StateMap.eventIds :=
    fun id => by simp only [List.mem_flatMap, h]
  obtain ⟨g, hg, hresolve⟩ := Fallible.bind_eq_ok.1 hok
  rw [EventStore.load_of_mem_iff s hroots] at hg
  exact Fallible.bind_eq_ok.2 ⟨g, hg, resolve_of_mem_iff h hresolve⟩

/-- After any calls over a store, a call ends the way it would with a fresh resolver, and if
it fails, it leaves the entries of the cache as they were.  The hash must not have collided
on what has been hashed so far. -/
theorem cache_transparent (config : Configuration) (fresh : Resolver) (s : EventStore)
    (calls : List Call) (c : Call) (hfresh : Resolver.ofConfiguration config = .ok fresh)
    (hframable : ∀ d ∈ calls ++ [c], ∀ m ∈ d.maps, m.Framable)
    (hfree : CollisionFree ((calls ++ [c]).flatMap Call.hashed)) :
    ((fresh.afterCalls s calls).resolve s c.room c.maps).2.outcome =
        (fresh.resolve s c.room c.maps).2.outcome ∧
      ∀ e, ((fresh.afterCalls s calls).resolve s c.room c.maps).2.outcome = .error e →
        ((fresh.afterCalls s calls).resolve s c.room c.maps).1.cache.entries =
          (fresh.afterCalls s calls).cache.entries := by
  have hremembers : Remembers s config calls (fresh.afterCalls s calls) :=
    (Remembers.fresh hfresh).afterCalls calls
  have hhashed : ∀ d ∈ calls ++ [c], d.hashed ⊆ (calls ++ [c]).flatMap Call.hashed :=
    fun d hd b hb => List.mem_flatMap.2 ⟨d, hd, hb⟩
  have hlast : c ∈ calls ++ [c] := List.mem_append_right _ (List.mem_singleton_self c)
  rw [Resolver.outcome_resolve_fresh hfresh]
  cases Resolver.served_resolve s (fresh.afterCalls s calls) c with
  | found houtcome hentry =>
    obtain ⟨d, hd, hkey, hok⟩ := hremembers.entries _ _ hentry
    have hd : d ∈ calls ++ [c] := List.mem_append_left _ hd
    obtain ⟨hroom, hmaps⟩ := InputKey.eq_of_ofInputs hfree (hframable d hd) (hframable c hlast)
      (hhashed d hd) (hhashed c hlast) hkey
    rw [hroom] at hok
    rw [houtcome, outcome_resolveFrom_of_mem_iff hmaps hok]
    exact ⟨rfl, nofun⟩
  | resolved houtcome hstore =>
    rw [hremembers.config_eq] at hstore
    rw [hstore, houtcome]
    exact ⟨rfl, nofun⟩
  | failed _ hstore hkept =>
    rw [hremembers.config_eq] at hstore
    exact ⟨hstore.symm, fun _ _ => hkept⟩

def hallStore : EventStore := .ofGraph (.ofEvents [soleCreate])

def hallResolver : Resolver := ⟨{}, .ofCapacity 1024⟩

/-- A state of which the store lacks the event. -/
def lostState : StateMap := .insert .empty .create ⟨"$gone", by decide⟩

def hallCalls : List Call :=
  [⟨soleCreate.room, [createdState, .empty]⟩, ⟨soleCreate.room, [lostState]⟩]

/-- The first of the calls, with its states listed in another way. -/
def hallAgain : Call := ⟨soleCreate.room, [.empty, createdState, createdState]⟩

/-- The call finds what the first one came to, past one that failed. -/
theorem cache_transparent_hallAgain :
    ((hallResolver.afterCalls hallStore hallCalls).resolve hallStore
        hallAgain.room hallAgain.maps).2.lookups = [] ∧
      ((hallResolver.afterCalls hallStore hallCalls).resolve hallStore
          hallAgain.room hallAgain.maps).2.outcome =
        (hallResolver.resolve hallStore hallAgain.room hallAgain.maps).2.outcome := by
  have hdistinct : (([] :: createdState.toBytes :: hallCalls.flatMap Call.hashed).dedup.map
      Sha256.digest).Nodup := by decide +kernel
  have hfree : CollisionFree ((hallCalls ++ [hallAgain]).flatMap Call.hashed) :=
    .of_nodup hdistinct (by decide +kernel)
  have hframable : ∀ d ∈ hallCalls ++ [hallAgain], ∀ m ∈ d.maps, m.Framable := by decide +kernel
  refine ⟨by decide +kernel, ?_⟩
  exact (cache_transparent {} hallResolver hallStore hallCalls hallAgain rfl hframable hfree).1

end StateResolution
