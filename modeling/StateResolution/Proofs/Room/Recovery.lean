import StateResolution.Proofs.Resolver.Transparency
import StateResolution.Proofs.Room.Sections
import StateResolution.Proofs.Store.Part
import StateResolution.Room.Service

/-!
# Recovery

A service answers one call after another, while its store fails at times, and loses events and
has them again.  A call that fails leaves no trace, and once the store has what the latest
candidates rest on, a call ends as if nothing had gone before.

What survives a call is the slots and the cache.  Both take in nothing but what a resolution
has come to, and a store that hands out enough for one hands out the same events as any other
that holds them.  So whatever is kept is what the candidates resolve to over the whole graph
(`Traced`), and with nothing missing that is what a fresh service finds.
-/

namespace StateResolution

open Fallible (bind_eq_ok)

/-- A call of a service. -/
inductive Request
  | update (room : RoomId) (candidates : List StateMap)
  /-- Somebody asks for the current state, and the store answers in some way. -/
  | current (room : RoomId) (store : EventStore)

namespace Request

/-- The candidates that a call gives to a room. -/
def candidates? (id : RoomId) : Request → Option (List StateMap)
  | .update room candidates => if room = id then some candidates else none
  | .current _ _ => none

/-- The candidates of the latest update of a room. -/
def latest? (requests : List Request) (id : RoomId) : Option (List StateMap) :=
  (requests.filterMap (candidates? id)).getLast?

/-- The store hands out nothing but events of a graph. -/
def Over (g : EventGraph) : Request → Prop
  | .update _ _ => True
  | .current _ store => store.PartOf g

end Request

namespace Service

/-- A service that has had no call yet. -/
def ofResolver (r : Resolver) : Service := { resolver := r }

def serve (v : Service) : Request → Service
  | .update id candidates => (v.update id candidates).1
  | .current id store => (v.current store id).1

/-- A service after some calls. -/
def after (v : Service) (requests : List Request) : Service := requests.foldl serve v

/-- The call of the resolver that a call makes. -/
def call? (v : Service) : Request → Option Call
  | .update _ _ => none
  | .current id _ =>
    (v.rooms.get? id).bind fun slot =>
      if slot.fresh?.isSome then none else some ⟨id, slot.candidates⟩

/-- The calls of the resolver that some calls make. -/
def calls (v : Service) : List Request → List Call
  | [] => []
  | request :: rest => (v.call? request).toList ++ (v.serve request).calls rest

/-- No run is under way. -/
def Idle (v : Service) : Prop := ∀ id slot, v.rooms.get? id = some slot → slot.inFlight = none

end Service

variable {v v' : Service} {g : EventGraph} {config : Configuration} {fresh : Resolver}
  {id : RoomId} {slot : Slot} {store s s' : EventStore} {resolution : Resolution}
  {outcome : Except Error Resolution} {requests : List Request} {request : Request}

/-! ## One call -/

/-- How a call for the current state of a room ends, and what it leaves of the service. -/
inductive Answered (store : EventStore) (v : Service) (id : RoomId) (v' : Service)
    (outcome : Except Error Resolution) : Prop
  | unknown : v.rooms.get? id = none → v' = v → outcome = .error (Room.unknown id) →
    Answered store v id v' outcome
  | recorded {slot : Slot} {resolution : Resolution} : v.rooms.get? id = some slot →
    slot.fresh? = some resolution → v' = v → outcome = .ok resolution →
    Answered store v id v' outcome
  | resolved {slot : Slot} {resolution : Resolution} : v.rooms.get? id = some slot →
    slot.fresh? = none → outcome = .ok resolution →
    (v.resolver.resolve store id slot.candidates).2.outcome = outcome →
    v' = ⟨(v.resolver.resolve store id slot.candidates).1,
      v.rooms.insert id { slot with current := some (slot.generation, resolution) }⟩ →
    Answered store v id v' outcome
  | failed {slot : Slot} {e : Error} : v.rooms.get? id = some slot →
    slot.fresh? = none → outcome = .error e →
    (v.resolver.resolve store id slot.candidates).2.outcome = outcome →
    v' = ⟨(v.resolver.resolve store id slot.candidates).1, v.rooms⟩ →
    Answered store v id v' outcome

theorem rooms_insert_self (h : v.rooms.get? id = some slot) : v.rooms.insert id slot = v.rooms := by
  refine SortedMap.ext fun i => ?_
  rw [SortedMap.get?_insert]
  split
  · next hi => rw [hi, h]
  · rfl

theorem current_of_fresh (hslot : v.rooms.get? id = some slot)
    (hfresh : slot.fresh? = some resolution) :
    v.current store id = (v, ⟨[], .ok resolution⟩) := by
  simp [Service.current, hslot, Serving.attend, Serving.advance, Serving.concludeFor,
    Room.advance?, Room.enter, Slot.enter, hfresh, Reader.answer, rooms_insert_self hslot]

/-- A reader alone goes through its two sections: it starts a run and takes in how it ends. -/
theorem attend_of_stale (hslot : slot.fresh? = none) (hidle : slot.inFlight = none)
    (r : Resolver) :
    Serving.attend store id 2 ⟨r, { slot }, []⟩ .entering =
      let (r', fetched) := r.resolve store id slot.candidates
      let ticket : Ticket := ⟨slot.generation, 0⟩
      let run : Run := ⟨slot.generation, slot.candidates, some fetched.outcome⟩
      let (room, reader) := Room.settle
        { slot := { slot with inFlight := some ticket }, runs := [run] } ticket fetched.outcome
      (⟨r', room, fetched.lookups⟩, reader) := by
  simp [Serving.attend, Serving.advance, Serving.concludeFor, Serving.conclude, Room.advance?,
    Room.enter, Slot.enter, hslot, hidle, Room.finish?, Room.outcome?]

theorem current_of_ok (hslot : v.rooms.get? id = some slot) (hfresh : slot.fresh? = none)
    (hidle : slot.inFlight = none)
    (h : (v.resolver.resolve store id slot.candidates).2.outcome = .ok resolution) :
    (v.current store id).1 = ⟨(v.resolver.resolve store id slot.candidates).1,
      v.rooms.insert id { slot with current := some (slot.generation, resolution) }⟩ ∧
    (v.current store id).2.outcome = .ok resolution := by
  obtain ⟨candidates, generation, current, inFlight⟩ := slot
  cases hidle
  simp [Service.current, hslot, attend_of_stale hfresh rfl, h, Room.settle, Slot.settle, Slot.land,
    Reader.answer]

theorem current_of_error {e : Error} (hslot : v.rooms.get? id = some slot)
    (hfresh : slot.fresh? = none) (hidle : slot.inFlight = none)
    (h : (v.resolver.resolve store id slot.candidates).2.outcome = .error e) :
    (v.current store id).1 = ⟨(v.resolver.resolve store id slot.candidates).1, v.rooms⟩ ∧
    (v.current store id).2.outcome = .error e := by
  have hkept := rooms_insert_self hslot
  obtain ⟨candidates, generation, current, inFlight⟩ := slot
  cases hidle
  simp [Service.current, hslot, attend_of_stale hfresh rfl, h, Room.settle, Slot.settle, Slot.land,
    Reader.answer, hkept]

theorem answered_of_idle (hidle : v.Idle) (store : EventStore) (id : RoomId) :
    Answered store v id (v.current store id).1 (v.current store id).2.outcome := by
  cases hslot : v.rooms.get? id with
  | none =>
    have hcurrent : v.current store id = (v, throw (Room.unknown id)) := by
      simp only [Service.current, hslot]
    rw [hcurrent]
    exact .unknown hslot rfl rfl
  | some slot =>
    cases hfresh : slot.fresh? with
    | some resolution =>
      rw [current_of_fresh hslot hfresh]
      exact .recorded hslot hfresh rfl rfl
    | none =>
      cases hresolve : (v.resolver.resolve store id slot.candidates).2.outcome with
      | ok resolution =>
        obtain ⟨hleft, houtcome⟩ := current_of_ok hslot hfresh (hidle id slot hslot) hresolve
        rw [hleft, houtcome]
        exact .resolved hslot hfresh rfl hresolve rfl
      | error e =>
        obtain ⟨hleft, houtcome⟩ := current_of_error hslot hfresh (hidle id slot hslot) hresolve
        rw [hleft, houtcome]
        exact .failed hslot hfresh rfl hresolve rfl

theorem Service.Idle.insert (h : v.Idle) (hslot : slot.inFlight = none) (r : Resolver) :
    Service.Idle ⟨r, v.rooms.insert id slot⟩ := by
  intro i found hfound
  rw [SortedMap.get?_insert] at hfound
  split at hfound
  · cases hfound
    exact hslot
  · exact h i found hfound

/-- A call over an idle service leaves no run under way, whether it succeeds or fails. -/
theorem Answered.idle (h : Answered store v id v' outcome) (hidle : v.Idle) : v'.Idle := by
  cases h with
  | unknown _ hleft => exact hleft ▸ hidle
  | recorded _ _ hleft => exact hleft ▸ hidle
  | @resolved slot _ hslot _ _ _ hleft =>
    rw [hleft]
    refine hidle.insert ?_ _
    exact hidle id slot hslot
  | failed _ _ _ _ hleft =>
    rw [hleft]
    exact hidle

theorem Service.Idle.update (h : v.Idle) (id : RoomId) (candidates : List StateMap) :
    (v.update id candidates).1.Idle := by
  refine h.insert ?_ _
  show (v.slot id).inFlight = none
  unfold Service.slot
  cases hslot : v.rooms.get? id with
  | none => rfl
  | some slot => exact h id slot hslot

/-- No run outlives the call that started it. -/
theorem idle_after (r : Resolver) (requests : List Request) :
    ((Service.ofResolver r).after requests).Idle := by
  suffices ∀ v : Service, v.Idle → (v.after requests).Idle from
    this _ fun id slot hslot => by cases hslot
  induction requests with
  | nil => exact fun _ h => h
  | cons request requests ih =>
    refine fun v h => ih _ ?_
    cases request with
    | update id candidates => exact h.update id candidates
    | current id store => exact (answered_of_idle h store id).idle h

/-- A call that fails leaves the rooms and the entries of the cache as they were. -/
theorem Answered.kept {e : Error} (h : Answered store v id v' (.error e)) :
    v'.rooms = v.rooms ∧ v'.resolver.cache.entries = v.resolver.cache.entries := by
  cases h with
  | unknown _ hkept => exact ⟨congrArg Service.rooms hkept, by rw [hkept]⟩
  | recorded _ _ _ houtcome => cases houtcome
  | resolved _ _ houtcome => cases houtcome
  | @failed slot _ _ _ _ hresolve hleft =>
    rw [hleft]
    refine ⟨rfl, ?_⟩
    show (v.resolver.resolve store id slot.candidates).1.cache.entries = _
    cases Resolver.served_resolve store v.resolver ⟨id, slot.candidates⟩ with
    | found houtcome =>
      rw [hresolve] at houtcome
      cases houtcome
    | resolved houtcome =>
      rw [hresolve] at houtcome
      cases houtcome
    | failed _ _ hkept => exact hkept

theorem call?_of_stale (hslot : v.rooms.get? id = some slot) (hfresh : slot.fresh? = none) :
    v.call? (.current id s) = some ⟨id, slot.candidates⟩ := by
  simp [Service.call?, hslot, hfresh]

/-! ## What is remembered -/

/-- A call is told from others by its fingerprint, as far as some byte strings go. -/
structure Call.Fits (texts : List (List UInt8)) (c : Call) : Prop where
  framable : ∀ m ∈ c.maps, m.Framable
  hashed : c.hashed ⊆ texts

variable {texts : List (List UInt8)} {calls calls' : List Call} {c : Call} {r : Resolver}

/-- An entry that a call finds is what the call itself would resolve to. -/
theorem Remembers.resolved (h : Remembers s config calls r) (hfree : CollisionFree texts)
    (hcalls : ∀ d ∈ calls, d.Fits texts) (hc : c.Fits texts)
    (hentry : r.cache.peek? c.key = some resolution) :
    (resolveFrom s config c.room c.maps).outcome = .ok resolution := by
  obtain ⟨d, hd, hkey, hok⟩ := h.entries _ _ hentry
  have hfits := hcalls d hd
  obtain ⟨hroom, hmaps⟩ := InputKey.eq_of_ofInputs hfree hfits.framable hc.framable hfits.hashed
    hc.hashed hkey
  rw [hroom] at hok
  exact outcome_resolveFrom_of_mem_iff hmaps hok

/-- What a call over one store comes to is what another resolves to, where all that the one
resolves to the other does. -/
theorem Remembers.outcome_ok (h : Remembers s config calls r) (hfree : CollisionFree texts)
    (hcalls : ∀ d ∈ calls, d.Fits texts) (hc : c.Fits texts)
    (hsound : ∀ resolution, (resolveFrom s' config c.room c.maps).outcome = .ok resolution →
      (resolveFrom s config c.room c.maps).outcome = .ok resolution)
    (hok : (r.resolve s' c.room c.maps).2.outcome = .ok resolution) :
    (resolveFrom s config c.room c.maps).outcome = .ok resolution := by
  cases Resolver.served_resolve s' r c with
  | found houtcome hentry =>
    rw [hok] at houtcome
    cases houtcome
    exact h.resolved hfree hcalls hc hentry
  | resolved _ hstore =>
    rw [hok, h.config_eq] at hstore
    exact hsound _ hstore
  | failed houtcome =>
    rw [hok] at houtcome
    cases houtcome

/-- A call over a store that resolves all that is remembered ends as one without a memory. -/
theorem Remembers.outcome_resolve (h : Remembers s config calls r) (hfree : CollisionFree texts)
    (hcalls : ∀ d ∈ calls, d.Fits texts) (hc : c.Fits texts)
    (hheld : ∀ resolution, (resolveFrom s config c.room c.maps).outcome = .ok resolution →
      (resolveFrom s' config c.room c.maps).outcome = .ok resolution) :
    (r.resolve s' c.room c.maps).2.outcome = (resolveFrom s' config c.room c.maps).outcome := by
  cases Resolver.served_resolve s' r c with
  | found houtcome hentry =>
    rw [houtcome, hheld _ (h.resolved hfree hcalls hc hentry)]
  | resolved _ hstore =>
    rw [h.config_eq] at hstore
    exact hstore.symm
  | failed _ hstore =>
    rw [h.config_eq] at hstore
    exact hstore.symm

/-- What some states resolve to over one part of a graph they resolve to over any that has
lost nothing of where they lead. -/
theorem outcome_resolveFrom_of_partOf {within : EventId → Prop} {maps : List StateMap}
    (hs : s.PartOf g) (hs' : s'.Holds g within)
    (hcited : ∀ id cited, within id → g.Cites id cited → within cited)
    (hmaps : ∀ m ∈ maps, ∀ id ∈ m.eventIds, within id)
    (hok : (resolveFrom s config id maps).outcome = .ok resolution) :
    (resolveFrom s' config id maps).outcome = .ok resolution := by
  rw [outcome_resolveFrom] at hok ⊢
  obtain ⟨loaded, hload, hresolve⟩ := bind_eq_ok.1 hok
  refine bind_eq_ok.2 ⟨loaded, EventStore.outcome_load_of_partOf hs hs' hcited ?_ hload, hresolve⟩
  intro root hroot
  obtain ⟨m, hm, hid⟩ := List.mem_flatMap.1 hroot
  exact hmaps m hm root hid

theorem outcome_resolveFrom_ofGraph {maps : List StateMap} (hs : s.PartOf g)
    (hok : (resolveFrom s config id maps).outcome = .ok resolution) :
    (resolveFrom (.ofGraph g) config id maps).outcome = .ok resolution :=
  outcome_resolveFrom_of_partOf hs (EventStore.holds_ofGraph g fun _ => True)
    (fun _ _ _ _ => trivial) (fun _ _ _ _ => trivial) hok

/-- With nothing missing of what some states lead to, a store resolves them as the graph does. -/
theorem outcome_resolveFrom_of_holds {maps : List StateMap}
    (hs : s.Holds g fun i => ∃ m ∈ maps, ∃ root ∈ m.eventIds, g.Reaches root i)
    (hok : (resolveFrom (.ofGraph g) config id maps).outcome = .ok resolution) :
    (resolveFrom s config id maps).outcome = .ok resolution := by
  refine outcome_resolveFrom_of_partOf (EventStore.partOf_ofGraph g) hs ?_ ?_ hok
  · rintro i cited ⟨m, hm, root, hroot, hreach⟩ hcites
    exact ⟨m, hm, root, hroot, hreach.tail hcites⟩
  · intro m hm root hroot
    exact ⟨m, hm, root, hroot, .refl⟩

/-! ## What is kept between calls -/

/-- What a slot has recorded of its present candidates is what they come to over a graph. -/
structure Slot.Sound (g : EventGraph) (config : Configuration) (id : RoomId) (slot : Slot) :
    Prop where
  bounded : ∀ entry ∈ slot.current, entry.1 ≤ slot.generation
  fresh : ∀ resolution, slot.fresh? = some resolution →
    (resolveFrom (.ofGraph g) config id slot.candidates).outcome = .ok resolution

theorem Slot.Sound.unused : Slot.Sound g config id {} where
  bounded _ h := by cases h
  fresh _ h := by cases h

/-- After an update nothing that was recorded is of the present candidates. -/
theorem Slot.Sound.update (h : slot.Sound g config id) (candidates : List StateMap) :
    (slot.update candidates).Sound g config id := by
  have hstale : (slot.update candidates).fresh? = none := by
    obtain ⟨_, generation, current, _⟩ := slot
    cases current with
    | none => rfl
    | some entry =>
      have hold : entry.1 ≤ generation := h.bounded entry rfl
      have hne : ¬ entry.1 = generation + 1 := by omega
      simp [Slot.update, Slot.fresh?, hne]
  refine ⟨fun entry hentry => Nat.le_succ_of_le (h.bounded entry hentry), ?_⟩
  intro resolution hfresh
  rw [hstale] at hfresh
  cases hfresh

theorem Slot.sound_of_recorded
    (hok : (resolveFrom (.ofGraph g) config id slot.candidates).outcome = .ok resolution) :
    { slot with current := some (slot.generation, resolution) }.Sound g config id where
  bounded entry hentry := by
    cases hentry
    exact Nat.le_refl _
  fresh found hfound := by
    have hsame : resolution = found := by simpa [Slot.fresh?] using hfound
    rw [← hsame]
    exact hok

/-- A service holds nothing but what its latest candidates come to over a graph. -/
structure Traced (g : EventGraph) (config : Configuration) (requests : List Request)
    (calls : List Call) (v : Service) : Prop where
  sound : ∀ id slot, v.rooms.get? id = some slot → slot.Sound g config id
  candidates : ∀ id, (v.rooms.get? id).map Slot.candidates = Request.latest? requests id
  remembers : Remembers (.ofGraph g) config calls v.resolver

theorem Traced.start (hfresh : Resolver.ofConfiguration config = .ok fresh) :
    Traced g config [] [] (.ofResolver fresh) where
  sound _ _ h := by cases h
  candidates _ := rfl
  remembers := .fresh hfresh

theorem Traced.slot_sound (h : Traced g config requests calls v) (id : RoomId) :
    (v.slot id).Sound g config id := by
  unfold Service.slot
  cases hslot : v.rooms.get? id with
  | none => exact .unused
  | some slot => exact h.sound id slot hslot

theorem Request.latest?_concat (requests : List Request) (request : Request) (id : RoomId) :
    Request.latest? (requests ++ [request]) id =
      (request.candidates? id).or (Request.latest? requests id) := by
  rw [Request.latest?, List.filterMap_append, List.getLast?_append]
  cases hcandidates : request.candidates? id <;> simp [hcandidates, Request.latest?]

theorem Request.latest?_concat_current (requests : List Request) (id i : RoomId) (s : EventStore) :
    Request.latest? (requests ++ [.current id s]) i = Request.latest? requests i :=
  Request.latest?_concat requests (.current id s) i

/-- Putting a sound slot in the place of another keeps the trace. -/
theorem Traced.insert {requests' : List Request} (h : Traced g config requests calls v)
    (hsound : slot.Sound g config id)
    (hlatest : ∀ i, Request.latest? requests' i =
      if i = id then some slot.candidates else Request.latest? requests i)
    (hremembers : Remembers (.ofGraph g) config calls' r) :
    Traced g config requests' calls' ⟨r, v.rooms.insert id slot⟩ where
  sound i found hfound := by
    rw [SortedMap.get?_insert] at hfound
    split at hfound
    · next hi =>
      cases hfound
      rw [hi]
      exact hsound
    · exact h.sound i found hfound
  candidates i := by
    rw [SortedMap.get?_insert, hlatest, ← h.candidates]
    split <;> rfl
  remembers := hremembers

theorem Traced.update (h : Traced g config requests calls v) (id : RoomId)
    (candidates : List StateMap) :
    Traced g config (requests ++ [.update id candidates]) calls (v.update id candidates).1 := by
  refine h.insert ((h.slot_sound id).update candidates) (fun i => ?_) h.remembers
  rw [Request.latest?_concat]
  by_cases hi : i = id
  · simp [Request.candidates?, Slot.update, hi]
  · simp [Request.candidates?, hi, Ne.symm hi]

/-- What a call comes to over some part of the graph, the candidates come to over all of it. -/
theorem Traced.outcome_ok (h : Traced g config requests calls v) (hfree : CollisionFree texts)
    (hcalls : ∀ d ∈ calls, d.Fits texts) (hs : s.PartOf g) (c : Call) (hc : c.Fits texts)
    (hok : (v.resolver.resolve s c.room c.maps).2.outcome = .ok resolution) :
    (resolveFrom (.ofGraph g) config c.room c.maps).outcome = .ok resolution :=
  h.remembers.outcome_ok hfree hcalls hc (fun _ => outcome_resolveFrom_ofGraph hs) hok

theorem Traced.current (h : Traced g config requests calls v) (hidle : v.Idle)
    (hfree : CollisionFree texts)
    (hcalls : ∀ c ∈ calls ++ (v.call? (.current id s)).toList, c.Fits texts) (hs : s.PartOf g) :
    Traced g config (requests ++ [.current id s]) (calls ++ (v.call? (.current id s)).toList)
      (v.current s id).1 := by
  have hlatest := fun i => Request.latest?_concat_current requests id i s
  have hkept : v.call? (.current id s) = none →
      Traced g config (requests ++ [.current id s]) (calls ++ (v.call? (.current id s)).toList)
        v := fun hcall => by
    rw [hcall, Option.toList_none, List.append_nil]
    exact ⟨h.sound, fun i => (h.candidates i).trans (hlatest i).symm, h.remembers⟩
  have hremembers : ∀ slot : Slot, Remembers (.ofGraph g) config
      (calls ++ [⟨id, slot.candidates⟩]) (v.resolver.resolve s id slot.candidates).1 :=
    fun slot => h.remembers.resolve ⟨id, slot.candidates⟩ fun _ => outcome_resolveFrom_ofGraph hs
  cases answered_of_idle hidle s id with
  | unknown hslot hleft =>
    rw [hleft]
    exact hkept (by simp [Service.call?, hslot])
  | recorded hslot hfresh hleft =>
    rw [hleft]
    exact hkept (by simp [Service.call?, hslot, hfresh])
  | @failed slot _ hslot hfresh _ _ hleft =>
    rw [hleft, call?_of_stale hslot hfresh, Option.toList_some]
    exact ⟨h.sound, fun i => (h.candidates i).trans (hlatest i).symm, hremembers slot⟩
  | @resolved slot resolution hslot hfresh houtcome hresolve hleft =>
    rw [call?_of_stale hslot hfresh, Option.toList_some] at hcalls ⊢
    have hok := h.outcome_ok hfree (fun c hc => hcalls c (List.mem_append_left _ hc)) hs
      ⟨id, slot.candidates⟩ (hcalls _ (List.mem_append_right _ List.mem_cons_self))
      (hresolve.trans houtcome)
    rw [hleft]
    refine h.insert (Slot.sound_of_recorded hok) (fun i => ?_) (hremembers slot)
    rw [hlatest]
    split
    · next hi =>
      rw [hi, ← h.candidates, hslot]
      rfl
    · rfl

/-- Over a store that resolves all that the graph does, a call ends as the latest candidates
resolve there. -/
theorem Traced.outcome_current (h : Traced g config requests calls v) (hidle : v.Idle)
    (hfree : CollisionFree texts)
    (hcalls : ∀ c ∈ calls ++ (v.call? (.current id s)).toList, c.Fits texts)
    {candidates : List StateMap} (hlatest : Request.latest? requests id = some candidates)
    (hheld : ∀ resolution,
      (resolveFrom (.ofGraph g) config id candidates).outcome = .ok resolution →
        (resolveFrom s config id candidates).outcome = .ok resolution) :
    (v.current s id).2.outcome = (resolveFrom s config id candidates).outcome := by
  rw [← h.candidates] at hlatest
  have hresolved : ∀ slot, v.rooms.get? id = some slot → slot.fresh? = none →
      (v.resolver.resolve s id slot.candidates).2.outcome =
        (resolveFrom s config id candidates).outcome := fun slot hslot hstale => by
    have hlast : Call.Fits texts ⟨id, slot.candidates⟩ := hcalls _ (List.mem_append_right _
      (Option.mem_toList.2 (call?_of_stale hslot hstale)))
    rw [hslot] at hlatest
    cases hlatest
    exact h.remembers.outcome_resolve hfree (fun c hc => hcalls c (List.mem_append_left _ hc))
      (c := ⟨id, slot.candidates⟩) hlast hheld
  cases answered_of_idle hidle s id with
  | unknown hslot =>
    rw [hslot] at hlatest
    cases hlatest
  | @recorded slot resolution hslot hfound _ houtcome =>
    rw [hslot] at hlatest
    cases hlatest
    rw [houtcome, hheld resolution ((h.sound id slot hslot).fresh resolution hfound)]
  | resolved hslot hstale _ hresolve => rw [← hresolve, hresolved _ hslot hstale]
  | failed hslot hstale _ hresolve => rw [← hresolve, hresolved _ hslot hstale]

/-! ## Any number of calls -/

theorem calls_concat (v : Service) (requests : List Request) (request : Request) :
    v.calls (requests ++ [request]) =
      v.calls requests ++ ((v.after requests).call? request).toList := by
  induction requests generalizing v with
  | nil => exact List.append_nil _
  | cons first rest ih =>
    show (v.call? first).toList ++ (v.serve first).calls (rest ++ [request]) = _
    rw [ih, ← List.append_assoc]
    rfl

theorem after_concat (v : Service) (requests : List Request) (request : Request) :
    v.after (requests ++ [request]) = (v.after requests).serve request :=
  List.foldl_concat ..

/-- Any calls keep a service to what its candidates come to. -/
theorem traced_after (hfresh : Resolver.ofConfiguration config = .ok fresh)
    (hstores : ∀ request ∈ requests, request.Over g) (hfree : CollisionFree texts)
    (hcalls : ∀ c ∈ (Service.ofResolver fresh).calls requests, c.Fits texts) :
    Traced g config requests ((Service.ofResolver fresh).calls requests)
      ((Service.ofResolver fresh).after requests) := by
  induction requests using List.reverseRecOn with
  | nil => exact .start hfresh
  | append_singleton requests request ih =>
    rw [calls_concat] at hcalls ⊢
    have hbefore := ih (fun request hmem => hstores request (List.mem_append_left _ hmem))
      fun c hc => hcalls c (List.mem_append_left _ hc)
    have hover : request.Over g := hstores request (List.mem_append_right _ List.mem_cons_self)
    rw [after_concat]
    cases request with
    | update id candidates =>
      show Traced g config _ (_ ++ []) _
      rw [List.append_nil]
      exact hbefore.update id candidates
    | current id store => exact hbefore.current (idle_after fresh requests) hfree hcalls hover

/-- A fresh service that has been given some candidates resolves them. -/
theorem outcome_current_update (hfresh : Resolver.ofConfiguration config = .ok fresh)
    (s : EventStore) (id : RoomId) (candidates : List StateMap) :
    (((Service.ofResolver fresh).update id candidates).1.current s id).2.outcome =
      (resolveFrom s config id candidates).outcome := by
  have hslot : ((Service.ofResolver fresh).update id candidates).1.rooms.get? id =
      some (Slot.update {} candidates) := by
    simp [Service.update, Service.slot, Service.ofResolver]
  rw [← Resolver.outcome_resolve_fresh hfresh]
  cases hresolve : (fresh.resolve s id candidates).2.outcome with
  | ok resolution => exact (current_of_ok hslot rfl rfl hresolve).2
  | error e => exact (current_of_error hslot rfl rfl hresolve).2

/-- A call for the current state that fails leaves every slot and every entry of the cache as
it was, and no run under way.  And whatever has failed before, once the store hands out all
that the latest candidates of a room rest on, a call ends as with a fresh service that has been
given no more than these candidates.  The second half needs the fingerprints of the calls to
tell them apart: the hash must not have collided on what has been hashed for them, and no text
of their states may have `2 ^ 64` bytes or more. -/
theorem failures_leave_no_trace (config : Configuration) (fresh : Resolver)
    (requests : List Request) (id : RoomId) (s : EventStore)
    (hfresh : Resolver.ofConfiguration config = .ok fresh) :
    let v := (Service.ofResolver fresh).after requests
    let calls := (Service.ofResolver fresh).calls (requests ++ [.current id s])
    (∀ e, (v.current s id).2.outcome = .error e →
      (v.current s id).1.rooms = v.rooms ∧
        (v.current s id).1.resolver.cache.entries = v.resolver.cache.entries ∧
        (v.current s id).1.Idle) ∧
    ∀ g, (∀ request ∈ requests ++ [.current id s], request.Over g) →
      (∀ c ∈ calls, ∀ m ∈ c.maps, m.Framable) → CollisionFree (calls.flatMap Call.hashed) →
      ∀ candidates, Request.latest? requests id = some candidates →
        s.Holds g (fun i => ∃ m ∈ candidates, ∃ root ∈ m.eventIds, g.Reaches root i) →
        (v.current s id).2.outcome =
          (((Service.ofResolver fresh).update id candidates).1.current s id).2.outcome := by
  intro v calls
  have hidle : v.Idle := idle_after fresh requests
  have hanswered := answered_of_idle hidle s id
  constructor
  · intro e herror
    have hunharmed := hanswered.idle hidle
    rw [herror] at hanswered
    obtain ⟨hrooms, hentries⟩ := hanswered.kept
    exact ⟨hrooms, hentries, hunharmed⟩
  · intro g hstores hframable hfree candidates hlatest hholds
    have hfits : ∀ c ∈ calls, Call.Fits (calls.flatMap Call.hashed) c := fun c hc =>
      ⟨hframable c hc, fun b hb => List.mem_flatMap.2 ⟨c, hc, hb⟩⟩
    have hcalls : calls = (Service.ofResolver fresh).calls requests ++
        (v.call? (.current id s)).toList := calls_concat ..
    have htraced : Traced g config requests ((Service.ofResolver fresh).calls requests) v :=
      traced_after hfresh (fun request hmem => hstores request (List.mem_append_left _ hmem)) hfree
        fun c hc => hfits c (hcalls ▸ List.mem_append_left _ hc)
    rw [outcome_current_update hfresh]
    exact htraced.outcome_current hidle hfree (fun c hc => hfits c (hcalls ▸ hc)) hlatest
      fun _ => outcome_resolveFrom_of_holds hholds

/-- The room is given its candidates, and somebody asks while the store is down. -/
def hallRequests : List Request :=
  [.update soleCreate.room [createdState, .empty],
    .current soleCreate.room (hallStore.withOutage ⟨soleCreate.id, "down"⟩)]

/-- The store has lost the create event. -/
def lostStore : EventStore := .ofGraph .empty

theorem calls_hallRequests (s : EventStore) :
    (Service.ofResolver hallResolver).calls (hallRequests ++ [.current soleCreate.room s]) =
      [⟨soleCreate.room, [createdState, .empty]⟩, ⟨soleCreate.room, [createdState, .empty]⟩] := by
  rw [calls_concat]
  rfl

theorem over_hallRequests : ∀ request ∈ hallRequests ++ [.current soleCreate.room hallStore],
    request.Over (.ofEvents [soleCreate]) := by
  intro request hrequest
  rw [hallRequests, List.mem_append, List.mem_pair, List.mem_singleton] at hrequest
  have hstore : hallStore.PartOf (.ofEvents [soleCreate]) := EventStore.partOf_ofGraph _
  rcases hrequest with (rfl | rfl) | rfl
  · trivial
  · exact hstore.withOutage _
  · exact hstore

/-- The room is asked for again while the create event is lost, which fails, and once it is
back, which succeeds. -/
theorem failures_leave_no_trace_hallRequests :
    (((Service.ofResolver hallResolver).after hallRequests).current lostStore
        soleCreate.room).2.outcome =
      .error (.fetch soleCreate.id.text .referenceNotInStore) ∧
    (((Service.ofResolver hallResolver).after hallRequests).current lostStore
        soleCreate.room).1.rooms =
      ((Service.ofResolver hallResolver).after hallRequests).rooms ∧
    (((Service.ofResolver hallResolver).after hallRequests).current hallStore
        soleCreate.room).2.outcome.isOk = true ∧
    (((Service.ofResolver hallResolver).after hallRequests).current hallStore
        soleCreate.room).2.outcome =
      (((Service.ofResolver hallResolver).update soleCreate.room
        [createdState, .empty]).1.current hallStore soleCreate.room).2.outcome := by
  have hframable : ∀ c ∈ (Service.ofResolver hallResolver).calls
      (hallRequests ++ [.current soleCreate.room hallStore]), ∀ m ∈ c.maps, m.Framable := by
    rw [calls_hallRequests]
    decide +kernel
  have hfree : CollisionFree (((Service.ofResolver hallResolver).calls
      (hallRequests ++ [.current soleCreate.room hallStore])).flatMap Call.hashed) := by
    have hdistinct : ((InputKey.hashed soleCreate.room [createdState, .empty]).map
        Sha256.digest).Nodup := by decide +kernel
    rw [calls_hallRequests]
    refine .of_nodup hdistinct fun b hb => ?_
    simpa [Call.hashed] using hb
  have hfailed : (((Service.ofResolver hallResolver).after hallRequests).current lostStore
      soleCreate.room).2.outcome = .error (.fetch soleCreate.id.text .referenceNotInStore) := rfl
  have hkept := (failures_leave_no_trace {} hallResolver hallRequests soleCreate.room lostStore
    rfl).1 _ hfailed
  have hrecovered := (failures_leave_no_trace {} hallResolver hallRequests soleCreate.room
    hallStore rfl).2 (.ofEvents [soleCreate]) over_hallRequests hframable hfree
    [createdState, .empty] rfl (EventStore.holds_ofGraph _ _)
  exact ⟨hfailed, hkept.1, by decide +kernel, hrecovered⟩

end StateResolution
