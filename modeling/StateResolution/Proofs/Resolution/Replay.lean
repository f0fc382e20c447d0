import Mathlib.Data.List.Induction
import StateResolution.Proofs.Fallible
import StateResolution.Resolution.Replay

/-!
# What a replay has judged

A replay that succeeds has judged each of its events once, and is told by these judgments:
what it has come to is `Replay.after` of them.  Each was made against what the judgments
before it had left (`Replay.Judged`).

The state has under each key the last event that was accepted there, or else what was
there at first; the rejections are those of the judgments.
-/

namespace StateResolution

open Fallible (bind_eq_ok pure_eq_ok)

/-- An event, and what the rules said of it. -/
structure Judgment where
  event : Event
  verdict : Verdict

namespace Judgment

/-- Whether the event was accepted at a place. -/
def holds (j : Judgment) (k : StateKey) : Bool := j.verdict.isOk && j.event.holds k

def ids (js : List Judgment) : List EventId := js.map (·.event.id)

/-- The last event that was accepted at a place. -/
def lastAt? (js : List Judgment) (k : StateKey) : Option EventId :=
  (js.reverse.find? (·.holds k)).map (·.event.id)

end Judgment

namespace Replay

/-- What a replay has come to after some judgments. -/
def after (r : Replay) (js : List Judgment) : Replay :=
  js.foldl (fun r j => r.apply j.event j.verdict) r

/-- Every judgment is of an event of the graph, against what those before it have left. -/
def Judged (g : EventGraph) (version : RoomVersion) (r : Replay) (js : List Judgment) : Prop :=
  ∀ before j rest, js = before ++ j :: rest →
    g.get? j.event.id = some j.event ∧
      evaluate g version j.event (r.after before).state (r.after before).rejected = .ok j.verdict

variable {g : EventGraph} {version : RoomVersion} {r r' : Replay} {js more : List Judgment}
  {j : Judgment}

theorem after_append (r : Replay) (js more : List Judgment) :
    r.after (js ++ more) = (r.after js).after more :=
  List.foldl_append

theorem after_concat (r : Replay) (js : List Judgment) (j : Judgment) :
    r.after (js ++ [j]) = (r.after js).apply j.event j.verdict :=
  after_append r js [j]

/-! ## The judgments of a replay -/

theorem judged_nil : Judged g version r [] := by
  intro before j rest h
  cases before <;> cases h

theorem Judged.cons (hget : g.get? j.event.id = some j.event)
    (hverdict : evaluate g version j.event r.state r.rejected = .ok j.verdict)
    (h : Judged g version (r.apply j.event j.verdict) js) : Judged g version r (j :: js) := by
  intro before i rest hsplit
  cases before with
  | nil =>
    cases hsplit
    exact ⟨hget, hverdict⟩
  | cons b before =>
    cases hsplit
    exact h before i rest rfl

theorem Judged.append (h : Judged g version r js) (hmore : Judged g version (r.after js) more) :
    Judged g version r (js ++ more) := by
  intro before i rest hsplit
  rcases List.append_eq_append_iff.1 hsplit with ⟨mid, rfl, hmid⟩ | ⟨mid, rfl, hmid⟩
  · rw [after_append]
    exact hmore mid i rest hmid
  · cases mid with
    | nil =>
      rw [List.append_nil] at *
      exact hmore [] i rest hmid.symm
    | cons m mid =>
      cases hmid
      exact h before i mid rfl

theorem Judged.of_concat (h : Judged g version r (js ++ [j])) : Judged g version r js := by
  intro before i rest hsplit
  refine h before i (rest ++ [j]) ?_
  rw [hsplit, List.append_assoc, List.cons_append]

/-- What every judgment keeps holds after all of them. -/
theorem Judged.keeps {P : Replay → Prop} (h : Judged g version r js) (hr : P r)
    (hstep : ∀ (r : Replay) (j : Judgment), j ∈ js → P r → g.get? j.event.id = some j.event →
      evaluate g version j.event r.state r.rejected = .ok j.verdict →
      P (r.apply j.event j.verdict)) : P (r.after js) := by
  induction js using List.reverseRecOn with
  | nil => exact hr
  | append_singleton js j ih =>
    obtain ⟨hget, hverdict⟩ := h js j [] rfl
    have hbefore : P (r.after js) := ih h.of_concat fun r i hi =>
      hstep r i (List.mem_append_left _ hi)
    rw [after_concat]
    exact hstep _ j (List.mem_append_right _ List.mem_cons_self) hbefore hget hverdict

theorem runAll_cons (r : Replay) (id : EventId) (rest : List EventId) :
    runAll g version r (id :: rest) = step g version r id >>= (runAll g version · rest) := by
  rw [runAll, run]
  cases step g version r id <;> rfl

/-- A replay that succeeds has judged its events, one after another. -/
theorem judged_of_runAll {ids : List EventId} (h : runAll g version r ids = .ok r') :
    ∃ js, Judgment.ids js = ids ∧ Judged g version r js ∧ r' = r.after js := by
  induction ids generalizing r with
  | nil =>
    cases h
    exact ⟨[], rfl, judged_nil, rfl⟩
  | cons id ids ih =>
    rw [runAll_cons] at h
    obtain ⟨s, hstep, hrest⟩ := bind_eq_ok.1 h
    obtain ⟨e, he, hstep⟩ := bind_eq_ok.1 hstep
    obtain ⟨verdict, hverdict, hs⟩ := bind_eq_ok.1 hstep
    cases pure_eq_ok.1 hs
    obtain ⟨js, hids, hjudged, rfl⟩ := ih hrest
    have he := EventGraph.get_eq_ok_iff.1 he
    have hid := g.keyed id e he
    refine ⟨⟨e, verdict⟩ :: js, ?_, .cons (by rw [hid, he]) hverdict hjudged, rfl⟩
    rw [Judgment.ids, List.map_cons, hid, ← hids]
    rfl

/-! ## What the judgments come to -/

theorem get?_state_apply (r : Replay) (j : Judgment) (k : StateKey) :
    (r.apply j.event j.verdict).state.get? k =
      if j.holds k then some j.event.id else r.state.get? k := by
  obtain ⟨e, verdict⟩ := j
  cases verdict with
  | error reason => rfl
  | ok u =>
    cases hplace : e.place? with
    | none => simp [apply, Judgment.holds, Event.holds, hplace]
    | some place =>
      by_cases hk : k = place
      · simp [apply, Judgment.holds, Event.holds, Except.isOk, Except.toBool, hplace, hk]
      · simp [apply, Judgment.holds, Event.holds, hplace, hk, Ne.symm hk]

theorem get?_rejected_apply (r : Replay) (j : Judgment) (id : EventId) :
    (r.apply j.event j.verdict).rejected.get? id =
      match j.verdict with
      | .ok () => r.rejected.get? id
      | .error reason => if id = j.event.id then some reason else r.rejected.get? id := by
  obtain ⟨e, verdict⟩ := j
  cases verdict with
  | error reason => exact SortedMap.get?_insert ..
  | ok u =>
    cases hplace : e.place? with
    | none => simp [apply, hplace]
    | some place => simp [apply, hplace]

/-- Under each key stands the last event that was accepted there. -/
theorem get?_state_after (r : Replay) (js : List Judgment) (k : StateKey) :
    (r.after js).state.get? k = (Judgment.lastAt? js k).or (r.state.get? k) := by
  induction js using List.reverseRecOn with
  | nil => rfl
  | append_singleton js j ih =>
    rw [after_concat, get?_state_apply, ih, Judgment.lastAt?, Judgment.lastAt?, List.reverse_append,
      List.reverse_singleton, List.singleton_append, List.find?_cons]
    cases j.holds k <;> rfl

/-- The rejections are those of the judgments, where each event is judged once. -/
theorem get?_rejected_after {state : StateMap} (hids : (Judgment.ids js).Nodup) (id : EventId)
    (reason : Rejection) :
    (after ⟨state, .empty⟩ js).rejected.get? id = some reason ↔
      ∃ j ∈ js, j.event.id = id ∧ j.verdict = .error reason := by
  induction js using List.reverseRecOn with
  | nil => simp [after]
  | append_singleton js j ih =>
    rw [Judgment.ids, List.map_append, List.nodup_append] at hids
    obtain ⟨hold, -, hnew⟩ := hids
    have hnew : ∀ i ∈ js, i.event.id ≠ j.event.id := fun i hi =>
      hnew _ (List.mem_map_of_mem hi) _ (by simp)
    rw [after_concat, get?_rejected_apply]
    cases hverdict : j.verdict with
    | ok u =>
      simp only [ih hold, List.mem_append, List.mem_singleton, or_and_right, exists_or,
        exists_eq_left, hverdict, reduceCtorEq, and_false, or_false]
    | error found =>
      simp only [List.mem_append, List.mem_singleton, or_and_right, exists_or, exists_eq_left,
        hverdict, Except.error.injEq]
      by_cases hid : id = j.event.id
      · subst hid
        simp only [if_true, Option.some.injEq, true_and]
        refine ⟨.inr, fun h => h.resolve_left ?_⟩
        rintro ⟨i, hi, heq, -⟩
        exact hnew i hi heq
      · simp [ih hold, hid, Ne.symm hid]

end Replay

end StateResolution
