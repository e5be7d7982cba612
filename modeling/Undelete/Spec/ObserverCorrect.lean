import Mathlib.Data.List.Induction
import Undelete.Spec.RestoreJobCorrect

/-!
# What the observer of a restore job is told

The observer is told of the items one by one, of each when it begins and when it ends, and of a
summary that holds no more items than it has been told of as published.

## Key results

- `tellsPlan_of_guarded`: the events, by their position.
- `jobTrace_tells`: what a run of the job tells its observer.
-/

namespace Undelete.Restore

open Except EStateM Trace

variable {σ Value : Type} {env : JobEnv σ Value} {root : DestinationRoot} {plan : RestoreJobPlan}
  {trace : List (Event Value)}

/-! ## The events -/

/-- The event at position `k`: the begin of the item `k / 2` when `k` is even, else its end. -/
def TellsAt (plan : RestoreJobPlan) (k : Nat) (event : RestoreJobEvent) : Prop :=
  ∃ item, plan.items[k / 2]? = some item ∧
    (k % 2 = 0 ∧ event = startedEvent item (k / 2) ∨ k % 2 = 1 ∧ ∃ outcome,
      event = .itemFinished (k / 2) item.candidateId item.observerKind outcome)

/-- Events that tell of the items of the plan, and of none behind one that ends the job. -/
structure TellsPlan (plan : RestoreJobPlan) (events : List RestoreJobEvent) : Prop where
  event : ∀ k event, events[k]? = some event → TellsAt plan k event
  last : ∀ k event, events[k]? = some event → event.endsJob = true → k + 1 = events.length

theorem startedEvent_endsJob (item : FileRestorePlan) (i : Nat) :
    (startedEvent item i).endsJob = false := rfl

theorem TellsPlan.nil : TellsPlan plan [] :=
  ⟨fun _ _ h => (by cases h), fun _ _ h => (by cases h)⟩

theorem TellsPlan.concat {events : List RestoreJobEvent} {event : RestoreJobEvent}
    (h : TellsPlan plan events) (hevent : TellsAt plan events.length event)
    (hgood : ∀ e ∈ events, e.endsJob = false) : TellsPlan plan (events ++ [event]) := by
  constructor
  · intro k event' hk
    by_cases hlt : k < events.length
    · rw [List.getElem?_append_left hlt] at hk
      exact h.event k event' hk
    · obtain ⟨hbound, _⟩ := List.getElem?_eq_some_iff.mp hk
      rw [List.length_append, List.length_singleton] at hbound
      obtain rfl : k = events.length := by omega
      rw [List.getElem?_concat_length] at hk
      cases hk
      exact hevent
  · intro k event' hk hends
    rw [List.length_append, List.length_singleton]
    by_cases hlt : k < events.length
    · rw [List.getElem?_append_left hlt] at hk
      rw [hgood event' (List.mem_of_getElem? hk)] at hends
      cases hends
    · obtain ⟨hbound, _⟩ := List.getElem?_eq_some_iff.mp hk
      rw [List.length_append, List.length_singleton] at hbound
      omega

/-- What was told before is told of the same items. -/
theorem TellsPlan.front {events events' : List RestoreJobEvent} (h : TellsPlan plan events)
    (hfront : events' <+: events) : TellsPlan plan events' := by
  obtain ⟨rest, rfl⟩ := hfront
  have hat : ∀ (k : Nat) (event : RestoreJobEvent), events'[k]? = some event →
      (events' ++ rest)[k]? = some event := by
    intro k event hk
    rw [List.getElem?_append_left (List.getElem?_eq_some_iff.mp hk).1]
    exact hk
  constructor
  · intro k event hk
    exact h.event k event (hat k event hk)
  · intro k event hk hends
    have hlast := h.last k event (hat k event hk) hends
    obtain ⟨hlt, _⟩ := List.getElem?_eq_some_iff.mp hk
    rw [List.length_append] at hlast
    omega

/-- No event is the last of the job, when the last one is not. -/
theorem TellsPlan.good {events : List RestoreJobEvent} {event : RestoreJobEvent}
    (h : TellsPlan plan events) (hlast : events.getLast? = some event)
    (hgood : event.endsJob = false) : ∀ e ∈ events, e.endsJob = false := by
  intro e he
  obtain ⟨k, hk⟩ := List.getElem?_of_mem he
  by_contra hends
  rw [Bool.not_eq_false] at hends
  have hlength := h.last k e hk hends
  rw [List.getLast?_eq_getElem?, ← hlength, Nat.add_sub_cancel, hk] at hlast
  cases hlast
  rw [hgood] at hends
  cases hends

/-- The item that the last event begins. -/
theorem TellsPlan.length_of_started {events : List RestoreJobEvent} {item : FileRestorePlan}
    {i : Nat} (h : TellsPlan plan events) (hlast : events.getLast? = some (startedEvent item i)) :
    events.length = 2 * i + 1 := by
  rw [List.getLast?_eq_getElem?] at hlast
  obtain ⟨hlt, _⟩ := List.getElem?_eq_some_iff.mp hlast
  obtain ⟨item', _, hevent⟩ := h.event _ _ hlast
  rcases hevent with ⟨hparity, hevent⟩ | ⟨_, _, hevent⟩
  · have hi : i = (events.length - 1) / 2 := by
      unfold startedEvent at hevent
      injection hevent
    omega
  · cases hevent

theorem Tells.tellsAt {jobDir : Dir} {event : RestoreJobEvent} (hpast : TellsPlan plan (told trace))
    (h : Tells env jobDir plan trace event) :
    TellsAt plan (told trace).length event ∧ ∀ e ∈ told trace, e.endsJob = false := by
  cases h with
  | @started item i hitem hlength hgood =>
    have hi : (told trace).length / 2 = i := by omega
    refine ⟨⟨item, by rw [hi]; exact hitem, .inl ⟨by omega, by rw [hi]⟩⟩, hgood⟩
  | @finished item i result hitem hlast hresult =>
    have hlength := hpast.length_of_started hlast
    have hi : (told trace).length / 2 = i := by omega
    refine ⟨⟨item, by rw [hi]; exact hitem, .inr ⟨by omega, _, by rw [hi]⟩⟩, ?_⟩
    exact hpast.good hlast (startedEvent_endsJob item i)
  | @ended item i error hitem hlast hends =>
    have hlength := hpast.length_of_started hlast
    have hi : (told trace).length / 2 = i := by omega
    refine ⟨⟨item, by rw [hi]; exact hitem, .inr ⟨by omega, _, by rw [hi]⟩⟩, ?_⟩
    exact hpast.good hlast (startedEvent_endsJob item i)
  | @unconfirmed item i candidateId parent result hitem hlast hvisible =>
    have hlength := hpast.length_of_started hlast
    have hi : (told trace).length / 2 = i := by omega
    refine ⟨⟨item, by rw [hi]; exact hitem, .inr ⟨by omega, _, by rw [hi]⟩⟩, ?_⟩
    exact hpast.good hlast (startedEvent_endsJob item i)

/-- A step of the job that tells the observer something. -/
theorem JobStep.tells {e : Event Value} {event : RestoreJobEvent}
    (h : JobStep env root plan trace e) (hevent : e.observed = some event) :
    ∃ jobDir, Tells env jobDir plan trace event := by
  cases h with
  | temporary hjobDir hhealthy h =>
    rw [h.observed] at hevent
    cases hevent
  | item hjobDir hitem h =>
    rw [h.observed] at hevent
    cases hevent
  | @observed jobDir event' answer hjobDir h =>
    cases hevent
    exact ⟨jobDir, h⟩
  | _ => cases hevent

theorem tellsPlan_of_guarded (h : Guarded (JobStep env root plan) [] trace) :
    TellsPlan plan (told trace) := by
  induction trace using List.reverseRecOn with
  | nil => exact .nil
  | append_singleton trace e ih =>
    have hpast := ih h.front
    have hstep : JobStep env root plan trace e := h.at
    rw [told_append]
    cases hevent : e.observed with
    | none =>
      have hnone : told [e] = [] := by
        unfold told
        rw [List.filterMap_cons, hevent]
        rfl
      rw [hnone, List.append_nil]
      exact hpast
    | some event =>
      have hsome : told [e] = [event] := by
        unfold told
        rw [List.filterMap_cons, hevent]
        rfl
      obtain ⟨jobDir, htells⟩ := hstep.tells hevent
      obtain ⟨hat, hgood⟩ := htells.tellsAt hpast
      rw [hsome]
      exact hpast.concat hat hgood

/-! ## Counting the events -/

/-- An item that failed. -/
def RestoreJobEvent.failsItem : RestoreJobEvent → Bool
  | .itemFinished _ _ _ .failed => true
  | _ => false

/-- An item that was cancelled. -/
def RestoreJobEvent.cancelsItem : RestoreJobEvent → Bool
  | .itemFinished _ _ _ .cancelled => true
  | _ => false

/-- Every item that ended counts once. -/
theorem countP_outcomes {events : List RestoreJobEvent}
    (h : ∀ k event, events[k]? = some event → TellsAt plan k event) :
    events.countP (·.completes) + events.countP (·.failsItem) + events.countP (·.cancelsItem) =
      events.length / 2 := by
  induction events using List.reverseRecOn with
  | nil => rfl
  | append_singleton events event ih =>
    have hfront : ∀ k event', events[k]? = some event' → TellsAt plan k event' := by
      intro k event' hk
      apply h k event'
      rw [List.getElem?_append_left (List.getElem?_eq_some_iff.mp hk).1]
      exact hk
    have hcounts := ih hfront
    obtain ⟨item, _, hevent⟩ := h events.length event List.getElem?_concat_length
    rw [List.countP_append, List.countP_append, List.countP_append, List.length_append,
      List.length_singleton]
    rcases hevent with ⟨hparity, rfl⟩ | ⟨hparity, outcome, rfl⟩
    · show events.countP _ + 0 + (events.countP _ + 0) + (events.countP _ + 0) = _
      omega
    · cases outcome with
      | failed =>
        show events.countP _ + 0 + (events.countP _ + 1) + (events.countP _ + 0) = _
        omega
      | cancelled =>
        show events.countP _ + 0 + (events.countP _ + 0) + (events.countP _ + 1) = _
        omega
      | _ =>
        show events.countP _ + 1 + (events.countP _ + 0) + (events.countP _ + 0) = _
        omega

/-! ## The summaries -/

/-- The summary the observer is handed. -/
def Event.reportedSummary : Event Value → Option (RestoreSummary Value)
  | .call (.manifestPublished summary) _ => some summary
  | _ => none

/-- The outcomes with a result are the first ones. -/
theorem length_filterMap_le {α β : Type} {f : α → Option β} {xs : List α} {m : Nat}
    (h : ∀ i x, xs[i]? = some x → (f x).isSome = true → i < m) : (xs.filterMap f).length ≤ m := by
  rw [← List.take_append_drop m xs, List.filterMap_append, List.length_append]
  have hrest : (xs.drop m).filterMap f = [] := by
    rw [List.filterMap_eq_nil_iff]
    intro x hx
    obtain ⟨i, hi⟩ := List.getElem?_of_mem hx
    rw [List.getElem?_drop] at hi
    by_contra hsome
    have hlt := h (m + i) x hi (Option.isSome_iff_ne_none.mpr hsome)
    omega
  have hfront := List.length_filterMap_le f (xs.take m)
  have htake := List.length_take_le m xs
  rw [hrest, List.length_nil]
  omega

theorem OutcomesKnown.counted {jobDir : Dir} {outcomes : List (ManifestItemOutcome Value)}
    (h : OutcomesKnown env jobDir plan outcomes trace) :
    (outcomes.filterMap (·.published)).length ≤ (told trace).countP (·.completes) := by
  obtain ⟨results, terminalItem, hbuilt, hresults, hterminal⟩ := h
  have hlength := length_buildManifestOutcomes hbuilt
  unfold JobEnv.buildManifestOutcomes at hbuilt
  dsimp only at hbuilt
  rw [throw_bind, ite_throw_eq_ok] at hbuilt
  apply length_filterMap_le
  intro i outcome houtcome hsome
  obtain ⟨hi, _⟩ := List.getElem?_eq_some_iff.mp houtcome
  have hzip : plan.items.zipIdx[i]? = some (plan.items[i], i) := by
    rw [List.getElem?_zipIdx, List.getElem?_eq_getElem (by omega), Nat.zero_add]
    rfl
  obtain ⟨outcome', houtcome', hstep⟩ := getElem?_of_mapM hbuilt.2 hzip
  rw [houtcome] at houtcome'
  cases houtcome'
  cases (manifestOutcome_eq_ok hstep).cases with
  | done hresult =>
    obtain ⟨hlt, _⟩ := List.getElem?_eq_some_iff.mp hresult
    exact Nat.lt_of_lt_of_le hlt hresults.counted
  | terminal hnone heq hindex hpublished =>
    have hknown := hterminal _ heq
    rw [hpublished] at hsome
    have hcounted := hknown.counted hsome
    have hat := hknown.index
    omega
  | later hnone heq hindex hpublished =>
    rw [hpublished] at hsome
    cases hsome

/-- The result of a run of the job. -/
def JobEnv.jobResult (env : JobEnv σ Value) (root : DestinationRoot) (plan : RestoreJobPlan)
    (s₀ : σ) : Except JobError (RestoreSummary Value) :=
  (env.restoreJob root plan).result (JobState.start s₀)

/-- What a run of a job tells its observer, when it leaves `trace` and ends with `result`. -/
structure JobTells (plan : RestoreJobPlan) (trace : List (Event Value))
    (result : Except JobError (RestoreSummary Value)) : Prop where
  tells : TellsPlan plan (told trace)
  summary : ∀ summary ∈ trace.filterMap Event.reportedSummary,
    summary.items.length ≤ (told trace).countP (·.completes)
  finished : ∀ summary, result = .ok summary → summary.items.length = plan.items.length ∧
    (told trace).length = 2 * plan.items.length ∧ ∀ event ∈ told trace, event.endsJob = false

theorem reportedSummary_counted (hguarded : Guarded (JobStep env root plan) [] trace)
    {summary : RestoreSummary Value} (hmem : summary ∈ trace.filterMap Event.reportedSummary) :
    summary.items.length ≤ (told trace).countP (·.completes) := by
  obtain ⟨e, he, hsummary⟩ := List.mem_filterMap.mp hmem
  obtain ⟨before, after, rfl⟩ := List.append_of_mem he
  have hstep := hguarded.at
  rw [List.nil_append] at hstep
  cases hstep with
  | temporary hjobDir hhealthy htemp =>
    cases htemp with
    | @handle call answer hhandle =>
      cases call with
      | manifestPublished summary => cases hhandle
      | _ => cases hsummary
    | _ => cases hsummary
  | item hjobDir hitem hstep =>
    cases hstep with
    | @handle call answer hhandle =>
      cases call with
      | manifestPublished summary => cases hhandle
      | _ => cases hsummary
    | _ => cases hsummary
  | reported answer hlinked houtcomes hitems =>
    cases hsummary
    rw [hitems]
    exact Nat.le_trans houtcomes.counted
      (told_sublist (List.sublist_append_left before _)).countP_le
  | _ => cases hsummary

/-- What a run of a job tells its observer. -/
theorem jobTrace_tells (env : JobEnv σ Value) (root : DestinationRoot) (plan : RestoreJobPlan)
    (s₀ : σ) : JobTells plan (env.jobTrace root plan s₀) (env.jobResult root plan s₀) := by
  have hguarded := jobTrace_guarded env root plan s₀
  have htells := tellsPlan_of_guarded hguarded
  refine ⟨htells, fun _ => reportedSummary_counted hguarded, ?_⟩
  intro summary hresult
  obtain ⟨_, jobDir, results, outcomes, _, hbuilt, _, hlength, hsummary, before, hbefore, hall,
    hgood⟩ := (restoreJob_spec env root plan s₀).result_ok hresult
  -- there is no item left to tell of
  have hrest : told (env.jobTrace root plan s₀) = told before := by
    obtain ⟨rest, hrest⟩ := hbefore
    have htold : told (env.jobTrace root plan s₀) = told before ++ told rest := by
      rw [← told_append, hrest]
      rfl
    have hnil : told rest = [] := by
      cases hcases : told rest with
      | nil => rfl
      | cons event events =>
        exfalso
        rw [hcases] at htold
        have hat : (told (env.jobTrace root plan s₀))[2 * plan.items.length]? = some event := by
          rw [htold, ← hall, List.getElem?_append_right (Nat.le_refl _), Nat.sub_self]
          rfl
        obtain ⟨item, hitem, _⟩ := htells.event _ _ hat
        obtain ⟨hlt, _⟩ := List.getElem?_eq_some_iff.mp hitem
        omega
    rw [htold, hnil, List.append_nil]
  refine ⟨?_, ?_, ?_⟩
  · rw [hsummary.items, filterMap_published hbuilt hlength, hlength]
  · rw [hrest]
    exact hall
  · rw [hrest]
    exact hgood

end Undelete.Restore
