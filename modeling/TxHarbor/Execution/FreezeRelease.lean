import TxHarbor.Execution.Effect
import TxHarbor.Execution.Worker

open Relational Transition List

namespace TxHarbor.Execution

open Store Sample

/-! The freeze marker of the execution layer against the release of the lifecycle's freeze. -/

variable {t : ClaimTimings} {s s' : Store}

/-- Events are only appended. -/
theorem Operation.appends {op : Operation} (h : op.body t s = .ok ((), s')) :
    ∃ events, s'.events = s.events ++ events := by
  have hsame : s'.events = s.events → ∃ events, s'.events = s.events ++ events :=
    fun heq => ⟨[], by rw [heq, append_nil]⟩
  by_cases hclerical : op.clerical = true
  · exact (Operation.clerical_frame hclerical h).events
  cases op with
  | issue req gates =>
    obtain ⟨intent, steps, -, ⟨-, rfl⟩ | ⟨-, rfl⟩⟩ := issue_spec h
    · exact ⟨_, append_assoc _ _ _⟩
    · exact ⟨_, rfl⟩
  | converge h' step res =>
    obtain ⟨-, -, -, steps, -, rfl | ⟨-, e, -, -, rfl | ⟨intent, -, -, rfl⟩⟩⟩ := converge_spec h
    · exact ⟨_, rfl⟩
    · exact ⟨_, append_assoc _ _ _⟩
    · exact ⟨_, by simp only [log, moved, closed, append_assoc]; rfl⟩
  | convergeOpenStep step v =>
    obtain ⟨-, steps, e, -, -, -, rfl⟩ := convergeOpenStep_spec h
    exact ⟨_, rfl⟩
  | prepare | sign | dispatch | recordWriteFailure | reconcile | releaseFreeze =>
    exact hsame (by rw [Operation.lifecycle rfl h])
  | _ => exact absurd rfl hclerical

theorem Store.isFrozen_append {events : List Event} (h : s'.events = s.events ++ events)
    (hfrozen : s.isFrozen = true) : s'.isFrozen = true := by
  rw [isFrozen, h, any_append, Bool.or_eq_true]
  exact .inl hfrozen

theorem Store.isFrozen_next (a : Action) (hfrozen : s.isFrozen = true) : (s.next t a).isFrozen = true := by
  cases a with
  | wait ticks => exact hfrozen
  | submit op fault =>
    rcases s.next_submit t op fault with hsame | ⟨s', hbody, hnew⟩
    · rwa [hsame]
    · rw [hnew]
      obtain ⟨events, hevents⟩ := Operation.appends hbody
      exact isFrozen_append hevents hfrozen

/-- A marker that was recorded stays recorded. -/
theorem Store.isFrozen_run (actions : List Action) (hfrozen : s.isFrozen = true) :
    (run (next t) s actions).isFrozen = true :=
  Reachable.invariant (I := fun s : Store => s.isFrozen = true) ⟨actions, rfl⟩ hfrozen fun _ a h => isFrozen_next a h

/-- Whether the intent is completed. -/
def Store.completed (s : Store) : Bool := s.intent.any fun intent => intent.state == .completed

theorem Store.completed_commit_ensureReconciling {intent : Intent} {lease : Nat}
    (h : (s.commit (ensureReconciling intent lease)).completed = true) : s.completed = true := by
  rcases s.commit_cases (ensureReconciling intent lease) with hsame | ⟨u, s', hbody, hnew⟩
  · rwa [hsame] at h
  · rw [hnew] at h
    rcases guardedTransition_spec hbody with rfl | ⟨-, -, -, rfl⟩
    · exact h
    · cases h

theorem Store.commit_convergeOpenStep_intent (s : Store) (step : StepID) (v : StepVerdict) :
    (s.commit (convergeOpenStep step v)).intent = s.intent := by
  rcases s.commit_cases (convergeOpenStep step v) with hsame | ⟨u, s', hbody, hnew⟩
  · rw [hsame]
  · rw [hnew]
    obtain ⟨-, steps, e, -, -, -, rfl⟩ := convergeOpenStep_spec hbody
    rfl

theorem Store.commit_recordFreeze_intent (s : Store) (facts : LifecycleFacts) :
    (s.commit (recordFreeze facts)).intent = s.intent := by
  rcases s.commit_cases (recordFreeze facts) with hsame | ⟨u, s', hbody, hnew⟩
  · rw [hsame]
  · rw [hnew]
    rcases recordFreeze_spec hbody with ⟨rfl, -⟩ | ⟨-, rfl⟩ <;> rfl

theorem Store.reconcileIntent_of_frozen (h : Option Holder) (hfrozen : s.treatedFrozen = true)
    (hdone : (s.reconcileIntent h).completed = true) : s.completed = true := by
  unfold reconcileIntent at hdone
  split at hdone
  · exact hdone
  next intent hintent =>
    simp only [hfrozen, if_true] at hdone
    unfold reconcileFrozen at hdone
    split at hdone
    · rwa [completed, commit_recordFreeze_intent] at hdone
    · have hclosed := completed_commit_ensureReconciling hdone
      rwa [completed, commit_convergeOpenStep_intent, commit_recordFreeze_intent] at hclosed

/-- Once the reconciler recorded the marker, no later step of anyone lifts it: a release included, every
later state is treated as frozen, no step is issued and no reconcile completes the intent. -/
theorem recorded_freeze_never_lifts (t : ClaimTimings) (s : Store) (hmarked : s.isFrozen = true)
    (actions : List Action) :
    let later := run (next t) s actions
    later.treatedFrozen = true ∧ (∀ req gates u s', issue req gates later ≠ .ok (u, s')) ∧
      ∀ h, (later.reconcileIntent h).completed = true → later.completed = true := by
  intro later
  have hlater : later.isFrozen = true := isFrozen_run actions hmarked
  have htreated : later.treatedFrozen = true := by rw [treatedFrozen, hlater, Bool.or_true]
  refine ⟨htreated, ?_, fun h => reconcileIntent_of_frozen h htreated⟩
  intro req gates u s' hissued
  obtain ⟨intent, steps, hissuable, -⟩ := issue_spec hissued
  rw [hissuable.unfrozen] at hlater
  cases hlater

namespace Sample

/-- Everything at or below the head is canonical; a pause was committed before the dispatch. -/
def paused : ChainView := ⟨fun _ _ => true, 20, 3, some (-1)⟩

/-- A confirmed send that the lifecycle froze and the reconciler marked. -/
def marked : List Action :=
  [does .admitIntent, does (.claim 1 false), does (.toClaimed first), does (.issue ⟨first, 1, .firstBroadcast⟩ permitting),
   does (.prepare ⟨1⟩ .request none 0), does (.sign ⟨1⟩), does (.dispatch ⟨1⟩ first .initial ⟨none, false⟩ .accepted),
   does (.converge first 1 (.outcome .sent (some ⟨1⟩) 3)), does (.reconcile paused ⟨1⟩ (.included 5 55 paid)),
   does (.recordFreeze ⟨[(⟨1⟩, .confirmed)], some ⟨1⟩, 4, some (some ⟨1⟩, .freeze)⟩)]

def released : List Action := [does (.releaseFreeze true)]

/-- Why a transaction would roll back. -/
def refusalOf (s : Store) (body : ExecutionTx Unit) : Option Refusal :=
  match body s with
  | .ok _ => none
  | .error refusal => some refusal

end Sample

theorem recorded_freeze_after_release :
    let s := run (next timings) (.empty 0) marked
    let later := run (next timings) s released
    s.isFrozen = true ∧ later.treatedFrozen = true ∧ (∀ req gates u s', issue req gates later ≠ .ok (u, s')) ∧
      ∀ h, (later.reconcileIntent h).completed = true → later.completed = true := by
  have hmarked : (run (next timings) (.empty 0) marked).isFrozen = true := by
    decide +kernel
  exact ⟨hmarked, recorded_freeze_never_lifts _ _ hmarked _⟩

/-- The freeze was detected, recorded and released, the attempt is confirmed, the claim is current and
every gate permits: the next step is refused as frozen and the reconcile does not complete. -/
theorem released_freeze_still_refuses :
    let s := run (next timings) (.empty 0) (marked ++ released)
    s.freeze = some true ∧ s.facts.frozen = false ∧ s.facts.confirmedSent = true ∧ s.holds first = true ∧
      refusalOf s (issue ⟨first, 2, .firstBroadcast⟩ permitting) = some .frozen ∧
      (s.reconcileIntent (some first)).completed = false := by
  decide +kernel

end TxHarbor.Execution
