import TxHarbor.Execution.Facts
import TxHarbor.Execution.FreezeRelease

open Relational Tx Transition List

namespace TxHarbor.Execution

open Store Operation Sample

/-! What later passes of any worker do for a payment whose first broadcast stopped half way. -/

variable {t : ClaimTimings} {s s' : Store}

/-- Neither the attempts, nor the sends, nor the set of steps change. -/
structure Store.Kept (s s' : Store) : Prop where
  attempts : s'.attempts = s.attempts
  sends : s'.sends = s.sends
  ids : s'.steps.rows.map Step.id = s.steps.rows.map Step.id

theorem Store.Kept.refl (s : Store) : s.Kept s := ⟨rfl, rfl, rfl⟩

theorem Store.Kept.trans {s₁ s₂ s₃ : Store} (h : s₁.Kept s₂) (h' : s₂.Kept s₃) : s₁.Kept s₃ :=
  ⟨h'.attempts.trans h.attempts, h'.sends.trans h.sends, h'.ids.trans h.ids⟩

/-- The operations of the execution layer other than a step issue. -/
def Operation.converges : Operation → Bool
  | .issue _ _ | .prepare _ _ _ _ | .sign _ | .dispatch _ _ _ _ _ | .recordWriteFailure _ _ _ _
  | .reconcile _ _ _ | .releaseFreeze _ => false
  | _ => true

theorem map_id_update {p : Step → Bool} {f : Step → Step} (hid : ∀ step, (f step).id = step.id) (rows : List Step) :
    (rows.map fun row => if p row then f row else row).map Step.id = rows.map Step.id := by
  rw [map_map]
  apply map_congr_left
  intro row _
  simp only [Function.comp]
  split
  · exact hid row
  · rfl

theorem AdvanceResult.close_id (res : AdvanceResult) (step : Step) : (res.close step).id = step.id := by
  cases res <;> rfl

variable {op : Operation} {intent : Intent}

theorem Operation.kept (hop : op.converges = true) (h : op.body t s = .ok ((), s')) : s.Kept s' := by
  by_cases hclerical : op.clerical = true
  · obtain ⟨hsteps, hattempts, hsends, -⟩ := clerical_frame hclerical h
    exact ⟨hattempts, hsends, by rw [hsteps]⟩
  cases op with
  | issue | prepare | sign | dispatch | recordWriteFailure | reconcile | releaseFreeze => cases hop
  | converge h' step res =>
    obtain ⟨-, -, -, steps, hsteps, h⟩ := converge_spec h
    have hids : steps.rows.map Step.id = s.steps.rows.map Step.id := by
      rw [Table.update?_eq_some hsteps]
      exact map_id_update res.close_id _
    rcases h with rfl | ⟨-, e, -, -, rfl | ⟨intent, -, -, rfl⟩⟩ <;> exact ⟨rfl, rfl, hids⟩
  | convergeOpenStep step v =>
    obtain ⟨-, steps, e, hrows, -, -, rfl⟩ := convergeOpenStep_spec h
    refine ⟨rfl, rfl, ?_⟩
    change steps.rows.map Step.id = _
    rw [hrows]
    exact map_id_update (f := v.close) (fun _ => rfl) _
  | _ => exact absurd rfl hclerical

namespace Store

variable (s : Store)

theorem commit_kept (t : ClaimTimings) (op : Operation) (hop : op.converges = true) :
    s.Kept (s.commit (op.body t)) := by
  rcases s.commit_cases (op.body t) with hsame | ⟨u, s', hbody, hnew⟩
  · rw [hsame]
    exact .refl s
  · rw [hnew]
    exact kept hop hbody

theorem toExecuting_kept (t : ClaimTimings) (intent : Intent) (h : Option Holder) :
    s.Kept (s.toExecuting intent h) := by
  cases h with
  | none => exact .refl s
  | some h => exact s.commit_kept t (.toExecuting intent h) rfl

theorem reconcileFrozen_kept (t : ClaimTimings) (intent : Intent) (facts : LifecycleFacts)
    (h : Option Holder) : s.Kept (s.reconcileFrozen intent facts h) := by
  unfold reconcileFrozen
  split
  · exact .refl s
  · exact (s.commit_kept t (.convergeOpenStep _ _) rfl).trans (commit_kept _ t (.ensureReconciling intent h) rfl)

theorem reconcileWithoutOpenStep_kept (t : ClaimTimings) (intent : Intent) (facts : LifecycleFacts)
    (h : Option Holder) : s.Kept (s.reconcileWithoutOpenStep intent facts h) := by
  unfold reconcileWithoutOpenStep
  split
  · exact s.commit_kept t (.completeIntent intent h) rfl
  · split
    · exact s.toExecuting_kept t intent h
    · exact .refl s

theorem reconcileOpenStep_kept (t : ClaimTimings) (intent : Intent) (step : Step)
    (facts : LifecycleFacts) (h : Option Holder) : s.Kept (s.reconcileOpenStep intent step facts h) := by
  unfold reconcileOpenStep
  split
  · exact (s.commit_kept t (.convergeOpenStep _ _) rfl).trans (commit_kept _ t (.ensureReconciling intent h) rfl)
  · split
    · exact (s.commit_kept t (.convergeOpenStep _ _) rfl).trans (toExecuting_kept _ t intent h)
    · split
      · exact (s.commit_kept t (.convergeOpenStep _ _) rfl).trans (commit_kept _ t (.completeIntent intent h) rfl)
      · exact s.commit_kept t (.recordObservation step.id facts) rfl

/-- A reconcile of the execution layer observes. -/
theorem reconcileIntent_kept (t : ClaimTimings) (h : Option Holder) : s.Kept (s.reconcileIntent h) := by
  unfold reconcileIntent
  split
  · exact .refl s
  next intent _ =>
    dsimp only
    have hrefresh : s.Kept (s.project fun p => p.applyLifecycle s.facts.current s.facts.revisionVersion) := ⟨rfl, rfl, rfl⟩
    split
    · exact (hrefresh.trans (commit_kept _ t (.recordFreeze s.facts) rfl)).trans
        (reconcileFrozen_kept _ t intent s.facts h)
    · split
      · exact hrefresh.trans (reconcileWithoutOpenStep_kept _ t intent s.facts h)
      · exact hrefresh.trans (reconcileOpenStep_kept _ t intent _ s.facts h)

theorem refreshState_kept : s.Kept s.refreshState := by
  unfold refreshState
  split
  · exact .refl s
  · exact ⟨rfl, rfl, rfl⟩

theorem serveIntent_kept (t : ClaimTimings) (owner : Owner) (env : Environment) :
    s.Kept (s.serveIntent t owner env) := by
  unfold serveIntent
  split
  · split
    · exact .refl s
    next version s' hclaim =>
      obtain ⟨e, -, hs, -⟩ := claimTx_spec hclaim
      have hkept : s.Kept s' := by
        rw [hs]
        exact ⟨rfl, rfl, rfl⟩
      exact hkept.trans (s'.commit_kept t (.toClaimed ⟨owner, version⟩) rfl)
  · exact .refl s

end Store

theorem Operation.tends_converges (h : op.tends = true) : op.converges = true := by
  cases op <;> first | rfl | cases h

theorem Store.isFrozen_commit (t : ClaimTimings) (op : Operation) (h : s.isFrozen = true) :
    (s.commit (op.body t)).isFrozen = true := by
  rcases s.commit_cases (op.body t) with hsame | ⟨u, s', hbody, hnew⟩
  · rwa [hsame]
  · rw [hnew]
    obtain ⟨events, hevents⟩ := appends hbody
    exact isFrozen_append hevents h

/-- After `recordFreeze` the marker stands. -/
theorem Store.isFrozen_recordFreeze (s : Store) (facts : LifecycleFacts) :
    (s.commit (recordFreeze facts)).isFrozen = true := by
  cases hfrozen : s.isFrozen with
  | true =>
    have hbody : recordFreeze facts s = .ok ((), s) := by
      simp only [recordFreeze, eq_ok, ite_apply_eq_ok]
      exact ⟨s, s, ⟨rfl, rfl⟩, .inl ⟨hfrozen, trivial, rfl⟩⟩
    rwa [commit_ok hbody]
  | false =>
    obtain ⟨s', hbody⟩ : ∃ s', recordFreeze facts s = .ok ((), s') := by
      simp only [recordFreeze, eq_ok, ite_apply_eq_ok]
      exact ⟨_, s, s, ⟨rfl, rfl⟩, .inr ⟨by rw [hfrozen]; decide, rfl⟩⟩
    rw [commit_ok hbody]
    rcases recordFreeze_spec hbody with ⟨rfl, hmarked⟩ | ⟨-, rfl⟩
    · exact hmarked
    · rw [isFrozen, log, any_append, Bool.or_eq_true]
      exact .inr rfl

/-- No attempt, and an intent past its issue. -/
structure Store.Stranded (s : Store) : Prop where
  empty : s.attempts.rows = []
  issued : ∃ intent, s.intent = some intent ∧ (intent.state = .executing ∨ intent.state = .reconciling)

namespace Store

theorem Stranded.of_kept (hs : s.Stranded) (hkept : s.Kept s')
    (hissued : ∃ intent, s'.intent = some intent ∧ (intent.state = .executing ∨ intent.state = .reconciling)) :
    s'.Stranded := ⟨by rw [hkept.attempts, hs.empty], hissued⟩

theorem Stranded.currentAttempt (hs : s.Stranded) : s.currentAttempt = none := by
  rw [Store.currentAttempt, hs.empty]
  rfl

theorem Stranded.confirmAttempt (hs : s.Stranded) (view : ChainView) (probe : AttemptID → Probe) :
    s.confirmAttempt view probe = s := by
  unfold Store.confirmAttempt
  rw [hs.currentAttempt]

theorem Stranded.trackable (hs : s.Stranded) (view : ChainView) : s.trackable view = false := by
  have htracked : s.trackedAttempt = none := by
    rw [trackedAttempt, hs.empty]
    rfl
  unfold Store.trackable
  rw [htracked]
  split <;> first | rfl | contradiction

theorem commit_ensureReconciling_issued {lease : Nat}
    (h : ∃ i, s.intent = some i ∧ (i.state = .executing ∨ i.state = .reconciling)) :
    ∃ i, (s.commit (ensureReconciling intent lease)).intent = some i ∧
      (i.state = .executing ∨ i.state = .reconciling) := by
  rcases s.commit_cases (ensureReconciling intent lease) with hsame | ⟨u, s', hbody, hnew⟩
  · rwa [hsame]
  · rw [hnew]
    rcases guardedTransition_spec hbody with rfl | ⟨-, -, -, rfl⟩
    · exact h
    · exact ⟨_, rfl, .inr rfl⟩

/-- The edge to executing, for a row that is still the one that was read. -/
theorem commit_toExecuting (lease : Nat) (hintent : s.intent = some intent) :
    (s.commit (Execution.toExecuting intent lease)).intent =
      if intent.state = .reconciling then some ⟨.executing, intent.stateVersion + 1⟩ else some intent := by
  by_cases hstate : intent.state = .reconciling
  · have haccepted : classifyTransition intent.state .executing ≠ .none := by rw [hstate]; decide
    obtain ⟨s', hbody⟩ : ∃ s', Execution.toExecuting intent lease s = .ok ((), s') := by
      simp only [Execution.toExecuting, if_pos hstate, factTransition, eq_ok, transitionIntent_spec]
      exact ⟨_, (), _, ⟨haccepted, hintent, rfl⟩, _, _, ⟨rfl, rfl⟩, rfl⟩
    rw [commit_ok hbody, if_pos hstate]
    rw [Execution.toExecuting, if_pos hstate] at hbody
    obtain ⟨-, -, rfl⟩ := factTransition_spec hbody
    rfl
  · have hbody : Execution.toExecuting intent lease s = .ok ((), s) := by
      rw [Execution.toExecuting, if_neg hstate]
      rfl
    rw [commit_ok hbody, if_neg hstate, hintent]

theorem toExecuting_issued (h : Option Holder) (hintent : s.intent = some intent)
    (hstate : intent.state = .executing ∨ intent.state = .reconciling) :
    ∃ i, (s.toExecuting intent h).intent = some i ∧ (i.state = .executing ∨ i.state = .reconciling ∧ h = none) := by
  cases h with
  | none => exact ⟨intent, hintent, hstate.imp id fun h => ⟨h, rfl⟩⟩
  | some h =>
    refine ⟨_, (commit_toExecuting h.leaseVersion hintent).trans (apply_ite some _ _ _).symm, .inl ?_⟩
    split
    · rfl
    next hne => exact hstate.resolve_right hne

/-- A reconcile of a stranded intent leaves it stranded: marked as frozen, or executing again. -/
theorem Stranded.reconcile (hs : s.Stranded) (t : ClaimTimings) (h : Option Holder) :
    (s.reconcileIntent h).Stranded ∧ ((s.reconcileIntent h).isFrozen = true ∨
      ∃ i, (s.reconcileIntent h).intent = some i ∧ (i.state = .executing ∨ i.state = .reconciling ∧ h = none)) := by
  obtain ⟨intent, hintent, hstate⟩ := hs.issued
  suffices hgoal : (∃ i, (s.reconcileIntent h).intent = some i ∧ (i.state = .executing ∨ i.state = .reconciling)) ∧
      ((s.reconcileIntent h).isFrozen = true ∨ ∃ i, (s.reconcileIntent h).intent = some i ∧
        (i.state = .executing ∨ i.state = .reconciling ∧ h = none)) from
    ⟨hs.of_kept (s.reconcileIntent_kept t h) hgoal.1, hgoal.2⟩
  rw [reconcileIntent_of_intent hintent]
  dsimp only
  generalize hrefreshed : (s.project fun p => p.applyLifecycle s.facts.current s.facts.revisionVersion) = s₁
  have hintent₁ : s₁.intent = some intent := by rw [← hrefreshed, ← hintent]; rfl
  have hexecutes : ∀ s₂ : Store, s₂.intent = some intent →
      (∃ i, (s₂.toExecuting intent h).intent = some i ∧ (i.state = .executing ∨ i.state = .reconciling)) ∧
      ((s₂.toExecuting intent h).isFrozen = true ∨ ∃ i, (s₂.toExecuting intent h).intent = some i ∧
        (i.state = .executing ∨ i.state = .reconciling ∧ h = none)) := by
    intro s₂ hs₂
    obtain ⟨i, hi, hexecuting⟩ := toExecuting_issued h hs₂ hstate
    exact ⟨⟨i, hi, hexecuting.imp id And.left⟩, .inr ⟨i, hi, hexecuting⟩⟩
  split
  · -- the frozen branch records the marker
    have hmarked := s₁.isFrozen_recordFreeze s.facts
    have hintent₂ := (s₁.commit_recordFreeze_intent s.facts).trans hintent₁
    unfold reconcileFrozen
    split
    · exact ⟨⟨intent, hintent₂, hstate⟩, .inl hmarked⟩
    · refine ⟨commit_ensureReconciling_issued ⟨intent, ?_, hstate⟩, .inl ?_⟩
      · rw [commit_convergeOpenStep_intent, hintent₂]
      · exact isFrozen_commit t (.ensureReconciling intent h) (isFrozen_commit t (.convergeOpenStep _ _) hmarked)
  next hunfrozen =>
    have hconfirmed : s.facts.confirmedSent = false := by
      rw [LifecycleFacts.confirmedSent, facts_currentState_none hs.currentAttempt]
      rfl
    have hattempts : s.facts.attempts = [] := by
      change s.attempts.rows.map _ = []
      rw [hs.empty]
      rfl
    have hunknown : s.facts.unknown = none := by
      refine facts_unknown_none (by simpa using hunfrozen) ?_
      rw [hs.empty]
      exact fun _ => (by rintro ⟨⟩)
    split
    · unfold reconcileWithoutOpenStep
      rw [if_neg (by rw [hconfirmed]; decide)]
      split
      · exact hexecutes s₁ hintent₁
      next hnot =>
        have hexecuting : intent.state = .executing := hstate.resolve_right fun hrec => hnot ⟨hunknown, hattempts, hrec⟩
        exact ⟨⟨intent, hintent₁, hstate⟩, .inr ⟨intent, hintent₁, .inl hexecuting⟩⟩
    · unfold reconcileOpenStep
      rw [hunknown]
      dsimp only
      rw [if_pos hattempts]
      exact hexecutes _ (by rw [commit_convergeOpenStep_intent, hintent₁])

theorem refreshState_intent (s : Store) : s.refreshState.intent = s.intent := by
  unfold refreshState
  split
  · rfl
  · rfl

theorem refreshState_isFrozen (s : Store) : s.refreshState.isFrozen = s.isFrozen := by
  unfold refreshState
  split <;> rfl

/-- No step is issued for a frozen intent, nor in a state the cycle does not issue for. -/
theorem driveStep_idle (h : Holder) (step : StepID) (env : Environment)
    (hidle : s.isFrozen = true ∨ ∃ i, s.intent = some i ∧ i.state.issues = false) : s.driveStep h step env = s := by
  unfold driveStep
  split
  next intent _ hintent =>
    split
    next hissues =>
      rcases hidle with hfrozen | ⟨i, hi, hnot⟩
      · unfold issueAndAdvance
        split
        · rfl
        next s' hissue =>
          obtain ⟨_, _, hissuable, -⟩ := issue_spec hissue
          rw [hissuable.unfrozen] at hfrozen
          cases hfrozen
      · rw [hintent, Option.some.injEq] at hi
        rw [← hi, hissues.2] at hnot
        cases hnot
    · rfl
  · rfl

theorem Stranded.cycle (hs : s.Stranded) (t : ClaimTimings) (h : Holder) (step : StepID) (env : Environment) :
    (s.execIntentCycle h step env).Stranded ∧ s.Kept (s.execIntentCycle h step env) := by
  obtain ⟨intent, hintent, hstate⟩ := hs.issued
  unfold execIntentCycle
  rw [hintent]
  dsimp only
  have hcompleted : ¬ intent.state = .completed := by rcases hstate with h | h <;> rw [h] <;> decide
  have hrevised : ¬ (intent.state = .completed ∨ intent.state = .revised) := by
    rcases hstate with h | h <;> rw [h] <;> decide
  by_cases hskip : env.admitted = false ∨ intent.state = .failed
  · rw [if_pos hskip]
    exact ⟨hs, .refl s⟩
  · rw [if_neg hskip, if_neg hrevised, if_neg hcompleted, hs.confirmAttempt]
    obtain ⟨hstranded, hidle⟩ := hs.reconcile t (some h)
    have hdrive : (s.reconcileIntent (some h)).refreshState.driveStep h step env =
        (s.reconcileIntent (some h)).refreshState := by
      apply driveStep_idle
      rw [refreshState_isFrozen, refreshState_intent]
      refine hidle.imp id ?_
      rintro ⟨i, hi, hexecuting | ⟨-, hnone⟩⟩
      · exact ⟨i, hi, by rw [hexecuting]; rfl⟩
      · cases hnone
    rw [hdrive]
    have hkept := (s.reconcileIntent_kept t (some h)).trans (refreshState_kept _)
    exact ⟨hs.of_kept hkept (by rw [refreshState_intent]; exact hstranded.issued), hkept⟩

theorem Stranded.tracking (hs : s.Stranded) (env : Environment) : s.trackingPass env = s := if_neg fun h => by
    rw [hs.trackable] at h
    cases h.1

theorem Stranded.catchUp (hs : s.Stranded) (t : ClaimTimings) (env : Environment) :
    (s.startupCatchUp env).Stranded ∧ s.Kept (s.startupCatchUp env) := by
  unfold startupCatchUp
  split
  · rw [hs.tracking]
    dsimp only
    split
    · exact ⟨hs.of_kept s.refreshState_kept (by rw [refreshState_intent]; exact hs.issued), s.refreshState_kept⟩
    · have hkept := (s.reconcileIntent_kept t none).trans (refreshState_kept _)
      exact ⟨hs.of_kept hkept (by rw [refreshState_intent]; exact (hs.reconcile t none).1.issued), hkept⟩
  · exact ⟨hs, .refl s⟩

end Store

/-- Tending a claim leaves the intent alone. -/
theorem Operation.tends_intent (htends : op.tends = true) (h : op.body t s = .ok ((), s')) : s'.intent = s.intent := by
  cases op with
  | renew h' | advanceProgress h' =>
    simp only [body, Execution.renew, Execution.advanceProgress] at h
    obtain ⟨-, rfl⟩ := fencedUpdate_spec h
    rfl
  | release h' =>
    obtain ⟨c, -, -, -, rfl⟩ := release_spec h
    rfl
  | revoke version =>
    obtain ⟨c, -, -, -, rfl⟩ := revokeClaim_spec h
    rfl
  | sweepStalls => rcases sweepStalls_spec h with rfl | ⟨c, -, rfl⟩ <;> rfl
  | _ => cases htends

namespace Store.Stranded

theorem serve (hs : s.Stranded) (t : ClaimTimings) (owner : Owner) (env : Environment) :
    (s.serveIntent t owner env).Stranded := by
  refine hs.of_kept (s.serveIntent_kept t owner env) ?_
  obtain ⟨intent, hintent, hstate⟩ := hs.issued
  refine ⟨intent, ?_, hstate⟩
  unfold serveIntent
  split
  · split
    · exact hintent
    next version s' hclaim =>
      obtain ⟨e, -, hs', -⟩ := claimTx_spec hclaim
      have hintent' : s'.intent = some intent := by rw [hs', ← hintent]
      rcases s'.commit_cases (advanceIntentToClaimed version) with hsame | ⟨u, s₂, hbody, hnew⟩
      · rw [hsame, hintent']
      · rw [hnew]
        rcases transitionFrom_spec hbody with rfl | ⟨i, hi, hadmitted, -, -⟩
        · exact hintent'
        · rw [hintent', Option.some.injEq] at hi
          subst hi
          rw [hadmitted] at hstate
          rcases hstate with h | h <;> cases h
  · exact hintent

/-- A transaction that leaves the intent alone. -/
theorem commit (hs : s.Stranded) {body : ExecutionTx Unit} (hkept : s.Kept (s.commit body))
    (hintent : ∀ s', body s = .ok ((), s') → s'.intent = s.intent) :
    (s.commit body).Stranded ∧ s.Kept (s.commit body) := by
  refine ⟨hs.of_kept hkept ?_, hkept⟩
  rcases s.commit_cases body with hsame | ⟨u, s', hbody, hnew⟩
  · rw [hsame]
    exact hs.issued
  · rw [hnew, hintent s' hbody]
    exact hs.issued

theorem works (hs : s.Stranded) (t : ClaimTimings) (a : WorkerAction) :
    (s.works t a).Stranded ∧ s.Kept (s.works t a) := by
  cases a with
  | serve owner env => exact ⟨hs.serve t owner env, s.serveIntent_kept t owner env⟩
  | cycle h step env => exact hs.cycle t h step env
  | track env =>
    change (s.trackingPass env).Stranded ∧ _
    rw [hs.tracking, Store.works, hs.tracking]
    exact ⟨hs, .refl s⟩
  | catchUp env => exact hs.catchUp t env
  | tend op htends =>
    exact hs.commit (s.commit_kept t op (tends_converges htends)) fun _ => tends_intent htends
  | refresh readable =>
    refine hs.commit (s.commit_kept t (.refreshProjection readable) rfl) fun s' hbody => ?_
    obtain ⟨f, e, -, rfl⟩ := refreshProjection_spec hbody
    rfl
  | wait ticks => exact ⟨⟨hs.empty, hs.issued⟩, ⟨rfl, rfl, rfl⟩⟩

/-- No pass of any worker issues a step for a stranded intent. -/
theorem run (hs : s.Stranded) (t : ClaimTimings) (later : List WorkerAction) :
    (run (Store.works t) s later).Stranded ∧ s.Kept (run (Store.works t) s later) := by
  induction later generalizing s with
  | nil => exact ⟨hs, .refl s⟩
  | cons a rest ih =>
    obtain ⟨hstranded, hkept⟩ := hs.works t a
    obtain ⟨hfinal, hrest⟩ := ih hstranded
    exact ⟨hfinal, hkept.trans hrest⟩

/-- Issuing for a claimed, reconciling or revised intent without attempts strands it. -/
theorem of_issue {req : StepRequest} {gates : IssueGates} (hissue : issue req gates s = .ok ((), s'))
    (hintent : s.intent = some intent) (hissues : intent.state.issues = true) (hempty : s.attempts.rows = []) :
    s'.Stranded := by
  obtain ⟨i, steps, hissuable, h⟩ := issue_spec hissue
  have hi := hissuable.read
  rw [hintent, Option.some.injEq] at hi
  subst hi
  rcases h with ⟨-, rfl⟩ | ⟨hnot, rfl⟩
  · exact ⟨hempty, _, rfl, .inl rfl⟩
  · refine ⟨hempty, intent, hintent, .inr ?_⟩
    cases hstate : intent.state <;> simp_all [IntentState.issues]

end Store.Stranded

/-- A crash between the step issue and the first persisted attempt: no sequence of later passes issues
another step or persists an attempt. -/
theorem crash_after_issue_strands (t : ClaimTimings) (s s' : Store) (req : StepRequest) (gates : IssueGates)
    (intent : Intent) (hissue : issue req gates s = .ok ((), s')) (hintent : s.intent = some intent)
    (hissues : intent.state.issues = true) (hempty : s.attempts.rows = []) (later : List WorkerAction) :
    let final := run (Store.works t) s' later
    final.steps.rows.map Step.id = s'.steps.rows.map Step.id ∧ final.attempts.rows = [] ∧ final.sends = s'.sends := by
  obtain ⟨hfinal, hkept⟩ := (Store.Stranded.of_issue hissue hintent hissues hempty).run t later
  exact ⟨hkept.ids, hfinal.empty, hkept.sends⟩

theorem crash_after_first_issue_strands :
    let s := run (next timings) (.empty 0) claiming
    let s' := s.commit (issue ⟨first, 1, .firstBroadcast⟩ permitting)
    let final := run (works timings) s' [.cycle first 2 granting]
    final.steps.rows.map Step.id = s'.steps.rows.map Step.id ∧ final.attempts.rows = [] ∧ final.sends = s'.sends :=
  crash_after_issue_strands timings _ _ ⟨first, 1, .firstBroadcast⟩ permitting ⟨.claimed, 2⟩
    (ok_of_isOk (by decide +kernel)) (by decide +kernel) rfl (by decide +kernel) _

/-- The step is issued and open, the claim is current and nothing is frozen: no later passes, with all
gates open or not, issue a second step. -/
theorem first_issue_never_retried :
    let s := run (next timings) (.empty 0) issuing
    s.openStep.map Step.action = some .firstBroadcast ∧ s.attempts.rows = [] ∧ s.holds first = true ∧
      s.treatedFrozen = false ∧ ∀ later : List WorkerAction,
        (run (works timings) s later).steps.rows.map Step.id = [1] ∧
          (run (works timings) s later).attempts.rows = [] := by
  intro s
  have hempty : s.attempts.rows = [] := by decide +kernel
  have hstranded : s.Stranded := ⟨hempty, ⟨.executing, 3⟩, by decide +kernel, .inl rfl⟩
  refine ⟨by decide +kernel, hempty, by decide +kernel, by decide +kernel, fun later => ?_⟩
  obtain ⟨hfinal, hkept⟩ := hstranded.run timings later
  exact ⟨hkept.ids.trans (by decide +kernel), hfinal.empty⟩

end TxHarbor.Execution
