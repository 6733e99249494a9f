import TxHarbor.Execution.World

open Relational Tx

namespace TxHarbor.Execution

open Store

/-! What each committed transaction leaves behind. -/

variable {t : ClaimTimings} {s s' : Store} {u : Unit}

/-- The store after a transition of the intent. -/
def Store.moved (s : Store) (read : Intent) (target : IntentState) (lease : Nat) : Store :=
  { s with
    intent := some ⟨target, read.stateVersion + 1⟩
    events := s.events ++ [{ Event.of .stateChanged with edge := some (read.state, target), leaseVersion := lease }]
    published := s.published ++ [.stateChanged read.state target] }

variable {read : Intent} {target : IntentState} {lease : Nat} {h : Holder} {step : StepID} {id : AttemptID}

theorem transitionIntent_spec : transitionIntent read target lease s = .ok (u, s') ↔
      classifyTransition read.state target ≠ .none ∧ s.intent = some read ∧ s' = s.moved read target lease := by
  simp only [transitionIntent, eq_ok, moved]
  constructor
  · rintro ⟨_, _, ⟨hedge, rfl⟩, _, _, ⟨rfl, rfl⟩, _, _, ⟨hread, rfl⟩, rfl⟩
    exact ⟨hedge, hread, rfl⟩
  · rintro ⟨hedge, hread, rfl⟩
    exact ⟨(), s, ⟨hedge, rfl⟩, s, s, ⟨rfl, rfl⟩, (), s, ⟨hread, rfl⟩, rfl⟩

theorem admitIntent_spec (h : admitIntent s = .ok (u, s')) : s.intent = none ∧
    s' = { s with intent := some ⟨.admitted, 1⟩, events := s.events ++ [Event.of .admitted],
                  projection := some ⟨.admitted, 1, none, 0, true⟩ } := by
  simp only [admitIntent, eq_ok] at h
  obtain ⟨_, _, ⟨rfl, rfl⟩, _, _, ⟨hnone, rfl⟩, rfl⟩ := h
  exact ⟨hnone, rfl⟩

theorem transitionFrom_spec {source : IntentState} (h : transitionFrom source target lease s = .ok (u, s')) :
    s' = s ∨ ∃ intent, s.intent = some intent ∧ intent.state = source ∧
      classifyTransition source target ≠ .none ∧ s' = s.moved intent target lease := by
  simp only [transitionFrom, eq_ok] at h
  obtain ⟨_, _, ⟨rfl, rfl⟩, h⟩ := h
  cases hintent : s.intent with
  | none =>
    simp only [hintent, pure_eq_ok] at h
    exact .inl h.2.symm
  | some intent =>
    simp only [hintent, ite_apply_eq_ok, pure_eq_ok, transitionIntent_spec] at h
    rcases h with ⟨hstate, hedge, -, hmoved⟩ | ⟨-, -, hsame⟩
    · exact .inr ⟨intent, rfl, hstate, hstate ▸ hedge, hmoved⟩
    · exact .inl hsame.symm

/-- The claim row after a progress write. -/
def Store.progressed (s : Store) : Option Claim := s.claim.map fun c => { c with lastProgressAt := s.now }

/-- The store after an issued step, before the move to executing. -/
def Store.issued (s : Store) (req : StepRequest) (steps : Table Step) : Store :=
  { s with
    steps := steps
    claim := s.progressed
    events := s.events ++
      [{ Event.of .stepIssued with leaseVersion := req.holder.leaseVersion, step := some req.step }] }

/-- What a committed step issue was checked against. -/
structure Issuable (s : Store) (req : StepRequest) (g : IssueGates) (intent : Intent) (steps : Table Step) : Prop where
  holds : s.holds req.holder = true
  read : s.intent = some intent
  live : intent.state ≠ .completed ∧ intent.state ≠ .failed
  unfrozen : s.isFrozen = false
  inserted : s.steps.insert? (req.row g.recoveryVersion) = some steps

/-- An issued step starts the work of a claimed or revised intent. -/
theorem issue_spec {req : StepRequest} {g : IssueGates} (h : issue req g s = .ok (u, s')) :
    ∃ intent steps, Issuable s req g intent steps ∧ ((intent.state = .claimed ∨ intent.state = .revised) ∧
          s' = (s.issued req steps).moved intent .executing req.holder.leaseVersion ∨
        ¬ (intent.state = .claimed ∨ intent.state = .revised) ∧ s' = s.issued req steps) := by
  simp only [issue, eq_ok, refuse_eq_ok, ite_apply_eq_ok, and_assoc, exists_and_left, exists_eq_left',
    exists_const] at h
  obtain ⟨hholds, intent, hintent, hcompleted, hfailed, -, -, -, -, -, hfrozen, -, steps, hsteps, _, s₁, hprogress, h⟩ := h
  obtain ⟨-, rfl⟩ := fencedUpdate_spec hprogress
  refine ⟨intent, steps, ⟨hholds, hintent, ⟨hcompleted, hfailed⟩, hfrozen, hsteps⟩, ?_⟩
  rcases h with ⟨hstate, hmoved⟩ | ⟨hstate, -, rfl⟩
  · exact .inl ⟨hstate, (transitionIntent_spec.mp hmoved).2.2⟩
  · exact .inr ⟨hstate, rfl⟩

/-- The store after a converged step, before the move to reconciling. -/
def Store.closed (s : Store) (h : Holder) (step : StepID) (res : AdvanceResult) (steps : Table Step) : Store :=
  { s with
    steps := steps
    claim := s.progressed
    events := s.events ++ [{ Event.of res.state.event with leaseVersion := h.leaseVersion, step := some step, attempt := res.attempt, revisionVersion := res.revision }] }

/-- The observation a reconcile or a converge appends. -/
def observed (lease : Nat) (step : StepID) (attempt : Option AttemptID) (revision : Nat) : Event :=
  { Event.of .reconcileObserved with leaseVersion := lease, step := some step, attempt := attempt, revisionVersion := revision }

/-- A convergence is fenced, and closes the open step of its holder. -/
theorem converge_spec {res : AdvanceResult} (hbody : converge h step res s = .ok (u, s')) :
    s.holds h = true ∧ res.state ≠ .issued ∧
      (∃ row ∈ s.steps.rows, row.id = step ∧ row.state = .issued ∧ row.holder = h) ∧
      ∃ steps, s.steps.update? (fun row => row.id == step && row.state == .issued && row.holder == h) res.close = some steps ∧
        (s' = s.closed h step res steps ∨ (res.state = .unknown ∨ res = .noSendResult) ∧
          ∃ e, e.kind = .reconcileObserved ∧ e.freezes = false ∧ (s' = (s.closed h step res steps).log e ∨
              ∃ intent, s.intent = some intent ∧ intent.state = .executing ∧
                s' = ((s.closed h step res steps).moved intent .reconciling h.leaseVersion).log e)) := by
  simp only [converge, eq_ok, ite_apply_eq_ok, and_assoc, exists_and_left, exists_eq_left', exists_const] at hbody
  obtain ⟨hholds, hstate, hrow, steps, hsteps, _, s₁, hprogress, hbody⟩ := hbody
  obtain ⟨-, rfl⟩ := fencedUpdate_spec hprogress
  refine ⟨hholds, hstate, ?_, steps, hsteps, ?_⟩
  · simp only [List.any_eq_true, Bool.and_eq_true, beq_iff_eq] at hrow
    obtain ⟨row, hrow, ⟨hid, hissued⟩, hholder⟩ := hrow
    exact ⟨row, hrow, hid, hissued, hholder⟩
  rcases hbody with ⟨hunknown, _, s₂, hmove, rfl⟩ | ⟨-, -, rfl⟩
  · refine .inr ⟨hunknown, observed h.leaseVersion step res.attempt res.revision, rfl, rfl, ?_⟩
    rcases transitionFrom_spec hmove with rfl | ⟨intent, hintent, hexecuting, -, rfl⟩
    · exact .inl rfl
    · exact .inr ⟨intent, hintent, hexecuting, rfl⟩
  · exact .inl rfl

theorem convergeOpenStep_spec {v : StepVerdict} (h : convergeOpenStep step v s = .ok (u, s')) :
    (∃ row ∈ s.steps.rows, row.id = step ∧ row.state = .issued) ∧
    ∃ steps e, steps.rows = s.steps.rows.map (fun row => if row.id == step && row.state == .issued then v.close row else row) ∧
      e.kind = v.state.event ∧ e.freezes = false ∧ s' = { s with steps := steps, events := s.events ++ [e] } := by
  simp only [convergeOpenStep, eq_ok] at h
  obtain ⟨_, _, ⟨rfl, rfl⟩, _, _, ⟨hrow, rfl⟩, rfl⟩ := h
  simp only [List.any_eq_true, Bool.and_eq_true, beq_iff_eq] at hrow
  obtain ⟨row, hrow, hid, hissued⟩ := hrow
  exact ⟨⟨row, hrow, hid, hissued⟩, _, _, rfl, rfl, rfl, rfl⟩

variable {facts : LifecycleFacts} {fact : RevisionFact} {kind : SendKind}

theorem recordObservation_spec (h : recordObservation step facts s = .ok (u, s')) :
    s' = s.log (observed 0 step facts.current facts.revisionVersion) := by
  simp only [recordObservation, eq_ok] at h
  obtain ⟨_, _, ⟨rfl, rfl⟩, rfl⟩ := h
  rfl

theorem recordFreeze_spec (h : recordFreeze facts s = .ok (u, s')) : s' = s ∧ s.isFrozen = true ∨ s.isFrozen = false ∧
      s' = s.log { Event.of .reconcileObserved with attempt := facts.current, revisionVersion := facts.revisionVersion, freezes := true } := by
  simp only [recordFreeze, eq_ok, ite_apply_eq_ok] at h
  obtain ⟨_, _, ⟨rfl, rfl⟩, ⟨hfrozen, -, rfl⟩ | ⟨hfrozen, rfl⟩⟩ := h
  · exact .inl ⟨rfl, hfrozen⟩
  · exact .inr ⟨by simpa using hfrozen, rfl⟩

theorem factTransition_spec (h : factTransition read target lease s = .ok (u, s')) :
    classifyTransition read.state target ≠ .none ∧ s.intent = some read ∧
      s' = (s.moved read target lease).project fun p => p.applyState target (read.stateVersion + 1) := by
  simp only [factTransition, eq_ok, transitionIntent_spec] at h
  obtain ⟨_, _, ⟨hedge, hread, rfl⟩, _, _, ⟨rfl, rfl⟩, rfl⟩ := h
  exact ⟨hedge, hread, rfl⟩

/-- A fact transition behind a check of the row that was read. -/
theorem guardedTransition_spec {c : Prop} [Decidable c]
    (h : (if c then factTransition read target lease else pure ()) s = .ok (u, s')) :
    s' = s ∨ c ∧ classifyTransition read.state target ≠ .none ∧ s.intent = some read ∧
      s' = (s.moved read target lease).project fun p => p.applyState target (read.stateVersion + 1) := by
  simp only [ite_apply_eq_ok, pure_eq_ok] at h
  rcases h with ⟨hc, h⟩ | ⟨-, -, rfl⟩
  · exact .inr ⟨hc, factTransition_spec h⟩
  · exact .inl rfl

/-- The event of a consumed revision. -/
def revisionEvent (read : Intent) (fact : RevisionFact) : Event :=
  { Event.of .revisionApplied with edge := some (read.state, .revised), attempt := fact.attempt, revisionVersion := fact.revision }

/-- A revision moves the intent that was read and appends its event. -/
theorem applyRevision_spec {chained : Bool} (h : applyRevision read fact chained s = .ok (u, s')) :
    classifyTransition read.state .revised ≠ .none ∧ s.intent = some read ∧
      ∃ published, (∀ p ∈ published, ∃ r, p = Published.revised read.state .revised r) ∧
        s' = project { s.moved read .revised 0 with
          events := (s.moved read .revised 0).events ++ [revisionEvent read fact]
          published := (s.moved read .revised 0).published ++ published }
            (fun p => p.applyLifecycle fact.attempt fact.revision) := by
  simp only [applyRevision, eq_ok, transitionIntent_spec] at h
  obtain ⟨_, _, ⟨rfl, rfl⟩, _, _, ⟨hedge, hread, rfl⟩, _, _, ⟨rfl, rfl⟩, rfl⟩ := h
  refine ⟨hedge, hread, _, ?_, rfl⟩
  intro p hp
  split at hp
  · exact ⟨_, List.mem_singleton.mp hp⟩
  · cases hp

theorem consumeProjectionVersion_spec (h : consumeProjectionVersion fact s = .ok (u, s')) :
    ∃ p p' e, s.projection = some p ∧ p.advanceLifecycle fact.attempt fact.revision = some p' ∧
      e.kind = .projectionRefreshed ∧ s' = { s with projection := some p', events := s.events ++ [e] } := by
  simp only [consumeProjectionVersion, eq_ok] at h
  obtain ⟨_, _, ⟨rfl, rfl⟩, p, _, ⟨hp, rfl⟩, p', _, ⟨hp', rfl⟩, rfl⟩ := h
  exact ⟨p, p', _, hp, hp', rfl, rfl⟩

theorem refreshProjection_spec {readable : Bool} (h : refreshProjection readable s = .ok (u, s')) :
    ∃ f e, (e.kind = .projectionRefreshed ∨ e.kind = .projectionStale) ∧ s' = (s.project f).log e := by
  simp only [refreshProjection, eq_ok, ite_apply_eq_ok] at h
  obtain ⟨_, _, ⟨rfl, rfl⟩, _, _, ⟨-, rfl⟩, ⟨-, rfl⟩ | ⟨-, rfl⟩⟩ := h
  · exact ⟨_, _, .inl rfl, rfl⟩
  · exact ⟨_, _, .inr rfl, rfl⟩

/-- A transaction of the attempt lifecycle: only the 010 tables change. -/
def Store.Lifecycle (s s' : Store) : Prop :=
  s' = { s with
    attempts := s'.attempts
    sends := s'.sends
    receipts := s'.receipts
    freeze := s'.freeze
    attemptEvents := s'.attemptEvents }

theorem prepareAttempt_spec {signing : SigningRequestID} {anchor : Option AttemptID} {recoveryVersion : Nat}
    (h : prepareAttempt id signing anchor recoveryVersion s = .ok (u, s')) :
    (s' = s ∧ s.attempt? id ≠ none) ∨ ∃ attempts, s.attempt? id = none ∧
      s.attempts.insert? ⟨id, signing, anchor, recoveryVersion, .prepared, 1⟩ = some attempts ∧
      s' = { s with attempts := attempts } := by
  simp only [prepareAttempt, eq_ok] at h
  obtain ⟨_, _, ⟨rfl, rfl⟩, h⟩ := h
  cases hattempt : s.attempt? id with
  | some a =>
    simp only [hattempt, require_eq_ok] at h
    exact .inl ⟨h.2.symm, by simp⟩
  | none =>
    simp only [hattempt, eq_ok] at h
    obtain ⟨attempts, _, ⟨hinsert, rfl⟩, rfl⟩ := h
    exact .inr ⟨attempts, rfl, hinsert, rfl⟩

theorem signAndPersist_spec (h : signAndPersist id s = .ok (u, s')) :
    ∃ a, s.attempt? id = some a ∧ a.state = .prepared ∧ s' = s.moveAttempt id .signed := by
  simp only [signAndPersist, eq_ok] at h
  obtain ⟨_, _, ⟨rfl, rfl⟩, a, _, ⟨ha, rfl⟩, _, _, ⟨hstate, rfl⟩, rfl⟩ := h
  exact ⟨a, ha, hstate, rfl⟩

theorem sendRegion_spec {gates : RegionGates} {outcome : SendOutcome}
    (hbody : sendRegion id h kind gates outcome s = .ok (u, s')) :
    s.holds h = true ∧ ∃ a row, s.attempt? id = some a ∧ row.attempt = id ∧ row.claimVersion = h.leaseVersion ∧
      s' = { s.moveAttempt id (if outcome = .accepted ∨ a.state = .sent then .sent else .unknown) with
             sends := s.sends ++ [row] } := by
  simp only [sendRegion, eq_ok, refuse_eq_ok] at hbody
  obtain ⟨_, _, ⟨rfl, rfl⟩, _, _, ⟨hholds, rfl⟩, _, _, ⟨-, rfl⟩, a, _, ⟨ha, rfl⟩, _, _, ⟨-, rfl⟩, rfl⟩ := hbody
  exact ⟨hholds, a, _, ha, rfl, rfl, rfl⟩

theorem recordRegionWriteFailure_spec {pauseObserved : Bool}
    (hbody : recordRegionWriteFailure id h kind pauseObserved s = .ok (u, s')) :
    ∃ a row, s.attempt? id = some a ∧ row.attempt = id ∧
      s' = { s.moveAttempt id (if a.state = .sent then .sent else .unknown) with sends := s.sends ++ [row] } := by
  simp only [recordRegionWriteFailure, eq_ok] at hbody
  obtain ⟨_, _, ⟨rfl, rfl⟩, a, _, ⟨ha, rfl⟩, rfl⟩ := hbody
  exact ⟨a, _, ha, rfl, rfl⟩

theorem Store.Lifecycle.trans {s₁ s₂ s₃ : Store} (h : s₁.Lifecycle s₂) (h' : s₂.Lifecycle s₃) : s₁.Lifecycle s₃ := by
  unfold Store.Lifecycle at h h' ⊢
  rw [h', h]

/-- The single writes of a reconcile of the attempt `id`. -/
inductive Store.Writes (id : AttemptID) (s : Store) : Store → Prop
  | move (state : AttemptState) : s.Writes id (s.moveAttempt id state)
  | receipts (receipts : List Receipt) : s.Writes id { s with receipts := receipts }
  | replace : s.Writes id (s.replaceSiblings id)
  | freeze (freeze : Option Bool) : s.Writes id { s with freeze := freeze }
  | events (events : List (AttemptID × AttemptEvent)) : s.Writes id (s.appendEvents events)

section Writes

variable {P : Store → Prop} (hwrite : ∀ s s', s.Writes id s' → P s → P s') {view : ChainView}

include hwrite

theorem Store.moveIf_induction (state : Option AttemptState) (h : P s) : P (s.moveIf id state) := by
  cases state with
  | none => exact h
  | some state => exact hwrite _ _ (.move state) h

/-- Induction on the writes of `applyReceipt`. -/
theorem Store.applyReceipt_induction {new : Receipt} (hnew : new.attempt = id) (h : P s) : P (s.applyReceipt view new) := by
  subst hnew
  have hrevised : ∀ s, P s → P (s.reviseOrphaned view new.attempt new.blockHash) := by
    intro s h
    unfold reviseOrphaned
    dsimp only
    split
    · exact hwrite _ _ (.move .orphaned) (hwrite s _ (.receipts _) h)
    · exact hwrite s _ (.receipts _) h
  have hstored := hwrite s _ (.receipts (upsertReceipt s.receipts new)) h
  unfold applyReceipt
  dsimp only
  split
  · exact hwrite _ _ .replace (hrevised _ (moveIf_induction hwrite _ hstored))
  · exact hrevised _ (moveIf_induction hwrite _ hstored)

/-- Induction on the writes of a reconcile. -/
theorem reconcileAttempt_induction {probe : Probe} (hbody : reconcileAttempt view id probe s = .ok (u, s')) (h : P s) :
    P s' := by
  simp only [reconcileAttempt, eq_ok] at hbody
  obtain ⟨_, _, ⟨rfl, rfl⟩, a, _, ⟨-, rfl⟩, _, _, ⟨-, rfl⟩, rfl⟩ := hbody
  have hfrozen : ∀ s, P s → P (s.detectFreeze view id) := by
    intro s h
    unfold detectFreeze
    split
    · exact hwrite s _ (.freeze _) h
    · exact h
  have hmoved := moveIf_induction hwrite (reconcileTransition probe a.state) h
  refine hwrite _ _ (.events _) (hfrozen _ ?_)
  cases probe with
  | included number hash verdict => exact applyReceipt_induction hwrite rfl hmoved
  | notFoundYet | foundPending | unavailable => exact hmoved

end Writes

theorem reconcileAttempt_lifecycle {view : ChainView} {probe : Probe}
    (h : reconcileAttempt view id probe s = .ok (u, s')) : s.Lifecycle s' :=
  reconcileAttempt_induction (P := s.Lifecycle) (fun _ _ hwrite h => h.trans (by cases hwrite <;> rfl)) h rfl

theorem releaseFreeze_spec {permitted : Bool} (h : releaseFreeze permitted s = .ok (u, s')) :
    permitted = true ∧ s.freeze = some false ∧ s' = { s with freeze := some true } := by
  simp only [releaseFreeze, eq_ok] at h
  obtain ⟨_, _, ⟨rfl, rfl⟩, _, _, ⟨hpermitted, rfl⟩, _, _, ⟨hfreeze, rfl⟩, rfl⟩ := h
  exact ⟨hpermitted, hfreeze, rfl⟩

/-- The operations on the attempts and their freeze. -/
def Operation.onAttempts : Operation → Bool
  | .prepare _ _ _ _ | .sign _ | .dispatch _ _ _ _ _ | .recordWriteFailure _ _ _ _ | .reconcile _ _ _ | .releaseFreeze _ =>
    true
  | _ => false

/-- The operations on attempts change the 010 tables only. -/
theorem Operation.lifecycle {op : Operation} (hop : op.onAttempts = true) (h : op.body t s = .ok ((), s')) :
    s.Lifecycle s' := by
  cases op with
  | prepare id signing anchor recoveryVersion =>
    rcases prepareAttempt_spec h with ⟨rfl, -⟩ | ⟨attempts, -, -, rfl⟩ <;> rfl
  | sign id =>
    obtain ⟨a, -, -, rfl⟩ := signAndPersist_spec h
    rfl
  | dispatch id h' kind gates outcome =>
    obtain ⟨-, a, row, -, -, -, rfl⟩ := sendRegion_spec h
    rfl
  | recordWriteFailure id h' kind pauseObserved =>
    obtain ⟨a, row, -, -, rfl⟩ := recordRegionWriteFailure_spec h
    rfl
  | reconcile view id probe => exact reconcileAttempt_lifecycle h
  | releaseFreeze permitted =>
    obtain ⟨-, -, rfl⟩ := releaseFreeze_spec h
    rfl
  | _ => cases hop

/-- The operations on the claim, the intent, the projection and the log. -/
def Operation.clerical : Operation → Bool
  | .issue _ _ | .converge _ _ _ | .convergeOpenStep _ _ | .prepare _ _ _ _ | .sign _ | .dispatch _ _ _ _ _
  | .recordWriteFailure _ _ _ _ | .reconcile _ _ _ | .releaseFreeze _ => false
  | _ => true

/-- Nothing but events is added to what steps and sends leave behind. -/
structure Store.Logged (s s' : Store) : Prop where
  steps : s'.steps = s.steps
  attempts : s'.attempts = s.attempts
  sends : s'.sends = s.sends
  receipts : s'.receipts = s.receipts
  freeze : s'.freeze = s.freeze
  events : ∃ events, s'.events = s.events ++ events

theorem Store.Logged.quiet (hsteps : s'.steps = s.steps) (hattempts : s'.attempts = s.attempts)
    (hsends : s'.sends = s.sends) (hreceipts : s'.receipts = s.receipts) (hfreeze : s'.freeze = s.freeze)
    (hevents : s'.events = s.events) : s.Logged s' :=
  ⟨hsteps, hattempts, hsends, hreceipts, hfreeze, [], by rw [hevents, List.append_nil]⟩

/-- A clerical operation only appends events to what steps and sends left behind. -/
theorem Operation.clerical_frame {op : Operation} (hop : op.clerical = true)
    (h : op.body t s = .ok ((), s')) : s.Logged s' := by
  cases op with
  | issue | converge | convergeOpenStep | prepare | sign | dispatch | recordWriteFailure | reconcile | releaseFreeze =>
    cases hop
  | admitIntent =>
    obtain ⟨-, rfl⟩ := admitIntent_spec h
    exact ⟨rfl, rfl, rfl, rfl, rfl, _, rfl⟩
  | claim owner onlyStall =>
    simp only [Operation.body, eq_ok] at h
    obtain ⟨version, s₁, hclaim, -, rfl⟩ := h
    obtain ⟨e, -, hs, -⟩ := claimTx_spec hclaim
    rw [hs]
    exact ⟨rfl, rfl, rfl, rfl, rfl, _, rfl⟩
  | acquire owner =>
    simp only [Operation.body, eq_ok] at h
    obtain ⟨version, s₁, hclaim, -, rfl⟩ := h
    rw [(acquire_spec hclaim).1]
    exact .quiet rfl rfl rfl rfl rfl rfl
  | renew h' | advanceProgress h' =>
    simp only [Operation.body, Execution.renew, Execution.advanceProgress] at h
    obtain ⟨-, rfl⟩ := fencedUpdate_spec h
    exact .quiet rfl rfl rfl rfl rfl rfl
  | release h' =>
    obtain ⟨c, -, -, -, rfl⟩ := release_spec h
    exact .quiet rfl rfl rfl rfl rfl rfl
  | revoke version =>
    obtain ⟨c, -, -, -, rfl⟩ := revokeClaim_spec h
    exact ⟨rfl, rfl, rfl, rfl, rfl, _, rfl⟩
  | sweepStalls =>
    rcases sweepStalls_spec h with rfl | ⟨c, -, rfl⟩
    · exact .quiet rfl rfl rfl rfl rfl rfl
    · exact ⟨rfl, rfl, rfl, rfl, rfl, _, rfl⟩
  | toClaimed h' =>
    rcases transitionFrom_spec h with rfl | ⟨intent, -, -, -, rfl⟩
    · exact .quiet rfl rfl rfl rfl rfl rfl
    · exact ⟨rfl, rfl, rfl, rfl, rfl, _, rfl⟩
  | recordObservation step facts =>
    obtain rfl := recordObservation_spec h
    exact ⟨rfl, rfl, rfl, rfl, rfl, _, rfl⟩
  | recordFreeze facts =>
    rcases recordFreeze_spec h with ⟨rfl, -⟩ | ⟨-, rfl⟩
    · exact .quiet rfl rfl rfl rfl rfl rfl
    · exact ⟨rfl, rfl, rfl, rfl, rfl, _, rfl⟩
  | ensureReconciling read h' | toExecuting read h' | completeIntent read h' =>
    rcases guardedTransition_spec h with rfl | ⟨-, -, -, rfl⟩
    · exact .quiet rfl rfl rfl rfl rfl rfl
    · exact ⟨rfl, rfl, rfl, rfl, rfl, _, rfl⟩
  | applyRevision read fact chained =>
    obtain ⟨-, -, published, -, rfl⟩ := applyRevision_spec h
    exact ⟨rfl, rfl, rfl, rfl, rfl, _, List.append_assoc _ _ _⟩
  | consumeProjection fact =>
    obtain ⟨p, p', e, -, -, -, rfl⟩ := consumeProjectionVersion_spec h
    exact ⟨rfl, rfl, rfl, rfl, rfl, _, rfl⟩
  | refreshProjection readable =>
    obtain ⟨f, e, -, rfl⟩ := refreshProjection_spec h
    exact ⟨rfl, rfl, rfl, rfl, rfl, _, rfl⟩

end TxHarbor.Execution
