import TxHarbor.Execution.World

open Relational

namespace TxHarbor.Execution

/-! The worker over the transactions: what one pass of one process does when nothing else runs in
between. Every answer from outside the tables is an argument. -/

/-- Why the signer gives no signature. -/
inductive SignerFailure where
  | refused
  | deliveryUnknown
  deriving DecidableEq

/-- What the outside answers during one `Advance` call. -/
structure Answer where
  construct : Option Refusal
  signer : Option SignerFailure
  probe : Probe
  view : ChainView
  region : RegionGates
  outcome : SendOutcome

/-- Why a send ended without a recorded outcome. -/
inductive SendFailure where
  | refusal (refusal : Refusal)
  | signer (failure : SignerFailure)
  deriving DecidableEq

/-- The signing half of `send`: a prepared attempt is signed first. -/
def Store.signFirst (s : Store) (a : TxAttempt) (kind : SendKind) (ans : Answer) : Except SendFailure Store :=
  if a.state = .prepared then
    if kind = .initial then
      match ans.signer with
      | some failure => .error (.signer failure)
      | none => .ok (s.commit (signAndPersist a.id))
    else .error (.refusal .sendModeMismatch)
  else .ok s

/-- The region of `send`, after a recorded observation. -/
def Store.sendObserved (s : Store) (h : Holder) (id : AttemptID) (kind : SendKind) (ans : Answer) :
    Store × Except SendFailure SendOutcome :=
  match sendRegion id h kind ans.region ans.outcome s with
  | .ok (_, s') => (s', .ok ans.outcome)
  | .error refusal => (s, .error (.refusal refusal))

/-- The rest of `send`: the freeze, and the observation that a crash-ambiguous attempt needs. -/
def Store.sendSigned (s : Store) (h : Holder) (id : AttemptID) (kind : SendKind) (ans : Answer) :
    Store × Except SendFailure SendOutcome :=
  if s.freeze = some false then (s, .error (.refusal .frozen))
  else if s.stateOf id = .signed ∨ s.stateOf id = .unknown then
    let s' := s.commit (reconcileAttempt ans.view id ans.probe)
    match ans.probe with
    | .unavailable => (s', .error (.refusal .unavailable))
    | .included _ _ _ => (s', .error (.refusal .alreadyAccepted))
    | _ => s'.sendObserved h id kind ans
  else s.sendObserved h id kind ans

def Store.send (s : Store) (h : Holder) (id : AttemptID) (kind : SendKind) (ans : Answer) :
    Store × Except SendFailure SendOutcome :=
  match s.attempt? id with
  | none => (s, .error (.refusal .attemptNotFound))
  | some a =>
    match s.signFirst a kind ans with
    | .error failure => (s, .error failure)
    | .ok s' => s'.sendSigned h id kind ans

/-- The class and the identity an advance reports. -/
abbrev AdvanceOutcome := OutcomeClass × Option AttemptID × Nat

def outcomeForAttempt (a : TxAttempt) : AdvanceOutcome :=
  match a.state with
  | .sent | .effective | .confirmed => (.sent, some a.id, a.revision)
  | .unknown => (.pendingUnknown, some a.id, a.revision)
  | .replaced => (.refusedBasis, some a.id, a.revision)
  | _ => (.reconcileRequired, some a.id, a.revision)

def advanceClassForRefusal : Refusal → Option OutcomeClass
  | .unavailable | .revisionMoved | .notSendable => some .unavailable
  | .alreadyAccepted => none
  | .claimNotCurrent | .gate _ | .frozen => some .refusedGate
  | _ => some .refusedBasis

def Store.refusalOutcome (s : Store) (id : AttemptID) : SendFailure → Option AdvanceOutcome
  | .signer .deliveryUnknown => some (.unavailable, some id, 0)
  | .signer .refused => some (.refusedBasis, some id, 0)
  | .refusal refusal =>
    match advanceClassForRefusal refusal with
    | some outcome => some (outcome, some id, 0)
    | none => (s.attempt? id).map outcomeForAttempt

/-- The class of a recorded dispatch. -/
def SendOutcome.advanceClass : SendOutcome → OutcomeClass
  | .accepted => .sent
  | .unknown => .pendingUnknown
  | .rejected => .reconcileRequired

/-- `dispatch` of the lifecycle adapter. -/
def Store.dispatch (s : Store) (h : Holder) (id : AttemptID) (kind : SendKind) (ans : Answer) :
    Store × Option AdvanceOutcome :=
  match s.send h id kind ans with
  | (s', .ok outcome) => (s', some (outcome.advanceClass, some id, ((s'.attempt? id).map TxAttempt.revision).getD 0))
  | (s', .error failure) => (s', s'.refusalOutcome id failure)

/-- `firstBroadcast`: converge on the attempt of the step, or construct it. -/
def Store.firstBroadcast (s : Store) (h : Holder) (step : StepID) (recoveryVersion : Nat) (ans : Answer) :
    Store × Option AdvanceOutcome :=
  let id : AttemptID := ⟨step⟩
  match s.attempt? id with
  | some a =>
    if a.state = .prepared ∨ a.state = .signed then s.dispatch h id .initial ans
    else (s, some (outcomeForAttempt a))
  | none =>
    match ans.construct with
    | some refusal => (s, s.refusalOutcome id (.refusal refusal))
    | none =>
      match prepareAttempt id .request none recoveryVersion s with
      | .error refusal => (s, s.refusalOutcome id (.refusal refusal))
      | .ok (_, s') => s'.dispatch h id .initial ans

/-- `advanceLoop`: the same step again while the boundary is unavailable, one answer for each try. -/
def Store.advanceLoop (s : Store) (h : Holder) (step : StepID) (recoveryVersion : Nat) : List Answer → Store
  | [] => s
  | ans :: rest =>
    match s.firstBroadcast h step recoveryVersion ans with
    | (s', none) => s'.advanceLoop h step recoveryVersion rest
    | (s', some (.unavailable, _, _)) => s'.advanceLoop h step recoveryVersion rest
    | (s', some (outcome, attempt, revision)) => s'.commit (converge h step (.outcome outcome attempt revision))

/-- `maxRetries`. -/
def maxRetries : Nat := 3

/-- `IssueAndAdvance` of a first broadcast. -/
def Store.issueAndAdvance (s : Store) (h : Holder) (step : StepID) (gates : IssueGates) (answers : List Answer) :
    Store :=
  match issue ⟨h, step, .firstBroadcast⟩ gates s with
  | .error _ => s
  | .ok (_, s') => s'.advanceLoop h step gates.recoveryVersion (answers.take maxRetries)

/-- `ConfirmAttempt`: the scan of the latest attempt, once it left the prepare and sign states. -/
def Store.confirmAttempt (s : Store) (view : ChainView) (probe : AttemptID → Probe) : Store :=
  match s.currentAttempt with
  | none => s
  | some a =>
    if a.state = .prepared ∨ a.state = .signed then s else s.commit (reconcileAttempt view a.id (probe a.id))

/-- The state of the current attempt as the facts report it. -/
def LifecycleFacts.currentState (facts : LifecycleFacts) : Option AttemptState :=
  facts.current.bind fun id => (facts.attempts.find? fun a => a.1 == id).map Prod.snd

/-- `isConfirmedSent`. Of its four words the lifecycle writes two. -/
def LifecycleFacts.confirmedSent (facts : LifecycleFacts) : Bool :=
  facts.currentState == some .sent || facts.currentState == some .confirmed

/-- `revisionTarget`: the current attempt was invalidated. -/
def LifecycleFacts.invalidated (facts : LifecycleFacts) : Bool :=
  facts.currentState == some .orphaned || facts.currentState == some .ineffective

/-- `FreezeClass`. -/
def LifecycleFacts.frozen (facts : LifecycleFacts) : Bool := facts.unknown.any fun unknown => unknown.2 == .freeze

/-- `toExecuting` for a caller that may be fact-only. -/
def Store.toExecuting (s : Store) (intent : Intent) : Option Holder → Store
  | none => s
  | some h => s.commit (Execution.toExecuting intent h.leaseVersion)

def Store.reconcileFrozen (s : Store) (intent : Intent) (facts : LifecycleFacts) (h : Option Holder) : Store :=
  match s.openStep with
  | none => s
  | some step =>
    let s := s.commit (convergeOpenStep step.id
      ⟨.unknown, some .reconcileRequired, facts.current, facts.revisionVersion, .frozen, nofun⟩)
    s.commit (ensureReconciling intent (leaseOf h))

def Store.reconcileWithoutOpenStep (s : Store) (intent : Intent) (facts : LifecycleFacts) (h : Option Holder) : Store :=
  if facts.confirmedSent then s.commit (completeIntent intent (leaseOf h))
  else if facts.unknown = none ∧ facts.attempts = [] ∧ intent.state = .reconciling then s.toExecuting intent h
  else s

/-- The part of `ReconcileIntent` for an open step. -/
def Store.reconcileOpenStep (s : Store) (intent : Intent) (step : Step) (facts : LifecycleFacts) (h : Option Holder) :
    Store :=
  match facts.unknown with
  | some (attempt, condition) =>
    let s := s.commit (convergeOpenStep step.id
      ⟨.unknown, some .reconcileRequired, attempt, facts.revisionVersion, .stillUnknown condition, nofun⟩)
    s.commit (ensureReconciling intent (leaseOf h))
  | none =>
    if facts.attempts = [] then
      let s := s.commit (convergeOpenStep step.id ⟨.refused, none, none, facts.revisionVersion, .noAttemptPersisted, nofun⟩)
      s.toExecuting intent h
    else if facts.confirmedSent then
      let s := s.commit (convergeOpenStep step.id
        ⟨.converged, some .sent, facts.current, facts.revisionVersion, .confirmedSent, nofun⟩)
      s.commit (completeIntent intent (leaseOf h))
    else s.commit (recordObservation step.id facts)

/-- `frozen`: by the facts, or by a recorded marker. -/
def Store.treatedFrozen (s : Store) : Bool := s.facts.frozen || s.isFrozen

/-- `ReconcileIntent`. The lifecycle read refreshes the projection first. -/
def Store.reconcileIntent (s : Store) (h : Option Holder) : Store :=
  match s.intent with
  | none => s
  | some intent =>
    let facts := s.facts
    let refreshed := s.project fun p => p.applyLifecycle facts.current facts.revisionVersion
    if s.treatedFrozen then (refreshed.commit (recordFreeze facts)).reconcileFrozen intent facts h
    else
      match s.openStep with
      | none => refreshed.reconcileWithoutOpenStep intent facts h
      | some step => refreshed.reconcileOpenStep intent step facts h

theorem Store.reconcileIntent_of_intent {s : Store} {intent : Intent} (hintent : s.intent = some intent) (h : Option Holder) :
    s.reconcileIntent h = let refreshed := s.project fun p => p.applyLifecycle s.facts.current s.facts.revisionVersion
      if s.treatedFrozen then (refreshed.commit (recordFreeze s.facts)).reconcileFrozen intent s.facts h
      else
        match s.openStep with
        | none => refreshed.reconcileWithoutOpenStep intent s.facts h
        | some step => refreshed.reconcileOpenStep intent step s.facts h := by
  unfold Store.reconcileIntent
  rw [hintent]

/-- The latest attempt past the prepare and sign states. -/
def Store.trackedAttempt (s : Store) : Option TxAttempt :=
  (s.attempts.rows.filter fun a => a.state != .prepared && a.state != .signed).getLast?

/-- `RevisionConsumer.Apply` for an invalidation. -/
def Store.applyRevisionFact (s : Store) (intent : Intent) (fact : RevisionFact) (chained : Bool) : Store :=
  if fact.revision = 0 ∨ fact.revision ≤ s.appliedRevision then s
  else if intent.state = .revised then s.commit (consumeProjectionVersion fact)
  else if classifyTransition intent.state .revised = .fact then s.commit (applyRevision intent fact chained)
  else s

/-- `RevisionConsumer.Observe`. -/
def Store.observeRevision (s : Store) (fact : RevisionFact) : Store :=
  if fact.revision = 0 ∨ fact.revision ≤ s.appliedRevision then s else s.commit (consumeProjectionVersion fact)

/-- The consumption of a newer authority version. -/
def Store.consumeRevision (s : Store) (intent : Intent) (chained : Bool) : Store :=
  let fact : RevisionFact := ⟨s.facts.revisionVersion, s.facts.current⟩
  if s.facts.invalidated then s.applyRevisionFact intent fact chained else s.observeRevision fact

/-- `syncAuthorityRevision`, guarded by the version the projection stores. -/
def Store.syncAuthorityRevision (s : Store) (chained : Bool) : Store :=
  match s.intent, s.trackedAttempt, s.projection with
  | some intent, some a, some p =>
    if intent.state = .completed ∨ intent.state = .revised then
      if a.revision ≤ p.lifecycleVersion ∨ s.facts.revisionVersion ≤ p.lifecycleVersion then s
      else s.consumeRevision intent chained
    else s
  | _, _, _ => s

/-- `ApplyStateProjection` with the row as it is. -/
def Store.refreshState (s : Store) : Store :=
  match s.intent with
  | none => s
  | some intent => s.project fun p => p.applyState intent.state intent.stateVersion

/-- What the outside answers during one pass. -/
structure Environment where
  admitted : Bool
  busy : Bool
  bound : Bool
  gates : IssueGates
  probe : AttemptID → Probe
  view : ChainView
  chained : Bool
  answers : List Answer

/-- The states whose cycle may issue a step. -/
def IntentState.issues : IntentState → Bool
  | .claimed | .reconciling | .revised => true
  | _ => false

/-- The sending half of `execIntentCycle`. -/
def Store.driveStep (s : Store) (h : Holder) (step : StepID) (env : Environment) : Store :=
  match s.openStep, s.intent with
  | none, some intent =>
    if env.bound = true ∧ intent.state.issues = true then s.issueAndAdvance h step env.gates env.answers else s
  | _, _ => s

/-- `execIntentCycle`. The step identity is fresh for each cycle. -/
def Store.execIntentCycle (s : Store) (h : Holder) (step : StepID) (env : Environment) : Store :=
  match s.intent with
  | none => s
  | some intent =>
    if env.admitted = false ∨ intent.state = .failed then s
    else
      let scanned := s.confirmAttempt env.view env.probe
      let synced :=
        if intent.state = .completed ∨ intent.state = .revised then scanned.syncAuthorityRevision env.chained
        else scanned
      if intent.state = .completed then synced
      else (synced.reconcileIntent (some h)).refreshState.driveStep h step env

def Receipt.confirmedRow (r : Receipt) : Bool := r.canonicality == .canonical && decide (r.threshold ≤ r.confirmations)

/-- A canonical receipt whose block the indexer no longer has, while its head is past it. -/
def Receipt.outdated (view : ChainView) (r : Receipt) : Bool :=
  r.canonicality == .canonical && !view.canonical r.blockNumber r.blockHash && decide (r.blockNumber ≤ view.head)

def AttemptState.pending : AttemptState → Bool
  | .sent | .effective | .unknown | .orphaned => true
  | _ => false

/-- `scanTrackingSQL`. -/
def Store.trackable (s : Store) (view : ChainView) : Bool :=
  match s.intent, s.trackedAttempt with
  | some intent, some a =>
    let receipts := s.receipts.filter fun r => r.attempt == a.id
    (intent.state == .completed || intent.state == .revised) &&
      (a.state.pending || !receipts.any Receipt.confirmedRow || receipts.any (Receipt.outdated view) ||
        s.projection.any fun p => decide (p.lifecycleVersion < a.revision))
  | _, _ => false

/-- `runTrackingPass` on one candidate. -/
def Store.trackingPass (s : Store) (env : Environment) : Store :=
  if s.trackable env.view = true ∧ env.busy = false ∧ env.admitted = true then
    (s.confirmAttempt env.view env.probe).syncAuthorityRevision env.chained
  else s

/-- `startupCatchUp`: the tracking pass, every open step without a claim, and the projection. -/
def Store.startupCatchUp (s : Store) (env : Environment) : Store :=
  if env.admitted = true then
    let tracked := s.trackingPass env
    let reconciled := match tracked.openStep with
      | none => tracked
      | some _ => tracked.reconcileIntent none
    reconciled.refreshState
  else s

/-- `serveIntent` up to its work loop. -/
def Store.serveIntent (s : Store) (t : ClaimTimings) (owner : Owner) (env : Environment) : Store :=
  if env.admitted = true then
    match claimTx t owner false s with
    | .error _ => s
    | .ok (version, s') => s'.commit (advanceIntentToClaimed version)
  else s

/-- The transactions that tend a claim. -/
def Operation.tends : Operation → Bool
  | .renew _ | .advanceProgress _ | .release _ | .revoke _ | .sweepStalls => true
  | _ => false

/-- One pass of some worker on the intent. -/
inductive WorkerAction where
  | serve (owner : Owner) (env : Environment)
  | cycle (h : Holder) (step : StepID) (env : Environment)
  | track (env : Environment)
  | catchUp (env : Environment)
  | tend (op : Operation) (tends : op.tends = true)
  | refresh (readable : Bool)
  | wait (ticks : Nat)

def Store.works (t : ClaimTimings) (s : Store) : WorkerAction → Store
  | .serve owner env => s.serveIntent t owner env
  | .cycle h step env => s.execIntentCycle h step env
  | .track env => s.trackingPass env
  | .catchUp env => s.startupCatchUp env
  | .tend op _ => s.commit (op.body t)
  | .refresh readable => s.commit (refreshProjection readable)
  | .wait ticks => { s with now := s.now + ticks }

namespace Sample

/-- An indexer that has seen no block. -/
def unseen : ChainView := ⟨fun _ _ => false, 0, 3, none⟩

/-- A call that meets no refusal: the node has not seen the transaction and accepts it. -/
def granted : Answer := ⟨none, none, .notFoundYet, unseen, ⟨none, false⟩, .accepted⟩

/-- A pass in which every gate permits and every call succeeds. -/
def granting : Environment :=
  { admitted := true
    busy := false
    bound := true
    gates := permitting
    probe := fun _ => .notFoundYet
    view := unseen
    chained := false
    answers := [granted, granted, granted] }

end Sample

end TxHarbor.Execution
