import TxHarbor.Execution.Lifecycle

open Relational Tx

namespace TxHarbor.Execution

/-! The transactions of the execution layer (011) on intents, steps and the projection. -/

/-- `TransitionIntent`: a compare-and-set on state and version, with its event and its outbox row. -/
def transitionIntent (read : Intent) (target : IntentState) (lease : Nat) : ExecutionTx Unit := do
  require (classifyTransition read.state target ≠ .none) .illegalTransition
  let s ← get
  require (s.intent = some read) .transitionRefused
  let changed := { Event.of .stateChanged with edge := some (read.state, target), leaseVersion := lease }
  set { s with intent := some ⟨target, read.stateVersion + 1⟩,
               events := s.events ++ [changed],
               published := s.published ++ [Published.stateChanged read.state target] }

/-- The admission of the intent with its projection row. -/
def admitIntent : ExecutionTx Unit := do
  let s ← get
  require (s.intent = none) .intentExists
  set { s with intent := some ⟨.admitted, 1⟩,
               events := s.events ++ [Event.of .admitted],
               projection := some ⟨.admitted, 1, none, 0, true⟩ }

/-- Read the intent and move it if it is still in the source state. -/
def transitionFrom (source target : IntentState) (lease : Nat) : ExecutionTx Unit := do
  let s ← get
  match s.intent with
  | some intent => if intent.state = source then transitionIntent intent target lease else pure ()
  | none => pure ()

/-- `advanceIntentToClaimed`. The claim itself is not read again. -/
def advanceIntentToClaimed (lease : Nat) : ExecutionTx Unit := transitionFrom .admitted .claimed lease

/-- `IsFrozen`: a recorded freeze marker. -/
def Store.isFrozen (s : Store) : Bool := s.events.any fun e => e.kind == .reconcileObserved && e.freezes

/-- The verdicts of the gates a step issue reads beside the claim, the intent and the steps. -/
structure IssueGates where
  recovery : Option String
  recoveryVersion : Nat
  request : Option String
  grant : Option String
  scope : Option String
  allowsFeeReplacement : Bool
  binding : Option String
  deriving DecidableEq

structure StepRequest where
  holder : Holder
  step : StepID
  action : AdvanceAction
  deriving DecidableEq

def StepRequest.row (req : StepRequest) (recoveryVersion : Nat) : Step :=
  ⟨req.step, req.action, .issued, req.holder, recoveryVersion, none, none, 0, .empty⟩

/-- `issue`: the step is persisted before the call. -/
def issue (req : StepRequest) (g : IssueGates) : ExecutionTx Unit := do
  let s ← get
  require (s.holds req.holder = true) .claimNotCurrent
  let intent ← demand .intentMissing s.intent
  require (intent.state ≠ .completed ∧ intent.state ≠ .failed) .intentTerminal
  refuse .gate g.recovery
  refuse .gate g.request
  refuse .gate g.grant
  refuse .gate g.scope
  require (req.action = .replace → g.allowsFeeReplacement = true) (.gate "allows_fee_replacement=false")
  require (s.isFrozen = false) .frozen
  refuse .gate g.binding
  let steps ← demand .stepOpen (s.steps.insert? (req.row g.recoveryVersion))
  set { s with steps := steps }
  advanceProgress req.holder
  let s ← get
  set (s.log { Event.of .stepIssued with leaseVersion := req.holder.leaseVersion, step := some req.step })
  if intent.state = .claimed ∨ intent.state = .revised then
    transitionIntent intent .executing req.holder.leaseVersion
  else pure ()

/-- How an advance ended. -/
inductive AdvanceResult where
  | outcome (outcome : OutcomeClass) (attempt : Option AttemptID) (revision : Nat)
  | noSendResult
  deriving DecidableEq

/-- `StepStateForOutcome`. -/
def AdvanceResult.state : AdvanceResult → StepState
  | .noSendResult => .refused
  | .outcome .sent _ _ | .outcome .refusedGate _ _ | .outcome .refusedBasis _ _ => .converged
  | .outcome .pendingUnknown _ _ | .outcome .reconcileRequired _ _ => .unknown
  | .outcome .unavailable _ _ => .issued

def AdvanceResult.attempt : AdvanceResult → Option AttemptID
  | .noSendResult => none
  | .outcome _ attempt _ => attempt

def AdvanceResult.revision : AdvanceResult → Nat
  | .noSendResult => 0
  | .outcome _ _ revision => revision

/-- The row after `convergeStepSQL`. -/
def AdvanceResult.close (res : AdvanceResult) (step : Step) : Step :=
  match res with
  | .noSendResult => { step with state := res.state, attempt := none, outcome := none, revisionVersion := 0, evidence := .noSendResult }
  | .outcome c attempt revision =>
    { step with state := res.state, attempt := attempt, outcome := some c, revisionVersion := revision, evidence := .outcome c }

/-- The event of a closed step. -/
def StepState.event : StepState → EventKind
  | .unknown => .stepUnknown
  | .refused => .stepRefused
  | _ => .stepConverged

/-- Rows that leave `issued` cannot clash. -/
theorem keepsKeys_of_closed {f : Step → Step} (hid : ∀ step, (f step).id = step.id)
    (hstate : ∀ step, (f step).state ≠ .issued) : KeepsKeys f := by
  intro a b h
  simp only [Constrained.clash, Bool.or_eq_false_iff, Bool.and_eq_false_iff, beq_eq_false_iff_ne] at h ⊢
  rw [hid a]
  exact ⟨h.1, .inl (hstate a)⟩

/-- `converge`: the close of a step by its own holder, and the move to reconciling after an unknown
effect. -/
def converge (h : Holder) (step : StepID) (res : AdvanceResult) : ExecutionTx Unit := do
  let s ← get
  require (s.holds h = true) .claimNotCurrent
  require (res.state ≠ .issued) .stepNotTerminal
  require (s.steps.rows.any (fun row => row.id == step && row.state == .issued && row.holder == h) = true)
    .convergeRefused
  let steps ← demand .convergeRefused
    (s.steps.update? (fun row => row.id == step && row.state == .issued && row.holder == h) res.close)
  set { s with steps := steps }
  advanceProgress h
  let s ← get
  set (s.log { Event.of res.state.event with leaseVersion := h.leaseVersion, step := some step, attempt := res.attempt, revisionVersion := res.revision })
  if res.state = .unknown ∨ res = .noSendResult then do
    transitionFrom .executing .reconciling h.leaseVersion
    let s ← get
    set (s.log { Event.of .reconcileObserved with leaseVersion := h.leaseVersion, step := some step, attempt := res.attempt, revisionVersion := res.revision })
  else pure ()

/-- How the reconciler closes an open step. -/
structure StepVerdict where
  state : StepState
  outcome : Option OutcomeClass
  attempt : Option AttemptID
  revision : Nat
  evidence : Evidence
  terminal : state ≠ .issued

def StepVerdict.close (v : StepVerdict) (step : Step) : Step :=
  { step with state := v.state, attempt := v.attempt, outcome := v.outcome, revisionVersion := v.revision, evidence := v.evidence }

/-- `convergeOpenStep`: by the state of the step alone, whoever holds the claim. -/
def convergeOpenStep (step : StepID) (v : StepVerdict) : ExecutionTx Unit := do
  let s ← get
  require (s.steps.rows.any (fun row => row.id == step && row.state == .issued) = true) .convergeRefused
  let steps := s.steps.update (fun row => row.id == step && row.state == .issued) v.close
    (keepsKeys_of_closed (fun _ => rfl) fun _ => v.terminal)
  set { s with steps := steps, events := s.events ++ [{ Event.of v.state.event with step := some step, attempt := v.attempt, revisionVersion := v.revision }] }

def recordObservation (step : StepID) (facts : LifecycleFacts) : ExecutionTx Unit := do
  let s ← get
  set (s.log { Event.of .reconcileObserved with step := some step, attempt := facts.current, revisionVersion := facts.revisionVersion })

/-- `recordFreeze`: the marker, once. -/
def recordFreeze (facts : LifecycleFacts) : ExecutionTx Unit := do
  let s ← get
  if s.isFrozen = true then pure ()
  else set (s.log { Event.of .reconcileObserved with attempt := facts.current, revisionVersion := facts.revisionVersion, freezes := true })

/-- `applyStateProjection`. -/
def Projection.applyState (p : Projection) (state : IntentState) (version : Nat) : Projection :=
  if p.stateVersion < version then { p with executionState := state, stateVersion := version } else p

/-- `applyLifecycleProjection`. -/
def Projection.applyLifecycle (p : Projection) (attempt : Option AttemptID) (version : Nat) : Projection :=
  if p.lifecycleVersion < version then
    { p with lifecycleAttempt := attempt, lifecycleVersion := version, fresh := true }
  else if p.lifecycleVersion = version then { p with fresh := true }
  else p

/-- `advanceLifecycleProjection`. -/
def Projection.advanceLifecycle (p : Projection) (attempt : Option AttemptID) (version : Nat) : Option Projection :=
  if p.lifecycleVersion < version then
    some { p with lifecycleAttempt := attempt, lifecycleVersion := version, fresh := true }
  else none

def Store.project (s : Store) (f : Projection → Projection) : Store := { s with projection := s.projection.map f }

/-- `factTransition` with the row the caller read earlier. -/
def factTransition (read : Intent) (target : IntentState) (lease : Nat) : ExecutionTx Unit := do
  transitionIntent read target lease
  let s ← get
  set (s.project fun p => p.applyState target (read.stateVersion + 1))

def ensureReconciling (read : Intent) (lease : Nat) : ExecutionTx Unit :=
  if read.state = .executing ∨ read.state = .claimed then factTransition read .reconciling lease else pure ()

/-- `toExecuting`, for a caller with a qualification it does not check again. -/
def toExecuting (read : Intent) (lease : Nat) : ExecutionTx Unit :=
  if read.state = .reconciling then factTransition read .executing lease else pure ()

def completeIntent (read : Intent) (lease : Nat) : ExecutionTx Unit :=
  if read.state ≠ .completed ∧ classifyTransition read.state .completed = .fact then
    factTransition read .completed lease
  else pure ()

/-- A revision of the authority. -/
structure RevisionFact where
  revision : Nat
  attempt : Option AttemptID
  deriving DecidableEq

def Store.appliedRevision (s : Store) : Nat :=
  (s.events.filter fun e => e.kind == .revisionApplied).foldl (fun m e => max m e.revisionVersion) 0

/-- The transaction of `Apply` with the row the consumer read earlier. `chained` says whether the
attempt has a chain block to name, without which no revised event is published. -/
def applyRevision (read : Intent) (fact : RevisionFact) (chained : Bool) : ExecutionTx Unit := do
  let s ← get
  let supersedes := s.published ≠ []
  transitionIntent read .revised 0
  let s ← get
  let applied := { Event.of .revisionApplied with edge := some (read.state, .revised), attempt := fact.attempt, revisionVersion := fact.revision }
  let published := if supersedes ∧ chained = true then [Published.revised read.state .revised fact.revision] else []
  set ({ s with events := s.events ++ [applied], published := s.published ++ published }.project fun p => p.applyLifecycle fact.attempt fact.revision)

def consumeProjectionVersion (fact : RevisionFact) : ExecutionTx Unit := do
  let s ← get
  let p ← demand .transitionRefused s.projection
  let p' ← demand .transitionRefused (p.advanceLifecycle fact.attempt fact.revision)
  set ({ s with projection := some p' }.log { Event.of .projectionRefreshed with attempt := fact.attempt, revisionVersion := fact.revision })

/-- `RefreshProjection`, the operator's forced refresh. `readable` says whether the authority answers. -/
def refreshProjection (readable : Bool) : ExecutionTx Unit := do
  let s ← get
  require (s.intent ≠ none) .intentMissing
  if readable = true then
    let facts := s.facts
    set ((s.project fun p => p.applyLifecycle facts.current facts.revisionVersion).log { Event.of .projectionRefreshed with attempt := facts.current, revisionVersion := facts.revisionVersion })
  else
    set ((s.project fun p => { p with fresh := false }).log (Event.of .projectionStale))

end TxHarbor.Execution
