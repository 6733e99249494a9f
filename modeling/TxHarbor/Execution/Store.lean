import TxHarbor.Relational.Table
import TxHarbor.Relational.Transaction

open Relational

namespace TxHarbor.Execution

/-! The rows of one payment intent in the execution tables (011) and the attempt tables (010). No
transaction of either package touches the rows of two intents. -/

abbrev Owner := Nat

abbrev StepID := Nat

/-- `attemptIDForStep`: an attempt is named after its step. -/
structure AttemptID where
  step : StepID
  deriving DecidableEq

inductive IntentState where
  | admitted
  | claimed
  | executing
  | completed
  | failed
  | reconciling
  | revised
  deriving DecidableEq

inductive TransitionKind where
  | none
  | sendEnabling
  | fact
  deriving DecidableEq

def classifyTransition : IntentState → IntentState → TransitionKind
  | .admitted, .claimed => .sendEnabling
  | .claimed, .executing => .sendEnabling
  | .reconciling, .executing => .sendEnabling
  | .revised, .executing => .sendEnabling
  | .executing, .reconciling => .fact
  | .executing, .completed => .fact
  | .reconciling, .completed => .fact
  | .executing, .failed => .fact
  | .reconciling, .failed => .fact
  | .completed, .revised => .fact
  | .failed, .revised => .fact
  | _, _ => .none

/-- `payment_intents`. The identity columns never change. -/
structure Intent where
  state : IntentState
  stateVersion : Nat
  deriving DecidableEq

inductive ClaimState where
  | active
  | released
  | revoked
  deriving DecidableEq

/-- `execution_claims`. -/
structure Claim where
  owner : Owner
  leaseVersion : Nat
  state : ClaimState
  expiresAt : Int
  lastProgressAt : Int
  stallFlagged : Bool
  deriving DecidableEq

/-- The qualification a caller presents. -/
structure Holder where
  owner : Owner
  leaseVersion : Nat
  deriving DecidableEq

inductive AdvanceAction where
  | firstBroadcast
  | replay
  | replace
  deriving DecidableEq

inductive StepState where
  | issued
  | converged
  | refused
  | unknown
  deriving DecidableEq

inductive OutcomeClass where
  | sent
  | refusedGate
  | refusedBasis
  | pendingUnknown
  | reconcileRequired
  | unavailable
  deriving DecidableEq

/-- The recovery condition of an unknown attempt. -/
inductive RecoveryCondition where
  | probe
  | freeze
  deriving DecidableEq

inductive Evidence where
  | empty
  | outcome (outcome : OutcomeClass)
  | noSendResult
  | stillUnknown (condition : RecoveryCondition)
  | noAttemptPersisted
  | confirmedSent
  | frozen
  deriving DecidableEq

/-- `execution_steps`. -/
structure Step where
  id : StepID
  action : AdvanceAction
  state : StepState
  holder : Holder
  recoveryVersion : Nat
  attempt : Option AttemptID
  outcome : Option OutcomeClass
  revisionVersion : Nat
  evidence : Evidence
  deriving DecidableEq

/-- `execution_steps_pkey` and `execution_steps_open_uniq`. -/
instance : Constrained Step where
  clash a b := a.id == b.id || (a.state == .issued && b.state == .issued)
  clash_comm a b := by rw [Bool.beq_comm, Bool.and_comm]

inductive EventKind where
  | admitted
  | admissionRefused
  | claimed
  | released
  | takenOver
  | revoked
  | stallFlagged
  | stateChanged
  | stepIssued
  | stepConverged
  | stepRefused
  | stepUnknown
  | reconcileObserved
  | revisionApplied
  | projectionStale
  | projectionRefreshed
  deriving DecidableEq

/-- `execution_events`. Of the detail text only the freeze marker is read again. -/
structure Event where
  kind : EventKind
  edge : Option (IntentState × IntentState)
  leaseVersion : Nat
  step : Option StepID
  attempt : Option AttemptID
  revisionVersion : Nat
  freezes : Bool
  deriving DecidableEq

def Event.of (kind : EventKind) : Event := ⟨kind, none, 0, none, none, 0, false⟩

/-- The outbox events of the intent. -/
inductive Published where
  | stateChanged (source target : IntentState)
  | revised (source target : IntentState) (revision : Nat)
  deriving DecidableEq

inductive AttemptState where
  | prepared
  | signed
  | sent
  | unknown
  | effective
  | ineffective
  | confirmed
  | orphaned
  | replaced
  deriving DecidableEq

/-- The signing identity of an attempt: the request of the intent, one derived from the step, or one
the caller allocated. -/
inductive SigningRequestID where
  | request
  | forStep (step : StepID)
  | named (id : Nat)
  deriving DecidableEq

/-- `tx_attempts`, in creation order. All attempts of an intent share its binding. -/
structure TxAttempt where
  id : AttemptID
  signingRequest : SigningRequestID
  replacementOf : Option AttemptID
  recoveryVersion : Nat
  state : AttemptState
  revision : Nat
  deriving DecidableEq

/-- `tx_attempts_pkey` and `tx_attempts_signing_request_uniq`. -/
instance : Constrained TxAttempt where
  clash a b := a.id == b.id || a.signingRequest == b.signingRequest
  clash_comm a b := by rw [Bool.beq_comm, Bool.beq_comm (a := a.signingRequest)]

inductive SendKind where
  | initial
  | replay
  deriving DecidableEq

inductive SendOutcome where
  | accepted
  | rejected
  | unknown
  deriving DecidableEq

/-- `tx_send_attempts`, with the claim version its gates observed. -/
structure SendRow where
  attempt : AttemptID
  kind : SendKind
  outcome : SendOutcome
  claimVersion : Nat
  pauseObserved : Bool
  dispatchedAt : Int
  deriving DecidableEq

inductive Canonicality where
  | unverified
  | canonical
  | orphaned
  deriving DecidableEq

inductive ReceiptEffect where
  | effective | ineffectiveStatus | ineffectiveTransferMissing | ineffectiveTransferMismatch
  deriving DecidableEq

/-- What a receipt says about the payment: its status, the effect class and the transfer detail. -/
structure Verdict where
  status : Nat
  effect : ReceiptEffect
  detail : String
  deriving DecidableEq

def Verdict.effective (v : Verdict) : Bool := decide (v.effect = .effective)

/-- `tx_receipts`. A transaction hash belongs to one attempt. -/
structure Receipt where
  attempt : AttemptID
  blockNumber : Int
  blockHash : Nat
  verdict : Verdict
  canonicality : Canonicality
  confirmations : Int
  threshold : Int
  /-- Whether `confirmed_at` is set. -/
  confirmedAt : Bool
  deriving DecidableEq

def Receipt.effective (r : Receipt) : Bool := r.verdict.effective

/-- The events of `tx_attempt_events` that a reconcile appends. -/
inductive AttemptEvent where
  | reconcileObserved | receiptVerified | receiptIneffective | confirmed | unknownCleared | reconfirmed | orphaned
  | replaced | frozen
  deriving DecidableEq

/-- `request_status_projection`. -/
structure Projection where
  executionState : IntentState
  stateVersion : Nat
  lifecycleAttempt : Option AttemptID
  lifecycleVersion : Nat
  fresh : Bool
  deriving DecidableEq

structure Store where
  now : Int
  intent : Option Intent
  claim : Option Claim
  steps : Table Step
  events : List Event
  published : List Published
  attempts : Table TxAttempt
  sends : List SendRow
  receipts : List Receipt
  /-- `tx_intent_freezes`: whether the freeze was released. -/
  freeze : Option Bool
  attemptEvents : List (AttemptID × AttemptEvent)
  projection : Option Projection

def Store.empty (now : Int) : Store where
  now := now
  intent := none
  claim := none
  steps := .empty
  events := []
  published := []
  attempts := .empty
  sends := []
  receipts := []
  freeze := none
  attemptEvents := []
  projection := none

/-- Why a transaction rolls back. -/
inductive Refusal where
  | intentMissing
  | intentExists
  | intentTerminal
  | notClaimable
  | claimLost
  | claimNotCurrent
  | illegalTransition
  | transitionRefused
  | gate (basis : String)
  | authorization (basis : String)
  | unavailable
  | frozen
  | stepOpen
  | convergeRefused
  | stepNotTerminal
  | attemptNotFound
  | attemptConflict
  | notSendable
  | alreadyAccepted
  | sendModeMismatch
  | releaseNotPermitted
  | revisionMoved
  deriving DecidableEq

abbrev ExecutionTx := Tx Store Refusal

/-- The store after a transaction that commits when its body succeeds. -/
def Store.commit {A : Type} (s : Store) (body : ExecutionTx A) : Store :=
  match body s with
  | .ok (_, s') => s'
  | .error _ => s

variable {A : Type} {s : Store} {body : ExecutionTx A}

open Store

theorem Store.commit_ok {s' : Store} {a : A} (h : body s = .ok (a, s')) : s.commit body = s' := by
  simp [commit, h]

theorem Store.commit_error {e : Refusal} (h : body s = .error e) : s.commit body = s := by
  simp [commit, h]

theorem Store.ok_of_isOk {body : ExecutionTx Unit} (h : (body s).isOk = true) : body s = .ok ((), s.commit body) := by
  cases hbody : body s with
  | error e =>
    rw [hbody] at h
    cases h
  | ok p => rw [commit_ok hbody]

/-- A commit leaves the store alone or installs what its body computed. -/
theorem Store.commit_cases (s : Store) (body : ExecutionTx A) :
    s.commit body = s ∨ ∃ a s', body s = .ok (a, s') ∧ s.commit body = s' := by
  cases h : body s with
  | error e => exact .inl (commit_error h)
  | ok p => exact .inr ⟨p.1, p.2, rfl, commit_ok h⟩

/-- `ReadOpenStep`. -/
def Store.openStep (s : Store) : Option Step := s.steps.select fun step => step.state == .issued

def Store.attempt? (s : Store) (id : AttemptID) : Option TxAttempt := s.attempts.select fun a => a.id == id

/-- The latest attempt, in creation order. -/
def Store.currentAttempt (s : Store) : Option TxAttempt := s.attempts.rows.getLast?

/-- `AppendEvent`. -/
def Store.log (s : Store) (e : Event) : Store := { s with events := s.events ++ [e] }

end TxHarbor.Execution
