import TxHarbor.Execution.Steps
import TxHarbor.Transition.Run

open Relational Tx

namespace TxHarbor.Execution

/-! Every transaction of every process as one step of an arbitrary interleaving. What a process read
before its transaction is an argument of the step. -/

inductive Operation where
  | admitIntent
  | claim (owner : Owner) (onlyStall : Bool)
  | acquire (owner : Owner)
  | renew (h : Holder)
  | advanceProgress (h : Holder)
  | release (h : Holder)
  | revoke (version : Nat)
  | sweepStalls
  | toClaimed (h : Holder)
  | issue (req : StepRequest) (gates : IssueGates)
  | converge (h : Holder) (step : StepID) (res : AdvanceResult)
  | convergeOpenStep (step : StepID) (v : StepVerdict)
  | recordObservation (step : StepID) (facts : LifecycleFacts)
  | recordFreeze (facts : LifecycleFacts)
  | ensureReconciling (read : Intent) (h : Option Holder)
  | toExecuting (read : Intent) (h : Holder)
  | completeIntent (read : Intent) (h : Option Holder)
  | applyRevision (read : Intent) (fact : RevisionFact) (chained : Bool)
  | consumeProjection (fact : RevisionFact)
  | refreshProjection (readable : Bool)
  | prepare (id : AttemptID) (signing : SigningRequestID) (anchor : Option AttemptID) (recoveryVersion : Nat)
  | sign (id : AttemptID)
  | dispatch (id : AttemptID) (h : Holder) (kind : SendKind) (gates : RegionGates) (outcome : SendOutcome)
  | recordWriteFailure (id : AttemptID) (h : Holder) (kind : SendKind) (pauseObserved : Bool)
  | reconcile (view : ChainView) (id : AttemptID) (probe : Probe)
  | releaseFreeze (permitted : Bool)

/-- The version a reconciler passes on; a fact-only caller has none. -/
def leaseOf (h : Option Holder) : Nat := (h.map Holder.leaseVersion).getD 0

/-- The transaction of an operation. -/
def Operation.body (t : ClaimTimings) : Operation → ExecutionTx Unit
  | .admitIntent => Execution.admitIntent
  | .claim owner onlyStall => do let _ ← claimTx t owner onlyStall
  | .acquire owner => do let _ ← Execution.acquire t owner
  | .renew h => Execution.renew t h
  | .advanceProgress h => Execution.advanceProgress h
  | .release h => Execution.release h
  | .revoke version => revokeClaim version
  | .sweepStalls => Execution.sweepStalls t
  | .toClaimed h => advanceIntentToClaimed h.leaseVersion
  | .issue req gates => Execution.issue req gates
  | .converge h step res => Execution.converge h step res
  | .convergeOpenStep step v => Execution.convergeOpenStep step v
  | .recordObservation step facts => Execution.recordObservation step facts
  | .recordFreeze facts => Execution.recordFreeze facts
  | .ensureReconciling read h => Execution.ensureReconciling read (leaseOf h)
  | .toExecuting read h => Execution.toExecuting read h.leaseVersion
  | .completeIntent read h => Execution.completeIntent read (leaseOf h)
  | .applyRevision read fact chained => Execution.applyRevision read fact chained
  | .consumeProjection fact => consumeProjectionVersion fact
  | .refreshProjection readable => Execution.refreshProjection readable
  | .prepare id signing anchor recoveryVersion => prepareAttempt id signing anchor recoveryVersion
  | .sign id => signAndPersist id
  | .dispatch id h kind gates outcome => sendRegion id h kind gates outcome
  | .recordWriteFailure id h kind pauseObserved => recordRegionWriteFailure id h kind pauseObserved
  | .reconcile view id probe => reconcileAttempt view id probe
  | .releaseFreeze permitted => Execution.releaseFreeze permitted

/-- A transaction with the fault that meets it, or the clock moving on. -/
inductive Action where
  | submit (op : Operation) (fault : Fault Refusal)
  | wait (ticks : Nat)

def Store.next (t : ClaimTimings) (s : Store) : Action → Store
  | .submit op fault => (attempt fault (op.body t) (fun _ => true) s).2
  | .wait ticks => { s with now := s.now + ticks }

theorem Store.next_submit (t : ClaimTimings) (s : Store) (op : Operation) (fault : Fault Refusal) :
    s.next t (.submit op fault) = s ∨ ∃ s', op.body t s = .ok ((), s') ∧ s.next t (.submit op fault) = s' := by
  rcases attempt_store fault (op.body t) (fun _ => true) s with hsame | ⟨_, s', hbody, -, hnew⟩
  · exact .inl hsame
  · exact .inr ⟨s', hbody, hnew⟩

namespace Sample

/-! A worker pair and the gates that all permit, for the concrete runs below. -/

def timings : ClaimTimings := ⟨10, 20, by decide, by decide⟩

def first : Holder := ⟨1, 1⟩

def permitting : IssueGates := ⟨none, 0, none, none, none, true, none⟩

/-- A receipt that pays and one with a failed status. -/
def paid : Verdict := ⟨1, .effective, ""⟩

def failed : Verdict := ⟨0, .ineffectiveStatus, ""⟩

def does (op : Operation) : Action := .submit op .none

/-- A claim and the move to claimed. -/
def claiming : List Action := [does .admitIntent, does (.claim 1 false), does (.toClaimed first)]

/-- A step under it. -/
def issuing : List Action := claiming ++ [does (.issue ⟨first, 1, .firstBroadcast⟩ permitting)]

end Sample

end TxHarbor.Execution
