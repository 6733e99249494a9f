import TxHarbor.Nonce.Admission

open Relational

namespace TxHarbor.Nonce

def observeTransitionTarget (b : Binding) (latest pending : Option Int) : Option BindingState :=
  match latest, pending with
  | some latest, some pending =>
    if isTerminal b.state then none
    else if b.nonce < latest then some .consumed
    else if b.state = .allocated ∧ b.nonce < pending then some .inFlight
    else none
  | _, _ => none

/-- `applyObservationTransitionTx`: at most one automatic edge for one binding, event first. -/
def applyObservationTransitionTx (now : Int) (obs : Observation) (b : Binding) : NonceTx Bool :=
  if obs.trusted then
    match observeTransitionTarget b obs.latestCount obs.pendingCount with
    | none => pure false
    | some target =>
      if canAutoTransition b.state target then do
        let created ← insertBindingEventTx
          { bindingID := b.bindingID, fromState := some b.state, toState := target,
            observationID := obs.observationID, operationID := "", detail := "reconcile" }
        let moved ← advanceBindingStateTx now b.bindingID target "" b.state
        pure (created || moved)
      else pure false
  else pure false

/-- The transition loop of `reconcileScopeInTx`, over the rows read under the lock. -/
def applyObservationTransitionsTx (now : Int) (obs : Observation) : List Binding → NonceTx Unit
  | [] => pure ()
  | b :: rest => do
    let _ ← applyObservationTransitionTx now obs b
    applyObservationTransitionsTx now obs rest

def reconcileScopeInTx (now : Int) (mint : Mint) (scope : Scope) (obs : Observation) : NonceTx Unit := do
  ensureScopeRowTx scope
  lockScopeRowTx scope
  let s ← get
  let decision := classify (classificationInput s scope obs)
  let obs := { obs with classification := some decision.classification }
  let observationID ← insertObservationTx mint obs
  let obs := { obs with observationID := observationID }
  applyObservationTransitionsTx now obs (readBindingsByScopeTx s scope)
  holdForDecisionTx now mint scope decision observationID
  recordFrontierTx scope obs observationID

/-- `reconcileScope`: one tick for one scope, with the chain view sampled before the
transaction. A failed tick is only logged. -/
def reconcileScope (view : ChainView) (now : Int) (mint : Mint) (fault : Fault TxError)
    (scope : Scope) (s : Store) : Store :=
  (Tx.attempt fault (reconcileScopeInTx now mint scope (observe scope .reconcile view)) (fun _ => true) s).2

end TxHarbor.Nonce
