import TxHarbor.Indexer.Commit

open Relational Constrained Tx

namespace TxHarbor.Indexer

/-- `EstablishRequest`. `envMaxDepth` is what `ParseReorgMaxDepth` makes of the configured text. -/
structure EstablishRequest where
  chainID : Int
  oldTipNumber : Int
  oldTipHash : Hash
  newTipNumber : Int
  newTipHash : Hash
  envMaxDepth : Option Int
  deriving DecidableEq

structure EstablishResult where
  recoveryID : RecoveryID
  seq : Int
  converged : Bool
  deriving DecidableEq

/-- `bindReorgPolicy`: the effective policy must equal the configured depth, and the first round
bootstraps version 1. -/
def bindReorgPolicy (s : Store) (envMaxDepth : Option Int) : Except IndexerError (ReorgPolicy × Table ReorgPolicy) :=
  match envMaxDepth with
  | none => .error .policyRejected
  | some depth =>
    match s.reorgPolicies.latest (fun _ => true) (·.policySeq) with
    | some policy =>
      if policy.maxDepth = depth then .ok (policy, s.reorgPolicies) else .error .policyDrift
    | none =>
      match s.reorgPolicies.insert? ⟨1, depth⟩ with
      | none => .error (.message "insert reorg policy bootstrap")
      | some policies => .ok (⟨1, depth⟩, policies)

/-- The row `insertRecoveryRowSQL` writes. Exhausted fencing versions are refused. -/
def RecoveryRow.open? (id : RecoveryID) (policy : ReorgPolicy) (req : EstablishRequest) (seq : Int) :
    Option RecoveryRow :=
  if h : 0 < seq ∧ seq < maxRecoverySeq then
    some { recoveryID := id, phase := .detected, policySeq := policy.policySeq,
           maxDepth := policy.maxDepth, boundOldNumber := req.oldTipNumber,
           boundOldHash := req.oldTipHash, ancestor := none, newTipNumber := req.newTipNumber,
           newTipHash := req.newTipHash, blockFrontier := none, logFrontier := none,
           depositFrontier := none, seq := seq, seq_range := h, depth_range := by simp }
  else none

/-- `EstablishRecovery`: repeat triggers converge on the one active row without writing. -/
def establishRecovery (held : Bool) (nanos : Int) (req : EstablishRequest) : IndexerTx EstablishResult := do
  require (0 < req.chainID) .policyRejected
  leaseVerdict held
  let s ← get
  match s.recovery with
  | some row => pure ⟨row.recoveryID, row.seq, true⟩
  | none =>
    let (policy, policies) ← lift id (bindReorgPolicy s req.envMaxDepth)
    let row ← demand (.message "establish recovery refused: fencing versions exhausted")
      (RecoveryRow.open? ⟨req.chainID, req.oldTipNumber, nanos⟩ policy req (recoveryEventsMax s + 1))
    set { s with reorgPolicies := policies, recovery := some row }
    appendRecoveryEvent row .established
    pure ⟨row.recoveryID, row.seq, false⟩

/-- The row `confirmRecoveryAncestorSQL` leaves, unless the depth CHECK forbids it. -/
def RecoveryRow.confirmAncestor? (row : RecoveryRow) (a : Ancestor) : Option RecoveryRow :=
  if h : 0 ≤ row.boundOldNumber - a.number ∧ row.boundOldNumber - a.number ≤ row.maxDepth then
    some { row with phase := .ancestorConfirmed, ancestor := some a,
                    depth_range := fun _ hb => Option.mem_some_iff.mp hb ▸ h }
  else none

def confirmRecoveryAncestor (held : Bool) (cap : RecoveryCapture) (a : Ancestor) : IndexerTx Unit := do
  let row ← openOwned held cap [.detected]
  let s ← get
  let stored ← demand (.gate (.ancestorAbsent a.number)) (canonicalHashAt s a.number)
  require (stored = a.hash) (.gate (.ancestorDiffers a.number stored a.hash))
  require (0 ≤ a.number ∧ 0 ≤ row.boundOldNumber ∧ a.number ≤ row.boundOldNumber)
    (.gate (.ancestorDepth row.boundOldNumber a.number))
  require (row.boundOldNumber - a.number ≤ row.maxDepth)
    (.gate (.depthExceeds (row.boundOldNumber - a.number) row.maxDepth))
  let confirmed ← demand (.gate (.lostRace "ancestor confirm affected 0 rows (concurrent phase move)"))
    (row.confirmAncestor? a)
  set { s with recovery := some confirmed }
  appendRecoveryEvent row .ancestorConfirmed

/-- `maxPersistedTipSQL`. -/
def persistedTip (s : Store) : Int := s.blocks.rows.foldl (fun m b => max m b.number) (-1)

/-- The `WHERE` clause of `invalidateBlocksSQL`. -/
def ChainBlock.canonicalIn (lo hi : Int) (b : ChainBlock) : Bool :=
  decide (lo ≤ b.number) && decide (b.number ≤ hi) && b.canonical

/-- A retained row that is no longer canonical. -/
def ChainBlock.retire (b : ChainBlock) : ChainBlock := { b with canonical := false }

theorem ChainBlock.retire_keepsKeys : KeepsKeys ChainBlock.retire := by
  intro a b h
  simp only [clash, Bool.or_eq_false_iff] at h
  simp [clash, ChainBlock.retire, h.1]

/-- `InvalidateRecoveryBlocks`: the live range above the ancestor loses its canonical rows. -/
def invalidateRecoveryBlocks (held : Bool) (cap : RecoveryCapture) : IndexerTx (Int × Int × Nat) := do
  let row ← openOwned held cap [.ancestorConfirmed, .invalidated]
  let s ← get
  let a ← demand .nilDereference row.ancestor
  let lo := a.number + 1
  let hi := max (persistedTip s) (lo - 1)
  set { s with blocks := s.blocks.update (ChainBlock.canonicalIn lo hi) ChainBlock.retire ChainBlock.retire_keepsKeys }
  updateRecoveryRow row (·.inPhase .invalidated) "phase advance affected 0 rows (concurrent move)"
  appendRecoveryEvent row .blocksInvalidated
  pure (lo, hi, s.blocks.affected (ChainBlock.canonicalIn lo hi))

/-- Pending or confirmed: what the completion proofs call effective. -/
def ObservationStatus.effective : ObservationStatus → Bool
  | .pending => true
  | .confirmed => true
  | .orphaned => false

/-- The predicate of `readOrphanCandidatesSQL` and `orphanObservationsSQL`. -/
def DepositObservation.effectiveFrom (lo : Int) (o : DepositObservation) : Bool :=
  decide (lo ≤ o.blockNumber) && o.status.effective

/-- The columns `orphanObservationsSQL` sets. -/
def DepositObservation.orphan (id : RecoveryID) (o : DepositObservation) : DepositObservation :=
  { o with status := .orphaned, orphanRecoveryID := some id }

/-- The transition row `insertOrphanTransitionsSQL` appends for a candidate. -/
def DepositObservation.orphanTransition (id : RecoveryID) (o : DepositObservation) : ObservationTransition :=
  ⟨o.toIdentity, o.status, .orphaned, id⟩

/-- `InvalidateRecoveryObservations`: the transition rows are appended first, and the three
counts must agree. -/
def invalidateRecoveryObservations (held : Bool) (cap : RecoveryCapture) : IndexerTx Nat := do
  let row ← openOwned held cap [.invalidated]
  let s ← get
  let a ← demand .nilDereference row.ancestor
  let lo := a.number + 1
  let candidates := s.observations.rows.filter (DepositObservation.effectiveFrom lo)
  let (transitions, recorded) ← lift id
    (s.transitions.insertBatch .ok (fun a b => a == b) (fun _ => .message "insert orphan transitions")
      (candidates.map (DepositObservation.orphanTransition row.recoveryID)))
  let converted := s.observations.affected (DepositObservation.effectiveFrom lo)
  require (converted = recorded) (.message "orphan conversion mismatch: transitions for conversions")
  require (recorded = candidates.length) (.message "orphan conversion mismatch: transitions for candidates")
  set { s with transitions := transitions,
               observations := s.observations.update (DepositObservation.effectiveFrom lo)
                 (DepositObservation.orphan row.recoveryID) (fun _ _ h => h) }
  appendRecoveryEvent row .observationsInvalidated
  pure converted

/-- The two streams whose progress is a watermark. -/
inductive UnitStream where
  | log
  | deposit
  deriving DecidableEq

def UnitStream.stream : UnitStream → RecoveryStream
  | .log => .log
  | .deposit => .deposit

def Store.progress (s : Store) : UnitStream → Option StreamCheckpoint
  | .log => s.logCheckpoint
  | .deposit => s.depositCheckpoint

def Store.setProgress (s : Store) (stream : UnitStream) (c : StreamCheckpoint) : Store :=
  match stream with
  | .log => { s with logCheckpoint := some c }
  | .deposit => { s with depositCheckpoint := some c }

/-- The watermark at its rollback floor `max(ancestor+1, start)`. -/
def StreamCheckpoint.rollTo (c : StreamCheckpoint) (ancestor : Int) : StreamCheckpoint :=
  ⟨c.startBlock, c.configHash, max (ancestor + 1) c.startBlock, Int.le_max_right _ _⟩

/-- The log and deposit branch of `RollbackRecoveryCheckpoint`. The last component says whether
the transaction commits: a missing row is a vacuous success. -/
def rollbackUnitCheckpointTx (row : RecoveryRow) (ancestor : Int) (stream : UnitStream) :
    IndexerTx (Int × Int × Bool) := do
  let s ← get
  match s.progress stream with
  | none => pure (ancestor + 1, ancestor + 1, false)
  | some c =>
    set (s.setProgress stream (c.rollTo ancestor))
    appendRecoveryEvent row .checkpointsRolledBack
    pure (c.nextBlock, (c.rollTo ancestor).nextBlock, true)

/-- `rollbackBlockCheckpointTx`: onto the ancestor, or away when the scan started above it. -/
def rollbackBlockCheckpointTx (row : RecoveryRow) (ancestor : Int) : IndexerTx (Int × Int × Bool) := do
  let s ← get
  match s.checkpoint with
  | none => pure (ancestor + 1, ancestor + 1, false)
  | some c =>
    if c.startHeight ≤ ancestor + 1 then do
      let hash ← demand (.message "read ancestor canonical for rollback") (canonicalHashAt s ancestor)
      set { s with checkpoint := some { c with height := ancestor, blockHash := hash } }
      appendRecoveryEvent row .checkpointsRolledBack
      pure (c.height, ancestor, true)
    else do
      set { s with checkpoint := none }
      appendRecoveryEvent row .checkpointsRolledBack
      pure (c.height, c.startHeight, true)

def rollbackRecoveryCheckpoint (held : Bool) (cap : RecoveryCapture) (stream : RecoveryStream) :
    IndexerTx (Int × Int × Bool) := do
  let row ← openOwned held cap [.invalidated]
  let a ← demand (.gate (.ancestorRequired "rollback")) row.ancestor
  match stream with
  | .block => rollbackBlockCheckpointTx row a.number
  | .log => rollbackUnitCheckpointTx row a.number .log
  | .deposit => rollbackUnitCheckpointTx row a.number .deposit

/-- `SignalRecoveryReconcile`: any running phase is held for the operators. Without an active row
there is nothing to hold, and the call returns without a COMMIT. -/
def signalRecoveryReconcile (held : Bool) (cap : RecoveryCapture) : IndexerTx Bool := do
  leaseVerdict held
  let s ← get
  if s.recovery = none ∧ cap.owned ≠ none then pure false
  else do
    let gate ← recheckRecoveryGate cap [.detected, .ancestorConfirmed, .invalidated, .replaying, .completePending]
    let row ← demand .nilDereference gate
    updateRecoveryRow row (·.inPhase .reconcileRequired) "reconcile advance affected 0 rows"
    appendRecoveryEvent row .reconcileSignaled
    pure true

def noteRecoveryEvidence (held : Bool) (cap : RecoveryCapture) : IndexerTx Unit := do
  let row ← openOwned held cap
    [.detected, .ancestorConfirmed, .invalidated, .replaying, .completePending, .reconcileRequired]
  appendRecoveryEvent row (if row.phase = .reconcileRequired then .reconcileSignaled else .replayProgress)

/-- The opening the two operator authorizations share: the minimum evidence, and a recovery that
is held for reconciliation. -/
def openHeld (operation operator evidence disposition : String) : IndexerTx RecoveryRow := do
  require (operator ≠ "" ∧ evidence ≠ "" ∧ disposition ≠ "") .policyRejected
  let s ← get
  let row ← demand (.gate (.notHeld operation)) s.recovery
  require (row.phase = .reconcileRequired) (.gate (.notHeld operation))
  pure row

def authorizeRecoveryRepair (operator evidence disposition : String) : IndexerTx Unit := do
  let row ← openHeld "repair" operator evidence disposition
  appendRecoveryEvent row .repairAuthorized

end TxHarbor.Indexer
