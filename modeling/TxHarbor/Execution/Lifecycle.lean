import TxHarbor.Execution.Claim

open Relational Tx

namespace TxHarbor.Execution

/-! The transactions of the attempt lifecycle (010): persist, sign, dispatch and observe. -/

/-- The attempt with a new state. Every guarded change bumps the revision. -/
def TxAttempt.move (state : AttemptState) (a : TxAttempt) : TxAttempt :=
  { a with state := state, revision := a.revision + 1 }

theorem TxAttempt.move_keepsKeys (state : AttemptState) : KeepsKeys (TxAttempt.move state) := fun _ _ h => h

/-- `applyStateTx` under the lock of the attempt row. -/
def Store.moveAttempt (s : Store) (id : AttemptID) (state : AttemptState) : Store :=
  { s with attempts := s.attempts.update (fun a => a.id == id) (TxAttempt.move state) (TxAttempt.move_keepsKeys state) }

/-- `PrepareAttempt`. The same identity converges on the stored row, another attempt with the signing
identity is a conflict. -/
def prepareAttempt (id : AttemptID) (signing : SigningRequestID) (anchor : Option AttemptID)
    (recoveryVersion : Nat) : ExecutionTx Unit := do
  let s ← get
  match s.attempt? id with
  -- the canonical envelope, which is compared, has no replacement anchor
  | some a => require (a.signingRequest = signing ∧ a.recoveryVersion = recoveryVersion) .attemptConflict
  | none =>
    let attempts ← demand .attemptConflict (s.attempts.insert? ⟨id, signing, anchor, recoveryVersion, .prepared, 1⟩)
    set { s with attempts := attempts }

def signAndPersist (id : AttemptID) : ExecutionTx Unit := do
  let s ← get
  let a ← demand .attemptNotFound (s.attempt? id)
  require (a.state = .prepared) .revisionMoved
  set (s.moveAttempt id .signed)

def sendabilityRefusal (kind : SendKind) (state : AttemptState) (accepted : Bool) : Option Refusal :=
  match kind with
  | .initial =>
    match state with
    | .signed => none
    | .prepared => some .notSendable
    | .sent | .unknown => some .alreadyAccepted
    | _ => if accepted then some .alreadyAccepted else some .notSendable
  | .replay =>
    match state with
    | .sent | .unknown | .signed => none
    | .prepared => some .sendModeMismatch
    | _ => some .notSendable

/-- The verdict of the pause, recovery, binding, grant and scope gates in the send region. -/
structure RegionGates where
  refusal : Option Refusal
  pauseObserved : Bool
  deriving DecidableEq

/-- `sendRegion` up to its COMMIT: gates, one dispatch with its outcome, and the record of it. -/
def sendRegion (id : AttemptID) (h : Holder) (kind : SendKind) (gates : RegionGates) (outcome : SendOutcome) :
    ExecutionTx Unit := do
  let s ← get
  require (s.holds h = true) .claimNotCurrent
  refuse (fun refusal => refusal) gates.refusal
  let a ← demand .attemptNotFound (s.attempt? id)
  refuse (fun refusal => refusal) (sendabilityRefusal kind a.state (s.sends.any fun row => row.attempt == id && row.outcome == .accepted))
  let state := if outcome = .accepted ∨ a.state = .sent then AttemptState.sent else .unknown
  let row : SendRow := ⟨id, kind, outcome, h.leaseVersion, gates.pauseObserved, s.now⟩
  set { s.moveAttempt id state with sends := s.sends ++ [row] }

/-- `recordRegionWriteFailure`: a dispatch whose region failed to commit is recorded as unknown by a
transaction of its own. -/
def recordRegionWriteFailure (id : AttemptID) (h : Holder) (kind : SendKind) (pauseObserved : Bool) :
    ExecutionTx Unit := do
  let s ← get
  let a ← demand .attemptNotFound (s.attempt? id)
  let state := if a.state = .sent then AttemptState.sent else .unknown
  let row : SendRow := ⟨id, kind, .unknown, h.leaseVersion, pauseObserved, s.now⟩
  set { s.moveAttempt id state with sends := s.sends ++ [row] }

/-- What the node answers about the transaction of an attempt. -/
inductive Probe where
  | notFoundYet
  | foundPending
  | unavailable
  | included (blockNumber : Int) (blockHash : Nat) (verdict : Verdict)
  deriving DecidableEq

/-- The canonical rows of the indexer, its head and the confirmation policy. -/
structure ChainView where
  canonical : Int → Nat → Bool
  head : Int
  threshold : Int
  earliestPause : Option Int

def reconcileTransition (probe : Probe) (state : AttemptState) : Option AttemptState :=
  match probe, state with
  | .foundPending, .signed | .foundPending, .unknown => some .sent
  | .notFoundYet, .sent => some .unknown
  | _, _ => none

def receiptTransition (state : AttemptState) (effective canonical confirmed : Bool) : Option AttemptState :=
  if canonical = false then none
  else if effective then
    if confirmed then if state = .confirmed then none else some .confirmed
    else if state = .effective ∨ state = .confirmed then none else some .effective
  else if state = .ineffective then none else some .ineffective

def Store.moveIf (s : Store) (id : AttemptID) : Option AttemptState → Store
  | none => s
  | some state => s.moveAttempt id state

def Store.stateOf (s : Store) (id : AttemptID) : AttemptState := ((s.attempt? id).map TxAttempt.state).getD .prepared

/-- `upsertReceipt` on the row of a block. An orphaned row stays orphaned, and a confirmed row keeps the
threshold it was confirmed with. -/
def Receipt.refresh (r new : Receipt) : Receipt :=
  if new.canonicality = .canonical ∧ r.canonicality ≠ .orphaned then
    { r with
      canonicality := .canonical
      confirmations := new.confirmations
      threshold := if r.confirmedAt then r.threshold else new.threshold
      confirmedAt := r.confirmedAt || new.confirmedAt }
  else r

def Receipt.sameBlock (r new : Receipt) : Bool := r.attempt == new.attempt && r.blockHash == new.blockHash

def upsertReceipt (receipts : List Receipt) (new : Receipt) : List Receipt :=
  if receipts.any fun r => r.sameBlock new then
    receipts.map fun r => if r.sameBlock new then r.refresh new else r
  else receipts ++ [new]

/-- The canonicality of the row after the write. -/
def storedCanonicality (receipts : List Receipt) (new : Receipt) : Canonicality :=
  ((receipts.find? fun r => r.sameBlock new).map Receipt.canonicality).getD .unverified

/-- The other receipts of the attempt whose block is gone. -/
def Receipt.lost (view : ChainView) (id : AttemptID) (hash : Nat) (r : Receipt) : Bool :=
  r.attempt == id && r.canonicality != .orphaned && r.blockHash != hash && !view.canonical r.blockNumber r.blockHash

def Receipt.revise (view : ChainView) (id : AttemptID) (hash : Nat) (r : Receipt) : Receipt :=
  if r.lost view id hash then { r with canonicality := .orphaned } else r

/-- `reviseOrphanedReceipts`. -/
def Store.reviseOrphaned (s : Store) (view : ChainView) (id : AttemptID) (hash : Nat) : Store :=
  let lost := s.receipts.any (Receipt.lost view id hash)
  let s := { s with receipts := s.receipts.map (Receipt.revise view id hash) }
  if lost = true ∧ (s.stateOf id = .effective ∨ s.stateOf id = .confirmed) then s.moveAttempt id .orphaned
  else s

/-- The states `markSiblingsReplaced` leaves alone. -/
def AttemptState.settled : AttemptState → Bool
  | .effective | .confirmed | .ineffective | .replaced => true
  | _ => false

/-- `markSiblingsReplaced`. -/
def Store.replaceSiblings (s : Store) (id : AttemptID) : Store :=
  { s with attempts := s.attempts.update (fun a => a.id != id && !a.state.settled) (TxAttempt.move .replaced) (TxAttempt.move_keepsKeys .replaced) }

/-- The receipt of an included transaction as the indexer's view judges it. -/
def Receipt.seen (view : ChainView) (id : AttemptID) (number : Int) (hash : Nat) (verdict : Verdict) : Receipt :=
  { attempt := id
    blockNumber := number
    blockHash := hash
    verdict := verdict
    canonicality := if view.canonical number hash then .canonical else .unverified
    confirmations := if number ≤ view.head then view.head - number + 1 else 0
    threshold := view.threshold
    confirmedAt := verdict.effective && view.canonical number hash &&
      decide (view.threshold ≤ if number ≤ view.head then view.head - number + 1 else 0) }

def Receipt.confirmed (r : Receipt) : Bool :=
  r.canonicality == .canonical && r.effective && decide (r.threshold ≤ r.confirmations)

/-- `applyReceipt`. A row that history revised to orphaned drives no transition. -/
def Store.applyReceipt (s : Store) (view : ChainView) (new : Receipt) : Store :=
  let s₁ := { s with receipts := upsertReceipt s.receipts new }
  let live := storedCanonicality s₁.receipts new != .orphaned
  let s₂ := s₁.moveIf new.attempt (receiptTransition (s₁.stateOf new.attempt) new.effective
    (new.canonicality == .canonical && live) (new.confirmed && live))
  let s₃ := s₂.reviseOrphaned view new.attempt new.blockHash
  if live = true ∧ (new.confirmed = true ∨ new.effective = true) then s₃.replaceSiblings new.attempt else s₃

/-- The evidence of `detectFreeze`: a dispatch that saw no pause after one was committed. -/
def Store.staleDispatch (s : Store) (view : ChainView) (id : AttemptID) : Bool := view.earliestPause.any fun pause =>
  s.sends.any fun row => row.attempt == id && !row.pauseObserved && decide (pause < row.dispatchedAt)

/-- The row `detectFreeze` writes. -/
def Store.detectFreeze (s : Store) (view : ChainView) (id : AttemptID) : Store :=
  if s.staleDispatch view id then
    -- `ON CONFLICT DO NOTHING`: a released freeze stays released
    { s with freeze := some (s.freeze.getD false) }
  else s

def ReceiptEffect.text : ReceiptEffect → String
  | .effective => "effective"
  | .ineffectiveStatus => "ineffective_status"
  | .ineffectiveTransferMissing => "ineffective_transfer_missing"
  | .ineffectiveTransferMismatch => "ineffective_transfer_mismatch"

/-- The events of `applyReceipt`, with those of the revised receipts and the replaced siblings. -/
def Store.receiptEvents (s : Store) (view : ChainView) (new : Receipt) : List (AttemptID × AttemptEvent) :=
  let receipts := upsertReceipt s.receipts new
  let live := storedCanonicality receipts new != .orphaned
  let canonical := new.canonicality == .canonical && live
  let state := s.stateOf new.attempt
  let effect := new.verdict.effect
  let own : List AttemptEvent :=
    (if effect = .effective then [.receiptVerified] else [.receiptIneffective]) ++
    (if receiptTransition state new.effective canonical (new.confirmed && live) = some .confirmed then [.confirmed]
      else []) ++
    (if (effect.text = "effective" ∨ effect.text = "ineffective") ∧ state = .unknown then [.unknownCleared] else []) ++
    (if state = .orphaned ∧ canonical = true ∧ effect = .effective then [.reconfirmed] else []) ++
    (receipts.filter (Receipt.lost view new.attempt new.blockHash)).map fun _ => .orphaned
  own.map (new.attempt, ·) ++ if live = true ∧ (new.confirmed = true ∨ new.effective = true) then
      (s.attempts.rows.filter fun a => a.id != new.attempt && !a.state.settled).map fun a => (a.id, .replaced)
    else []

/-- The events a reconcile appends. `EventFrozen` does not ask whether a row was created. -/
def Store.reconcileEvents (s : Store) (view : ChainView) (id : AttemptID) (probe : Probe) :
    List (AttemptID × AttemptEvent) :=
  let applied := match probe with
    | .included number hash verdict => s.receiptEvents view (.seen view id number hash verdict)
    | _ => []
  (id, .reconcileObserved) :: applied ++ if s.staleDispatch view id then [(id, .frozen)] else []

/-- `appendEventTx`. -/
def Store.appendEvents (s : Store) (events : List (AttemptID × AttemptEvent)) : Store :=
  { s with attemptEvents := s.attemptEvents ++ events }

/-- `Reconcile`: observe only. It needs the persisted hash of a signed attempt. -/
def reconcileAttempt (view : ChainView) (id : AttemptID) (probe : Probe) : ExecutionTx Unit := do
  let s ← get
  let a ← demand .attemptNotFound (s.attempt? id)
  require (a.state ≠ .prepared) .notSendable
  let moved := s.moveIf id (reconcileTransition probe a.state)
  let applied := match probe with
    | .included number hash verdict => moved.applyReceipt view (.seen view id number hash verdict)
    | _ => moved
  set ((applied.detectFreeze view id).appendEvents (s.reconcileEvents view id probe))

/-- `Release` of a freeze, with the configured permission. -/
def releaseFreeze (permitted : Bool) : ExecutionTx Unit := do
  let s ← get
  require (permitted = true) .releaseNotPermitted
  require (s.freeze = some false) .releaseNotPermitted
  set { s with freeze := some true }

/-- What `Read` reports of the attempts and the freeze. -/
structure LifecycleFacts where
  attempts : List (AttemptID × AttemptState)
  current : Option AttemptID
  revisionVersion : Nat
  unknown : Option (Option AttemptID × RecoveryCondition)
  deriving DecidableEq

/-- `Read`. An unreleased freeze takes the place of the probe condition. -/
def Store.facts (s : Store) : LifecycleFacts :=
  let unknown := (s.attempts.rows.filter fun a => a.state == .unknown).getLast?.map TxAttempt.id
  { attempts := s.attempts.rows.map fun a => (a.id, a.state)
    current := s.currentAttempt.map TxAttempt.id
    revisionVersion := s.attempts.rows.foldl (fun m a => max m a.revision) 0
    unknown :=
      if s.freeze = some false then
        some ((unknown.map some).getD (s.currentAttempt.map TxAttempt.id), .freeze)
      else unknown.map fun id => (some id, .probe) }

end TxHarbor.Execution
