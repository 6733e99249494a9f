import TxHarbor.Indexer.Gate

open Relational Tx

namespace TxHarbor.Indexer

/-! The four ordinary commits: a header, a log range, a deposit unit and a confirmation. Each one
captures the recovery version before it reads its inputs and rechecks it under the lock. -/

/-- A closed height interval; units are never empty. -/
structure HeightRange where
  lo : Int
  hi : Int
  ordered : lo ≤ hi

instance : DecidableEq HeightRange := fun a b =>
  decidable_of_iff (a.lo = b.lo ∧ a.hi = b.hi) <| by
    cases a
    cases b
    simp

def HeightRange.heights (r : HeightRange) : List Int := (List.range (r.hi - r.lo + 1).toNat).map fun i => r.lo + i

structure BlockWrite where
  number : Int
  hash : Hash
  parent : Hash
  first : Bool
  deriving DecidableEq

/-- `siblingHashesSQL`. -/
def siblingHashes (s : Store) (number : Int) : List Hash :=
  ((s.blocks.rows.filter fun b => b.number == number).map (·.hash)).insertionSort (· ≤ ·)

/-- `canonicalHashAtHeight`: the view the chain diverged from. -/
def canonicalHashAtHeight (s : Store) (number : Int) (siblings : List Hash) (actual : Hash) : Hash :=
  (canonicalHashAt s number).getD ((siblings.find? fun h => h != actual).getD actual)

/-- The checkpoint a header commit leaves, or nothing when the exact guard of the current one
fails. -/
def BlockWrite.advance (w : BlockWrite) (startHeight : Int) : Option BlockCheckpoint → Option BlockCheckpoint
  | none => if w.first then some ⟨w.number, w.hash, startHeight⟩ else none
  | some c =>
    if w.first = false ∧ c.height = w.number - 1 ∧ c.blockHash = w.parent then
      some { c with height := w.number, blockHash := w.hash }
    else none

def commitBlock (startHeight : Int) (held : Bool) (w : BlockWrite) (cap : RecoveryCapture) : IndexerTx Unit := do
  require (w.first = true → w.number = startHeight) .stale
  let s ← get
  require (s.indexerPause = none) .paused
  leaseVerdict held
  let _ ← recheckRecoveryGate cap []
  let checkpoint ← demand .stale (w.advance startHeight s.checkpoint)
  let (blocks, _) ← demand (.message "insert block")
    (s.blocks.insertNew? (fun b => b.number == w.number && b.hash == w.hash) ⟨w.number, w.hash, w.parent, true⟩)
  let written := { s with blocks := blocks }
  let siblings := siblingHashes written w.number
  require (siblings = [w.hash]) (.hashMismatch (canonicalHashAtHeight written w.number siblings w.hash) w.hash)
  set { written with checkpoint := some checkpoint }

/-- The progress row with another watermark, unless its CHECK forbids it. -/
def StreamCheckpoint.moveTo? (c : StreamCheckpoint) (nextBlock : Int) : Option StreamCheckpoint :=
  if h : c.startBlock ≤ nextBlock then some ⟨c.startBlock, c.configHash, nextBlock, h⟩ else none

/-- The first progress row of a stream. -/
def HeightRange.bootstrap (r : HeightRange) (configHash : Hash) : StreamCheckpoint :=
  ⟨r.lo, configHash, r.hi + 1, by have := r.ordered; omega⟩

/-- The configuration identity a stream's commits are bound to. -/
structure StreamConfig where
  startBlock : Int
  configHash : Hash
  deriving DecidableEq

/-- `DepositConfig`: the identity with the asset and watch lists it names. -/
structure DepositConfig extends StreamConfig where
  assets : List DepositEntry
  watches : List DepositEntry
  deriving DecidableEq

/-- The progress row a unit leaves: the first unit creates it, a later one moves it from exactly
the start of the unit. -/
def HeightRange.advance (r : HeightRange) (cfg : StreamConfig) (first : Bool) :
    Option StreamCheckpoint → Option StreamCheckpoint
  | none => if first then some (r.bootstrap cfg.configHash) else none
  | some c =>
    if first = false ∧ c.startBlock = cfg.startBlock ∧ c.configHash = cfg.configHash ∧ c.nextBlock = r.lo then
      c.moveTo? (r.hi + 1)
    else none

/-- The chain-view re-adjudication: every height must still be canonical with the hash observed
before the lock. -/
def readjudicateRange (r : HeightRange) (observed : Int → Option Hash) : IndexerTx Unit := do
  let s ← get
  refuse (fun n => .chainView n (observed n) (canonicalHashAt s n))
    (r.heights.find? fun n => !((canonicalHashAt s n).isSome && canonicalHashAt s n == observed n))

def commitLogRange (cfg : StreamConfig) (held : Bool) (range : HeightRange) (first : Bool)
    (coverage : Int → Option Hash) (rows : List TransferLog) (cap : RecoveryCapture) :
    IndexerTx Unit := do
  let s ← get
  require (s.logPause = false) .paused
  require (s.indexerPause = none) .paused
  leaseVerdict held
  let _ ← recheckRecoveryGate cap []
  let checkpoint ← demand .stale (range.advance cfg first s.logCheckpoint)
  readjudicateRange range coverage
  let (logs, _) ← lift id
    (s.logs.insertBatch .ok (fun a b => a.toIdentity == b.toIdentity) (fun row => .logConflict row.toIdentity) rows)
  refuse (fun row => .logConflict row.toIdentity) (rows.find? fun row => !(logs.rows.contains row))
  set { s with logs := logs, logCheckpoint := some checkpoint }

/-- `depositProgress`. -/
structure DepositProgress where
  checkpoint : StreamCheckpoint
  versionSeq : Int
  deriving DecidableEq

/-- `readProgress`: one-sided state is corruption. -/
def readProgress (s : Store) : Except IndexerError (Option DepositProgress) :=
  match s.depositCheckpoint, s.versions.latest (fun _ => true) (·.versionSeq) with
  | none, none => .ok none
  | some c, some v =>
    if c.startBlock = v.startBlock ∧ c.configHash = v.configHash then .ok (some ⟨c, v.versionSeq⟩)
    else .error .depositCorruptState
  | _, _ => .error .depositCorruptState

/-- `depositObservation`, the parser's output. The amount is the parsed base-10 integer. -/
structure DepositMatch extends Identity where
  blockNumber : Int
  contract : Address
  sender : Address
  recipient : Address
  amount : Int
  deriving DecidableEq

/-- The row `insertDepositObservationSQL` writes, refused by `depositNumericAmount` unless the
amount is positive. -/
def DepositMatch.observation (m : DepositMatch) (versionSeq : Int) : Except IndexerError DepositObservation :=
  if 0 < m.amount then
    .ok { toIdentity := m.toIdentity, blockNumber := m.blockNumber, contract := m.contract,
          sender := m.sender, recipient := m.recipient, amount := m.amount,
          versionSeq := versionSeq, status := .pending, basis := none, orphanRecoveryID := none }
  else .error (.message "deposit amount is not a positive base-10 integer")

/-- `insertDepositObservationSQL` over a list of matches, counting the inserted rows. -/
def insertObservations (observations : Table DepositObservation)
    (rows : List (Except IndexerError DepositObservation)) :
    Except IndexerError (Table DepositObservation × Nat) :=
  observations.insertBatch id (fun a b => a.toIdentity == b.toIdentity)
    (fun _ => .message "insert deposit observation") rows

def exemptOwnedOrphan (cap : RecoveryCapture) (o : DepositObservation) : Bool :=
  cap.owned.isSome && o.orphanRecoveryID == cap.owned

/-- The re-read of one matched identity: content equal without the version, and pending unless
the row is exempt. -/
def DepositMatch.consistent (m : DepositMatch) (cap : RecoveryCapture)
    (observations : Table DepositObservation) : Bool :=
  match observations.select fun o => o.toIdentity == m.toIdentity with
  | none => false
  | some o =>
    o.contract == m.contract && o.blockNumber == m.blockNumber && o.sender == m.sender &&
      o.recipient == m.recipient && o.amount == m.amount &&
      (o.status == .pending || exemptOwnedOrphan cap o)

/-- `depositUnit` and `depositBatch`: the source rows of a unit and how its parse classified
them. -/
structure DepositBatch where
  canonical : Int → Option Hash
  rows : List Identity
  matched : List DepositMatch
  zero : Nat
  unmatched : Nat

/-- `reconcileDepositBatch`. -/
def DepositBatch.reconciles (batch : DepositBatch) (inserted existing : Nat) : Bool :=
  inserted + existing == batch.matched.length &&
    batch.rows.dedup.length == inserted + existing + batch.zero + batch.unmatched

/-- `rejectStreamPauses`. -/
def rejectStreamPauses (s : Store) : Except IndexerError Unit :=
  if s.depositPause.isSome then .error (.streamPaused "deposit_pause")
  else if s.logPause then .error (.streamPaused "log_pause")
  else if s.indexerPause.isSome then .error (.streamPaused "indexer_pause")
  else .ok ()

/-- The captured basis of a unit: none for the first one, which must start the configured range. -/
def DepositProgress.precheck (captured : Option DepositProgress) (cfg : StreamConfig)
    (range : HeightRange) : Except IndexerError Unit :=
  match captured with
  | none => if range.lo = cfg.startBlock then .ok () else .error .stale
  | some p =>
    if p.checkpoint.startBlock ≠ cfg.startBlock ∨ p.checkpoint.configHash ≠ cfg.configHash then
      .error .depositConfigMismatch
    else if p.checkpoint.nextBlock ≠ range.lo then .error .stale
    else .ok ()

/-- The version and progress verdicts under the lock. -/
def DepositProgress.verdict (captured current : Option DepositProgress) (cfg : StreamConfig)
    (range : HeightRange) : Except IndexerError Unit :=
  match captured, current with
  | none, none => .ok ()
  | some p, some c =>
    if c.versionSeq ≠ p.versionSeq then .error .depositVersionMismatch
    else if c.checkpoint.startBlock ≠ cfg.startBlock ∨ c.checkpoint.configHash ≠ cfg.configHash then
      .error .depositConfigMismatch
    else if c.checkpoint.nextBlock ≠ range.lo then .error .stale
    else .ok ()
  | _, _ => .error .depositVersionMismatch

/-- `verifyUpstreamCoverageUnderLock`. -/
def upstreamCovers (s : Store) (upstreamHash : Hash) (range : HeightRange) : Bool :=
  match s.logCheckpoint with
  | none => false
  | some c => c.configHash == upstreamHash && decide (range.hi < c.nextBlock)

/-- The order of the snapshot lines as text: addresses have a fixed width, so they compare as
numbers, and the heights compare as decimal text. -/
def DepositEntry.precedes (a b : DepositEntry) : Bool :=
  if a.address = b.address then
    decide (Nat.toDigits 10 a.effective ≤ Nat.toDigits 10 b.effective)
  else decide (a.address < b.address)

/-- `DepositSnapshot`: the lines of a collection in lexicographic order. -/
def depositSnapshot (entries : List DepositEntry) : List DepositEntry :=
  entries.insertionSort (fun a b => a.precedes b = true)

/-- The row `insertDepositBootstrapHistorySQL` writes. -/
def DepositConfig.bootstrapVersion (cfg : DepositConfig) (start : Int) : DepositVersion where
  versionSeq := 1
  configHash := cfg.configHash
  prevSeq := none
  startBlock := start
  assets := depositSnapshot cfg.assets
  watches := depositSnapshot cfg.watches
  replayFrom := start
  operator := "bootstrap"
  reason := ""
  requestID := none
  expectedPause := none

/-- The version ledger a unit leaves: the first one opens version 1. -/
def DepositProgress.ledger (captured : Option DepositProgress) (cfg : DepositConfig)
    (range : HeightRange) (versions : Table DepositVersion) : Option (Table DepositVersion) :=
  match captured with
  | none => versions.insert? (cfg.bootstrapVersion range.lo)
  | some _ => some versions

def commitDepositUnit (cfg : DepositConfig) (upstreamHash : Hash) (held : Bool) (batch : DepositBatch)
    (captured : Option DepositProgress) (range : HeightRange) (cap : RecoveryCapture) :
    IndexerTx Unit := do
  lift id (DepositProgress.precheck captured cfg.toStreamConfig range)
  let s ← get
  leaseVerdict held
  lift id (rejectStreamPauses s)
  let _ ← recheckRecoveryGate cap []
  let current ← lift id (readProgress s)
  lift id (DepositProgress.verdict captured current cfg.toStreamConfig range)
  require (upstreamCovers s upstreamHash range = true) .depositCoverageLost
  readjudicateRange range batch.canonical
  let versions ← demand (.message "insert bootstrap config history")
    (DepositProgress.ledger captured cfg range s.versions)
  let versionSeq := (captured.map (·.versionSeq)).getD 1
  let (observations, inserted) ← lift id
    (insertObservations s.observations (batch.matched.map (·.observation versionSeq)))
  refuse (fun m => .depositConflict m.toIdentity) (batch.matched.find? fun m => !(m.consistent cap observations))
  require (batch.reconciles inserted (batch.matched.length - inserted) = true) (.message "deposit batch reconciliation")
  let checkpoint ← demand .stale (range.advance cfg.toStreamConfig captured.isNone s.depositCheckpoint)
  set { s with versions := versions, observations := observations,
               depositCheckpoint := some checkpoint }

/-- `ConfirmBasis`. -/
structure ConfirmBasis extends Identity where
  height : Nat
  tipNumber : Nat
  tipHash : Hash
  policySeq : Int
  thresholdN : Nat
  deriving DecidableEq

def confirmationReached (tip h n : Nat) : Bool :=
  if n = 0 then false else decide (h ≤ tip) && decide (n - 1 ≤ tip - h)

/-- `ExactConfirmations`. -/
def exactConfirmations (tip h : Nat) : Except IndexerError Nat :=
  if tip < h then .ok 0
  else if tip - h = 2 ^ 64 - 1 then .error (.message "confirmations saturated")
  else .ok (tip - h + 1)

/-- `readConfirmationTipSQL`. -/
def canonicalTip (s : Store) : Option ChainBlock := s.blocks.latest (·.canonical) (·.number)

/-- The effective policy under the lock: the latest stored row, or the bootstrap row this
transaction opens. -/
def effectivePolicy (s : Store) (basis : ConfirmBasis) :
    Except IndexerError (ConfirmationPolicy × Table ConfirmationPolicy) :=
  match s.confirmationPolicies.latest (fun _ => true) (·.policySeq) with
  | some policy => .ok (policy, s.confirmationPolicies)
  | none =>
    if basis.policySeq ≠ 1 then .error .confirmationDrift
    else
      match s.confirmationPolicies.insert? ⟨1, basis.thresholdN⟩ with
      | none => .error .stale
      | some policies => .ok (⟨1, basis.thresholdN⟩, policies)

/-- The tip verdict: a captured tip that is still canonical below an advanced tip is the pure
selection race, any other difference is an anomaly. -/
def tipVerdict (s : Store) (basis : ConfirmBasis) : Except IndexerError Unit :=
  match canonicalTip s with
  | none => .error .confirmationChainView
  | some tip =>
    if tip.number < 0 then .error .confirmationChainView
    else if tip.number = basis.tipNumber ∧ tip.hash = basis.tipHash then .ok ()
    else if (basis.tipNumber : Int) < tip.number ∧
        canonicalHashAt s basis.tipNumber = some basis.tipHash then .error .stale
    else .error .confirmationChainView

/-- The `WHERE` guard of `confirmDepositObservationSQL`. -/
def DepositObservation.pendingAt (id : Identity) (o : DepositObservation) : Bool :=
  o.toIdentity == id && o.status == .pending

/-- The columns `confirmDepositObservationSQL` sets. -/
def DepositObservation.confirm (basis : ConfirmedBasis) (o : DepositObservation) : DepositObservation :=
  { o with status := .confirmed, basis := some basis }

/-- `ConfirmDepositUnit`. The result says whether the transaction commits: a candidate another
worker has confirmed converges without writing. -/
def confirmDepositUnit (thresholdN : Nat) (held : Bool) (basis : ConfirmBasis) (cap : RecoveryCapture) :
    IndexerTx Bool := do
  require (basis.thresholdN ≠ 0) (.message "confirmation commit: captured threshold N must be >= 1")
  require (basis.thresholdN = thresholdN) .confirmationDrift
  require (1 ≤ basis.policySeq) .confirmationDrift
  let s ← get
  leaseVerdict held
  lift id (rejectStreamPauses s)
  let _ ← recheckRecoveryGate cap []
  let (policy, policies) ← lift id (effectivePolicy s basis)
  require (policy.policySeq = basis.policySeq ∧ policy.threshold = basis.thresholdN) .confirmationDrift
  lift id (tipVerdict s basis)
  let candidate ← demand .confirmationChainView (s.observations.select fun o => o.toIdentity == basis.toIdentity)
  match candidate.status with
  | .orphaned => throw .confirmationChainView
  | .confirmed => pure false
  | .pending =>
    require (candidate.blockNumber = basis.height) .confirmationChainView
    require (canonicalHashAt s basis.height = some basis.blockHash) .confirmationChainView
    require (confirmationReached basis.tipNumber basis.height basis.thresholdN = true) .confirmationChainView
    let exact ← lift id (exactConfirmations basis.tipNumber basis.height)
    let confirmed : ConfirmedBasis := ⟨basis.tipNumber, basis.tipHash, basis.thresholdN, exact, basis.policySeq⟩
    set { s with confirmationPolicies := policies,
                 observations := s.observations.update (DepositObservation.pendingAt basis.toIdentity)
                   (DepositObservation.confirm confirmed) (fun _ _ h => h) }
    pure true

end TxHarbor.Indexer
