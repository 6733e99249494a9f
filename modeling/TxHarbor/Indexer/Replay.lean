import TxHarbor.Indexer.Recovery

open Relational Tx

namespace TxHarbor.Indexer

/-- `ReplayBlock`. The parent is absent when its re-read failed. -/
structure ReplayBlock where
  number : Int
  hash : Hash
  parentHash : Option Hash
  deriving DecidableEq

/-- `ReplayObservation`: a match under the version in effect when its source was indexed. -/
structure ReplayObservation extends DepositMatch where
  versionSeq : Int
  deriving DecidableEq

/-- The range check every replayed row passes before it is written. -/
def insideRange (what : String) (number lo hi : Int) : Except IndexerError Unit :=
  if lo ≤ number ∧ number ≤ hi then .ok () else .error (.gate (.outsideRange what number lo hi))

/-- The row `replayBlockSQL` inserts. -/
def ReplayBlock.row (lo hi : Int) (b : ReplayBlock) : Except IndexerError ChainBlock := do
  insideRange "block" b.number lo hi
  match b.parentHash with
  | none => .error (.message "replay block: parent hash is empty")
  | some parent => .ok ⟨b.number, b.hash, parent, true⟩

/-- A replayed log inside the range. -/
def TransferLog.row (lo hi : Int) (l : TransferLog) : Except IndexerError TransferLog := do
  insideRange "log" l.blockNumber lo hi
  .ok l

/-- A replayed observation inside the range, bound to a stored version. -/
def ReplayObservation.row (versions : Table DepositVersion) (lo hi : Int) (o : ReplayObservation) :
    Except IndexerError DepositObservation := do
  insideRange "observation" o.blockNumber lo hi
  let row ← o.toDepositMatch.observation o.versionSeq
  if versions.rows.any fun v => v.versionSeq == o.versionSeq then .ok row
  else .error (.message "insert deposit observation: version foreign key")

/-- The insert loop of `ReplayRecoveryRange` for one stream; it counts the inserted rows. -/
def replayRows (stream : RecoveryStream) (lo hi : Int) (blocks : List ReplayBlock)
    (logs : List TransferLog) (observations : List ReplayObservation) : IndexerTx Nat := do
  let s ← get
  match stream with
  | .block =>
    let (table, n) ← lift id (s.blocks.insertBatch (ReplayBlock.row lo hi)
        (fun a b => a.number == b.number && a.hash == b.hash) (fun _ => .message "replay block") blocks)
    set { s with blocks := table }
    pure n
  | .log =>
    let (table, n) ← lift id (s.logs.insertBatch (TransferLog.row lo hi) (fun a b => a.toIdentity == b.toIdentity)
        (fun _ => .message "replay log") logs)
    set { s with logs := table }
    pure n
  | .deposit =>
    let (table, n) ← lift id
      (insertObservations s.observations (observations.map (ReplayObservation.row s.versions lo hi)))
    set { s with observations := table }
    pure n

/-- `countCanonicalRangeSQL`. -/
def countCanonicalRange (s : Store) (lo hi : Int) : Nat := s.blocks.affected (ChainBlock.canonicalIn lo hi)

/-- A canonical row that does not stand on the canonical row below it. -/
def dangling (s : Store) (lo hi : Int) (b : ChainBlock) : Bool := b.canonicalIn lo hi && decide (0 < b.number) &&
    !(s.blocks.rows.any fun c => c.number == b.number - 1 && c.canonical && c.hash == b.parentHash)

/-- `checkParentLinkageSQL`. -/
def checkParentLinkage (s : Store) (lo hi : Int) : Nat := s.blocks.affected (dangling s lo hi)

/-- `sweepEndTx`: the highest non-canonical height above the ancestor. -/
def sweepEnd (s : Store) (ancestor : Int) : Int :=
  (s.blocks.rows.filter fun b => decide (ancestor < b.number) && !b.canonical).foldl
    (fun m b => max m b.number) ancestor

/-- The coverage and linkage proofs over a replayed range. -/
def proveRange (lo hi : Int) : IndexerTx Unit := do
  let s ← get
  require ((countCanonicalRange s lo hi : Int) = hi - lo + 1) (.gate (.coverage lo hi (countCanonicalRange s lo hi)))
  require (checkParentLinkage s lo hi = 0) (.gate (.linkage lo hi (checkParentLinkage s lo hi)))

/-- `streamFrontier`. -/
def RecoveryRow.frontier (row : RecoveryRow) : RecoveryStream → Option Int
  | .block => row.blockFrontier
  | .log => row.logFrontier
  | .deposit => row.depositFrontier

/-- `advanceStreamFrontierSQL`. -/
def RecoveryRow.setFrontier (row : RecoveryRow) (stream : RecoveryStream) (hi : Int) : RecoveryRow :=
  match stream with
  | .block => { row with blockFrontier := some hi }
  | .log => { row with logFrontier := some hi }
  | .deposit => { row with depositFrontier := some hi }

/-- The header branch of `advanceReplayProgressTx`. A missing row is re-inserted at the start of
the range. -/
def advanceBlockCheckpointTx (lo hi : Int) : IndexerTx Unit := do
  let s ← get
  match s.checkpoint with
  | none =>
    let hash ← demand (.message "read replay end canonical") (canonicalHashAt s hi)
    set { s with checkpoint := some ⟨hi, hash, lo⟩ }
  | some c =>
    require (c.height = lo - 1) (.gate (.checkpointGap c.height lo))
    let prev ← demand (.message "read replay start canonical") (canonicalHashAt s (lo - 1))
    require (c.blockHash = prev) (.gate .checkpointBoundary)
    let hash ← demand (.message "read replay end canonical") (canonicalHashAt s hi)
    set { s with checkpoint := some { c with height := hi, blockHash := hash } }

/-- The log and deposit branch: the watermark moves from exactly the start of the range. -/
def advanceUnitCheckpointTx (stream : UnitStream) (name : String) (lo hi : Int) : IndexerTx Unit := do
  let s ← get
  let c ← demand (.gate (.lostRace (name ++ " checkpoint moved under the lock"))) (s.progress stream)
  require (c.nextBlock = lo) (.gate (.lostRace (name ++ " checkpoint moved under the lock")))
  let moved ← demand (.message "next_block CHECK") (c.moveTo? (hi + 1))
  set (s.setProgress stream moved)

def advanceReplayProgressTx (row : RecoveryRow) (stream : RecoveryStream) (lo hi : Int) : IndexerTx Unit := do
  updateRecoveryRow row (fun r => r.setFrontier stream hi) (stream.text ++ " frontier moved under the lock")
  match stream with
  | .block => advanceBlockCheckpointTx lo hi
  | .log => advanceUnitCheckpointTx .log "log" lo hi
  | .deposit => advanceUnitCheckpointTx .deposit "deposit" lo hi

/-- Whether a stream has a progress row. -/
def Store.hasCheckpoint (s : Store) : RecoveryStream → Bool
  | .block => s.checkpoint.isSome
  | .log => s.logCheckpoint.isSome
  | .deposit => s.depositCheckpoint.isSome

/-- A stream is done when its frontier has reached the sweep end; one that never made progress
has nothing to replay. -/
def streamDone (s : Store) (row : RecoveryRow) (sweptTo : Int) (stream : RecoveryStream) : Bool :=
  match row.frontier stream with
  | some f => decide (sweptTo ≤ f)
  | none => !s.hasCheckpoint stream

def maybeCompletePendingTx (row : RecoveryRow) : IndexerTx Unit := do
  let s ← get
  let a ← demand .nilDereference row.ancestor
  if s.recovery.any (fun r => (r.phase == .replaying || r.phase == .invalidated) &&
      [RecoveryStream.block, .log, .deposit].all (streamDone s r (sweepEnd s a.number))) then
    updateRecoveryRow row (·.inPhase .completePending) "complete_pending advance affected 0 rows"
  else pure ()

/-- The first replayed range moves `invalidated` to `replaying`. -/
def startReplaying (row : RecoveryRow) : IndexerTx Unit :=
  if row.phase = .invalidated then
    updateRecoveryRow row (·.inPhase .replaying) "replaying advance affected 0 rows (concurrent move)"
  else pure ()

/-- `ReplayRecoveryRange`. A range below the frontier is a no-op that returns without a COMMIT. -/
def replayRecoveryRange (held : Bool) (cap : RecoveryCapture) (stream : RecoveryStream) (lo hi : Int)
    (blocks : List ReplayBlock) (logs : List TransferLog) (observations : List ReplayObservation) :
    IndexerTx Bool := do
  require (lo ≤ hi) (.message "replay range: empty height range")
  let row ← openOwned held cap [.invalidated, .replaying]
  if (row.frontier stream).any (fun f => decide (hi ≤ f)) then pure false
  else do
    require (∀ f ∈ row.frontier stream, f = lo - 1) (.gate (.frontierGap stream ((row.frontier stream).getD 0) lo))
    let _ ← replayRows stream lo hi blocks logs observations
    proveRange lo hi
    advanceReplayProgressTx row stream lo hi
    startReplaying row
    appendRecoveryEvent row .replayProgress
    maybeCompletePendingTx row
    pure true

/-- The `WHERE` clause of `clearNewForkCanonicalSQL`. -/
def ChainBlock.foreignAt (height : Int) (oldHash : Hash) (b : ChainBlock) : Bool :=
  b.number == height && b.hash != oldHash && b.canonical

/-- The `WHERE` clause of `restoreOldForkCanonicalSQL`. -/
def ChainBlock.retiredAt (height : Int) (oldHash : Hash) (b : ChainBlock) : Bool :=
  b.number == height && b.hash == oldHash && !b.canonical

/-- A row that is canonical again. -/
def ChainBlock.restore (b : ChainBlock) : ChainBlock := { b with canonical := true }

/-- `RecanonicalizeRecoveryBlock`: the canonical foreign row goes first, then the old row is
restored. A height whose canonical row is the old one refuses. -/
def recanonicalizeRecoveryBlock (held : Bool) (cap : RecoveryCapture) (height : Int) (oldHash : Hash) :
    IndexerTx Unit := do
  let row ← openOwned held cap [.invalidated, .replaying]
  let s ← get
  require (s.blocks.affected (ChainBlock.foreignAt height oldHash) = 1 ∨
      canonicalHashAt s height = none) (.gate (.noForeignRow height))
  let cleared := s.blocks.update (ChainBlock.foreignAt height oldHash) ChainBlock.retire ChainBlock.retire_keepsKeys
  let restored ← demand (.message "restore old-fork canonical")
    (cleared.update? (ChainBlock.retiredAt height oldHash) ChainBlock.restore)
  require (cleared.affected (ChainBlock.retiredAt height oldHash) = 1) (.gate (.notRestored height oldHash))
  set { s with blocks := restored }
  appendRecoveryEvent row .replayProgress

/-- The `WHERE` clause of `reviveObservationSQL`. -/
def DepositObservation.orphanAt (id : Identity) (recovery : RecoveryID) (o : DepositObservation) : Bool :=
  o.toIdentity == id && o.status == .orphaned && o.orphanRecoveryID == some recovery

/-- The columns `reviveObservationSQL` sets. -/
def DepositObservation.revive (o : DepositObservation) : DepositObservation := { o with status := .pending }

/-- The transition row of a revival. -/
def revivalTransition (id : Identity) (recovery : RecoveryID) : ObservationTransition :=
  ⟨id, .orphaned, .pending, recovery⟩

/-- `ReviveRecoveryObservation`: only this recovery's orphan, only on a canonical block, with its
log row and its version. The result says whether the row was converted. -/
def reviveRecoveryObservation (held : Bool) (cap : RecoveryCapture) (id : Identity) : IndexerTx Bool := do
  let row ← openOwned held cap [.invalidated, .replaying]
  let s ← get
  let o ← demand (.gate .reviveMissing) (s.observations.select fun o => o.toIdentity == id)
  if o.status = .pending then do
    require (revivalTransition id row.recoveryID ∈ s.transitions.rows) (.gate .revivePending)
    pure false
  else do
    require (o.status = .orphaned ∧ o.orphanRecoveryID = some row.recoveryID)
      (.gate (.reviveForeign o.status o.orphanRecoveryID))
    let block ← demand (.gate .reviveBlock) (s.blocks.select fun b => b.hash == id.blockHash)
    require (block.canonical = true) (.gate .reviveBlock)
    require (∃ l ∈ s.logs.rows, l.toIdentity = id) (.gate .reviveLog)
    require (∃ v ∈ s.versions.rows, v.versionSeq = o.versionSeq) (.message "re-read revive version binding")
    let transitions ← demand (.message "insert revive transition affected 0 rows, want 1")
      (s.transitions.insert? (revivalTransition id row.recoveryID))
    set { s with transitions := transitions,
                 observations := s.observations.update
                   (DepositObservation.orphanAt id row.recoveryID) DepositObservation.revive
                   (fun _ _ h => h) }
    appendRecoveryEvent row .observationRevived
    pure true

/-- Whether a stored canonical block has the hash. -/
def canonicalBlock (s : Store) (hash : Hash) : Bool := s.blocks.rows.any fun b => b.hash == hash && b.canonical

/-- `countStaleEffectiveSQL`. -/
def countStaleEffective (s : Store) (ancestor : Int) : Nat := s.observations.affected fun o =>
    decide (ancestor < o.blockNumber) && o.status.effective && !canonicalBlock s o.blockHash

/-- `countStrandedOrphanSQL`. -/
def countStrandedOrphan (s : Store) (ancestor : Int) : Nat := s.observations.affected fun o =>
    decide (ancestor < o.blockNumber) && o.status == .orphaned && canonicalBlock s o.blockHash

/-- The first stream whose frontier is short of the sweep end. -/
def shortFrontier (row : RecoveryRow) (sweptTo : Int) : Option RecoveryStream :=
  [RecoveryStream.block, .log, .deposit].find? fun stream =>
    !((row.frontier stream).any fun f => decide (sweptTo ≤ f))

/-- `verifyCompletionReady`; it returns the sweep end. -/
def verifyCompletionReady (s : Store) (row : RecoveryRow) : Except IndexerError Int :=
  match row.ancestor with
  | none => .error (.gate (.ancestorRequired "completion"))
  | some a =>
    let sweptTo := sweepEnd s a.number
    let canonical := countCanonicalRange s (a.number + 1) sweptTo
    if a.number < sweptTo ∧ (canonical : Int) ≠ sweptTo - a.number then
      .error (.gate (.sweptGaps (a.number + 1) sweptTo canonical))
    else if countStaleEffective s a.number ≠ 0 then
      .error (.gate (.staleEffective (countStaleEffective s a.number)))
    else if countStrandedOrphan s a.number ≠ 0 then
      .error (.gate (.strandedOrphans (countStrandedOrphan s a.number)))
    else
      match shortFrontier row sweptTo with
      | some stream => .error (.gate (.frontierShort stream ((row.frontier stream).getD (-1)) sweptTo))
      | none => .ok sweptTo

/-- `deleteRecoveryRowSQL`. -/
def deleteRecoveryRow (row : RecoveryRow) : IndexerTx Unit := do
  let s ← get
  require (∃ r ∈ s.recovery, r.recoveryID = row.recoveryID ∧ r.seq = row.seq)
    (.gate (.lostRace "release delete affected 0 rows (concurrent release)"))
  set { s with recovery := none }

/-- The release both completions end with: everything is verified again, then the terminal event
replaces the active row. -/
def releaseRecovery (row : RecoveryRow) (event : RecoveryEventKind) : IndexerTx Unit := do
  let s ← get
  let _ ← lift id (verifyCompletionReady s row)
  appendRecoveryEvent row event
  deleteRecoveryRow row

def completeRecoveryVerify (held : Bool) (cap : RecoveryCapture) : IndexerTx Unit := do
  let row ← openOwned held cap [.completePending]
  releaseRecovery row .autoCompleted

def authorizeRecoveryRelease (operator evidence disposition : String) : IndexerTx Unit := do
  let row ← openHeld "release" operator evidence disposition
  releaseRecovery row .released

end TxHarbor.Indexer
