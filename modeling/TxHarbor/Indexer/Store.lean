import TxHarbor.Relational.Table
import TxHarbor.Relational.Transaction

open Relational Bool

namespace TxHarbor.Indexer

/-- A 32-byte hash. The stored form is `0x` and 64 lowercase hex digits, which orders as text
exactly as the number it denotes. -/
abbrev Hash := BitVec 256

/-- A 20-byte address. -/
abbrev Address := BitVec 160

/-- The text identity `reorg-<chain>-<old tip>-<unix nanoseconds>` of a recovery round. -/
structure RecoveryID where
  chainID : Int
  oldTip : Int
  nanos : Int
  deriving DecidableEq

inductive RecoveryPhase where
  | detected
  | ancestorConfirmed
  | invalidated
  | replaying
  | completePending
  | reconcileRequired
  deriving DecidableEq

inductive RecoveryStream where
  | block
  | log
  | deposit
  deriving DecidableEq

def RecoveryStream.text : RecoveryStream → String
  | .block => "block"
  | .log => "log"
  | .deposit => "deposit"

inductive ObservationStatus where
  | pending
  | confirmed
  | orphaned
  deriving DecidableEq

/-- The `event` column of `reorg_recovery_events`. -/
inductive RecoveryEventKind where
  | established
  | ancestorConfirmed
  | blocksInvalidated
  | observationsInvalidated
  | checkpointsRolledBack
  | replayProgress
  | observationRevived
  | autoCompleted
  | repairAuthorized
  | released
  | reconcileSignaled
  deriving DecidableEq

/-- The `kind` column of `indexer_pause`. -/
inductive IndexerPauseKind where
  | hashMismatch
  | parentMismatch
  | checkpointChanged
  deriving DecidableEq

structure ChainBlock where
  number : Int
  hash : Hash
  parentHash : Hash
  canonical : Bool
  deriving DecidableEq

/-- `indexer_checkpoint`. -/
structure BlockCheckpoint where
  height : Int
  blockHash : Hash
  startHeight : Int
  deriving DecidableEq

/-- `log_checkpoint` and `deposit_checkpoint`, with their `next_block >= start_block` CHECK. -/
structure StreamCheckpoint where
  startBlock : Int
  configHash : Hash
  nextBlock : Int
  start_le_next : startBlock ≤ nextBlock
  deriving DecidableEq

/-- The `(block_hash, tx_hash, log_index)` identity shared by logs, observations and their
transitions. -/
structure Identity where
  blockHash : Hash
  txHash : Hash
  logIndex : Int
  deriving DecidableEq

/-- `erc20_transfer_logs`. -/
structure TransferLog extends Identity where
  blockNumber : Int
  contract : Address
  topic0 : Hash
  topic1 : Hash
  topic2 : Hash
  data : Hash
  deriving DecidableEq

/-- `DepositEntry`: one `address:effective` item of a deposit configuration. -/
structure DepositEntry where
  address : Address
  effective : Nat
  deriving DecidableEq

/-- The instance and revision of a deposit pause row. -/
structure PauseTarget where
  pauseID : Int
  revision : Int
  deriving DecidableEq

/-- `deposit_config_history`. The snapshots are their parsed `address:effective` lines, and only
the bootstrap row has no request. -/
structure DepositVersion where
  versionSeq : Int
  configHash : Hash
  prevSeq : Option Int
  startBlock : Int
  assets : List DepositEntry
  watches : List DepositEntry
  replayFrom : Int
  operator : String
  reason : String
  requestID : Option String
  expectedPause : Option PauseTarget
  deriving DecidableEq

/-- The `confirm_*` columns of an observation. -/
structure ConfirmedBasis where
  tipNumber : Int
  tipHash : Hash
  threshold : Int
  confirmations : Int
  policySeq : Int
  deriving DecidableEq

/-- `deposit_observations`. The basis of a confirmation survives an invalidation and a revival,
and so does the round that invalidated the row. -/
structure DepositObservation extends Identity where
  blockNumber : Int
  contract : Address
  sender : Address
  recipient : Address
  amount : Int
  versionSeq : Int
  status : ObservationStatus
  basis : Option ConfirmedBasis
  orphanRecoveryID : Option RecoveryID
  deriving DecidableEq

/-- `deposit_observation_transitions`. -/
structure ObservationTransition extends Identity where
  fromStatus : ObservationStatus
  toStatus : ObservationStatus
  recoveryID : RecoveryID
  deriving DecidableEq

/-- `confirmation_policy_history`. -/
structure ConfirmationPolicy where
  policySeq : Int
  threshold : Int
  deriving DecidableEq

/-- `reorg_policy_history`. -/
structure ReorgPolicy where
  policySeq : Int
  maxDepth : Int
  deriving DecidableEq

/-- `ancestor_number` and `ancestor_hash`, which are NULL together. -/
structure Ancestor where
  number : Int
  hash : Hash
  deriving DecidableEq

/-- `maxRecoverySeq`: the bound no stored fencing version reaches. -/
def maxRecoverySeq : Int := 9223372036854775807

/-- `reorg_recovery`, the one active instance of the chain, with its CHECKs on the fencing
version and on the depth of the confirmed ancestor. -/
structure RecoveryRow where
  recoveryID : RecoveryID
  phase : RecoveryPhase
  policySeq : Int
  maxDepth : Int
  boundOldNumber : Int
  boundOldHash : Hash
  ancestor : Option Ancestor
  newTipNumber : Int
  newTipHash : Hash
  blockFrontier : Option Int
  logFrontier : Option Int
  depositFrontier : Option Int
  seq : Int
  seq_range : 0 < seq ∧ seq < maxRecoverySeq
  depth_range : ∀ a ∈ ancestor, 0 ≤ boundOldNumber - a.number ∧ boundOldNumber - a.number ≤ maxDepth
  deriving DecidableEq

/-- The row after `advanceRecoveryPhaseSQL`. -/
def RecoveryRow.inPhase (row : RecoveryRow) (phase : RecoveryPhase) : RecoveryRow := { row with phase := phase }

/-- `reorg_recovery_events`, with its CHECK on the fencing version. -/
structure RecoveryEvent where
  recoveryID : RecoveryID
  recoverySeq : Int
  eventSeq : Int
  event : RecoveryEventKind
  recoverySeq_pos : 0 < recoverySeq
  deriving DecidableEq

structure IndexerPause where
  kind : IndexerPauseKind
  height : Int
  deriving DecidableEq

/-- The `kind` column of `deposit_pause`. -/
inductive DepositPauseKind where
  | upstreamGap
  | chainViewChanged
  | validationFailed
  deriving DecidableEq

/-- One decoded cause of a deposit pause: `pauseSegment`, with the range that `parseGapRange`
finds in its text. -/
structure PauseSegment where
  kind : DepositPauseKind
  height : Int
  gap : Option (Nat × Nat)
  deriving DecidableEq

/-- `deposit_pause`. Its `detail` stands here as what is read from it: the decoded causes, first
cause first, and whether the text names `needs_006`. -/
structure DepositPause extends PauseTarget where
  segments : List PauseSegment
  needsRecovery : Bool
  deriving DecidableEq

/-- `deposit_pause_audit`: a release or a merge of one pause revision. -/
structure PauseAudit extends PauseTarget where
  release : Bool
  operator : String
  reason : String
  versionSeq : Int
  deriving DecidableEq

/-- `chain_blocks_pkey`, the unique hash and the partial unique index
`chain_blocks_canonical_uniq`. -/
instance : Constrained ChainBlock where
  clash a b := a.hash == b.hash || (a.number == b.number && (a.canonical && b.canonical))
  clash_comm a b := by
    rw [beq_comm, beq_comm (a := a.number), and_comm a.canonical]

/-- The primary key and the unique `(block_hash, log_index)`, which implies it. -/
instance : Constrained TransferLog where
  clash a b := a.blockHash == b.blockHash && a.logIndex == b.logIndex
  clash_comm a b := by rw [beq_comm, beq_comm (a := a.logIndex)]

/-- The primary key, the unique request and the partial unique index of the bootstrap row. -/
instance : Constrained DepositVersion where
  clash a b := a.versionSeq == b.versionSeq || a.requestID == b.requestID
  clash_comm a b := by rw [beq_comm, beq_comm (a := a.requestID)]

instance : Constrained PauseAudit where
  clash a b := a.toPauseTarget == b.toPauseTarget && a.release == b.release
  clash_comm a b := by rw [beq_comm, beq_comm (a := a.release)]

instance : Constrained DepositObservation where
  clash a b := a.toIdentity == b.toIdentity
  clash_comm _ _ := beq_comm

instance : Constrained ObservationTransition where
  clash a b := a == b
  clash_comm _ _ := beq_comm

instance : Constrained ConfirmationPolicy where
  clash a b := a.policySeq == b.policySeq
  clash_comm _ _ := beq_comm

instance : Constrained ReorgPolicy where
  clash a b := a.policySeq == b.policySeq
  clash_comm _ _ := beq_comm

instance : Constrained RecoveryEvent where
  clash a b := a.recoveryID == b.recoveryID && a.eventSeq == b.eventSeq
  clash_comm a b := by rw [beq_comm, beq_comm (a := a.eventSeq)]

/-- One chain's rows of the indexer tables. Of the log pause row only the presence is ever
read. -/
structure Store where
  blocks : Table ChainBlock
  checkpoint : Option BlockCheckpoint
  logs : Table TransferLog
  logCheckpoint : Option StreamCheckpoint
  versions : Table DepositVersion
  depositCheckpoint : Option StreamCheckpoint
  observations : Table DepositObservation
  transitions : Table ObservationTransition
  confirmationPolicies : Table ConfirmationPolicy
  reorgPolicies : Table ReorgPolicy
  recovery : Option RecoveryRow
  recoveryEvents : Table RecoveryEvent
  indexerPause : Option IndexerPause
  logPause : Bool
  depositPause : Option DepositPause
  pauseAudits : Table PauseAudit

def Store.empty : Store where
  blocks := Table.empty
  checkpoint := none
  logs := Table.empty
  logCheckpoint := none
  versions := Table.empty
  depositCheckpoint := none
  observations := Table.empty
  transitions := Table.empty
  confirmationPolicies := Table.empty
  reorgPolicies := Table.empty
  recovery := none
  recoveryEvents := Table.empty
  indexerPause := none
  logPause := false
  depositPause := none
  pauseAudits := Table.empty

end TxHarbor.Indexer
