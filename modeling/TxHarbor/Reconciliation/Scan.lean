import TxHarbor.Relational.Locking

open Relational

namespace TxHarbor.Reconciliation

/-! Scan attempts of one task. Every operation locks the row of the task first and holds the lock to
its COMMIT, and `now()` is the start of its transaction. -/

/-- Positions are heights, or microseconds. -/
inductive ScopeKind where
  | height
  | time
  deriving DecidableEq

inductive TaskState where
  | created
  | running
  | paused
  | suspendedBudget
  | done
  | cancelled
  deriving DecidableEq

def canTransitionTask : TaskState → TaskState → Bool
  | .created, to' => to' == .running
  | .running, to' => to' == .paused || to' == .suspendedBudget || to' == .done || to' == .cancelled
  | .paused, to' | .suspendedBudget, to' => to' == .running
  | .done, _ | .cancelled, _ => false

def maxInt64 : Int := 2 ^ 63 - 1

/-- `recon_task`, with the check of its scope. Heights are `BIGINT`. -/
structure Task where
  kind : ScopeKind
  scopeStart : Int
  scopeEnd : Int
  state : TaskState
  ordered : scopeStart ≤ scopeEnd
  bounded : kind = .height → scopeEnd ≤ maxInt64

inductive AttemptState where
  | claimed
  | done
  | abandoned
  | superseded
  deriving DecidableEq

/-- `recon_scan_attempt`. -/
structure Attempt where
  attemptID : String
  rangeStart : Int
  rangeEnd : Int
  state : AttemptState
  owner : String
  leaseExpiresAt : Int
  deriving DecidableEq

/-- `recon_checkpoint`. -/
structure Checkpoint where
  seq : Int
  coveredThrough : Int
  resultPersistedThrough : Int
  deriving DecidableEq

inductive GapReason where
  | notStarted
  | interrupted
  | budgetExhausted
  | paused
  deriving DecidableEq

/-- `recon_gap`. -/
structure Gap where
  rangeStart : Int
  rangeEnd : Int
  reason : GapReason
  deriving DecidableEq

/-- The rows `PersistResults` writes for one range: tickets, occurrences, gaps and counters. -/
structure Stored (Batch : Type) where
  attemptID : String
  rangeStart : Int
  rangeEnd : Int
  batch : Batch
  deriving DecidableEq

/-- The rows of one task, the newest first. -/
structure Book (Batch : Type) where
  task : Task
  attempts : List Attempt
  checkpoints : List Checkpoint
  results : List (Stored Batch)
  gaps : List Gap

def maxClaimSpan : Int := 2 ^ 32

/-- `Successor`: heights end at the largest `int64`. -/
def successor (kind : ScopeKind) (b : Int) : Option Int :=
  match kind with
  | .height => if b = maxInt64 then none else some (b + 1)
  | .time => some (b + 1)

def planClaimEnd (kind : ScopeKind) (start scopeEnd span : Int) : Int :=
  match kind with
  | .height => min (if span - 1 > maxInt64 - start then maxInt64 else start + span - 1) scopeEnd
  | .time => min (start + (span - 1)) scopeEnd

/-- `Checkpoint.Validate`. -/
def Checkpoint.valid (c : Checkpoint) : Bool :=
  decide (0 < c.seq) && decide (c.resultPersistedThrough ≤ c.coveredThrough)

def nextClaimStart (kind : ScopeKind) (head : Option Checkpoint) (scopeStart : Int) : Option Int :=
  match head with
  | none => some scopeStart
  | some c => if c.valid then successor kind c.resultPersistedThrough else none

inductive SettleMode where
  | pause
  | cancel
  deriving DecidableEq

/-- The operations. `persists` is whether the callback of a commit succeeds. -/
inductive Job (Batch : Type) where
  | claim (attemptID owner : String) (span ttl : Int)
  | commit (attemptID : String) (batch : Batch) (persists : Bool)
  | recover (limit : Nat)
  | settle (mode : SettleMode) (limit : Nat)
  | transition (to' : TaskState) (reason : String)

namespace Book

variable {Batch : Type} (b : Book Batch) (now : Int)

/-- `checkpointHeadSQL`: the row with the largest number. -/
def head : Option Checkpoint := b.checkpoints.find? fun c => b.checkpoints.all fun d => decide (d.seq ≤ c.seq)

/-- `NextClaimStart` on the rows of the task. -/
def nextStart : Option Int := nextClaimStart b.task.kind b.head b.task.scopeStart

/-- `markAttemptSQL`: only a claimed attempt moves. -/
def mark (attemptID : String) (state : AttemptState) : Book Batch :=
  { b with
    attempts := b.attempts.map fun a =>
      if a.attemptID = attemptID ∧ a.state = .claimed then { a with state := state } else a }

/-- `insertGapTx`: an empty range records nothing. -/
def insertGap (rangeStart rangeEnd : Int) (reason : GapReason) : Book Batch :=
  if rangeStart ≤ rangeEnd then { b with gaps := ⟨rangeStart, rangeEnd, reason⟩ :: b.gaps } else b

/-- `ClaimScanAttempt`. The lease runs from `now()`. -/
def claimScanAttempt (attemptID owner : String) (span ttl : Int) : Option (Book Batch) :=
  if attemptID = "" ∨ owner = "" ∨ span ≤ 0 ∨ maxClaimSpan < span ∨ ttl ≤ 0 then none
  else if b.task.state ≠ .running then none
  else
    b.nextStart.bind fun start =>
      if b.task.scopeEnd < start then none
      -- `recon_scan_attempt_pkey` and `recon_scan_attempt_claimed_uniq`
      else if b.attempts.any fun a => a.attemptID == attemptID || a.state == .claimed then none
      else some { b with
        attempts :=
          ⟨attemptID, start, planClaimEnd b.task.kind start b.task.scopeEnd span, .claimed, owner, now + ttl⟩ :: b.attempts }

/-- How a discarded attempt is settled, by the state of its task. -/
def discardState : TaskState → AttemptState × GapReason
  | .paused => (.superseded, .paused)
  | .suspendedBudget => (.superseded, .budgetExhausted)
  | _ => (.abandoned, .interrupted)

/-- `discardScanBatchTx`: an attempt that is still claimed is settled and leaves a gap. -/
def discardScanBatch (a : Attempt) : Book Batch :=
  if a.state = .claimed then
    (b.mark a.attemptID (discardState b.task.state).1).insertGap a.rangeStart a.rangeEnd (discardState b.task.state).2
  else b

/-- Whether `CommitScanBatch` discards the attempt: it is not claimed, its task does not run, or its lease has ended
at `now()`. -/
def late (a : Attempt) : Bool := a.state != .claimed || b.task.state != .running || decide (a.leaseExpiresAt ≤ now)

/-- `insertCheckpointSQL`. -/
def nextSeq : Int := (b.checkpoints.map (·.seq)).foldr max 0 + 1

/-- The results, the checkpoint and the state of the attempt in one transaction. -/
def store (a : Attempt) (batch : Batch) : Book Batch :=
  { b with
    results := ⟨a.attemptID, a.rangeStart, a.rangeEnd, batch⟩ :: b.results
    checkpoints := ⟨b.nextSeq, a.rangeEnd, a.rangeEnd⟩ :: b.checkpoints }.mark a.attemptID .done

def commitScanBatch (attemptID : String) (batch : Batch) (persists : Bool) : Option (Book Batch) := do
  let a ← b.attempts.find? (·.attemptID == attemptID)
  if b.late now a then some (b.discardScanBatch a)
  else do
    let expected ← b.nextStart
    if a.rangeStart ≠ expected then some (b.discardScanBatch a)
    else if b.task.scopeEnd < a.rangeEnd ∨ persists = false then none
    else some (b.store a batch)

/-- `settleAttemptsTx`: the first claimed attempts that `which` picks are marked, with a gap each. -/
def settleAttempts (which : Attempt → Bool) (limit : Nat) (state : AttemptState) (reason : GapReason) : Book Batch :=
  ((b.attempts.filter fun a => a.state == .claimed && which a).take limit).foldl
    (fun b a => (b.mark a.attemptID state).insertGap a.rangeStart a.rangeEnd reason) b

/-- `RecoverStaleAttempts`. -/
def recoverStaleAttempts (limit : Nat) : Option (Book Batch) :=
  if limit = 0 then none
  else some (b.settleAttempts (fun a => decide (a.leaseExpiresAt ≤ now)) limit .abandoned .interrupted)

def settleInFlight (mode : SettleMode) (limit : Nat) : Option (Book Batch) :=
  if limit = 0 then none
  else
    match mode with
    | .pause => some (b.settleAttempts (fun _ => true) limit .superseded .paused)
    | .cancel => some (b.settleAttempts (fun _ => true) limit .abandoned .interrupted)

/-- `validateTaskTransition`. -/
def validTransition (to' : TaskState) (reason : String) : Bool := canTransitionTask b.task.state to' &&
    !((to' == .paused || to' == .suspendedBudget) && reason.trimAscii.isEmpty) &&
    (to' != .done || b.gaps.isEmpty && b.head.any fun c => c.valid && decide (b.task.scopeEnd ≤ c.resultPersistedThrough))

/-- The gap a transition leaves over what is not covered. -/
def transitionGap : TaskState → Option GapReason
  | .paused => some .paused
  | .suspendedBudget => some .budgetExhausted
  | .cancelled => some .notStarted
  | _ => none

/-- `TransitionTask`. A refusal commits an audit row only. -/
def transitionTask (to' : TaskState) (reason : String) : Option (Book Batch) :=
  if b.validTransition to' reason then
    match transitionGap to' with
    | none => some { b with task := { b.task with state := to' } }
    | some gap => do
      let start ← b.nextStart
      some { b.insertGap start b.task.scopeEnd gap with task := { b.task with state := to' } }
  else some b

end Book

/-- What an operation writes under the lock, or `none` when it rolls back. -/
def Job.decide {Batch : Type} (now : Int) (job : Job Batch) (b : Book Batch) : Option (Book Batch) :=
  match job with
  | .claim attemptID owner span ttl => b.claimScanAttempt now attemptID owner span ttl
  | .commit attemptID batch persists => b.commitScanBatch now attemptID batch persists
  | .recover limit => b.recoverStaleAttempts now limit
  | .settle mode limit => b.settleInFlight mode limit
  | .transition to' reason => b.transitionTask to' reason

/-- Any worker may begin any operation at any time. -/
def scanClients (Batch : Type) : Clients Unit (Job Batch) (Book Batch) where
  may := fun _ _ => true
  decide := fun _ now job b => job.decide now b
  learn := fun _ _ _ => ()

abbrev ScanWorld (Batch : Type) := Locked Unit (Job Batch) (Book Batch)

/-- A new task, before any operation. -/
def ScanWorld.initial (Batch : Type) (clock : Int) (task : Task) : ScanWorld Batch :=
  ⟨clock, (), ⟨task, [], [], [], []⟩, []⟩

end TxHarbor.Reconciliation
