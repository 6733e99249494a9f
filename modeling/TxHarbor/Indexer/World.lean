import TxHarbor.Indexer.ReplayEffect
import TxHarbor.Transition.Run

open Relational Tx

namespace TxHarbor.Indexer

/-- One transaction of the indexer with the inputs its caller read before it. `held` is the lease
verdict it will meet under the lock. -/
inductive Call where
  | commitBlock (startHeight : Int) (held : Bool) (w : BlockWrite) (cap : RecoveryCapture)
  | commitLogRange (cfg : StreamConfig) (held : Bool) (range : HeightRange) (first : Bool)
      (coverage : Int → Option Hash) (rows : List TransferLog) (cap : RecoveryCapture)
  | commitDepositUnit (cfg : DepositConfig) (upstreamHash : Hash) (held : Bool) (batch : DepositBatch)
      (captured : Option DepositProgress) (range : HeightRange) (cap : RecoveryCapture)
  | confirmDepositUnit (thresholdN : Nat) (held : Bool) (basis : ConfirmBasis) (cap : RecoveryCapture)
  | establish (held : Bool) (nanos : Int) (req : EstablishRequest)
  | confirmAncestor (held : Bool) (cap : RecoveryCapture) (a : Ancestor)
  | invalidateBlocks (held : Bool) (cap : RecoveryCapture)
  | invalidateObservations (held : Bool) (cap : RecoveryCapture)
  | rollback (held : Bool) (cap : RecoveryCapture) (stream : RecoveryStream)
  | replayRange (held : Bool) (cap : RecoveryCapture) (stream : RecoveryStream) (lo hi : Int)
      (blocks : List ReplayBlock) (logs : List TransferLog) (observations : List ReplayObservation)
  | recanonicalize (held : Bool) (cap : RecoveryCapture) (height : Int) (oldHash : Hash)
  | revive (held : Bool) (cap : RecoveryCapture) (id : Identity)
  | complete (held : Bool) (cap : RecoveryCapture)
  | signalReconcile (held : Bool) (cap : RecoveryCapture)
  | note (held : Bool) (cap : RecoveryCapture)
  | authorizeRepair (operator evidence disposition : String)
  | authorizeRelease (operator evidence disposition : String)

/-- A body that always ends in a COMMIT. -/
def committing {A : Type} (body : IndexerTx A) : IndexerTx Bool := do
  let _ ← body
  pure true

/-- The transaction of a call. The result says whether it reaches its COMMIT or returns early. -/
def Call.body : Call → IndexerTx Bool
  | .commitBlock startHeight held w cap => committing (Indexer.commitBlock startHeight held w cap)
  | .commitLogRange cfg held range first coverage rows cap =>
    committing (Indexer.commitLogRange cfg held range first coverage rows cap)
  | .commitDepositUnit cfg upstreamHash held batch captured range cap =>
    committing (Indexer.commitDepositUnit cfg upstreamHash held batch captured range cap)
  | .confirmDepositUnit thresholdN held basis cap =>
    Indexer.confirmDepositUnit thresholdN held basis cap
  | .establish held nanos req => do
    let result ← establishRecovery held nanos req
    pure (!result.converged)
  | .confirmAncestor held cap a => committing (confirmRecoveryAncestor held cap a)
  | .invalidateBlocks held cap => committing (invalidateRecoveryBlocks held cap)
  | .invalidateObservations held cap => committing (invalidateRecoveryObservations held cap)
  | .rollback held cap stream => do
    let result ← rollbackRecoveryCheckpoint held cap stream
    pure result.2.2
  | .replayRange held cap stream lo hi blocks logs observations =>
    replayRecoveryRange held cap stream lo hi blocks logs observations
  | .recanonicalize held cap height oldHash =>
    committing (recanonicalizeRecoveryBlock held cap height oldHash)
  | .revive held cap id => reviveRecoveryObservation held cap id
  | .complete held cap => committing (completeRecoveryVerify held cap)
  | .signalReconcile held cap => signalRecoveryReconcile held cap
  | .note held cap => committing (noteRecoveryEvidence held cap)
  | .authorizeRepair operator evidence disposition =>
    committing (authorizeRecoveryRepair operator evidence disposition)
  | .authorizeRelease operator evidence disposition =>
    committing (authorizeRecoveryRelease operator evidence disposition)

/-- The rows that pauses, their operators and the policy authorizations write. -/
structure OperatorRows where
  indexerPause : Option IndexerPause
  logPause : Bool
  depositPause : Option DepositPause
  pauseAudits : Table PauseAudit
  confirmationPolicies : Table ConfirmationPolicy
  reorgPolicies : Table ReorgPolicy

/-- One step of an arbitrary interleaving: a transaction of some worker with the fault that meets
it, or a change of pause and policy rows. -/
inductive Action where
  | submit (call : Call) (fault : Fault IndexerError)
  | operate (rows : OperatorRows)

def Store.next (s : Store) : Action → Store
  | .submit call fault => (attempt fault call.body id s).2
  | .operate rows =>
    { s with indexerPause := rows.indexerPause, logPause := rows.logPause,
             depositPause := rows.depositPause, pauseAudits := rows.pauseAudits,
             confirmationPolicies := rows.confirmationPolicies, reorgPolicies := rows.reorgPolicies }

/-- A store some interleaving leads to from the empty schema. -/
abbrev Store.Reachable (s : Store) : Prop := Transition.Reachable Store.next .empty s

variable {A : Type} {body : IndexerTx A} {s s' : Store}

theorem committing_eq_ok {commits : Bool} (h : committing body s = .ok (commits, s')) :
    commits = true ∧ ∃ a, body s = .ok (a, s') := by
  simp only [committing, eq_ok] at h
  obtain ⟨a, s₁, hbody, rfl, rfl⟩ := h
  exact ⟨rfl, a, hbody⟩

theorem of_committing {body : IndexerTx Unit} {commits : Bool} (h : committing body s = .ok (commits, s')) :
    body s = .ok ((), s') := by
  obtain ⟨-, ⟨⟩, hbody⟩ := committing_eq_ok h
  exact hbody

theorem committing_ok {a : A} (h : body s = .ok (a, s')) : committing body s = .ok (true, s') := by
  simp only [committing, eq_ok]
  exact ⟨a, s', h, trivial, rfl⟩

/-- A submitted call leaves the store alone, or installs what its committing body computed. -/
theorem Store.next_submit (s : Store) (call : Call) (fault : Fault IndexerError) :
    s.next (.submit call fault) = s ∨ ∃ s', call.body s = .ok (true, s') ∧ s.next (.submit call fault) = s' := by
  rcases attempt_store fault call.body id s with hsame | ⟨commits, s', hbody, hkeep, hnew⟩
  · exact .inl hsame
  · have hcommits : commits = true := hkeep
    subst hcommits
    exact .inr ⟨s', hbody, hnew⟩

namespace Sample

/-! A small chain that the concrete runs below share. Block `n` of the first fork has hash
`100 + n`, of the second `200 + n`. Both streams start at height 0. -/

def hash (n : Nat) : Hash := BitVec.ofNat 256 n

def ordinary (seq : Int) : RecoveryCapture := ⟨seq, none⟩

/-- The capture of the executor in round `seq`, established at `tip`. -/
def owned (seq tip : Int) : RecoveryCapture := ⟨seq, some ⟨1, tip, seq⟩⟩

def does (call : Call) : Action := .submit call .none

def header (seq number : Int) (block parent : Nat) : Action :=
  does (.commitBlock 0 true ⟨number, hash block, hash parent, number == 0⟩ (ordinary seq))

/-- The header hashes a worker read for its range. -/
def headers (pairs : List (Int × Nat)) (number : Int) : Option Hash :=
  (pairs.find? (fun pair => pair.1 == number)).map (fun pair => hash pair.2)

def transfer (number : Int) (block : Nat) : TransferLog :=
  { blockHash := hash block, txHash := hash 7, logIndex := 0, blockNumber := number, contract := 0,
    topic0 := 0, topic1 := 0, topic2 := 0, data := 0 }

def deposit (number : Int) (block : Nat) : DepositMatch :=
  { blockHash := hash block, txHash := hash 7, logIndex := 0, blockNumber := number, contract := 0,
    sender := 0, recipient := 0, amount := 5 }

def logConfig : StreamConfig := ⟨0, hash 1⟩

def depositConfig : DepositConfig := { startBlock := 0, configHash := hash 2, assets := [], watches := [] }

def logUnit (seq : Int) (range : HeightRange) (first : Bool) (pairs : List (Int × Nat))
    (rows : List TransferLog) : Action :=
  does (.commitLogRange logConfig true range first (headers pairs) rows (ordinary seq))

def depositUnit (seq : Int) (range : HeightRange) (captured : Option DepositProgress)
    (pairs : List (Int × Nat)) (matched : List DepositMatch) : Action :=
  does (.commitDepositUnit depositConfig (hash 1) true
    ⟨headers pairs, matched.map (fun m => m.toIdentity), matched, 0, 0⟩ captured range
    (ordinary seq))

/-- Round `seq` found at `tip`. The sample reads `seq` off the clock, which only names the round. -/
def establish (seq tip : Int) (block : Nat) : Action :=
  does (.establish true seq ⟨1, tip, hash block, tip, hash 99, some 10⟩)

/-- The six transactions from the found ancestor to the replay. -/
def rewind (seq tip ancestor : Int) (block : Nat) : List Action :=
  [does (.confirmAncestor true (owned seq tip) ⟨ancestor, hash block⟩),
   does (.invalidateBlocks true (owned seq tip)),
   does (.invalidateObservations true (owned seq tip)),
   does (.rollback true (owned seq tip) .block),
   does (.rollback true (owned seq tip) .log),
   does (.rollback true (owned seq tip) .deposit)]

def replay (seq tip : Int) (stream : RecoveryStream) (lo hi : Int) (blocks : List ReplayBlock) : Action :=
  does (.replayRange true (owned seq tip) stream lo hi blocks [] [])

/-- Heights 0 and 1 of the first fork, with a deposit at height 1. -/
def firstFork : List Action := [header 0 0 100 99, header 0 1 101 100,
   logUnit 0 ⟨0, 1, by decide⟩ true [(0, 100), (1, 101)] [transfer 1 101],
   depositUnit 0 ⟨0, 1, by decide⟩ none [(0, 100), (1, 101)] [deposit 1 101]]

/-- A whole round that replaces height 1 by the second fork. -/
def secondFork : List Action := establish 1 1 101 :: rewind 1 1 0 100 ++
    [replay 1 1 .block 1 1 [⟨1, hash 201, some (hash 100)⟩], replay 1 1 .log 1 1 [],
     replay 1 1 .deposit 1 1 [], does (.complete true (owned 1 1))]

end Sample

end TxHarbor.Indexer
