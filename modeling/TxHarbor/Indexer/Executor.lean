import TxHarbor.Indexer.World
import TxHarbor.Relational.Client

open Relational

namespace TxHarbor.Indexer

/-! The recovery executor: one iteration of `ServeLoop`, as a client that reads the committed state
and submits the recovery transactions. -/

/-- `RecoveryExecutor` after `NewRecoveryExecutor` has applied its defaults. -/
structure RecoveryExecutor where
  chainID : Int
  maxDepth : Option Int
  blockStartHeight : Int
  batch : Int
  batch_pos : 0 < batch

/-- `ancestorResult` of the read-only search. -/
inductive AncestorSearch where
  | hold
  | terminal
  | found (a : Ancestor)

/-- What `assembleLogsAndDeposits` returns for a range: rows, a hold, or an error. -/
inductive Assembly where
  | rows (logs : List TransferLog) (observations : List ReplayObservation)
  | hold
  | failed

/-- The answers of the node during one iteration. A height whose header cannot be read, and one
whose parent cannot be read again, has no answer. -/
structure NodeView where
  head : Option (Int × Hash)
  nanos : Int
  search : AncestorSearch
  header : RecoveryStream → Int → Option Hash
  parent : RecoveryStream → Int → Option Hash
  assembled : RecoveryStream → Assembly

abbrev Executor := Client Store Call IndexerError

/-- The capture every tick makes of the row it has read. -/
def RecoveryRow.capture (row : RecoveryRow) : RecoveryCapture := ⟨row.seq, some row.recoveryID⟩

/-- `SignalRecoveryReconcile`, as the ticks call it. -/
def signal (cap : RecoveryCapture) : Executor Unit := do
  let _ ← Client.call (.signalReconcile true cap)
  pure ()

/-- `tickIdle`: only a hash-mismatch pause, a canonical tip and a readable chain head establish. -/
def tickIdle (e : RecoveryExecutor) (view : NodeView) : Executor Unit := do
  let s ← Client.get
  match s.indexerPause, canonicalTip s, view.head with
  | some pause, some tip, some (newNumber, newHash) =>
    if pause.kind = .hashMismatch then do
      let _ ← Client.call (.establish true view.nanos ⟨e.chainID, tip.number, tip.hash, newNumber, newHash, e.maxDepth⟩)
      pure ()
    else pure ()
  | _, _, _ => pure ()

/-- `tickDetected`. A refused depth is handed to the reconcile path. -/
def tickDetected (view : NodeView) (row : RecoveryRow) : Executor Unit :=
  match view.search with
  | .hold => pure ()
  | .terminal => signal row.capture
  | .found a => .submit (.confirmAncestor true row.capture a) fun
    | .committed _ => pure ()
    | .rolledBack _ => pure ()
    | .failed (.gate (.depthExceeds _ _)) => signal row.capture
    | _ => .fail

/-- The transactions of `tickInvalidate`. -/
def invalidatePass (cap : RecoveryCapture) : List Call :=
  [.invalidateBlocks true cap, .invalidateObservations true cap, .rollback true cap .block,
   .rollback true cap .log, .rollback true cap .deposit]

def tickInvalidate (cap : RecoveryCapture) : Executor Unit := Client.inOrder (invalidatePass cap)

/-- The stored rows of a height. -/
def rowsAt (s : Store) (height : Int) : List ChainBlock := s.blocks.rows.filter fun b => b.number == height

/-- What `localBlockView` makes of the rows of a height in hash order: the only one, or the
canonical one of several. Several rows with none canonical give a view without a hash. -/
def blockView (canonicalHash : Option Hash) : List ChainBlock → Option (Option Hash × Bool)
  | [] => none
  | [b] => some (some b.hash, b.canonical)
  | b :: _ :: _ =>
    if b.canonical then some (some b.hash, true) else some (canonicalHash, canonicalHash.isSome)

def localBlockView (s : Store) (height : Int) : Option (Option Hash × Bool) :=
  blockView (canonicalHashAt s height) ((rowsAt s height).insertionSort fun a b => a.hash ≤ b.hash)

def orphansAtBlock (s : Store) (blockHash : Hash) : List Identity :=
  ((s.observations.rows.filter fun o => o.blockHash == blockHash && o.status == .orphaned).map
    (·.toIdentity)).insertionSort (fun a b => a.txHash < b.txHash ∨ a.txHash = b.txHash ∧ a.logIndex ≤ b.logIndex)

/-- `recanonicalizeHeight`: the flip, then one revival for every orphan of the block. -/
def recanonicalizeHeight (cap : RecoveryCapture) (height : Int) (oldHash : Hash) : Executor Unit := do
  let _ ← Client.call (.recanonicalize true cap height oldHash)
  let s ← Client.get
  Client.inOrder ((orphansAtBlock s oldHash).map (.revive true cap))

/-- What the triage of one height decides: leave the stream for this tick, write nothing, or
assemble a header. -/
inductive Triage where
  | leave
  | settled
  | header (b : ReplayBlock)

/-- The triage of one height against the stored view of it: an effective row stays, a foreign
effective row stops the round, a retained row of the same hash is flipped back, and everything
else is assembled. -/
def triageRow (parent : Option Hash) (cap : RecoveryCapture) (height : Int) (chainHash : Hash) :
    Option (Option Hash × Bool) → Executor Triage
  | some (some localHash, true) =>
    if localHash = chainHash then pure .settled
    else do
      signal cap
      pure .leave
  | some (localHash, _) =>
    if localHash = some chainHash then do
      recanonicalizeHeight cap height chainHash
      pure .settled
    else pure (.header ⟨height, chainHash, parent⟩)
  | none => pure (.header ⟨height, chainHash, parent⟩)

/-- The per-height body of `replayStream`. -/
def triageHeight (view : NodeView) (cap : RecoveryCapture) (stream : RecoveryStream) (height : Int) : Executor Triage :=
  match view.header stream height with
  | none => pure .leave
  | some chainHash => do
    let s ← Client.get
    triageRow (view.parent stream height) cap height chainHash (localBlockView s height)

/-- The triage loop over the heights of a range; no result means that the stream is left. -/
def triageHeights (view : NodeView) (cap : RecoveryCapture) (stream : RecoveryStream) :
    List Int → Executor (Option (List ReplayBlock))
  | [] => pure (some [])
  | height :: rest => do
    match ← triageHeight view cap stream height with
    | .leave => pure none
    | .settled => triageHeights view cap stream rest
    | .header b => do
      let blocks ← triageHeights view cap stream rest
      pure (blocks.map (b :: ·))

/-- The end of `replayStream`: the rows of the stream go into one transaction. -/
def submitRange (cap : RecoveryCapture) (stream : RecoveryStream) (range : HeightRange)
    (blocks : List ReplayBlock) : Assembly → Executor Unit
  | .hold => pure ()
  | .failed => .fail
  | .rows logs observations => do
    let _ ← Client.call (.replayRange true cap stream range.lo range.hi
      (if stream = .block then blocks else []) (if stream = .log then logs else [])
      (if stream = .deposit then observations else []))
    pure ()

/-- The first height a stream replays: not below the ancestor. -/
def replayStart (row : RecoveryRow) (resume : Int) : Int :=
  match row.ancestor with
  | some a => max resume (a.number + 1)
  | none => resume

/-- One bounded range of `replayStream`, from its resume point on. -/
def replayFrom (e : RecoveryExecutor) (view : NodeView) (row : RecoveryRow) (stream : RecoveryStream)
    (liveTip resume : Int) : Executor Unit :=
  if h : replayStart row resume ≤ liveTip then do
    let range : HeightRange := ⟨replayStart row resume, min (replayStart row resume + e.batch - 1) liveTip,
      by have := e.batch_pos; omega⟩
    match ← triageHeights view row.capture stream range.heights with
    | none => pure ()
    | some blocks => submitRange row.capture stream range blocks (view.assembled stream)
  else pure ()

def streamResumeFrom (s : Store) : RecoveryStream → Option Int
  | .block => s.checkpoint.map (·.height + 1)
  | .log => s.logCheckpoint.map (·.nextBlock)
  | .deposit => s.depositCheckpoint.map (·.nextBlock)

/-- A stream without progress has nothing to replay. A missing header checkpoint resumes at the
scan start, which has to lie above the ancestor. -/
def replayMissing (e : RecoveryExecutor) (view : NodeView) (row : RecoveryRow) (stream : RecoveryStream)
    (liveTip : Int) : Executor Unit :=
  if stream = .block then
    if row.ancestor.all (fun a => decide (e.blockStartHeight ≤ a.number)) then signal row.capture
    else replayFrom e view row stream liveTip e.blockStartHeight
  else pure ()

def replayStream (e : RecoveryExecutor) (view : NodeView) (row : RecoveryRow) (stream : RecoveryStream)
    (liveTip : Int) : Executor Unit := do
  let s ← Client.get
  match streamResumeFrom s stream with
  | some resume => replayFrom e view row stream liveTip resume
  | none => replayMissing e view row stream liveTip

/-- The stream loop of `tickReplay`, which reads the row again after every stream. -/
def replayStreams (e : RecoveryExecutor) (view : NodeView) (liveTip : Int) :
    List RecoveryStream → RecoveryRow → Executor Unit
  | [], _ => pure ()
  | stream :: rest, row => do
    replayStream e view row stream liveTip
    let s ← Client.get
    match s.recovery with
    | none => pure ()
    | some row' =>
      if row'.phase = .invalidated ∨ row'.phase = .replaying then replayStreams e view liveTip rest row'
      else pure ()

def tickReplay (e : RecoveryExecutor) (view : NodeView) (row : RecoveryRow) : Executor Unit := do
  let s ← Client.get
  replayStreams e view (persistedTip s) [.block, .log, .deposit] row

def tickComplete (cap : RecoveryCapture) : Executor Unit := do
  let _ ← Client.call (.complete true cap)
  pure ()

/-- The dispatch of `ServeLoop` on the persisted phase. -/
def dispatch (e : RecoveryExecutor) (view : NodeView) : Option RecoveryRow → Executor Unit
  | none => tickIdle e view
  | some row =>
    match row.phase with
    | .detected => tickDetected view row
    | .ancestorConfirmed => tickInvalidate row.capture
    | .invalidated => tickReplay e view row
    | .replaying => tickReplay e view row
    | .completePending => tickComplete row.capture
    | .reconcileRequired => pure ()

/-- One iteration of `ServeLoop`. -/
def serveTick (e : RecoveryExecutor) (view : NodeView) : Executor Unit := do
  let s ← Client.get
  dispatch e view s.recovery

/-- What one iteration meets: the answers of the node, and a fault for each transaction up to the
point where the process is stopped. An iteration that ends early for another reason, such as an
unreadable row, leaves the same store as one that is stopped there. -/
structure Iteration where
  view : NodeView
  script : List (Fault IndexerError)

/-- The store after one iteration of the loop, which the next one or a restarted process reads. -/
def RecoveryExecutor.serve (e : RecoveryExecutor) (s : Store) (it : Iteration) : Store :=
  ((serveTick e it.view).run Call.body it.script s).1

/-- Everything the loop submits over a list of iterations. -/
def RecoveryExecutor.submitted (e : RecoveryExecutor) (s : Store) : List Iteration → List (Client.Entry Store Call)
  | [] => []
  | it :: rest =>
    ((serveTick e it.view).run Call.body it.script s).2 ++ e.submitted (e.serve s it) rest

namespace Sample

def executor : RecoveryExecutor := ⟨1, some 10, 0, 100, by decide⟩

/-- A node that answers for some heights with a block and its parent, and has no logs. -/
def node (chain : List (Int × Nat × Nat)) : NodeView where
  head := none
  nanos := 0
  search := .hold
  header := fun _ height => (chain.find? fun p => p.1 == height).map fun p => hash p.2.1
  parent := fun _ height => (chain.find? fun p => p.1 == height).map fun p => hash p.2.2
  assembled := fun _ => .rows [] []

/-- An iteration whose first transactions go through; then the process is stopped. -/
def iteration (chain : List (Int × Nat × Nat)) (transactions : Nat) : Iteration :=
  ⟨node chain, List.replicate transactions .none⟩

end Sample

end TxHarbor.Indexer
