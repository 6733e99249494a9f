import TxHarbor.Indexer.CommitEffect
import TxHarbor.Indexer.RecoveryEffect
import TxHarbor.Indexer.Replay

open Relational Constrained Tx List

namespace TxHarbor.Indexer

open Table RecoveryPhase ChainBlock

variable {lo hi : Int} {u : Unit} {stream : RecoveryStream} {s s' : Store} {row : RecoveryRow} {held : Bool}
  {cap : RecoveryCapture} {versions : Table DepositVersion} {o : ReplayObservation} {blocks : List ReplayBlock}
  {logs : List TransferLog} {observations : List ReplayObservation} {height : Int} {oldHash : Hash}

theorem insideRange_eq_ok {what : String} {number : Int} (h : insideRange what number lo hi = .ok u) :
    lo ≤ number ∧ number ≤ hi := by
  unfold insideRange at h
  split at h
  · assumption
  · cases h

theorem ReplayBlock.row_eq_ok {b : ReplayBlock} {block : ChainBlock} (h : b.row lo hi = .ok block) :
    lo ≤ block.number ∧ block.number ≤ hi ∧ block.canonical = true ∧ b.number = block.number ∧ b.hash = block.hash ∧
      b.parentHash = some block.parentHash := by
  obtain ⟨u, hrange, h⟩ := except_eq_ok.1.mp h
  obtain ⟨hlo, hhi⟩ := insideRange_eq_ok hrange
  split at h
  · cases h
  next parent hparent =>
    cases h
    exact ⟨hlo, hhi, rfl, rfl, rfl, hparent⟩

theorem ReplayObservation.row_eq_ok {row : DepositObservation} (h : o.row versions lo hi = .ok row) :
    lo ≤ o.blockNumber ∧ o.toDepositMatch.observation o.versionSeq = .ok row := by
  simp only [ReplayObservation.row, except_eq_ok] at h
  obtain ⟨u, hrange, row', hobs, h⟩ := h
  split at h
  · cases h
    exact ⟨(insideRange_eq_ok hrange).1, hobs⟩
  · cases h

/-- A header a replayed range adds: an assembled one, canonical inside the range, under a hash no
stored row has. -/
structure ReplayedHeader (s : Store) (lo hi : Int) (headers : List ReplayBlock) (b : ChainBlock) :
    Prop where
  assembled : ∃ i ∈ headers, i.number = b.number ∧ i.hash = b.hash
  low : lo ≤ b.number
  high : b.number ≤ hi
  canonical : b.canonical = true
  fresh : ∀ r ∈ s.blocks.rows, r.hash ≠ b.hash

/-- The rows a replayed range adds. Old rows stay as they are, and a new observation is pending. -/
inductive ReplayedRows (s : Store) (lo hi : Int) (headers : List ReplayBlock) :
    RecoveryStream → Store → Prop where
  | block (blocks : Table ChainBlock) (added : List ChainBlock) (rows : blocks.rows = s.blocks.rows ++ added)
      (fresh : ∀ b ∈ added, ReplayedHeader s lo hi headers b) :
      ReplayedRows s lo hi headers .block { s with blocks := blocks }
  | log (logs : Table TransferLog) (added : List TransferLog) (rows : logs.rows = s.logs.rows ++ added) :
      ReplayedRows s lo hi headers .log { s with logs := logs }
  | deposit (observations : Table DepositObservation) (added : List DepositObservation)
      (rows : observations.rows = s.observations.rows ++ added)
      (pending : ∀ o ∈ added, o.status = .pending) :
      ReplayedRows s lo hi headers .deposit { s with observations := observations }

theorem replayRows_spec {n : Nat} (h : replayRows stream lo hi blocks logs observations s = .ok (n, s')) :
    ReplayedRows s lo hi blocks stream s' := by
  simp only [replayRows, eq_ok] at h
  obtain ⟨_, _, ⟨rfl, rfl⟩, h⟩ := h
  cases stream with
  | block =>
    simp only [eq_ok, lift_eq_ok] at h
    obtain ⟨⟨table, m⟩, _, ⟨hinsert, rfl⟩, _, _, rfl, -, rfl⟩ := h
    obtain ⟨added, hrows, -, hadded⟩ := insertBatch_eq_ok hinsert
    refine .block table added hrows fun b hb => ?_
    obtain ⟨⟨i, hi, hrow⟩, hclash⟩ := hadded b hb
    obtain ⟨hlow, hhigh, hcanonical, hnumber, hhash, -⟩ := ReplayBlock.row_eq_ok hrow
    refine ⟨⟨i, hi, hnumber, hhash⟩, hlow, hhigh, hcanonical, fun r hr heq => ?_⟩
    have hfree := hclash r hr
    simp [clash, heq] at hfree
  | log =>
    simp only [eq_ok, lift_eq_ok] at h
    obtain ⟨⟨table, m⟩, _, ⟨hinsert, rfl⟩, _, _, rfl, -, rfl⟩ := h
    obtain ⟨added, hrows, -⟩ := insertBatch_eq_ok hinsert
    exact .log table added hrows
  | deposit =>
    simp only [eq_ok, lift_eq_ok] at h
    obtain ⟨⟨table, m⟩, _, ⟨hinsert, rfl⟩, _, _, rfl, -, rfl⟩ := h
    obtain ⟨added, hrows, hadded⟩ := insertObservations_spec hinsert
    refine .deposit table added hrows fun o ho => ?_
    obtain ⟨r, -, hr⟩ := mem_map.mp (hadded o ho).1
    exact (DepositMatch.observation_eq_ok (ReplayObservation.row_eq_ok hr).2).1

theorem proveRange_spec (h : proveRange lo hi s = .ok (u, s')) :
    s = s' ∧ (countCanonicalRange s lo hi : Int) = hi - lo + 1 := by
  simp only [proveRange, eq_ok] at h
  obtain ⟨_, _, ⟨rfl, rfl⟩, _, _, ⟨hcount, rfl⟩, -, rfl⟩ := h
  exact ⟨rfl, hcount⟩

/-- What the progress part of a replay does to the stream's checkpoint. -/
inductive ReplayedProgress (s : Store) (lo hi : Int) (stream : RecoveryStream) : Store → Prop where
  | block (header : stream = .block) (checkpoint : BlockCheckpoint) (height : checkpoint.height = hi)
      (hash : canonicalHashAt s hi = some checkpoint.blockHash) :
      ReplayedProgress s lo hi stream { s with checkpoint := some checkpoint }
  | unit (u : UnitStream) (named : stream = u.stream) (c moved : StreamCheckpoint)
      (progress : s.progress u = some c) (next : c.nextBlock = lo)
      (start : moved.startBlock = c.startBlock) (moved_next : moved.nextBlock = hi + 1) :
      ReplayedProgress s lo hi stream (s.setProgress u moved)

theorem advanceUnitCheckpointTx_spec {stream : UnitStream} {name : String}
    (h : advanceUnitCheckpointTx stream name lo hi s = .ok (u, s')) : ReplayedProgress s lo hi stream.stream s' := by
  simp only [advanceUnitCheckpointTx, eq_ok] at h
  obtain ⟨_, _, ⟨rfl, rfl⟩, c, _, ⟨hprogress, rfl⟩, _, _, ⟨hnext, rfl⟩, moved, _, ⟨hmoved, rfl⟩, rfl⟩ := h
  obtain ⟨hstart, -, hmovedNext⟩ := StreamCheckpoint.moveTo?_eq_some hmoved
  exact .unit stream rfl c moved hprogress hnext hstart hmovedNext

theorem advanceBlockCheckpointTx_spec (h : advanceBlockCheckpointTx lo hi s = .ok (u, s')) :
    ReplayedProgress s lo hi .block s' := by
  simp only [advanceBlockCheckpointTx, eq_ok] at h
  obtain ⟨_, _, ⟨rfl, rfl⟩, h⟩ := h
  cases hcheckpoint : s.checkpoint with
  | none =>
    simp only [hcheckpoint, eq_ok] at h
    obtain ⟨hash, _, ⟨hhash, rfl⟩, rfl⟩ := h
    exact .block rfl ⟨hi, hash, lo⟩ rfl hhash
  | some c =>
    simp only [hcheckpoint, eq_ok] at h
    obtain ⟨_, _, ⟨-, rfl⟩, prev, _, ⟨-, rfl⟩, _, _, ⟨-, rfl⟩, hash, _, ⟨hhash, rfl⟩, rfl⟩ := h
    exact .block rfl { c with height := hi, blockHash := hash } rfl hhash

theorem RecoveryRow.setFrontier_sameRound (row : RecoveryRow) (stream : RecoveryStream) (hi : Int) :
    SameRound row (row.setFrontier stream hi) ∧ (row.setFrontier stream hi).phase = row.phase := by
  cases stream <;> exact ⟨⟨rfl, rfl, rfl⟩, rfl⟩

theorem ReplayedRows.recovery {headers : List ReplayBlock} (h : ReplayedRows s lo hi headers stream s') :
    s'.recovery = s.recovery ∧ s'.recoveryEvents = s.recoveryEvents := by
  cases h <;> exact ⟨rfl, rfl⟩

theorem ReplayedProgress.recovery (h : ReplayedProgress s lo hi stream s') :
    s'.recovery = s.recovery ∧ s'.recoveryEvents = s.recoveryEvents := by
  cases h with
  | block => exact ⟨rfl, rfl⟩
  | unit u => cases u <;> exact ⟨rfl, rfl⟩

theorem advanceReplayProgressTx_spec (hactive : s.recovery = some row)
    (h : advanceReplayProgressTx row stream lo hi s = .ok (u, s')) :
    ReplayedProgress { s with recovery := some (row.setFrontier stream hi) } lo hi stream s' := by
  simp only [advanceReplayProgressTx, bind_eq_ok] at h
  obtain ⟨_, s₁, hfrontier, h⟩ := h
  obtain rfl := updateRecoveryRow_of_active hfrontier hactive
  cases stream with
  | block => exact advanceBlockCheckpointTx_spec h
  | log | deposit => exact advanceUnitCheckpointTx_spec h

variable {current : RecoveryRow}

theorem startReplaying_spec (hactive : s.recovery = some current)
    (hphase : current.phase = row.phase) (hallowed : row.phase ∈ [invalidated, .replaying])
    (h : startReplaying row s = .ok (u, s')) :
    ∃ row', SameRound current row' ∧ row'.phase = .replaying ∧ s' = { s with recovery := some row' } := by
  simp only [startReplaying, ite_apply_eq_ok, pure_eq_ok] at h
  rcases h with ⟨-, h⟩ | ⟨hother, -, rfl⟩
  · obtain rfl := updateRecoveryRow_of_active h hactive
    exact ⟨current.inPhase .replaying, current.inPhase_sameRound _, rfl, rfl⟩
  · refine ⟨current, .refl current, ?_, by rw [← hactive]⟩
    rw [hphase]
    simpa [hother] using hallowed

theorem maybeCompletePendingTx_spec (hactive : s.recovery = some current)
    (hphase : current.phase = .replaying) (h : maybeCompletePendingTx row s = .ok (u, s')) :
    ∃ row', SameRound current row' ∧ row'.phase ∈ [replaying, .completePending] ∧
      s' = { s with recovery := some row' } := by
  simp only [maybeCompletePendingTx, eq_ok, ite_apply_eq_ok] at h
  obtain ⟨_, _, ⟨rfl, rfl⟩, a, _, ⟨-, rfl⟩, ⟨-, h⟩ | ⟨-, -, rfl⟩⟩ := h
  · obtain rfl := updateRecoveryRow_of_active h hactive
    exact ⟨current.inPhase .completePending, current.inPhase_sameRound _, by simp [RecoveryRow.inPhase], rfl⟩
  · exact ⟨current, .refl current, by simp [hphase], by rw [← hactive]⟩

/-- A replayed range is a no-op below the frontier, or it adds its rows, proves that every height
of the range is canonical, and moves frontier, checkpoint and phase of the active round. -/
theorem replayRecoveryRange_spec {commits : Bool}
    (h : replayRecoveryRange held cap stream lo hi blocks logs observations s = .ok (commits, s')) :
    commits = false ∧ s = s' ∨ commits = true ∧ lo ≤ hi ∧ ∃ row row' events s₁ s₂,
      OwnedGate cap [.invalidated, .replaying] s row ∧ ReplayedRows s lo hi blocks stream s₁ ∧
      (countCanonicalRange s₁ lo hi : Int) = hi - lo + 1 ∧
      ReplayedProgress { s₁ with recovery := some (row.setFrontier stream hi) } lo hi stream s₂ ∧
      SameRound row row' ∧ row'.phase ∈ [replaying, .completePending] ∧
      Logged row s.recoveryEvents events ∧ s' = { s₂ with recovery := some row', recoveryEvents := events } := by
  simp only [replayRecoveryRange, eq_ok, ite_apply_eq_ok] at h
  obtain ⟨_, _, ⟨hordered, rfl⟩, row, s₀, hopen, h⟩ := h
  obtain ⟨rfl, hgate⟩ := openOwned_spec hopen
  rcases h with ⟨-, rfl, rfl⟩ | ⟨-, _, _, ⟨-, rfl⟩, n, s₁, hrows, _, s₂, hproof, _, s₃, hprogress, _,
    s₄, hstart, _, s₅, hevent, _, s₆, hpending, rfl, rfl⟩
  · exact .inl ⟨rfl, rfl⟩
  have hrows := replayRows_spec hrows
  obtain ⟨rfl, hcount⟩ := proveRange_spec hproof
  have hactive : s₁.recovery = some row := hrows.recovery.1.trans hgate.active
  have hprogress := advanceReplayProgressTx_spec hactive hprogress
  obtain ⟨hround, hphase⟩ := row.setFrontier_sameRound stream hi
  obtain ⟨row₁, hround₁, hphase₁, rfl⟩ := startReplaying_spec hprogress.recovery.1 hphase hgate.phase hstart
  obtain ⟨events, hlogged, rfl⟩ := appendRecoveryEvent_spec hevent
  obtain ⟨row₂, hround₂, hphase₂, rfl⟩ := maybeCompletePendingTx_spec rfl hphase₁ hpending
  refine .inr ⟨rfl, hordered, row, row₂, events, s₁, s₃, hgate, hrows, hcount, hprogress,
    (hround.trans hround₁).trans hround₂, hphase₂, ?_, rfl⟩
  have hevents : s₃.recoveryEvents = s.recoveryEvents := hprogress.recovery.2.trans hrows.recovery.2
  rwa [← hevents]

/-- The rows a re-canonicalization leaves: the foreign canonical row of the height is retired
first, then the old one is restored. -/
def recanonicalized (height : Int) (oldHash : Hash) (b : ChainBlock) : ChainBlock :=
  let cleared := if b.foreignAt height oldHash then b.retire else b
  if cleared.retiredAt height oldHash then cleared.restore else cleared

theorem recanonicalized_number (height : Int) (oldHash : Hash) (b : ChainBlock) :
    (recanonicalized height oldHash b).number = b.number := by
  have hcleared : (if b.foreignAt height oldHash then b.retire else b).number = b.number := by
    split <;> rfl
  simp only [recanonicalized]
  generalize (if b.foreignAt height oldHash then b.retire else b) = cleared at hcleared
  split <;> exact hcleared

/-- Rows of other heights stay as they are. -/
theorem recanonicalized_of_ne {b : ChainBlock} (h : b.number ≠ height) : recanonicalized height oldHash b = b := by
  simp [recanonicalized, foreignAt, retiredAt, h]

theorem recanonicalizeRecoveryBlock_spec (h : recanonicalizeRecoveryBlock held cap height oldHash s = .ok (u, s')) :
    ∃ row blocks events, OwnedGate cap [.invalidated, .replaying] s row ∧
      blocks.rows = s.blocks.rows.map (recanonicalized height oldHash) ∧
      (∃ b ∈ s.blocks.rows, b.retiredAt height oldHash = true) ∧ Logged row s.recoveryEvents events ∧
      s' = { s with blocks := blocks, recoveryEvents := events } := by
  simp only [recanonicalizeRecoveryBlock, eq_ok] at h
  obtain ⟨row, s₁, hopen, _, _, ⟨rfl, rfl⟩, _, _, ⟨-, rfl⟩, blocks, _, ⟨hrestored, rfl⟩, _, _,
    ⟨hcount, rfl⟩, _, _, rfl, hevent⟩ := h
  obtain ⟨rfl, hgate⟩ := openOwned_spec hopen
  obtain ⟨events, hlogged, rfl⟩ := appendRecoveryEvent_spec hevent
  have hrows := update?_eq_some hrestored
  rw [rows_update, map_map] at hrows
  refine ⟨row, blocks, events, hgate, hrows, ?_, hlogged, rfl⟩
  -- the restored row was retired before the foreign one was cleared: clearing keeps hashes
  have hpos : 0 < (s.blocks.update (foreignAt height oldHash) retire
      retire_keepsKeys).rows.countP (retiredAt height oldHash) := by
    have hone : _ = 1 := hcount
    unfold Table.affected at hone
    omega
  obtain ⟨c, hc, hretired⟩ := countP_pos_iff.mp hpos
  rw [rows_update] at hc
  obtain ⟨b, hb, rfl⟩ := mem_map.mp hc
  refine ⟨b, hb, ?_⟩
  by_cases hforeign : b.foreignAt height oldHash = true
  · simp only [hforeign, if_true] at hretired
    simp [foreignAt, retiredAt, retire] at hforeign hretired
    exact absurd hretired.2 hforeign.1.2
  · rwa [if_neg hforeign] at hretired

/-- What a revival checks before it converts a row. -/
structure Revivable (s : Store) (row : RecoveryRow) (id : Identity) (o : DepositObservation) : Prop where
  stored : o ∈ s.observations.rows
  identity : o.toIdentity = id
  orphaned : o.status = .orphaned
  round : o.orphanRecoveryID = some row.recoveryID
  block : ∃ b ∈ s.blocks.rows, b.hash = id.blockHash ∧ b.canonical = true
  log : ∃ l ∈ s.logs.rows, l.toIdentity = id
  version : ∃ v ∈ s.versions.rows, v.versionSeq = o.versionSeq
  first : revivalTransition id row.recoveryID ∉ s.transitions.rows

/-- The observations a revival leaves. -/
def revivedObservations (s : Store) (id : Identity) (recovery : RecoveryID) : Table DepositObservation :=
  s.observations.update (DepositObservation.orphanAt id recovery) DepositObservation.revive (fun _ _ h => h)

theorem revivedObservations_rows (s : Store) (id : Identity) (recovery : RecoveryID) :
    (revivedObservations s id recovery).rows = s.observations.rows.map fun o =>
      if o.orphanAt id recovery then o.revive else o := rfl

theorem reviveRecoveryObservation_spec {id : Identity} {converted : Bool}
    (h : reviveRecoveryObservation held cap id s = .ok (converted, s')) :
    (converted = false ∧ s = s' ∧ ∃ o ∈ s.observations.rows, o.toIdentity = id ∧ o.status = .pending) ∨
      converted = true ∧ ∃ row o transitions events,
      OwnedGate cap [.invalidated, .replaying] s row ∧ Revivable s row id o ∧
      transitions.rows = s.transitions.rows ++ [revivalTransition id row.recoveryID] ∧
      Logged row s.recoveryEvents events ∧
      s' = { s with transitions := transitions,
                    observations := revivedObservations s id row.recoveryID, recoveryEvents := events } := by
  simp only [reviveRecoveryObservation, eq_ok, ite_apply_eq_ok] at h
  obtain ⟨row, s₁, hopen, _, _, ⟨rfl, rfl⟩, o, _, ⟨hselect, rfl⟩, h⟩ := h
  obtain ⟨rfl, hgate⟩ := openOwned_spec hopen
  obtain ⟨hstored, hid⟩ := select_mem hselect
  have hid : o.toIdentity = id := by simpa using hid
  rcases h with ⟨hpending, _, _, ⟨-, rfl⟩, rfl, rfl⟩ | ⟨-, _, _, ⟨⟨horphaned, hround⟩, rfl⟩, block, _,
    ⟨hblock, rfl⟩, _, _, ⟨hcanonical, rfl⟩, _, _, ⟨hlog, rfl⟩, _, _, ⟨hversion, rfl⟩, transitions, _,
    ⟨hinsert, rfl⟩, _, _, rfl, _, s₂, hevent, rfl, rfl⟩
  · exact .inl ⟨rfl, rfl, o, hstored, hid, hpending⟩
  obtain ⟨hblockMem, hblockHash⟩ := select_mem hblock
  obtain ⟨hfree, hrows⟩ := insert?_eq_some hinsert
  obtain ⟨events, hlogged, rfl⟩ := appendRecoveryEvent_spec hevent
  have hfirst : revivalTransition id row.recoveryID ∉ s.transitions.rows := by
    intro hmem
    have hclash := hfree _ hmem
    simp [clash] at hclash
  exact .inr ⟨rfl, row, o, transitions, events, hgate, ⟨hstored, hid, horphaned, hround,
      ⟨block, hblockMem, by simpa using hblockHash, hcanonical⟩, hlog, hversion, hfirst⟩,
    hrows, hlogged, rfl⟩

/-- A release replaces the active row by its terminal event, after the completion has been
verified on the store as it stands. -/
theorem releaseRecovery_spec {event : RecoveryEventKind} (h : releaseRecovery row event s = .ok (u, s')) :
    ∃ sweptTo events, verifyCompletionReady s row = .ok sweptTo ∧ Logged row s.recoveryEvents events ∧
      s' = { s with recovery := none, recoveryEvents := events } := by
  simp only [releaseRecovery, deleteRecoveryRow, eq_ok, lift_eq_ok] at h
  obtain ⟨_, _, ⟨rfl, rfl⟩, sweptTo, _, ⟨hverify, rfl⟩, _, s₁, hevent, _, _, ⟨rfl, rfl⟩, _, _, ⟨-, rfl⟩, rfl⟩ := h
  obtain ⟨events, hlogged, rfl⟩ := appendRecoveryEvent_spec hevent
  exact ⟨sweptTo, events, hverify, hlogged, rfl⟩

theorem completeRecoveryVerify_spec (h : completeRecoveryVerify held cap s = .ok (u, s')) :
    ∃ row sweptTo events, OwnedGate cap [.completePending] s row ∧
      verifyCompletionReady s row = .ok sweptTo ∧ Logged row s.recoveryEvents events ∧
      s' = { s with recovery := none, recoveryEvents := events } := by
  simp only [completeRecoveryVerify, bind_eq_ok] at h
  obtain ⟨row, s₁, hopen, hrelease⟩ := h
  obtain ⟨rfl, hgate⟩ := openOwned_spec hopen
  obtain ⟨sweptTo, events, hverify, hlogged, rfl⟩ := releaseRecovery_spec hrelease
  exact ⟨row, sweptTo, events, hgate, hverify, hlogged, rfl⟩

theorem authorizeRecoveryRelease_spec {operator evidence disposition : String}
    (h : authorizeRecoveryRelease operator evidence disposition s = .ok (u, s')) :
    ∃ row sweptTo events, s.recovery = some row ∧ row.phase = .reconcileRequired ∧
      verifyCompletionReady s row = .ok sweptTo ∧ Logged row s.recoveryEvents events ∧
      s' = { s with recovery := none, recoveryEvents := events } := by
  simp only [authorizeRecoveryRelease, bind_eq_ok] at h
  obtain ⟨row, s₁, hopen, hrelease⟩ := h
  obtain ⟨rfl, hrow, hphase⟩ := openHeld_spec hopen
  obtain ⟨sweptTo, events, hverify, hlogged, rfl⟩ := releaseRecovery_spec hrelease
  exact ⟨row, sweptTo, events, hrow, hphase, hverify, hlogged, rfl⟩

theorem ReplayObservation.row_source {row : DepositObservation} (h : o.row versions lo hi = .ok row) :
    row.toIdentity = o.toIdentity ∧ row.blockNumber = o.blockNumber ∧ lo ≤ row.blockNumber := by
  obtain ⟨hlo, hobs⟩ := ReplayObservation.row_eq_ok h
  obtain ⟨-, hid, hnumber⟩ := DepositMatch.observation_eq_ok hobs
  exact ⟨hid, hnumber, hnumber ▸ hlo⟩

end TxHarbor.Indexer
