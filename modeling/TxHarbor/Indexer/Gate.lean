import TxHarbor.Indexer.Store

open Relational Tx

namespace TxHarbor.Indexer

/-- What a `RecoveryGateError` names. -/
inductive GateRefusal where
  | activeRow (seq : Int)
  | versionDiffers (captured current : Int)
  | noActiveRow
  | foreignRecovery (captured : RecoveryID) (capturedSeq : Int) (active : RecoveryID) (activeSeq : Int)
  | phaseRefused (id : RecoveryID) (phase : RecoveryPhase) (allowed : List RecoveryPhase)
  | ancestorAbsent (number : Int)
  | ancestorDiffers (number : Int) (stored searched : Hash)
  | ancestorDepth (bound ancestor : Int)
  | depthExceeds (depth bound : Int)
  | ancestorRequired (operation : String)
  | frontierGap (stream : RecoveryStream) (frontier lo : Int)
  | outsideRange (what : String) (number lo hi : Int)
  | coverage (lo hi : Int) (canonical : Nat)
  | linkage (lo hi : Int) (dangling : Nat)
  | checkpointGap (height lo : Int)
  | checkpointBoundary
  | notRestored (height : Int) (hash : Hash)
  | noForeignRow (height : Int)
  | reviveMissing
  | revivePending
  | reviveForeign (status : ObservationStatus) (recovery : Option RecoveryID)
  | reviveBlock
  | reviveLog
  | sweptGaps (lo hi : Int) (canonical : Nat)
  | staleEffective (count : Nat)
  | strandedOrphans (count : Nat)
  | frontierShort (stream : RecoveryStream) (frontier sweepEnd : Int)
  | notHeld (operation : String)
  | lostRace (text : String)
  deriving DecidableEq

/-- The classes of an invalid source row that a typed row can still fall into. -/
inductive DepositClass where
  | badTopics
  | badAmount
  deriving DecidableEq

/-- The causes of an upstream gap. -/
inductive GapCause where
  | behindHead
  | belowUpstreamStart
  | assetNotIndexed
  deriving DecidableEq

/-- `depositGap`: waiting helps with the first cause only. -/
structure DepositGap where
  cause : GapCause
  lo : Int
  hi : Int
  deriving DecidableEq

/-- The classes of `logValidationError` that one log can fall into. -/
inductive LogClass where
  | badAddress
  | outOfRange
  | missingField
  | removed
  | badTopics
  | badData
  deriving DecidableEq

/-- What `ErrAuthRejected` is wrapped with: a refusal that leaves every row as it is. -/
inductive AuthRefusal where
  | emptyRequest
  | auditFields
  | noSourceVersion
  | otherIntent (requestID : String)
  | snapshotBlank (what : String)
  | snapshotUnsorted (what : String) (line : Nat)
  | otherIdentity (derived claimed : Hash)
  | emptyChange
  | emptyWhitelist
  | otherWhitelist (derived supplied : Hash)
  | upstreamMissing
  | belowUpstreamStart (replay start : Int)
  | assetNotIndexed (asset : Address)
  | upstreamPaused (stream : String)
  | targetUnmatched (target : PauseTarget)
  | targetNeedsRecovery (pauseID : Int)
  | gapUnreadable (pauseID : Int)
  | gapUncovered (pauseID : Int) (lo hi : Nat) (next : Int)
  | evidenceOpen (pauseID : Int)
  | targetRequired (pauseID : Int)
  | targetReplaced (target live : PauseTarget)
  | identityUnderLock
  | proofUnderLock
  | pauseUnderLock (basis live : Option PauseTarget)
  | upstreamPausedUnderLock (stream : String)
  | targetUnderLock
  | emptyChangeUnderLock
  | pauseUnderDelete (target : PauseTarget)
  | duplicateRace (requestID : String)
  deriving DecidableEq

/-- The errors of the indexer transactions. -/
inductive IndexerError where
  | gate (refusal : GateRefusal)
  | leaseLost
  | paused
  | streamPaused (stream : String)
  | stale
  | hashMismatch (stored actual : Hash)
  | chainView (height : Int) (expected actual : Option Hash)
  | logConflict (id : Identity)
  | depositConfigMismatch
  | depositVersionMismatch
  | depositCoverageLost
  | depositCorruptState
  | depositConflict (id : Identity)
  | confirmationDrift
  | confirmationChainView
  | policyRejected
  | policyDrift
  | upstreamDrift (persisted expected : Hash)
  | gap (gap : DepositGap)
  | depositParse (height logIndex : Int) (cls : DepositClass)
  | logInvalid (height : Int) (cls : LogClass)
  | authRejected (refusal : AuthRefusal)
  | authExpired (expected : Int) (current : Option Int)
  | outboxConflict (id : Identity)
  | nilDereference
  | message (text : String)
  deriving DecidableEq

/-- A body over the indexer tables, run under the chain coordination lock. -/
abbrev IndexerTx := Tx Store IndexerError

/-- `RecoveryCapture`: the version one batch of inputs was read under. Ordinary paths own no
round. -/
structure RecoveryCapture where
  seq : Int
  owned : Option RecoveryID
  deriving DecidableEq

/-- `maxRecoverySeqSQL`. Stored versions are positive, so 0 stands for an empty history. -/
def recoveryEventsMax (s : Store) : Int := s.recoveryEvents.rows.foldl (fun m e => max m e.recoverySeq) 0

/-- `captureRecoveryVersion`: the version, and whether a recovery is active. -/
def captureRecoveryVersion (s : Store) : RecoveryCapture × Bool :=
  match s.recovery with
  | some row => (⟨row.seq, none⟩, true)
  | none => (⟨recoveryEventsMax s, none⟩, false)

def recheckRecoveryGate (cap : RecoveryCapture) (allowed : List RecoveryPhase) : IndexerTx (Option RecoveryRow) := do
  let s ← get
  match cap.owned with
  | none =>
    match s.recovery with
    | some row => throw (.gate (.activeRow row.seq))
    | none =>
      require (recoveryEventsMax s = cap.seq) (.gate (.versionDiffers cap.seq (recoveryEventsMax s)))
      pure none
  | some id =>
    let row ← demand (.gate .noActiveRow) s.recovery
    require (row.recoveryID = id ∧ row.seq = cap.seq) (.gate (.foreignRecovery id cap.seq row.recoveryID row.seq))
    require (row.phase ∈ allowed) (.gate (.phaseRefused row.recoveryID row.phase allowed))
    pure (some row)

/-- `leaseVerdictSQL`, whose answer for the caller's owner and token is `held`. -/
def leaseVerdict (held : Bool) : IndexerTx Unit := require (held = true) .leaseLost

/-- The opening of every transaction a recovery owns: the lease verdict, then the gate. The
caller dereferences the row the gate hands back. -/
def openOwned (held : Bool) (cap : RecoveryCapture) (allowed : List RecoveryPhase) : IndexerTx RecoveryRow := do
  leaseVerdict held
  let row ← recheckRecoveryGate cap allowed
  demand .nilDereference row

/-- `nextRecoveryEventSeqSQL`. -/
def nextEventSeq (s : Store) (id : RecoveryID) : Int :=
  (s.recoveryEvents.rows.filter fun e => e.recoveryID == id).foldl (fun m e => max m e.eventSeq) 0 + 1

/-- `appendRecoveryEvent`, which always carries the version of the active row. -/
def appendRecoveryEvent (row : RecoveryRow) (event : RecoveryEventKind) : IndexerTx Unit := do
  let s ← get
  let events ← demand (.message "insert recovery event")
    (s.recoveryEvents.insert? ⟨row.recoveryID, row.seq, nextEventSeq s row.recoveryID, event, row.seq_range.1⟩)
  set { s with recoveryEvents := events }

/-- An UPDATE of the active row under its identity guard; zero affected rows are a lost race. -/
def updateRecoveryRow (row : RecoveryRow) (change : RecoveryRow → RecoveryRow) (lost : String) : IndexerTx Unit := do
  let s ← get
  let current ← demand (.gate (.lostRace lost)) s.recovery
  require (current.recoveryID = row.recoveryID ∧ current.seq = row.seq) (.gate (.lostRace lost))
  set { s with recovery := some (change current) }

/-- `canonicalHashAtHeightSQL`. -/
def canonicalHashAt (s : Store) (height : Int) : Option Hash :=
  (s.blocks.select fun b => b.number == height && b.canonical).map (·.hash)

variable {cap : RecoveryCapture} {allowed : List RecoveryPhase} {s s' : Store} {row : RecoveryRow}

/-- A passed gate writes nothing, and says who may go on: an ordinary batch whose version is
still current while no recovery is active, or the owner of the active row. -/
theorem recheckRecoveryGate_spec {result : Option RecoveryRow}
    (h : recheckRecoveryGate cap allowed s = .ok (result, s')) :
    s = s' ∧ ((cap.owned = none ∧ result = none ∧ s.recovery = none ∧ recoveryEventsMax s = cap.seq) ∨
        ∃ row, result = some row ∧ s.recovery = some row ∧ cap.owned = some row.recoveryID ∧
          cap.seq = row.seq ∧ row.phase ∈ allowed) := by
  simp only [recheckRecoveryGate, eq_ok] at h
  obtain ⟨_, _, ⟨rfl, rfl⟩, h⟩ := h
  cases howned : cap.owned with
  | none =>
    cases hrow : s.recovery with
    | some row => simp [howned, hrow] at h
    | none =>
      simp only [howned, hrow, eq_ok] at h
      obtain ⟨_, _, ⟨hseq, rfl⟩, rfl, rfl⟩ := h
      exact ⟨rfl, .inl ⟨rfl, rfl, rfl, hseq⟩⟩
  | some id =>
    simp only [howned, eq_ok] at h
    obtain ⟨row, _, ⟨hrow, rfl⟩, _, _, ⟨⟨hid, hseq⟩, rfl⟩, _, _, ⟨hphase, rfl⟩, rfl, rfl⟩ := h
    exact ⟨rfl, .inr ⟨row, rfl, hrow, by rw [hid], hseq.symm, hphase⟩⟩

/-- What a passed gate tells the owner of a round: its row is the active one, unchanged in
identity and version, in an allowed phase. -/
structure OwnedGate (cap : RecoveryCapture) (allowed : List RecoveryPhase) (s : Store) (row : RecoveryRow) : Prop where
  active : s.recovery = some row
  owner : cap.owned = some row.recoveryID
  version : cap.seq = row.seq
  phase : row.phase ∈ allowed

theorem openOwned_spec {held : Bool} (h : openOwned held cap allowed s = .ok (row, s')) :
    s = s' ∧ OwnedGate cap allowed s row := by
  simp only [openOwned, leaseVerdict, eq_ok] at h
  obtain ⟨_, _, ⟨-, rfl⟩, result, s₁, hgate, rfl, rfl⟩ := h
  obtain ⟨rfl, ⟨-, hnone, -⟩ | ⟨row', hsome, hrow, howned, hseq, hphase⟩⟩ := recheckRecoveryGate_spec hgate
  · cases hnone
  · cases hsome
    exact ⟨rfl, hrow, howned, hseq, hphase⟩

/-- The active row of one round at two moments: identity, version and ancestor never change. -/
structure SameRound (row row' : RecoveryRow) : Prop where
  recoveryID : row'.recoveryID = row.recoveryID
  seq : row'.seq = row.seq
  ancestor : row'.ancestor = row.ancestor

instance (row row' : RecoveryRow) : Decidable (SameRound row row') :=
  decidable_of_iff (row'.recoveryID = row.recoveryID ∧ row'.seq = row.seq ∧ row'.ancestor = row.ancestor)
    ⟨fun h => ⟨h.1, h.2.1, h.2.2⟩, fun h => ⟨h.recoveryID, h.seq, h.ancestor⟩⟩

theorem SameRound.refl (row : RecoveryRow) : SameRound row row := ⟨rfl, rfl, rfl⟩

theorem SameRound.trans {a b c : RecoveryRow} (hab : SameRound a b) (hbc : SameRound b c) : SameRound a c :=
  ⟨hbc.recoveryID.trans hab.recoveryID, hbc.seq.trans hab.seq, hbc.ancestor.trans hab.ancestor⟩

theorem RecoveryRow.inPhase_sameRound (row : RecoveryRow) (phase : RecoveryPhase) :
    SameRound row (row.inPhase phase) := ⟨rfl, rfl, rfl⟩

/-- The audit trail gains one row of the given round. -/
def Logged (row : RecoveryRow) (events events' : Table RecoveryEvent) : Prop :=
  ∃ e, events'.rows = events.rows ++ [e] ∧ e.recoverySeq = row.seq

theorem appendRecoveryEvent_spec {event : RecoveryEventKind} {u : Unit}
    (h : appendRecoveryEvent row event s = .ok (u, s')) :
    ∃ events, Logged row s.recoveryEvents events ∧ s' = { s with recoveryEvents := events } := by
  simp only [appendRecoveryEvent, eq_ok] at h
  obtain ⟨_, _, ⟨rfl, rfl⟩, events, _, ⟨hinsert, rfl⟩, rfl⟩ := h
  obtain ⟨-, hrows⟩ := Table.insert?_eq_some hinsert
  exact ⟨events, ⟨_, hrows, rfl⟩, rfl⟩

variable {change : RecoveryRow → RecoveryRow}

theorem updateRecoveryRow_spec {lost : String} {u : Unit} (h : updateRecoveryRow row change lost s = .ok (u, s')) :
    ∃ current, s.recovery = some current ∧ s' = { s with recovery := some (change current) } := by
  simp only [updateRecoveryRow, eq_ok] at h
  obtain ⟨_, _, ⟨rfl, rfl⟩, current, _, ⟨hcurrent, rfl⟩, _, _, ⟨-, rfl⟩, rfl⟩ := h
  exact ⟨current, hcurrent, rfl⟩

theorem updateRecoveryRow_of_active {lost : String} {u : Unit}
    {current : RecoveryRow} (h : updateRecoveryRow row change lost s = .ok (u, s')) (hactive : s.recovery = some current) :
    s' = { s with recovery := some (change current) } := by
  obtain ⟨found, hfound, rfl⟩ := updateRecoveryRow_spec h
  rw [Option.some.inj (hfound.symm.trans hactive)]

theorem OwnedGate.openOwned (h : OwnedGate cap allowed s row) : openOwned true cap allowed s = .ok (row, s) := by
  simp only [Indexer.openOwned, leaseVerdict, recheckRecoveryGate, eq_ok, h.owner]
  exact ⟨(), s, ⟨trivial, rfl⟩, some row, s, ⟨s, s, ⟨rfl, rfl⟩, row, s, ⟨h.active, rfl⟩, (), s,
    ⟨⟨rfl, h.version.symm⟩, rfl⟩, (), s, ⟨h.phase, rfl⟩, rfl, rfl⟩, rfl, rfl⟩

/-- The next event number of a round is free, so the audit trail never refuses a row. -/
theorem appendRecoveryEvent_ok (row : RecoveryRow) (event : RecoveryEventKind) (s : Store) :
    ∃ events, appendRecoveryEvent row event s = .ok ((), { s with recoveryEvents := events }) := by
  cases hinsert : s.recoveryEvents.insert?
      ⟨row.recoveryID, row.seq, nextEventSeq s row.recoveryID, event, row.seq_range.1⟩ with
  | some events =>
    refine ⟨events, ?_⟩
    simp only [appendRecoveryEvent, eq_ok]
    exact ⟨s, s, ⟨rfl, rfl⟩, events, s, ⟨hinsert, rfl⟩, rfl⟩
  | none =>
    obtain ⟨e, he, hclash⟩ := Table.insert?_eq_none hinsert
    simp only [Constrained.clash, Bool.and_eq_true, beq_iff_eq] at hclash
    have hmem : e ∈ s.recoveryEvents.rows.filter fun e => e.recoveryID == row.recoveryID :=
      List.mem_filter.mpr ⟨he, by simp [hclash.1]⟩
    have hle := (Table.le_foldl_max (fun e : RecoveryEvent => e.eventSeq) _ 0).2 e hmem
    have hnext := hclash.2
    unfold nextEventSeq at hnext
    omega

end TxHarbor.Indexer
