import TxHarbor.Indexer.World

open Relational Tx

namespace TxHarbor.Indexer

/-- Everything a committed transaction of the indexer can have done to the store. -/
inductive Committed (s : Store) : Call → Store → Prop where
  | header {startHeight : Int} {held : Bool} {w : BlockWrite} {cap : RecoveryCapture}
      (gate : OrdinaryGate cap s) (blocks : Table ChainBlock) (checkpoint : BlockCheckpoint)
      (advance : w.advance startHeight s.checkpoint = some checkpoint)
      (rows : blocks = s.blocks ∨ blocks.rows = s.blocks.rows ++ [⟨w.number, w.hash, w.parent, true⟩]) :
      Committed s (.commitBlock startHeight held w cap) { s with blocks := blocks, checkpoint := some checkpoint }
  | logs {cfg : StreamConfig} {held : Bool} {range : HeightRange} {first : Bool}
      {coverage : Int → Option Hash} {rows : List TransferLog} {cap : RecoveryCapture}
      (gate : OrdinaryGate cap s) (logs : Table TransferLog) (checkpoint : StreamCheckpoint)
      (added : List TransferLog) (advance : range.advance cfg first s.logCheckpoint = some checkpoint)
      (grown : logs.rows = s.logs.rows ++ added) :
      Committed s (.commitLogRange cfg held range first coverage rows cap)
        { s with logs := logs, logCheckpoint := some checkpoint }
  | deposits {cfg : DepositConfig} {upstreamHash : Hash} {held : Bool} {batch : DepositBatch}
      {captured : Option DepositProgress} {range : HeightRange} {cap : RecoveryCapture}
      (gate : OrdinaryGate cap s) (versions : Table DepositVersion)
      (observations : Table DepositObservation) (checkpoint : StreamCheckpoint)
      (added : List DepositObservation)
      (advance : range.advance cfg.toStreamConfig captured.isNone s.depositCheckpoint = some checkpoint)
      (grown : observations.rows = s.observations.rows ++ added)
      (pending : ∀ o ∈ added, o.status = .pending) :
      Committed s (.commitDepositUnit cfg upstreamHash held batch captured range cap)
        { s with versions := versions, observations := observations,
                 depositCheckpoint := some checkpoint }
  | confirmation {thresholdN : Nat} {held : Bool} {basis : ConfirmBasis} {cap : RecoveryCapture}
      (gate : OrdinaryGate cap s) (policies : Table ConfirmationPolicy) (confirmed : ConfirmedBasis) :
      Committed s (.confirmDepositUnit thresholdN held basis cap)
        { s with confirmationPolicies := policies,
                 observations := s.observations.update (DepositObservation.pendingAt basis.toIdentity)
                   (DepositObservation.confirm confirmed) (fun _ _ h => h) }
  | established {held : Bool} {nanos : Int} {req : EstablishRequest} (idle : s.recovery = none)
      (policies : Table ReorgPolicy) (row : RecoveryRow) (events : Table RecoveryEvent)
      (version : row.seq = recoveryEventsMax s + 1) (phase : row.phase = .detected)
      (logged : Logged row s.recoveryEvents events) :
      Committed s (.establish held nanos req)
        { s with reorgPolicies := policies, recovery := some row, recoveryEvents := events }
  | ancestorConfirmed {held : Bool} {cap : RecoveryCapture} {a : Ancestor} (row confirmed : RecoveryRow)
      (events : Table RecoveryEvent) (gate : OwnedGate cap [.detected] s row)
      (canonical : canonicalHashAt s a.number = some a.hash)
      (change : row.confirmAncestor? a = some confirmed)
      (logged : Logged row s.recoveryEvents events) :
      Committed s (.confirmAncestor held cap a) { s with recovery := some confirmed, recoveryEvents := events }
  | blocksInvalidated {held : Bool} {cap : RecoveryCapture} (row : RecoveryRow) (a : Ancestor)
      (events : Table RecoveryEvent) (gate : OwnedGate cap [.ancestorConfirmed, .invalidated] s row)
      (ancestor : row.ancestor = some a) (logged : Logged row s.recoveryEvents events) :
      Committed s (.invalidateBlocks held cap)
        { s with blocks := sweptBlocks s a.number, recovery := some (row.inPhase .invalidated),
                 recoveryEvents := events }
  | observationsInvalidated {held : Bool} {cap : RecoveryCapture} (row : RecoveryRow) (a : Ancestor)
      (transitions : Table ObservationTransition) (added : List ObservationTransition)
      (events : Table RecoveryEvent) (gate : OwnedGate cap [.invalidated] s row)
      (ancestor : row.ancestor = some a) (grown : transitions.rows = s.transitions.rows ++ added)
      (orphaning : ∀ t ∈ added, t.toStatus = .orphaned)
      (logged : Logged row s.recoveryEvents events) :
      Committed s (.invalidateObservations held cap)
        { s with transitions := transitions,
                 observations := orphanedObservations s a.number row.recoveryID,
                 recoveryEvents := events }
  | blockRolledBack {held : Bool} {cap : RecoveryCapture} (row : RecoveryRow) (a : Ancestor)
      (c : BlockCheckpoint) (checkpoint : Option BlockCheckpoint) (events : Table RecoveryEvent)
      (gate : OwnedGate cap [.invalidated] s row) (ancestor : row.ancestor = some a)
      (current : s.checkpoint = some c)
      (floor : a.number + 1 < c.startHeight ∧ checkpoint = none ∨
        c.startHeight ≤ a.number + 1 ∧ ∃ hash, canonicalHashAt s a.number = some hash ∧
          checkpoint = some { c with height := a.number, blockHash := hash })
      (logged : Logged row s.recoveryEvents events) :
      Committed s (.rollback held cap .block) { s with checkpoint := checkpoint, recoveryEvents := events }
  | unitRolledBack {held : Bool} {cap : RecoveryCapture} (stream : UnitStream) (row : RecoveryRow)
      (a : Ancestor) (c : StreamCheckpoint) (events : Table RecoveryEvent)
      (gate : OwnedGate cap [.invalidated] s row) (ancestor : row.ancestor = some a)
      (current : s.progress stream = some c) (logged : Logged row s.recoveryEvents events) :
      Committed s (.rollback held cap stream.stream)
        { s.setProgress stream (c.rollTo a.number) with recoveryEvents := events }
  | replayed {held : Bool} {cap : RecoveryCapture} {stream : RecoveryStream} {lo hi : Int}
      {blocks : List ReplayBlock} {logs : List TransferLog} {observations : List ReplayObservation}
      (row row' : RecoveryRow) (events : Table RecoveryEvent) (s₁ s₂ : Store)
      (gate : OwnedGate cap [.invalidated, .replaying] s row) (ordered : lo ≤ hi)
      (rows : ReplayedRows s lo hi blocks stream s₁)
      (covered : (countCanonicalRange s₁ lo hi : Int) = hi - lo + 1)
      (progress : ReplayedProgress { s₁ with recovery := some (row.setFrontier stream hi) } lo hi stream s₂)
      (round : SameRound row row')
      (phase : row'.phase ∈ [RecoveryPhase.replaying, .completePending])
      (logged : Logged row s.recoveryEvents events) :
      Committed s (.replayRange held cap stream lo hi blocks logs observations)
        { s₂ with recovery := some row', recoveryEvents := events }
  | recanonicalized {held : Bool} {cap : RecoveryCapture} {height : Int} {oldHash : Hash}
      (row : RecoveryRow) (blocks : Table ChainBlock) (events : Table RecoveryEvent)
      (gate : OwnedGate cap [.invalidated, .replaying] s row)
      (rows : blocks.rows = s.blocks.rows.map (recanonicalized height oldHash))
      (retired : ∃ b ∈ s.blocks.rows, b.retiredAt height oldHash = true)
      (logged : Logged row s.recoveryEvents events) :
      Committed s (.recanonicalize held cap height oldHash) { s with blocks := blocks, recoveryEvents := events }
  | revived {held : Bool} {cap : RecoveryCapture} {id : Identity} (row : RecoveryRow)
      (o : DepositObservation) (transitions : Table ObservationTransition)
      (events : Table RecoveryEvent) (gate : OwnedGate cap [.invalidated, .replaying] s row)
      (target : Revivable s row id o)
      (grown : transitions.rows = s.transitions.rows ++ [revivalTransition id row.recoveryID])
      (logged : Logged row s.recoveryEvents events) :
      Committed s (.revive held cap id)
        { s with transitions := transitions,
                 observations := revivedObservations s id row.recoveryID, recoveryEvents := events }
  | signalled {held : Bool} {cap : RecoveryCapture} (row : RecoveryRow) (events : Table RecoveryEvent)
      (gate : OwnedGate cap [.detected, .ancestorConfirmed, .invalidated, .replaying, .completePending] s row)
      (logged : Logged row s.recoveryEvents events) :
      Committed s (.signalReconcile held cap)
        { s with recovery := some (row.inPhase .reconcileRequired), recoveryEvents := events }
  | audited {call : Call} (note : (∃ held cap, call = .note held cap) ∨
        ∃ operator evidence disposition, call = .authorizeRepair operator evidence disposition)
      (row : RecoveryRow) (events : Table RecoveryEvent) (active : s.recovery = some row)
      (logged : Logged row s.recoveryEvents events) :
      Committed s call { s with recoveryEvents := events }
  | released {call : Call} (release : (∃ held cap, call = .complete held cap) ∨
        ∃ operator evidence disposition, call = .authorizeRelease operator evidence disposition)
      (row : RecoveryRow) (sweptTo : Int) (events : Table RecoveryEvent)
      (active : s.recovery = some row)
      (phase : row.phase ∈ [RecoveryPhase.completePending, .reconcileRequired])
      (verified : verifyCompletionReady s row = .ok sweptTo)
      (logged : Logged row s.recoveryEvents events) :
      Committed s call { s with recovery := none, recoveryEvents := events }

variable {s s' : Store} {call : Call}

theorem rollback_committed {held : Bool} {cap : RecoveryCapture} {stream : RecoveryStream}
    {result : Int × Int × Bool} (h : rollbackRecoveryCheckpoint held cap stream s = .ok (result, s'))
    (hcommits : result.2.2 = true) : Committed s (.rollback held cap stream) s' := by
  have hunit : ∀ u : UnitStream, stream = u.stream → Committed s (.rollback held cap stream) s' := by
    rintro u rfl
    obtain ⟨row, a, hgate, hancestor, ⟨-, hfalse, -⟩ | ⟨-, c, events, hcurrent, hlogged, rfl⟩⟩ :=
      rollbackRecoveryCheckpoint_unit_spec h
    · simp [hcommits] at hfalse
    · exact .unitRolledBack u row a c events hgate hancestor hcurrent hlogged
  cases stream with
  | log => exact hunit .log rfl
  | deposit => exact hunit .deposit rfl
  | block =>
    obtain ⟨row, a, hgate, hancestor, ⟨-, hfalse, -⟩ |
      ⟨-, c, checkpoint, events, hcurrent, hlogged, rfl, hfloor⟩⟩ := rollbackRecoveryCheckpoint_block_spec h
    · simp [hcommits] at hfalse
    · exact .blockRolledBack row a c checkpoint events hgate hancestor hcurrent hfloor hlogged

/-- A body that reaches its COMMIT has done one of these things. -/
theorem Call.body_committed (h : call.body s = .ok (true, s')) : Committed s call s' := by
  cases call with
  | commitBlock startHeight held w cap =>
    obtain ⟨hgate, -, blocks, checkpoint, rfl, hadvance, hrows⟩ := commitBlock_spec (of_committing h)
    exact .header hgate blocks checkpoint hadvance hrows
  | commitLogRange cfg held range first coverage rows cap =>
    obtain ⟨hgate, -, logs, checkpoint, rfl, hadvance, added, hgrown, -⟩ := commitLogRange_spec (of_committing h)
    exact .logs hgate logs checkpoint added hadvance hgrown
  | commitDepositUnit cfg upstreamHash held batch captured range cap =>
    obtain ⟨-, versions, observations, checkpoint, rfl, hunit⟩ := commitDepositUnit_committed (of_committing h)
    obtain ⟨added, hgrown, hpending⟩ := hunit.grown
    exact .deposits hunit.gate versions observations checkpoint added hunit.advance hgrown fun o ho => (hpending o ho).1
  | confirmDepositUnit thresholdN held basis cap =>
    obtain ⟨hgate, ⟨hfalse, -⟩ | ⟨policies, confirmed, rfl⟩⟩ := confirmDepositUnit_spec h
    · cases hfalse
    · exact .confirmation hgate policies confirmed
  | establish held nanos req =>
    simp only [Call.body, eq_ok] at h
    obtain ⟨result, s₁, hbody, hnew, rfl⟩ := h
    obtain ⟨hconverged, -⟩ | ⟨-, hidle, policies, row, events, hseq, ⟨hphase, -⟩, hlogged, rfl⟩ :=
      establishRecovery_spec hbody
    · simp [hconverged] at hnew
    · exact .established hidle policies row events hseq hphase hlogged
  | confirmAncestor held cap a =>
    obtain ⟨row, confirmed, events, hgate, ⟨hcanonical, -⟩, hchange, hlogged, rfl⟩ :=
      confirmRecoveryAncestor_spec (of_committing h)
    exact .ancestorConfirmed row confirmed events hgate hcanonical hchange hlogged
  | invalidateBlocks held cap =>
    obtain ⟨-, u, hbody⟩ := committing_eq_ok h
    obtain ⟨row, a, events, hgate, hancestor, hlogged, rfl⟩ := invalidateRecoveryBlocks_spec hbody
    exact .blocksInvalidated row a events hgate hancestor hlogged
  | invalidateObservations held cap =>
    obtain ⟨-, u, hbody⟩ := committing_eq_ok h
    obtain ⟨row, a, transitions, added, events, hgate, hancestor, hgrown, horphaning, hlogged, rfl⟩ :=
      invalidateRecoveryObservations_spec hbody
    exact .observationsInvalidated row a transitions added events hgate hancestor hgrown horphaning hlogged
  | rollback held cap stream =>
    simp only [Call.body, eq_ok] at h
    obtain ⟨result, s₁, hbody, hcommits, rfl⟩ := h
    exact rollback_committed hbody hcommits
  | replayRange held cap stream lo hi blocks logs observations =>
    obtain ⟨hfalse, -⟩ | ⟨-, hordered, row, row', events, s₁, s₂, hgate, hrows, hcovered, hprogress,
      hround, hphase, hlogged, rfl⟩ := replayRecoveryRange_spec h
    · cases hfalse
    · exact .replayed row row' events s₁ s₂ hgate hordered hrows hcovered hprogress hround hphase hlogged
  | recanonicalize held cap height oldHash =>
    obtain ⟨row, blocks, events, hgate, hrows, hretired, hlogged, rfl⟩ :=
      recanonicalizeRecoveryBlock_spec (of_committing h)
    exact .recanonicalized row blocks events hgate hrows hretired hlogged
  | revive held cap id =>
    obtain ⟨hfalse, -⟩ | ⟨-, row, o, transitions, events, hgate, htarget, hgrown, hlogged, rfl⟩ :=
      reviveRecoveryObservation_spec h
    · cases hfalse
    · exact .revived row o transitions events hgate htarget hgrown hlogged
  | complete held cap =>
    obtain ⟨row, sweptTo, events, hgate, hverified, hlogged, rfl⟩ := completeRecoveryVerify_spec (of_committing h)
    have hphase : row.phase = .completePending := List.mem_singleton.mp hgate.phase
    exact .released (.inl ⟨held, cap, rfl⟩) row sweptTo events hgate.active (by simp [hphase]) hverified hlogged
  | signalReconcile held cap =>
    obtain ⟨hfalse, -⟩ | ⟨-, row, events, hgate, hlogged, rfl⟩ := signalRecoveryReconcile_spec h
    · cases hfalse
    · exact .signalled row events hgate hlogged
  | note held cap =>
    obtain ⟨row, events, hactive, hlogged, rfl⟩ := noteRecoveryEvidence_spec (of_committing h)
    exact .audited (.inl ⟨held, cap, rfl⟩) row events hactive hlogged
  | authorizeRepair operator evidence disposition =>
    obtain ⟨row, events, hactive, hlogged, rfl⟩ := authorizeRecoveryRepair_spec (of_committing h)
    exact .audited (.inr ⟨operator, evidence, disposition, rfl⟩) row events hactive hlogged
  | authorizeRelease operator evidence disposition =>
    obtain ⟨row, sweptTo, events, hactive, hphase, hverified, hlogged, rfl⟩ :=
      authorizeRecoveryRelease_spec (of_committing h)
    exact .released (.inr ⟨operator, evidence, disposition, rfl⟩) row sweptTo events hactive
      (by simp [hphase]) hverified hlogged

/-- A committed call changes stored observations without changing their identities, and adds pending
ones. -/
theorem Committed.observations (h : Committed s call s') :
    ∃ (change : DepositObservation → DepositObservation) (added : List DepositObservation),
      s'.observations.rows = s.observations.rows.map change ++ added ∧
        (∀ o, (change o).toIdentity = o.toIdentity) ∧ ∀ o ∈ added, o.status = .pending := by
  have hkept : s'.observations = s.observations → ∃ (change : DepositObservation → DepositObservation)
      (added : List DepositObservation), s'.observations.rows = s.observations.rows.map change ++ added ∧
        (∀ o, (change o).toIdentity = o.toIdentity) ∧ ∀ o ∈ added, o.status = .pending :=
    fun heq => ⟨id, [], by simp [heq], fun _ => rfl, by simp⟩
  cases h with
  | deposits gate versions observations checkpoint added advance grown pending =>
    exact ⟨id, added, by simp [grown], fun _ => rfl, pending⟩
  | confirmation gate policies confirmed =>
    exact ⟨_, [], (List.append_nil _).symm, fun o => by split <;> rfl, by simp⟩
  | observationsInvalidated row a transitions added events gate ancestor grown orphaning logged =>
    exact ⟨_, [], by rw [orphanedObservations_rows, List.append_nil], fun o => by split <;> rfl, by simp⟩
  | revived row o transitions events gate target grown logged =>
    exact ⟨_, [], by rw [revivedObservations_rows, List.append_nil], fun o => by split <;> rfl, by simp⟩
  | replayed row row' events s₁ s₂ gate ordered rows covered progress =>
    have hsame : s₂.observations = s₁.observations := by
      cases progress with
      | block => rfl
      | unit u => cases u <;> rfl
    cases rows with
    | block | log => exact hkept (by simp [hsame])
    | deposit observations added grown pending =>
      exact ⟨id, added, by simp [hsame, grown], fun _ => rfl, pending⟩
  | unitRolledBack stream => cases stream <;> exact hkept rfl
  | _ => exact hkept rfl

/-- Whatever the environment does to it, a submitted call leaves the store alone or commits. -/
theorem Store.submit_cases (s : Store) (call : Call) (fault : Fault IndexerError) :
    s.next (.submit call fault) = s ∨ Committed s call (s.next (.submit call fault)) := by
  rcases s.next_submit call fault with hsame | ⟨s', hbody, hnew⟩
  · exact .inl hsame
  · rw [hnew]
    exact .inr (Call.body_committed hbody)

end TxHarbor.Indexer
