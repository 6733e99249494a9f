import TxHarbor.Indexer.Recovery

open Relational Tx

namespace TxHarbor.Indexer

open RecoveryRow

variable {req : EstablishRequest} {row : RecoveryRow} {held : Bool} {s s' : Store} {a : Ancestor}
  {cap : RecoveryCapture} {u : Unit}

variable {id : RecoveryID} {policy : ReorgPolicy} {seq nanos : Int} {confirmed : RecoveryRow}
  {result : Int × Int × Bool} {operator evidence disposition : String}

theorem RecoveryRow.open?_eq_some (h : open? id policy req seq = some row) :
    row.seq = seq ∧ row.phase = .detected ∧ row.ancestor = none ∧ row.blockFrontier = none := by
  unfold open? at h
  split at h
  · cases h
    exact ⟨rfl, rfl, rfl, rfl⟩
  · cases h

/-- Establishing converges on the active row, or opens a round without an ancestor and a frontier, whose version is
above every version the audit trail has seen. -/
theorem establishRecovery_spec {result : EstablishResult} (h : establishRecovery held nanos req s = .ok (result, s')) :
    result.converged = true ∧ s = s' ∨ result.converged = false ∧ s.recovery = none ∧ ∃ policies row events,
        row.seq = recoveryEventsMax s + 1 ∧ (row.phase = .detected ∧ row.ancestor = none ∧ row.blockFrontier = none) ∧
        Logged row s.recoveryEvents events ∧
        s' = { s with reorgPolicies := policies, recovery := some row, recoveryEvents := events } := by
  simp only [establishRecovery, leaseVerdict, eq_ok] at h
  obtain ⟨_, _, ⟨-, rfl⟩, _, _, ⟨-, rfl⟩, _, _, ⟨rfl, rfl⟩, h⟩ := h
  cases hactive : s.recovery with
  | some row =>
    simp only [hactive, pure_eq_ok] at h
    obtain ⟨rfl, rfl⟩ := h
    exact .inl ⟨rfl, rfl⟩
  | none =>
    simp only [hactive, eq_ok, lift_eq_ok] at h
    obtain ⟨⟨policy, policies⟩, _, ⟨-, rfl⟩, row, _, ⟨hopen, rfl⟩, _, _, rfl, _, s₁, hevent, rfl, rfl⟩ := h
    obtain ⟨hseq, hfresh⟩ := open?_eq_some hopen
    obtain ⟨events, hlogged, rfl⟩ := appendRecoveryEvent_spec hevent
    exact .inr ⟨rfl, rfl, policies, row, events, hseq, hfresh, hlogged, rfl⟩

theorem RecoveryRow.confirmAncestor?_eq_some (h : row.confirmAncestor? a = some confirmed) :
    confirmed.seq = row.seq ∧ confirmed.recoveryID = row.recoveryID ∧
      confirmed.phase = .ancestorConfirmed ∧ confirmed.ancestor = some a ∧
      confirmed.blockFrontier = row.blockFrontier := by
  unfold confirmAncestor? at h
  split at h
  · cases h
    exact ⟨rfl, rfl, rfl, rfl, rfl⟩
  · cases h

theorem confirmRecoveryAncestor_spec (h : confirmRecoveryAncestor held cap a s = .ok (u, s')) :
    ∃ row confirmed events, OwnedGate cap [.detected] s row ∧
      (canonicalHashAt s a.number = some a.hash ∧ 0 ≤ a.number) ∧ row.confirmAncestor? a = some confirmed ∧
      Logged row s.recoveryEvents events ∧ s' = { s with recovery := some confirmed, recoveryEvents := events } := by
  simp only [confirmRecoveryAncestor, eq_ok] at h
  obtain ⟨row, s₁, hopen, _, _, ⟨rfl, rfl⟩, stored, _, ⟨hstored, rfl⟩, _, _, ⟨hhash, rfl⟩, _, _,
    ⟨hrange, rfl⟩, _, _, ⟨-, rfl⟩, confirmed, _, ⟨hconfirmed, rfl⟩, _, _, rfl, hevent⟩ := h
  obtain ⟨rfl, hgate⟩ := openOwned_spec hopen
  obtain ⟨events, hlogged, rfl⟩ := appendRecoveryEvent_spec hevent
  exact ⟨row, confirmed, events, hgate, ⟨hhash ▸ hstored, hrange.1⟩, hconfirmed, hlogged, rfl⟩

/-- The rows a sweep of the live range retires: every canonical row above the ancestor. -/
def sweptBlocks (s : Store) (ancestor : Int) : Table ChainBlock :=
  s.blocks.update (ChainBlock.canonicalIn (ancestor + 1) (max (persistedTip s) (ancestor + 1 - 1)))
    ChainBlock.retire ChainBlock.retire_keepsKeys

theorem invalidateRecoveryBlocks_spec {result : Int × Int × Nat}
    (h : invalidateRecoveryBlocks held cap s = .ok (result, s')) :
    ∃ row a events, OwnedGate cap [.ancestorConfirmed, .invalidated] s row ∧ row.ancestor = some a ∧
      Logged row s.recoveryEvents events ∧
      s' = { s with blocks := sweptBlocks s a.number,
                    recovery := some (row.inPhase .invalidated), recoveryEvents := events } := by
  simp only [invalidateRecoveryBlocks, eq_ok] at h
  obtain ⟨row, s₁, hopen, _, _, ⟨rfl, rfl⟩, a, _, ⟨hancestor, rfl⟩, _, _, rfl, _, s₂, hphase, _, s₃,
    hevent, -, rfl⟩ := h
  obtain ⟨rfl, hgate⟩ := openOwned_spec hopen
  obtain rfl := updateRecoveryRow_of_active hphase hgate.active
  obtain ⟨events, hlogged, rfl⟩ := appendRecoveryEvent_spec hevent
  exact ⟨row, a, events, hgate, hancestor, hlogged, rfl⟩

/-- The observations an invalidation leaves: every effective one above the ancestor is orphaned
under the round. -/
def orphanedObservations (s : Store) (ancestor : Int) (id : RecoveryID) : Table DepositObservation :=
  s.observations.update (DepositObservation.effectiveFrom (ancestor + 1))
    (DepositObservation.orphan id) (fun _ _ h => h)

theorem orphanedObservations_rows (s : Store) (ancestor : Int) (id : RecoveryID) :
    (orphanedObservations s ancestor id).rows = s.observations.rows.map fun o =>
      if o.effectiveFrom (ancestor + 1) then o.orphan id else o := rfl

theorem invalidateRecoveryObservations_spec {n : Nat} (h : invalidateRecoveryObservations held cap s = .ok (n, s')) :
    ∃ row a transitions added events, OwnedGate cap [.invalidated] s row ∧ row.ancestor = some a ∧
      transitions.rows = s.transitions.rows ++ added ∧ (∀ t ∈ added, t.toStatus = .orphaned) ∧
      Logged row s.recoveryEvents events ∧
      s' = { s with transitions := transitions,
                    observations := orphanedObservations s a.number row.recoveryID, recoveryEvents := events } := by
  simp only [invalidateRecoveryObservations, eq_ok, lift_eq_ok] at h
  obtain ⟨row, s₁, hopen, _, _, ⟨rfl, rfl⟩, a, _, ⟨hancestor, rfl⟩, ⟨transitions, recorded⟩, _,
    ⟨hinsert, rfl⟩, _, _, ⟨-, rfl⟩, _, _, ⟨-, rfl⟩, _, _, rfl, _, s₂, hevent, -, rfl⟩ := h
  obtain ⟨rfl, hgate⟩ := openOwned_spec hopen
  obtain ⟨added, hrows, -, hadded⟩ := Table.insertBatch_eq_ok hinsert
  obtain ⟨events, hlogged, rfl⟩ := appendRecoveryEvent_spec hevent
  refine ⟨row, a, transitions, added, events, hgate, hancestor, hrows, fun t ht => ?_, hlogged, rfl⟩
  obtain ⟨⟨i, hi, hit⟩, -⟩ := hadded t ht
  obtain ⟨o, -, rfl⟩ := List.mem_map.mp hi
  cases hit
  rfl

/-- A log or deposit rollback moves an existing watermark to its floor and does nothing to a
missing one. -/
theorem rollbackRecoveryCheckpoint_unit_spec {stream : UnitStream}
    (h : rollbackRecoveryCheckpoint held cap stream.stream s = .ok (result, s')) :
    ∃ row a, OwnedGate cap [.invalidated] s row ∧ row.ancestor = some a ∧
      (s.progress stream = none ∧ result.2.2 = false ∧ s = s' ∨
        result.2.2 = true ∧ ∃ c events, s.progress stream = some c ∧ Logged row s.recoveryEvents events ∧
          s' = { s.setProgress stream (c.rollTo a.number) with recoveryEvents := events }) := by
  simp only [rollbackRecoveryCheckpoint, eq_ok] at h
  obtain ⟨row, s₁, hopen, a, _, ⟨hancestor, rfl⟩, h⟩ := h
  obtain ⟨rfl, hgate⟩ := openOwned_spec hopen
  have hunit : rollbackUnitCheckpointTx row a.number stream s = .ok (result, s') := by
    cases stream <;> exact h
  refine ⟨row, a, hgate, hancestor, ?_⟩
  simp only [rollbackUnitCheckpointTx, eq_ok] at hunit
  obtain ⟨_, _, ⟨rfl, rfl⟩, hunit⟩ := hunit
  cases hprogress : s.progress stream with
  | none =>
    simp only [hprogress, pure_eq_ok] at hunit
    obtain ⟨rfl, rfl⟩ := hunit
    exact .inl ⟨rfl, rfl, rfl⟩
  | some c =>
    simp only [hprogress, eq_ok] at hunit
    obtain ⟨_, _, rfl, _, s₂, hevent, rfl, rfl⟩ := hunit
    obtain ⟨events, hlogged, rfl⟩ := appendRecoveryEvent_spec hevent
    refine .inr ⟨rfl, c, events, rfl, ?_, rfl⟩
    cases stream <;> exact hlogged

/-- A header rollback lands on the canonical row of the ancestor, or deletes the checkpoint of a
scan that started above it. -/
theorem rollbackRecoveryCheckpoint_block_spec (h : rollbackRecoveryCheckpoint held cap .block s = .ok (result, s')) :
    ∃ row a, OwnedGate cap [.invalidated] s row ∧ row.ancestor = some a ∧
      (s.checkpoint = none ∧ result.2.2 = false ∧ s = s' ∨
        result.2.2 = true ∧ ∃ c checkpoint events, s.checkpoint = some c ∧ Logged row s.recoveryEvents events ∧
          s' = { s with checkpoint := checkpoint, recoveryEvents := events } ∧
          (a.number + 1 < c.startHeight ∧ checkpoint = none ∨
            c.startHeight ≤ a.number + 1 ∧ ∃ hash, canonicalHashAt s a.number = some hash ∧
              checkpoint = some { c with height := a.number, blockHash := hash })) := by
  simp only [rollbackRecoveryCheckpoint, rollbackBlockCheckpointTx, eq_ok] at h
  obtain ⟨row, s₁, hopen, a, _, ⟨hancestor, rfl⟩, _, _, ⟨rfl, rfl⟩, h⟩ := h
  obtain ⟨rfl, hgate⟩ := openOwned_spec hopen
  refine ⟨row, a, hgate, hancestor, ?_⟩
  cases hcheckpoint : s.checkpoint with
  | none =>
    simp only [hcheckpoint, pure_eq_ok] at h
    obtain ⟨rfl, rfl⟩ := h
    exact .inl ⟨rfl, rfl, rfl⟩
  | some c =>
    simp only [hcheckpoint, ite_apply_eq_ok, eq_ok] at h
    rcases h with ⟨hstart, hash, _, ⟨hhash, rfl⟩, _, _, rfl, _, s₂, hevent, rfl, rfl⟩ |
      ⟨hstart, _, _, rfl, _, s₂, hevent, rfl, rfl⟩
    · obtain ⟨events, hlogged, rfl⟩ := appendRecoveryEvent_spec hevent
      exact .inr ⟨rfl, c, _, events, rfl, hlogged, rfl, .inr ⟨hstart, hash, hhash, rfl⟩⟩
    · obtain ⟨events, hlogged, rfl⟩ := appendRecoveryEvent_spec hevent
      exact .inr ⟨rfl, c, none, events, rfl, hlogged, rfl, .inl ⟨by omega, rfl⟩⟩

/-- A reconcile signal holds the active round, or finds none and does nothing. -/
theorem signalRecoveryReconcile_spec {commits : Bool} (h : signalRecoveryReconcile held cap s = .ok (commits, s')) :
    commits = false ∧ s = s' ∨ commits = true ∧ ∃ row events,
      OwnedGate cap [.detected, .ancestorConfirmed, .invalidated, .replaying, .completePending] s row ∧
      Logged row s.recoveryEvents events ∧
      s' = { s with recovery := some (row.inPhase .reconcileRequired),
                    recoveryEvents := events } := by
  simp only [signalRecoveryReconcile, leaseVerdict, eq_ok, ite_apply_eq_ok] at h
  obtain ⟨_, _, ⟨-, rfl⟩, _, _, ⟨rfl, rfl⟩, h⟩ := h
  rcases h with ⟨-, rfl, rfl⟩ | ⟨-, gate, s₁, hgate, row, _, ⟨rfl, rfl⟩, _, s₂, hphase, _, s₃, hevent, rfl, rfl⟩
  · exact .inl ⟨rfl, rfl⟩
  · obtain ⟨rfl, ⟨-, hnone, -⟩ | ⟨row', hsome, hrow, howned, hseq, hallowed⟩⟩ := recheckRecoveryGate_spec hgate
    · cases hnone
    · cases hsome
      obtain rfl := updateRecoveryRow_of_active hphase hrow
      obtain ⟨events, hlogged, rfl⟩ := appendRecoveryEvent_spec hevent
      exact .inr ⟨rfl, row, events, ⟨hrow, howned, hseq, hallowed⟩, hlogged, rfl⟩

theorem noteRecoveryEvidence_spec (h : noteRecoveryEvidence held cap s = .ok (u, s')) :
    ∃ row events, s.recovery = some row ∧ Logged row s.recoveryEvents events ∧
      s' = { s with recoveryEvents := events } := by
  simp only [noteRecoveryEvidence, bind_eq_ok] at h
  obtain ⟨row, s₁, hopen, hevent⟩ := h
  obtain ⟨rfl, hgate⟩ := openOwned_spec hopen
  obtain ⟨events, hlogged, rfl⟩ := appendRecoveryEvent_spec hevent
  exact ⟨row, events, hgate.active, hlogged, rfl⟩

theorem openHeld_spec {operation : String} (h : openHeld operation operator evidence disposition s = .ok (row, s')) :
    s = s' ∧ s.recovery = some row ∧ row.phase = .reconcileRequired := by
  simp only [openHeld, eq_ok] at h
  obtain ⟨_, _, ⟨-, rfl⟩, _, _, ⟨rfl, rfl⟩, _, _, ⟨hrow, rfl⟩, _, _, ⟨hphase, rfl⟩, rfl, rfl⟩ := h
  exact ⟨rfl, hrow, hphase⟩

theorem authorizeRecoveryRepair_spec (h : authorizeRecoveryRepair operator evidence disposition s = .ok (u, s')) :
    ∃ row events, s.recovery = some row ∧ Logged row s.recoveryEvents events ∧
      s' = { s with recoveryEvents := events } := by
  simp only [authorizeRecoveryRepair, bind_eq_ok] at h
  obtain ⟨row, s₁, hopen, hevent⟩ := h
  obtain ⟨rfl, hrow, -⟩ := openHeld_spec hopen
  obtain ⟨events, hlogged, rfl⟩ := appendRecoveryEvent_spec hevent
  exact ⟨row, events, hrow, hlogged, rfl⟩

end TxHarbor.Indexer
