import TxHarbor.Indexer.Commit

open Relational Constrained Tx List

namespace TxHarbor.Indexer

open Table DepositProgress

/-- What a passed gate tells an ordinary batch: no recovery is active, and none has been
established since the batch captured its version. -/
structure OrdinaryGate (cap : RecoveryCapture) (s : Store) : Prop where
  ordinary : cap.owned = none
  idle : s.recovery = none
  current : recoveryEventsMax s = cap.seq

variable {cap : RecoveryCapture} {s s' : Store} {range : HeightRange} {u : Unit} {held first : Bool}
  {cfg : DepositConfig} {captured : Option DepositProgress}

/-- A batch that names no allowed phase passes as an ordinary one or not at all. -/
theorem recheckRecoveryGate_nil {result : Option RecoveryRow} (h : recheckRecoveryGate cap [] s = .ok (result, s')) :
    s = s' ∧ OrdinaryGate cap s := by
  obtain ⟨rfl, ⟨howned, -, hidle, hcurrent⟩ | ⟨row, -, -, -, -, hphase⟩⟩ := recheckRecoveryGate_spec h
  · exact ⟨rfl, howned, hidle, hcurrent⟩
  · exact absurd hphase not_mem_nil

theorem OrdinaryGate.passes (h : OrdinaryGate cap s) : recheckRecoveryGate cap [] s = .ok (none, s) := by
  simp only [recheckRecoveryGate, h.ordinary, eq_ok]
  refine ⟨s, s, ⟨rfl, rfl⟩, ?_⟩
  simp only [h.idle, eq_ok]
  exact ⟨(), s, ⟨h.current, rfl⟩, trivial, rfl⟩

theorem readjudicateRange_spec {observed : Int → Option Hash} (h : readjudicateRange range observed s = .ok (u, s')) :
    s = s' ∧ ∀ n ∈ range.heights, (canonicalHashAt s n).isSome ∧ canonicalHashAt s n = observed n := by
  simp only [readjudicateRange, eq_ok, refuse_eq_ok] at h
  obtain ⟨_, _, ⟨rfl, rfl⟩, hview, rfl⟩ := h
  refine ⟨rfl, fun n hn => ?_⟩
  have hsame := find?_eq_none.mp hview n hn
  simpa only [Bool.not_eq_true, Bool.not_eq_false', Bool.and_eq_true, beq_iff_eq] using hsame

/-- What a committed header leaves of the stored rows: its own is stored, under a fresh hash where
it is a new one. -/
structure Headed (s : Store) (w : BlockWrite) (s' : Store) : Prop where
  observations : s'.observations = s.observations
  recovery : s'.recovery = s.recovery
  grown : ∀ b ∈ s.blocks.rows, b ∈ s'.blocks.rows
  added : ∀ b ∈ s'.blocks.rows, b ∈ s.blocks.rows ∨
    b = ⟨w.number, w.hash, w.parent, true⟩ ∧ ∀ r ∈ s.blocks.rows, r.hash ≠ w.hash
  present : ∃ b ∈ s'.blocks.rows, b.number = w.number ∧ b.hash = w.hash

/-- A header commit passes the gate, adds at most its own canonical row and moves the checkpoint
by its exact guard. -/
theorem commitBlock_spec {startHeight : Int} {w : BlockWrite} (h : commitBlock startHeight held w cap s = .ok (u, s')) :
    OrdinaryGate cap s ∧ (Headed s w s' ∧ (w.first = true → w.number = startHeight)) ∧ ∃ blocks checkpoint,
      s' = { s with blocks := blocks, checkpoint := some checkpoint } ∧
      w.advance startHeight s.checkpoint = some checkpoint ∧
      (blocks = s.blocks ∨ blocks.rows = s.blocks.rows ++ [⟨w.number, w.hash, w.parent, true⟩]) := by
  simp only [commitBlock, leaseVerdict, eq_ok] at h
  obtain ⟨_, _, ⟨hfirst, rfl⟩, _, _, ⟨rfl, rfl⟩, _, _, ⟨-, rfl⟩, _, _, ⟨-, rfl⟩, _, s₁, hgate, h⟩ := h
  obtain ⟨rfl, hopen⟩ := recheckRecoveryGate_nil hgate
  obtain ⟨checkpoint, _, ⟨hadvance, rfl⟩, ⟨blocks, new⟩, _, ⟨hinsert, rfl⟩, _, _, ⟨-, rfl⟩, rfl⟩ := h
  rcases insertNew?_eq_some hinsert with ⟨-, rfl, b, hb, hkey⟩ | ⟨-, hrows, hfree, -⟩
  · simp only [Bool.and_eq_true, beq_iff_eq] at hkey
    exact ⟨hopen, ⟨⟨rfl, rfl, fun b hb => hb, fun b hb => .inl hb, b, hb, hkey⟩, hfirst⟩, _, checkpoint, rfl, hadvance,
      .inl rfl⟩
  · have hfresh : ∀ r ∈ s.blocks.rows, r.hash ≠ w.hash := by
      intro r hr heq
      have hclash := hfree r hr
      simp [clash, heq] at hclash
    refine ⟨hopen, ⟨⟨rfl, rfl, fun b hb => ?_, fun b hb => ?_, ⟨w.number, w.hash, w.parent, true⟩, ?_, rfl, rfl⟩, hfirst⟩,
      blocks, checkpoint, rfl, hadvance, .inr hrows⟩
    · exact hrows ▸ mem_append_left _ hb
    · change b ∈ blocks.rows at hb
      rw [hrows, mem_append, mem_singleton] at hb
      exact hb.imp_right fun heq => ⟨heq, hfresh⟩
    · change _ ∈ blocks.rows
      rw [hrows]
      simp

theorem StreamCheckpoint.moveTo?_eq_some {c moved : StreamCheckpoint} {n : Int} (h : c.moveTo? n = some moved) :
    moved.startBlock = c.startBlock ∧ moved.configHash = c.configHash ∧ moved.nextBlock = n := by
  unfold StreamCheckpoint.moveTo? at h
  split at h
  · cases h
    exact ⟨rfl, rfl, rfl⟩
  · cases h

/-- The watermark a unit leaves, and where it stood before. -/
theorem HeightRange.advance_eq_some {r : HeightRange} {cfg : StreamConfig} {progress : Option StreamCheckpoint}
    {moved : StreamCheckpoint} (h : r.advance cfg first progress = some moved) :
    moved.nextBlock = r.hi + 1 ∧ (progress = none ∧ moved.startBlock = r.lo ∨
      ∃ c, progress = some c ∧ c.nextBlock = r.lo ∧ c.startBlock = moved.startBlock) := by
  cases progress with
  | none =>
    simp only [HeightRange.advance] at h
    split at h
    · cases h
      exact ⟨rfl, .inl ⟨rfl, rfl⟩⟩
    · cases h
  | some c =>
    simp only [HeightRange.advance] at h
    split at h
    · next hguard =>
      obtain ⟨hstart, -, hnext⟩ := StreamCheckpoint.moveTo?_eq_some h
      exact ⟨hnext, .inr ⟨c, rfl, hguard.2.2.2, hstart.symm⟩⟩
    · cases h

/-- A log range commit passes the gate, has found every height canonical, stores its rows and no others, and moves the
watermark over exactly its range. -/
theorem commitLogRange_spec {cfg : StreamConfig} {coverage : Int → Option Hash} {rows : List TransferLog}
    (h : commitLogRange cfg held range first coverage rows cap s = .ok (u, s')) :
    OrdinaryGate cap s ∧ (∀ n ∈ range.heights, (canonicalHashAt s n).isSome) ∧ ∃ logs checkpoint,
      s' = { s with logs := logs, logCheckpoint := some checkpoint } ∧
      range.advance cfg first s.logCheckpoint = some checkpoint ∧
      ∃ added, logs.rows = s.logs.rows ++ added ∧ (∀ row ∈ added, row ∈ rows) ∧ ∀ row ∈ rows, row ∈ logs.rows := by
  simp only [commitLogRange, leaseVerdict, eq_ok] at h
  obtain ⟨_, _, ⟨rfl, rfl⟩, _, _, ⟨-, rfl⟩, _, _, ⟨-, rfl⟩, _, _, ⟨-, rfl⟩, _, s₁, hgate, h⟩ := h
  obtain ⟨rfl, hopen⟩ := recheckRecoveryGate_nil hgate
  simp only [lift_eq_ok, refuse_eq_ok] at h
  obtain ⟨checkpoint, _, ⟨hadvance, rfl⟩, _, s₂, hview, ⟨logs, n⟩, _, ⟨hinsert, rfl⟩, _, _, ⟨hstored, rfl⟩, rfl⟩ := h
  obtain ⟨rfl, hcanonical⟩ := readjudicateRange_spec hview
  obtain ⟨added, hrows, -, hadded⟩ := insertBatch_eq_ok hinsert
  refine ⟨hopen, fun n hn => (hcanonical n hn).1, logs, checkpoint, rfl, hadvance, added, hrows, fun row hrow => ?_,
    fun row hrow => ?_⟩
  · obtain ⟨⟨i, hi, heq⟩, -⟩ := hadded row hrow
    cases heq
    exact hi
  · simpa using find?_eq_none.mp hstored row hrow

/-- The rows a batch of matches adds are pending observations of those matches. -/
theorem insertObservations_spec {t t' : Table DepositObservation}
    {rows : List (Except IndexerError DepositObservation)} {n : Nat} (h : insertObservations t rows = .ok (t', n)) :
    ∃ added, t'.rows = t.rows ++ added ∧ ∀ o ∈ added, .ok o ∈ rows ∧ ∀ r ∈ t.rows, r.toIdentity ≠ o.toIdentity := by
  obtain ⟨added, hrows, -, hadded⟩ := insertBatch_eq_ok h
  refine ⟨added, hrows, fun o ho => ?_⟩
  obtain ⟨⟨i, hi, hio⟩, hfree⟩ := hadded o ho
  have hi' : i = .ok o := hio
  refine ⟨hi' ▸ hi, fun r hr heq => ?_⟩
  have hclash := hfree r hr
  simp [clash, heq] at hclash

theorem DepositMatch.observation_eq_ok {m : DepositMatch} {versionSeq : Int} {o : DepositObservation}
    (h : m.observation versionSeq = .ok o) :
    o.status = .pending ∧ o.toIdentity = m.toIdentity ∧ o.blockNumber = m.blockNumber := by
  unfold DepositMatch.observation at h
  split at h
  · cases h
    exact ⟨rfl, rfl, rfl⟩
  · cases h

theorem readProgress_eq_none (h : readProgress s = .ok none) : s.depositCheckpoint = none ∧ s.versions.rows = [] := by
  unfold readProgress at h
  split at h
  next hc hv =>
    refine ⟨hc, eq_nil_iff_forall_not_mem.mpr fun v hmem => ?_⟩
    simpa using latest_eq_none hv v hmem
  · split at h <;> cases h
  · cases h

theorem readProgress_eq_some {p : DepositProgress} (h : readProgress s = .ok (some p)) :
    s.depositCheckpoint = some p.checkpoint ∧
      ∃ v, s.versions.latest (fun _ => true) (·.versionSeq) = some v ∧ v.versionSeq = p.versionSeq ∧
        v.startBlock = p.checkpoint.startBlock ∧ v.configHash = p.checkpoint.configHash := by
  unfold readProgress at h
  split at h
  · cases h
  next c v hc hv =>
    split at h
    next hsame =>
      cases h
      exact ⟨hc, v, hv, rfl, hsame.1.symm, hsame.2.symm⟩
    · cases h
  · cases h

/-- Where a committed unit stood: the first unit of an empty stream opens the ledger with its own
configuration, a later one continues the version it was read under. -/
inductive UnitBasis (cfg : DepositConfig) (range : HeightRange) (s : Store)
    (versions : Table DepositVersion) : Prop where
  | first (empty : s.depositCheckpoint = none ∧ s.versions.rows = []) (start : range.lo = cfg.startBlock)
      (opened : versions.rows = [cfg.bootstrapVersion range.lo])
  | next (c : StreamCheckpoint) (v : DepositVersion)
      (checkpoint : s.depositCheckpoint = some c) (position : c.nextBlock = range.lo)
      (latest : s.versions.latest (fun _ => true) (·.versionSeq) = some v)
      (same : v.configHash = cfg.configHash) (kept : versions = s.versions)

/-- Everything a committed deposit unit has checked and done. -/
structure CommittedUnit (cfg : DepositConfig) (upstreamHash : Hash) (batch : DepositBatch)
    (captured : Option DepositProgress) (range : HeightRange) (cap : RecoveryCapture) (s : Store)
    (versions : Table DepositVersion) (observations : Table DepositObservation)
    (checkpoint : StreamCheckpoint) : Prop where
  gate : OrdinaryGate cap s
  basis : UnitBasis cfg range s versions
  covered : upstreamCovers s upstreamHash range = true
  advance : range.advance cfg.toStreamConfig captured.isNone s.depositCheckpoint = some checkpoint
  stored : ∀ m ∈ batch.matched, m.consistent cap observations = true
  grown : ∃ added, observations.rows = s.observations.rows ++ added ∧ ∀ o ∈ added,
    o.status = .pending ∧ (∀ r ∈ s.observations.rows, r.toIdentity ≠ o.toIdentity) ∧
      ∃ m ∈ batch.matched, o.toIdentity = m.toIdentity ∧ o.blockNumber = m.blockNumber

theorem unitBasis_of_verdict {versions : Table DepositVersion} {current : Option DepositProgress}
    (hpre : precheck captured cfg.toStreamConfig range = .ok ())
    (hcurrent : readProgress s = .ok current)
    (hverdict : verdict captured current cfg.toStreamConfig range = .ok ())
    (hledger : ledger captured cfg range s.versions = some versions) :
    UnitBasis cfg range s versions := by
  cases captured with
  | none =>
    cases current with
    | some p => simp [verdict] at hverdict
    | none =>
      obtain ⟨hempty, hrows⟩ := readProgress_eq_none hcurrent
      obtain ⟨-, hopened⟩ := insert?_eq_some hledger
      have hstart : range.lo = cfg.startBlock := by
        by_contra hne
        simp [precheck, hne] at hpre
      exact .first ⟨hempty, hrows⟩ hstart (by rw [hopened, hrows]; rfl)
  | some p =>
    cases current with
    | none => simp [verdict] at hverdict
    | some q =>
      obtain ⟨hc, v, hv, -, -, hhash⟩ := readProgress_eq_some hcurrent
      have hledger' : versions = s.versions := (Option.some.inj hledger).symm
      unfold verdict at hverdict
      simp only at hverdict
      split_ifs at hverdict with _ hconfig hposition
      simp only [not_or, not_not] at hconfig hposition
      exact .next q.checkpoint v hc hposition hv (hhash.trans hconfig.2) hledger'

/-- What a committed deposit unit has checked and done, with the three parts of the store it
replaces. It has found every height of its range canonical with the hash it had read. -/
theorem commitDepositUnit_committed {upstreamHash : Hash} {batch : DepositBatch}
    (h : commitDepositUnit cfg upstreamHash held batch captured range cap s = .ok (u, s')) :
    (∀ n ∈ range.heights, canonicalHashAt s n = batch.canonical n) ∧ ∃ versions observations checkpoint,
      s' = { s with versions := versions, observations := observations,
                    depositCheckpoint := some checkpoint } ∧
      CommittedUnit cfg upstreamHash batch captured range cap s versions observations checkpoint := by
  simp only [commitDepositUnit, leaseVerdict, eq_ok, lift_eq_ok] at h
  obtain ⟨_, _, ⟨hpre, rfl⟩, _, _, ⟨rfl, rfl⟩, _, _, ⟨-, rfl⟩, _, _, ⟨-, rfl⟩, _, s₁, hgate, h⟩ := h
  obtain ⟨rfl, hopen⟩ := recheckRecoveryGate_nil hgate
  simp only [refuse_eq_ok] at h
  obtain ⟨current, _, ⟨hcurrent, rfl⟩, _, _, ⟨hverdict, rfl⟩, _, _, ⟨hcovered, rfl⟩, _, s₂, hview,
    versions, _, ⟨hledger, rfl⟩, ⟨observations, n⟩, _, ⟨hinsert, rfl⟩, _, _, ⟨hstored, rfl⟩, _, _,
    ⟨-, rfl⟩, checkpoint, _, ⟨hadvance, rfl⟩, rfl⟩ := h
  obtain ⟨rfl, hcanonical⟩ := readjudicateRange_spec hview
  obtain ⟨added, hrows, hadded⟩ := insertObservations_spec hinsert
  refine ⟨fun n hn => (hcanonical n hn).2, versions, observations, checkpoint, rfl, hopen, unitBasis_of_verdict hpre hcurrent hverdict
    hledger, hcovered, hadvance, fun m hm => ?_, added, hrows, fun o ho => ?_⟩
  · simpa using find?_eq_none.mp hstored m hm
  · obtain ⟨hinput, hfree⟩ := hadded o ho
    obtain ⟨m, hmem, hm⟩ := mem_map.mp hinput
    obtain ⟨hpending, hsource⟩ := DepositMatch.observation_eq_ok hm
    exact ⟨hpending, hfree, m, hmem, hsource⟩

/-- A confirmation passes the gate, and a committed one only turns its pending candidate into a
confirmed one. -/
theorem confirmDepositUnit_spec {thresholdN : Nat} {basis : ConfirmBasis} {commits : Bool}
    (h : confirmDepositUnit thresholdN held basis cap s = .ok (commits, s')) :
    OrdinaryGate cap s ∧ (commits = false ∧ s = s' ∨ ∃ policies confirmed,
      s' = { s with confirmationPolicies := policies,
                    observations := s.observations.update (DepositObservation.pendingAt basis.toIdentity)
                      (DepositObservation.confirm confirmed) (fun _ _ h => h) }) := by
  simp only [confirmDepositUnit, leaseVerdict, eq_ok, lift_eq_ok] at h
  obtain ⟨_, _, ⟨-, rfl⟩, _, _, ⟨-, rfl⟩, _, _, ⟨-, rfl⟩, _, _, ⟨rfl, rfl⟩, _, _, ⟨-, rfl⟩, _, _,
    ⟨-, rfl⟩, _, s₁, hgate, h⟩ := h
  obtain ⟨rfl, hopen⟩ := recheckRecoveryGate_nil hgate
  obtain ⟨⟨policy, policies⟩, _, ⟨-, rfl⟩, h⟩ := h
  obtain ⟨_, _, ⟨-, rfl⟩, _, _, ⟨-, rfl⟩, candidate, _, ⟨-, rfl⟩, h⟩ := h
  refine ⟨hopen, ?_⟩
  cases hstatus : candidate.status with
  | orphaned => simp [hstatus] at h
  | confirmed =>
    simp only [hstatus, pure_eq_ok] at h
    exact .inl ⟨h.1.symm, h.2⟩
  | pending =>
    simp only [hstatus, eq_ok, lift_eq_ok] at h
    obtain ⟨_, _, ⟨-, rfl⟩, _, _, ⟨-, rfl⟩, _, _, ⟨-, rfl⟩, exact, _, ⟨-, rfl⟩, _, _, rfl, -, rfl⟩ := h
    exact .inr ⟨policies, _, rfl⟩

end TxHarbor.Indexer
