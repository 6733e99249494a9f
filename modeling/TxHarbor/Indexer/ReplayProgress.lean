import TxHarbor.Indexer.Committed

open Relational Constrained Tx List Option

namespace TxHarbor.Indexer

open Table ChainBlock UnitStream

/-! When a replayed range goes through, and exactly what it leaves. -/

variable {s s' : Store} {lo hi : Int} {row : RecoveryRow} {stream : RecoveryStream} {blocks : List ReplayBlock}
  {logs : List TransferLog} {observations : List ReplayObservation} {n : Nat} {u : UnitStream}

/-- The canonical hash of a height is the hash of its one canonical row. -/
theorem canonicalHashAt_eq_some {height : Int} {hash : Hash} : canonicalHashAt s height = some hash ↔
      ∃ b ∈ s.blocks.rows, b.number = height ∧ b.canonical = true ∧ b.hash = hash := by
  constructor
  · intro h
    obtain ⟨b, hselect, rfl⟩ := map_eq_some_iff.mp h
    obtain ⟨hmem, hb⟩ := select_mem hselect
    simp only [Bool.and_eq_true, beq_iff_eq] at hb
    exact ⟨b, hmem, hb.1, hb.2, rfl⟩
  · rintro ⟨b, hmem, hnumber, hcanonical, rfl⟩
    have hselect : (s.blocks.select fun b => b.number == height && b.canonical) = some b :=
      select_eq_some (fun x y hx hy => by
        simp only [Bool.and_eq_true, beq_iff_eq] at hx hy
        simp [clash, hx, hy]) hmem (by simp [hnumber, hcanonical])
    simp [canonicalHashAt, hselect]

theorem canonicalHashAt_congr (h : s'.blocks = s.blocks) (height : Int) :
    canonicalHashAt s' height = canonicalHashAt s height := by
  unfold canonicalHashAt
  rw [h]

theorem ChainBlock.canonicalIn_eq_true {b : ChainBlock} :
    b.canonicalIn lo hi = true ↔ (lo ≤ b.number ∧ b.number ≤ hi) ∧ b.canonical = true := by
  simp [canonicalIn]

/-- The coverage proof of a range says that every height of it is canonical. -/
theorem countCanonicalRange_eq_iff (hordered : lo ≤ hi + 1) :
    (countCanonicalRange s lo hi : Int) = hi - lo + 1 ↔ ∀ n, lo ≤ n → n ≤ hi → (canonicalHashAt s n).isSome := by
  have hkey : ∀ a b : ChainBlock, a.canonicalIn lo hi = true → b.canonicalIn lo hi = true →
      a.number = b.number → clash a b = true := fun a b ha hb hnumber => by
    rw [canonicalIn_eq_true] at ha hb
    simp [clash, hnumber, ha.2, hb.2]
  have hrange : ∀ b : ChainBlock, b.canonicalIn lo hi = true → lo ≤ b.number ∧ b.number ≤ hi :=
    fun b hb => (canonicalIn_eq_true.mp hb).1
  constructor
  · intro hcount n hlo hhi
    by_contra hnone
    have hmissing : ∀ b ∈ s.blocks.rows, b.canonicalIn lo hi = true → b.number ≠ n := by
      intro b hb hin hnumber
      have hsome := canonicalHashAt_eq_some.mpr ⟨b, hb, hnumber, (canonicalIn_eq_true.mp hin).2, rfl⟩
      simp [hsome] at hnone
    have hshort : (countCanonicalRange s lo hi : Int) < hi + 1 - lo :=
      affected_lt_of_missing (fun b : ChainBlock => b.number) hkey hrange ⟨hlo, hhi⟩ hmissing
    omega
  · intro hall
    have hfull : (countCanonicalRange s lo hi : Int) = hi + 1 - lo := by
      refine affected_eq_of_covered (fun b : ChainBlock => b.number) hordered hkey hrange ?_
      intro n hlo hhi
      obtain ⟨hash, hhash⟩ := isSome_iff_exists.mp (hall n hlo hhi)
      obtain ⟨b, hb, hnumber, hcanonical, -⟩ := canonicalHashAt_eq_some.mp hhash
      exact ⟨b, hb, canonicalIn_eq_true.mpr ⟨by omega, hcanonical⟩, hnumber⟩
    omega

/-- The linkage proof of a range says that every canonical row of it above height 0 stands on the
canonical row below. -/
theorem checkParentLinkage_eq_zero : checkParentLinkage s lo hi = 0 ↔
      ∀ b ∈ s.blocks.rows, lo ≤ b.number → b.number ≤ hi → b.canonical = true → 0 < b.number →
        canonicalHashAt s (b.number - 1) = some b.parentHash := by
  simp only [checkParentLinkage, affected, countP_eq_zero, dangling, Bool.and_eq_true,
    Bool.not_eq_true', decide_eq_true_eq, canonicalIn_eq_true]
  constructor
  · intro h b hb hlo hhi hcanonical hpos
    have hlinked := h b hb
    simp only [hlo, hhi, hcanonical, hpos, and_self, true_and, Bool.not_eq_false, List.any_eq_true,
      Bool.and_eq_true, beq_iff_eq] at hlinked
    obtain ⟨c, hc, ⟨hnumber, hlive⟩, hhash⟩ := hlinked
    exact canonicalHashAt_eq_some.mpr ⟨c, hc, hnumber, hlive, hhash⟩
  · rintro h b hb ⟨⟨⟨⟨hlo, hhi⟩, hcanonical⟩, hpos⟩, hdangling⟩
    obtain ⟨c, hc, hnumber, hlive, hhash⟩ := canonicalHashAt_eq_some.mp (h b hb hlo hhi hcanonical hpos)
    have hfound : (s.blocks.rows.any fun c =>
        c.number == b.number - 1 && c.canonical && c.hash == b.parentHash) = true :=
      any_eq_true.mpr ⟨c, hc, by simp [hnumber, hlive, hhash]⟩
    cases hdangling.symm.trans hfound

variable {current : RecoveryRow} {a : Ancestor} {cap : RecoveryCapture} {c : StreamCheckpoint}

theorem updateRecoveryRow_ok (hactive : s.recovery = some current) (hround : SameRound row current)
    (change : RecoveryRow → RecoveryRow) (lost : String) :
    updateRecoveryRow row change lost s = .ok ((), { s with recovery := some (change current) }) := by
  simp only [updateRecoveryRow, eq_ok]
  exact ⟨s, s, ⟨rfl, rfl⟩, current, s, ⟨hactive, rfl⟩, (), s, ⟨⟨hround.recoveryID, hround.seq⟩, rfl⟩, rfl⟩

theorem startReplaying_ok (hactive : s.recovery = some current) (hround : SameRound row current)
    (hphase : current.phase = row.phase) (hallowed : row.phase ∈ [RecoveryPhase.invalidated, .replaying]) :
    startReplaying row s = .ok ((), { s with recovery := some (current.inPhase .replaying) }) := by
  unfold startReplaying
  by_cases hfirst : row.phase = .invalidated
  · rw [if_pos hfirst]
    exact updateRecoveryRow_ok hactive hround _ _
  · have hreplaying : current.phase = .replaying := by
      rw [hphase]
      simpa [hfirst] using hallowed
    have hsame : current.inPhase .replaying = current := by
      cases current
      cases hreplaying
      rfl
    rw [if_neg hfirst, hsame, ← hactive]
    rfl

/-- The phase a replayed range leaves: completion is pending once every stream is done. -/
def replayedPhase (s : Store) (row : RecoveryRow) (ancestor : Int) : RecoveryPhase :=
  if [RecoveryStream.block, .log, .deposit].all (streamDone s row (sweepEnd s ancestor)) then
    .completePending
  else .replaying

theorem maybeCompletePendingTx_ok (row current : RecoveryRow) (hactive : s.recovery = some current)
    (hround : SameRound row current) (hphase : current.phase = .replaying) (hancestor : row.ancestor = some a) :
    maybeCompletePendingTx row s =
      .ok ((), { s with recovery := some (current.inPhase (replayedPhase s current a.number)) }) := by
  simp only [maybeCompletePendingTx, eq_ok]
  refine ⟨s, s, ⟨rfl, rfl⟩, a, s, ⟨hancestor, rfl⟩, ?_⟩
  simp only [hactive, any_some, hphase, beq_self_eq_true, Bool.true_or, Bool.true_and, replayedPhase]
  split
  · exact updateRecoveryRow_ok hactive hround _ _
  · have hsame : current.inPhase .replaying = current := by
      cases current
      cases hphase
      rfl
    rw [hsame, ← hactive]
    rfl

theorem RecoveryRow.inPhase_inPhase (row : RecoveryRow) (p q : RecoveryPhase) :
    (row.inPhase p).inPhase q = row.inPhase q := rfl

theorem replayedPhase_inPhase (s : Store) (row : RecoveryRow) (phase : RecoveryPhase) (ancestor : Int) :
    replayedPhase s (row.inPhase phase) ancestor = replayedPhase s row ancestor := by
  have hdone : ∀ sweptTo, streamDone s (row.inPhase phase) sweptTo = streamDone s row sweptTo :=
    fun sweptTo => funext fun stream => by cases stream <;> rfl
  simp only [replayedPhase, hdone]

/-- The parts of a replayed range that depend on its stream. -/
structure ReplaySteps (stream : RecoveryStream) (lo hi : Int) (blocks : List ReplayBlock)
    (logs : List TransferLog) (observations : List ReplayObservation) (s : Store) (row : RecoveryRow)
    (a : Ancestor) (s₁ s₂ : Store) : Prop where
  ordered : lo ≤ hi
  ancestor : row.ancestor = some a
  frontier : ∀ f ∈ row.frontier stream, f = lo - 1
  rows : ∃ n, replayRows stream lo hi blocks logs observations s = .ok (n, s₁)
  covered : ∀ n, lo ≤ n → n ≤ hi → (canonicalHashAt s₁ n).isSome
  linked : checkParentLinkage s₁ lo hi = 0
  progress : advanceReplayProgressTx row stream lo hi s₁ = .ok ((), s₂)

/-- What is left of the store by a replayed range whose parts leave `s₂`. -/
def replayedStore (stream : RecoveryStream) (hi : Int) (row : RecoveryRow) (a : Ancestor) (s₂ : Store)
    (events : Table RecoveryEvent) : Store :=
  { s₂ with recovery := some ((row.setFrontier stream hi).inPhase
              (replayedPhase s₂ (row.setFrontier stream hi) a.number)),
            recoveryEvents := events }

/-- The progress part moves the frontier of the active row and keeps the audit trail. -/
theorem advanceReplayProgressTx_recovery {u : Unit} (hactive : s.recovery = some row)
    (h : advanceReplayProgressTx row stream lo hi s = .ok (u, s')) :
    s'.recovery = some (row.setFrontier stream hi) ∧ s'.recoveryEvents = s.recoveryEvents :=
  (advanceReplayProgressTx_spec hactive h).recovery

theorem replayRows_recovery (h : replayRows stream lo hi blocks logs observations s = .ok (n, s')) :
    s'.recovery = s.recovery ∧ s'.recoveryEvents = s.recoveryEvents :=
  (replayRows_spec h).recovery

/-- A replayed range commits when its parts go through. -/
theorem ReplaySteps.commits {s₁ s₂ : Store} (h : ReplaySteps stream lo hi blocks logs observations s row a s₁ s₂)
    (hgate : OwnedGate cap [.invalidated, .replaying] s row) :
    ∃ events, Logged row s.recoveryEvents events ∧
      replayRecoveryRange true cap stream lo hi blocks logs observations s =
        .ok (true, replayedStore stream hi row a s₂ events) := by
  obtain ⟨n, hrows⟩ := h.rows
  obtain ⟨hkept, hkeptEvents⟩ := replayRows_recovery hrows
  have hactive : s₁.recovery = some row := hkept.trans hgate.active
  obtain ⟨hactive₂, hevents₂⟩ := advanceReplayProgressTx_recovery hactive h.progress
  obtain ⟨hround, hphase⟩ := row.setFrontier_sameRound stream hi
  have hstart := startReplaying_ok hactive₂ hround hphase hgate.phase
  generalize hs₃ : ({ s₂ with recovery := some ((row.setFrontier stream hi).inPhase .replaying) } : Store) = s₃
    at hstart
  obtain ⟨events, hevent⟩ := appendRecoveryEvent_ok row .replayProgress s₃
  have hlogged : Logged row s.recoveryEvents events := by
    obtain ⟨events', hlogged, heq⟩ := appendRecoveryEvent_spec hevent
    have hsame : events = events' := congrArg Store.recoveryEvents heq
    have hold : s₃.recoveryEvents = s.recoveryEvents := by
      rw [← hs₃]
      exact hevents₂.trans hkeptEvents
    rwa [hsame, ← hold]
  have hproof : proveRange lo hi s₁ = .ok ((), s₁) := by
    have hcount := (countCanonicalRange_eq_iff (by have := h.ordered; omega)).mpr h.covered
    simp only [proveRange, eq_ok]
    exact ⟨s₁, s₁, ⟨rfl, rfl⟩, (), s₁, ⟨hcount, rfl⟩, h.linked, rfl⟩
  have hpending := maybeCompletePendingTx_ok row ((row.setFrontier stream hi).inPhase .replaying)
    (s := { s₃ with recoveryEvents := events }) (by rw [← hs₃])
    (hround.trans (RecoveryRow.inPhase_sameRound _ _)) rfl h.ancestor
  have hbehind : ¬ (row.frontier stream).any (fun f => decide (hi ≤ f)) = true := by
    intro hany
    obtain ⟨f, hf, hle⟩ := (any_eq_true _ _).mp hany
    have hmeets := h.frontier f hf
    have hordered := h.ordered
    simp only [decide_eq_true_eq] at hle
    omega
  refine ⟨events, hlogged, ?_⟩
  simp only [replayRecoveryRange, eq_ok]
  refine ⟨(), s, ⟨h.ordered, rfl⟩, row, s, hgate.openOwned, ?_⟩
  rw [if_neg hbehind]
  simp only [eq_ok]
  refine ⟨(), s, ⟨h.frontier, rfl⟩, n, s₁, hrows, (), s₁, hproof, (), s₂, h.progress, (), s₃, hstart, (),
    _, hevent, (), _, hpending, trivial, ?_⟩
  rw [RecoveryRow.inPhase_inPhase, replayedPhase_inPhase]
  subst hs₃
  rfl

/-- A committed range has gone through its parts. -/
theorem replayRecoveryRange_steps {held : Bool}
    (h : replayRecoveryRange held cap stream lo hi blocks logs observations s = .ok (true, s')) :
    ∃ row a s₁ s₂ events, OwnedGate cap [.invalidated, .replaying] s row ∧
      ReplaySteps stream lo hi blocks logs observations s row a s₁ s₂ ∧
      Logged row s.recoveryEvents events ∧ s' = replayedStore stream hi row a s₂ events := by
  have hcall := h
  simp only [replayRecoveryRange, eq_ok, ite_apply_eq_ok] at h
  obtain ⟨_, _, ⟨hordered, rfl⟩, row, s₀, hopen, h⟩ := h
  have hheld : held = true := by
    simp only [openOwned, leaseVerdict, eq_ok] at hopen
    obtain ⟨_, _, ⟨hheld, -⟩, -⟩ := hopen
    exact hheld
  obtain ⟨rfl, hgate⟩ := openOwned_spec hopen
  rcases h with ⟨-, hfalse, -⟩ | ⟨-, _, _, ⟨hfrontier, rfl⟩, n, s₁, hrows, _, s₂, hproof, _, s₃, hprogress, _,
    s₄, -, _, s₅, -, _, s₆, hpending, -, -⟩
  · cases hfalse
  simp only [proveRange, eq_ok] at hproof
  obtain ⟨_, _, ⟨rfl, rfl⟩, _, _, ⟨hcount, rfl⟩, hlinked, rfl⟩ := hproof
  simp only [maybeCompletePendingTx, eq_ok] at hpending
  obtain ⟨_, _, ⟨rfl, rfl⟩, a, _, ⟨hancestor, rfl⟩, -⟩ := hpending
  have hsteps : ReplaySteps stream lo hi blocks logs observations s row a s₁ s₃ :=
    ⟨hordered, hancestor, hfrontier, ⟨n, hrows⟩, (countCanonicalRange_eq_iff (by omega)).mp hcount, hlinked, hprogress⟩
  obtain ⟨events, hlogged, hcommits⟩ := hsteps.commits hgate
  refine ⟨row, a, s₁, s₃, events, hgate, hsteps, hlogged, ?_⟩
  rw [hheld, hcommits] at hcall
  simpa using hcall.symm

theorem replayRows_log : replayRows .log lo hi blocks logs observations s = .ok (n, s') ↔
      ∃ table, s.logs.insertBatch (TransferLog.row lo hi) (fun a b => a.toIdentity == b.toIdentity)
        (fun _ => .message "replay log") logs = .ok (table, n) ∧ s' = { s with logs := table } := by
  simp only [replayRows, eq_ok, lift_eq_ok]
  constructor
  · rintro ⟨_, _, ⟨rfl, rfl⟩, ⟨table, n'⟩, _, ⟨hinsert, rfl⟩, _, _, rfl, rfl, rfl⟩
    exact ⟨table, hinsert, rfl⟩
  · rintro ⟨table, hinsert, rfl⟩
    exact ⟨s, s, ⟨rfl, rfl⟩, (table, n), s, ⟨hinsert, rfl⟩, (), _, rfl, rfl, rfl⟩

theorem replayRows_deposit :
    replayRows .deposit lo hi blocks logs observations s = .ok (n, s') ↔ ∃ table, insertObservations s.observations
        (observations.map (ReplayObservation.row s.versions lo hi)) = .ok (table, n) ∧
          s' = { s with observations := table } := by
  simp only [replayRows, eq_ok, lift_eq_ok]
  constructor
  · rintro ⟨_, _, ⟨rfl, rfl⟩, ⟨table, n'⟩, _, ⟨hinsert, rfl⟩, _, _, rfl, rfl, rfl⟩
    exact ⟨table, hinsert, rfl⟩
  · rintro ⟨table, hinsert, rfl⟩
    exact ⟨s, s, ⟨rfl, rfl⟩, (table, n), s, ⟨hinsert, rfl⟩, (), _, rfl, rfl, rfl⟩

/-- The progress part of a log or deposit range goes through from exactly the stream's position. -/
theorem advanceReplayProgressTx_unit (hactive : s.recovery = some row) (hprogress : s.progress u = some c)
    (hnext : c.nextBlock = lo) (hordered : lo ≤ hi) :
    ∃ moved, moved.startBlock = c.startBlock ∧ moved.nextBlock = hi + 1 ∧
      advanceReplayProgressTx row u.stream lo hi s = .ok ((),
        ({ s with recovery := some (row.setFrontier u.stream hi) } : Store).setProgress u moved) := by
  have hroom : c.startBlock ≤ hi + 1 := by
    have := c.start_le_next
    omega
  have hmove : c.moveTo? (hi + 1) = some ⟨c.startBlock, c.configHash, hi + 1, hroom⟩ := dif_pos hroom
  refine ⟨⟨c.startBlock, c.configHash, hi + 1, hroom⟩, rfl, rfl, ?_⟩
  have hfrontier := updateRecoveryRow_ok hactive (.refl row) (fun r => r.setFrontier u.stream hi)
    (u.stream.text ++ " frontier moved under the lock")
  simp only [advanceReplayProgressTx, bind_eq_ok]
  refine ⟨(), _, hfrontier, ?_⟩
  cases u with
  | log | deposit =>
    simp only [stream, advanceUnitCheckpointTx, eq_ok]
    exact ⟨_, _, ⟨rfl, rfl⟩, c, _, ⟨hprogress, rfl⟩, (), _, ⟨hnext, rfl⟩, _, _, ⟨hmove, rfl⟩, rfl⟩

/-- A stream short of the end keeps the round open. -/
theorem replayedPhase_of_behind {ancestor : Int} (hend : hi ≤ sweepEnd s ancestor) (hprogress : s.progress u = some c)
    (hbehind : ∀ f ∈ row.frontier u.stream, f < hi) : replayedPhase s row ancestor = .replaying := by
  have hopen : streamDone s row (sweepEnd s ancestor) u.stream = false := by
    cases hfrontier : row.frontier u.stream with
    | none =>
      cases u with
      | log | deposit =>
        simp only [Store.progress] at hprogress
        simp only [stream] at hfrontier
        simp [streamDone, hfrontier, stream, Store.hasCheckpoint, hprogress]
    | some f =>
      have hlt := hbehind f hfrontier
      simp only [streamDone, hfrontier, decide_eq_false_iff_not]
      omega
  have hall : [RecoveryStream.block, .log, .deposit].all (streamDone s row (sweepEnd s ancestor)) = false := by
    refine all_eq_false.mpr ⟨u.stream, ?_, by simp [hopen]⟩
    cases u <;> simp [stream]
  simp [replayedPhase, hall]

theorem sweepEnd_congr (h : s'.blocks = s.blocks) (ancestor : Int) : sweepEnd s' ancestor = sweepEnd s ancestor := by
  unfold sweepEnd
  rw [h]

theorem RecoveryRow.setFrontier_frontier (row : RecoveryRow) (u v : UnitStream) (hi : Int) :
    (row.setFrontier u.stream hi).frontier v.stream = if v = u then some hi else row.frontier v.stream := by
  cases u <;> cases v <;> rfl

/-- The rows of a log or deposit range leave headers, versions and progress alone. -/
theorem replayRows_unit (h : replayRows u.stream lo hi [] logs observations s = .ok (n, s')) :
    s'.blocks = s.blocks ∧ s'.versions = s.versions ∧ s'.recovery = s.recovery ∧ ∀ v, s'.progress v = s.progress v := by
  cases u with
  | log =>
    obtain ⟨table, -, rfl⟩ := replayRows_log.mp h
    exact ⟨rfl, rfl, rfl, fun v => by cases v <;> rfl⟩
  | deposit =>
    obtain ⟨table, -, rfl⟩ := replayRows_deposit.mp h
    exact ⟨rfl, rfl, rfl, fun v => by cases v <;> rfl⟩

theorem checkParentLinkage_inside {s₀ : Store} {lo' hi' : Int} (h : checkParentLinkage s₀ lo hi = 0)
    (hblocks : s.blocks = s₀.blocks) (hlo : lo ≤ lo') (hhi : hi' ≤ hi) : checkParentLinkage s lo' hi' = 0 := by
  rw [checkParentLinkage_eq_zero] at h ⊢
  intro b hb hlow hhigh hcanonical hpos
  rw [canonicalHashAt_congr hblocks]
  rw [hblocks] at hb
  exact h b hb (by omega) (by omega) hcanonical hpos

section Block

variable {s s' : Store}

/-- The rows a header range adds are its headers, each with the parent it came with. -/
theorem replayRows_block (h : replayRows .block lo hi blocks logs observations s = .ok (n, s')) :
    s' = { s with blocks := s'.blocks } ∧ (∀ b ∈ s.blocks.rows, b ∈ s'.blocks.rows) ∧
      ∀ b ∈ s'.blocks.rows, b ∈ s.blocks.rows ∨
        lo ≤ b.number ∧ ∃ i ∈ blocks, i.number = b.number ∧ i.hash = b.hash ∧ i.parentHash = some b.parentHash := by
  simp only [replayRows, eq_ok, lift_eq_ok] at h
  obtain ⟨_, _, ⟨rfl, rfl⟩, ⟨table, m⟩, _, ⟨hinsert, rfl⟩, _, _, rfl, -, rfl⟩ := h
  obtain ⟨added, hrows, -, hadded⟩ := insertBatch_eq_ok hinsert
  refine ⟨rfl, fun b hb => ?_, fun b hb => ?_⟩
  · exact hrows ▸ mem_append_left _ hb
  · change b ∈ table.rows at hb
    rw [hrows, mem_append] at hb
    refine hb.imp_right fun hnew => ?_
    obtain ⟨⟨i, hi, hrow⟩, -⟩ := hadded b hnew
    obtain ⟨hlow, -, -, hnumber, hhash, hparent⟩ := ReplayBlock.row_eq_ok hrow
    exact ⟨hlow, i, hi, hnumber, hhash, hparent⟩

theorem advanceBlockCheckpointTx_moved {c : BlockCheckpoint} {u : Unit} (hc : s.checkpoint = some c)
    (h : advanceBlockCheckpointTx lo hi s = .ok (u, s')) :
    c.height = lo - 1 ∧ canonicalHashAt s (lo - 1) = some c.blockHash ∧ ∃ hash, canonicalHashAt s hi = some hash ∧
        s' = { s with checkpoint := some { c with height := hi, blockHash := hash } } := by
  simp only [advanceBlockCheckpointTx, eq_ok] at h
  obtain ⟨_, _, ⟨rfl, rfl⟩, h⟩ := h
  simp only [hc, eq_ok] at h
  obtain ⟨_, _, ⟨hheight, rfl⟩, prev, _, ⟨hprev, rfl⟩, _, _, ⟨hsame, rfl⟩, hash, _, ⟨hhash, rfl⟩, rfl⟩ := h
  exact ⟨hheight, hsame ▸ hprev, hash, hhash, rfl⟩

end Block

end TxHarbor.Indexer
