import TxHarbor.Indexer.ChainInvariant

open Relational Tx Transition List Option

namespace TxHarbor.Indexer

/-! The canonical chain over whole runs of the indexer. -/

open DepositObservation Store

section Step

variable {node : Lineage} {s s' : Store} {row : RecoveryRow} {a : Ancestor}

/-- What a replayed range leaves of its round is past the opening. -/
theorem replayedPhase_late (s : Store) (row : RecoveryRow) (ancestor : Int) :
    (replayedPhase s row ancestor).opening = false := by
  unfold replayedPhase
  split <;> rfl

variable {hi : Int} {s₂ : Store} {events : Table RecoveryEvent} {lo : Int} {logs : List TransferLog}
  {observations : List ReplayObservation} {blocks : List ReplayBlock}

variable {stream : RecoveryStream} {s₁ : Store} {transitions : Table ObservationTransition}

namespace ChainInv

/-- The round after a replayed range. -/
theorem of_replayed (hancestor : row.ancestor = some a) (hd : Described node (replayedStore stream hi row a s₂ events))
    (horphans : ∀ o ∈ s₂.observations.rows, o.status = .orphaned → o.Anchored s₂)
    (hsway : ∃ c chain, Swaying (replayedStore stream hi row a s₂ events)
      ((row.setFrontier stream hi).inPhase (replayedPhase s₂ (row.setFrontier stream hi) a.number)) a c chain)
    (hbelow : ∀ o ∈ s₂.observations.rows, o.blockNumber ≤ a.number → o.Settled s₂) :
    ChainInv node (replayedStore stream hi row a s₂ events) := by
  refine .of_round rfl ((row.setFrontier_sameRound stream hi).1.ancestor.trans hancestor) hd horphans hsway
    hbelow (fun hopening => ?_) fun hdetected => ?_
  all_goals have hlate := replayedPhase_late s₂ (row.setFrontier stream hi) a.number
  · exact absurd (hopening.symm.trans hlate) (by decide)
  · change replayedPhase s₂ (row.setFrontier stream hi) a.number = .detected at hdetected
    rw [hdetected] at hlate
    cases hlate

section

variable (h : ChainInv node s)
include h

/-- A log or deposit range leaves headers alone, and its new observations are pending ones above the
ancestor. -/
theorem replayed_unit {u : UnitStream} (hactive : s.recovery = some row)
    (hsteps : ReplaySteps u.stream lo hi blocks logs observations s row a s₁ s₂) (hblocks : s₁.blocks = s.blocks)
    (hcheckpoint : s₁.checkpoint = s.checkpoint) (hrow : s₁.recovery = s.recovery)
    (hadded : ∀ o ∈ s₁.observations.rows, o ∈ s.observations.rows ∨
      o.status = .pending ∧ a.number < o.blockNumber ∧ o.blockNumber = node.number o.blockHash) :
    ChainInv node (replayedStore u.stream hi row a s₂ events) := by
  obtain ⟨⟨c, chain, hsway⟩, hbelow⟩ := h.swaying row a hactive hsteps.ancestor
  have hkept : s₂.blocks = s₁.blocks ∧ s₂.checkpoint = s₁.checkpoint ∧ s₂.observations = s₁.observations := by
    cases advanceReplayProgressTx_spec (hrow.trans hactive) hsteps.progress with
    | block header => cases u <;> cases header
    | unit v => cases v <;> exact ⟨rfl, rfl, rfl⟩
  have hsame : s₂.blocks = s.blocks := hkept.1.trans hblocks
  refine .of_replayed hsteps.ancestor ⟨?_, ?_, fun o ho => ?_⟩ (fun o ho hstatus => ?_)
    ⟨c, chain, hsway.congr hsame (hkept.2.1.trans hcheckpoint) (by cases u <;> rfl)⟩ fun o ho hle => ?_
  · exact hsame ▸ h.described.number
  · exact hsame ▸ h.described.parent
  · change o ∈ s₂.observations.rows at ho
    rw [hkept.2.2] at ho
    rcases hadded o ho with hold | ⟨-, -, hnumber⟩
    · exact h.described.height o hold
    · exact hnumber
  · rw [hkept.2.2] at ho
    rcases hadded o ho with hold | ⟨hpending, -⟩
    · exact (h.orphans o hold hstatus).congr hsame
    · cases hpending.symm.trans hstatus
  · rw [hkept.2.2] at ho
    rcases hadded o ho with hold | ⟨-, hnew, -⟩
    · exact (hbelow o hold hle).congr hsame
    · omega

/-- A header range moves the checkpoint over the rows it was proved on. -/
theorem replayed_block (hactive : s.recovery = some row)
    (hsteps : ReplaySteps .block lo hi blocks logs observations s row a s₁ s₂) (hlow : a.number < lo)
    (hnumbers : ∀ b ∈ blocks, b.number = node.number b.hash)
    (hparents : ∀ b ∈ blocks, ∀ parent, b.parentHash = some parent → parent = node.parent b.hash) :
    ChainInv node (replayedStore .block hi row a s₂ events) := by
  obtain ⟨⟨c, chain, hsway⟩, hbelow⟩ := h.swaying row a hactive hsteps.ancestor
  obtain ⟨n, hrows⟩ := hsteps.rows
  obtain ⟨hframe, hgrow, hnew⟩ := replayRows_block hrows
  have hobs : s₁.observations = s.observations := by rw [hframe]
  have hcheckpoint : s₁.checkpoint = some c := by
    rw [hframe]
    exact hsway.checkpoint
  have hprogress := hsteps.progress
  simp only [advanceReplayProgressTx, bind_eq_ok] at hprogress
  obtain ⟨_, s₃, hfrontier, hmoved⟩ := hprogress
  obtain ⟨current, -, rfl⟩ := updateRecoveryRow_spec hfrontier
  obtain ⟨hmeets, hbase, hash, htip, rfl⟩ := advanceBlockCheckpointTx_moved (by exact hcheckpoint) hmoved
  have hnumber : ∀ b ∈ s₁.blocks.rows, b.number = node.number b.hash := by
    intro b hb
    rcases hnew b hb with hold | ⟨-, i, hi', hnumber, hhash, -⟩
    · exact h.described.number b hold
    · rw [← hnumber, ← hhash]
      exact hnumbers i hi'
  refine .of_replayed hsteps.ancestor ⟨hnumber, fun b hb => ?_, fun o ho => h.described.height o (hobs ▸ ho)⟩
    (fun o ho hstatus => (h.orphans o (hobs ▸ ho) hstatus).grow hgrow)
    ⟨_, _, hsway.extend hsteps.ordered hmeets hgrow (fun b hb => (hnew b hb).imp_right And.left)
      hsteps.covered hsteps.linked hbase htip rfl rfl⟩ fun o ho hle => ?_
  · rcases hnew b hb with hold | ⟨-, i, hi', -, hhash, hparent⟩
    · exact h.described.parent b hold
    · rw [← hhash]
      exact hparents i hi' b.parentHash hparent
  · refine (hbelow o (hobs ▸ ho) hle).grow hgrow fun b hb => (hnew b hb).imp_right ?_
    rintro ⟨hlo, -⟩ hhash
    have hheight := h.described.height o (hobs ▸ ho)
    have hrow := hnumber b hb
    rw [hhash, ← hheight] at hrow
    omega

theorem replayed {held : Bool} {cap : RecoveryCapture}
    (hgenuine : (Call.replayRange held cap stream lo hi blocks logs observations).Genuine node s)
    (haligned : (Call.replayRange held cap stream lo hi blocks logs observations).Aligned node s)
    (hbody : replayRecoveryRange held cap stream lo hi blocks logs observations s = .ok (true, s')) :
    ChainInv node s' := by
  obtain ⟨row, a, s₁, s₂, events, hgate, hsteps, -, rfl⟩ := replayRecoveryRange_steps hbody
  obtain ⟨habove, hnumbers, hheights⟩ := hgenuine
  have hlow := habove row hgate.active a hsteps.ancestor
  obtain ⟨n, hrows⟩ := hsteps.rows
  cases stream with
  | block => exact h.replayed_block hgate.active hsteps hlow hnumbers haligned
  | log =>
    obtain ⟨table, -, rfl⟩ := replayRows_log.mp hrows
    exact h.replayed_unit (u := .log) hgate.active hsteps rfl rfl rfl fun o ho => .inl ho
  | deposit =>
    obtain ⟨table, hinsert, rfl⟩ := replayRows_deposit.mp hrows
    obtain ⟨added, hgrown, hadded⟩ := insertObservations_spec hinsert
    refine h.replayed_unit (u := .deposit) hgate.active hsteps rfl rfl rfl fun o ho => ?_
    change o ∈ table.rows at ho
    rw [hgrown, mem_append] at ho
    refine ho.imp_right fun hnew => ?_
    obtain ⟨i, hi', hrow⟩ := mem_map.mp (hadded o hnew).1
    obtain ⟨hid, hnumber, hlo⟩ := ReplayObservation.row_source hrow
    refine ⟨(DepositMatch.observation_eq_ok (ReplayObservation.row_eq_ok hrow).2).1, by omega, ?_⟩
    have hhash : o.blockHash = i.blockHash := congrArg Identity.blockHash hid
    rw [hnumber, hheights i hi', hhash]

/-- The rows of the observations a round has changed, above the ancestor only. -/
theorem observe (hrow : s.recovery = some row) (ha : row.ancestor = some a)
    (hblocks : s'.blocks = s.blocks) (hcheckpoint : s'.checkpoint = s.checkpoint) (hrow' : s'.recovery = s.recovery)
    (hobs : ∀ o ∈ s'.observations.rows, o ∈ s.observations.rows ∨
      a.number < o.blockNumber ∧ ∃ p ∈ s.observations.rows, o.blockHash = p.blockHash ∧
        o.blockNumber = p.blockNumber ∧ p.Anchored s) : ChainInv node s' := by
  obtain ⟨hsway, hbelow⟩ := h.swaying row a hrow ha
  obtain ⟨c, chain, hsway⟩ := hsway
  refine .of_round (hrow'.trans hrow) ha ⟨hblocks ▸ h.described.number, hblocks ▸ h.described.parent, ?_⟩
    (fun o ho hstatus => ?_) ⟨c, chain, hsway.congr hblocks hcheckpoint rfl⟩ (fun o ho hle => ?_)
    (fun hopening => ?_) fun hdetected => ?_
  · intro o ho
    rcases hobs o ho with hold | ⟨-, p, hp, hhash, hnumber, -⟩
    · exact h.described.height o hold
    · rw [hhash, hnumber]
      exact h.described.height p hp
  · rcases hobs o ho with hold | ⟨-, p, -, hhash, -, b, hb, hbhash⟩
    · exact (h.orphans o hold hstatus).congr hblocks
    · exact ⟨b, hblocks ▸ hb, hbhash.trans hhash.symm⟩
  · rcases hobs o ho with hold | ⟨hlow, -⟩
    · exact (hbelow o hold hle).congr hblocks
    · omega
  · obtain ⟨hfrontier, hanchored⟩ := h.opening row hrow hopening
    refine ⟨hfrontier, fun o ho => ?_⟩
    rcases hobs o ho with hold | ⟨-, p, -, hhash, -, b, hb, hbhash⟩
    · exact (hanchored o hold).congr hblocks
    · exact ⟨b, hblocks ▸ hb, hbhash.trans hhash.symm⟩
  · rw [h.searching row hrow hdetected] at ha
    cases ha

/-- Other flags above the ancestor keep the invariant of a round. -/
theorem reflag {row' : RecoveryRow} (flag : ChainBlock → ChainBlock)
    (hrow : s.recovery = some row) (ha : row.ancestor = some a) (hrows : s'.blocks.rows = s.blocks.rows.map flag)
    (hkeys : ∀ b, (flag b).number = b.number ∧ (flag b).hash = b.hash ∧ (flag b).parentHash = b.parentHash)
    (hbelow : ∀ b ∈ s.blocks.rows, b.number ≤ a.number → flag b = b)
    (hobs : s'.observations = s.observations) (hrow' : s'.recovery = some row') (hround : SameRound row row')
    (hopening : row'.phase.opening = true → row.phase.opening = true)
    (hfrontier : row'.blockFrontier = row.blockFrontier) (hphase : row'.phase ≠ .detected)
    (hsway : ∀ c chain, Swaying s row a c chain → Swaying s' row' a c chain) : ChainInv node s' := by
  obtain ⟨⟨c, chain, hswaying⟩, hsettled⟩ := h.swaying row a hrow ha
  have hmem : ∀ b ∈ s'.blocks.rows, ∃ d ∈ s.blocks.rows, flag d = b := fun b hb =>
    mem_map.mp (hrows ▸ hb)
  refine .of_round hrow' (hround.ancestor.trans ha) ⟨fun b hb => ?_, fun b hb => ?_, hobs ▸ h.described.height⟩
    (fun o ho hstatus => (h.orphans o (hobs ▸ ho) hstatus).reflag hrows fun b => (hkeys b).2.1)
    ⟨c, chain, hsway c chain hswaying⟩ (fun o ho hle => ?_) (fun hearly => ?_) hphase
  · obtain ⟨d, hd, rfl⟩ := hmem b hb
    rw [(hkeys d).1, (hkeys d).2.1]
    exact h.described.number d hd
  · obtain ⟨d, hd, rfl⟩ := hmem b hb
    rw [(hkeys d).2.1, (hkeys d).2.2]
    exact h.described.parent d hd
  · rw [hobs] at ho
    refine (hsettled o ho hle).reflag hrows (fun b => (hkeys b).2.1) fun b hb hhash => hbelow b hb ?_
    rwa [h.described.row_number ho hb hhash]
  · obtain ⟨hnone, hanchored⟩ := h.opening row hrow (hopening hearly)
    exact ⟨hfrontier.trans hnone, fun o ho =>
      (hanchored o (hobs ▸ ho)).reflag hrows fun b => (hkeys b).2.1⟩

/-- An invalidation pass only touches rows above the ancestor, and they were stored when the round
opened. -/
theorem orphaned (hrow : s.recovery = some row) (ha : row.ancestor = some a) (hphase : row.phase = .invalidated) :
    ChainInv node { s with transitions := transitions,
                           observations := orphanedObservations s a.number row.recoveryID,
                           recoveryEvents := events } := by
  obtain ⟨-, hanchored⟩ := h.opening row hrow (by rw [hphase]; rfl)
  refine h.observe hrow ha rfl rfl rfl fun o ho => ?_
  change o ∈ (orphanedObservations s a.number row.recoveryID).rows at ho
  rw [orphanedObservations_rows] at ho
  obtain ⟨p, hp, rfl⟩ := mem_map.mp ho
  split
  · next heffective =>
    simp only [effectiveFrom, Bool.and_eq_true, decide_eq_true_eq] at heffective
    exact .inr ⟨Int.lt_of_add_one_le heffective.1, p, hp, rfl, rfl, hanchored p hp⟩
  · exact .inl hp

/-- A revived observation lies above the ancestor: below it no orphan is on a canonical block. -/
theorem revived (hrow : s.recovery = some row) (ha : row.ancestor = some a)
    {id : Identity} {o : DepositObservation} (htarget : Revivable s row id o) :
    ChainInv node { s with transitions := transitions,
                           observations := revivedObservations s id row.recoveryID, recoveryEvents := events } := by
  obtain ⟨-, hbelow⟩ := h.swaying row a hrow ha
  refine h.observe hrow ha rfl rfl rfl fun q hq => ?_
  change q ∈ (revivedObservations s id row.recoveryID).rows at hq
  rw [revivedObservations_rows] at hq
  obtain ⟨p, hp, rfl⟩ := mem_map.mp hq
  split
  · next horphan =>
    simp only [orphanAt, Bool.and_eq_true, beq_iff_eq] at horphan
    refine .inr ⟨?_, p, hp, rfl, rfl, h.orphans p hp horphan.1.2⟩
    by_contra hle
    change ¬ a.number < p.blockNumber at hle
    have hsettled := hbelow p hp (by omega)
    obtain ⟨b, hb, hhash, hcanonical⟩ := htarget.block
    have hlive : canonicalBlock s p.blockHash = true :=
      canonicalBlock_eq_true.mpr ⟨b, hb, by rw [hhash, ← horphan.1.1], hcanonical⟩
    have heffective := hsettled.mpr hlive
    rw [horphan.1.2] at heffective
    cases heffective
  · exact .inl hp

end

/-- What an ordinary commit leaves while no round is active. -/
theorem idle (hd : Described node s) (hg : Grounded s) (hidle : s.recovery = none) : ChainInv node s := by
  refine .of_ground hd hg fun row hrow => ?_
  cases hidle.symm.trans hrow

theorem ground (h : ChainInv node s) (hidle : s.recovery = none) : Grounded s := by
  refine h.grounded fun row hrow => ?_
  cases hidle.symm.trans hrow

end ChainInv

theorem replayPhases_late {phase : RecoveryPhase} (h : phase ∈ [RecoveryPhase.invalidated, .replaying]) :
    phase ≠ .detected ∧ phase ≠ .reconcileRequired := by
  simp only [mem_cons, not_mem_nil, or_false] at h
  rcases h with rfl | rfl <;> decide

/-- A round that is replaying has its ancestor. -/
theorem ChainInv.confirmed (h : ChainInv node s) (hrow : s.recovery = some row)
    (hlate : row.phase ≠ .detected ∧ row.phase ≠ .reconcileRequired) : ∃ a, row.ancestor = some a := by
  cases ha : row.ancestor with
  | some a => exact ⟨a, rfl⟩
  | none =>
    rcases h.unconfirmed row hrow ha with hphase | hphase
    · exact absurd hphase hlate.1
    · exact absurd hphase hlate.2

/-- Every committed transaction with genuine inputs keeps the invariant, as long as the ancestor it
confirms lies on the scanned chain and the headers it replays come with their own parents. -/
theorem ChainInv.committed (h : ChainInv node s) {call : Call} (hgenuine : call.Genuine node s)
    (haligned : call.Aligned node s) (hbody : call.body s = .ok (true, s')) : ChainInv node s' := by
  cases Call.body_committed hbody with
  | @header startHeight held w cap gate blocks checkpoint advance rows =>
    have hcommit := of_committing hbody
    obtain ⟨-, ⟨hheaded, hfirst⟩, -⟩ := commitBlock_spec hcommit
    have hd := hheaded.described h.described hgenuine.1 hgenuine.2
    exact .idle hd (hheaded.grounded (h.ground gate.idle) hd advance hfirst hgenuine.2 rfl) gate.idle
  | logs gate | audited note row events active => exact h.quiet rfl rfl rfl rfl
  | @deposits cfg upstreamHash held batch captured range cap gate versions observations checkpoint added advance grown pending =>
    have hcommit := of_committing hbody
    obtain ⟨hviewed, _, _, _, heq, hunit⟩ := commitDepositUnit_committed hcommit
    obtain ⟨added, hgrown, hadded⟩ := hunit.grown
    have hsame : observations = _ := congrArg Store.observations heq
    suffices hobs : Described node _ ∧ Grounded _ from ChainInv.idle hobs.1 hobs.2 gate.idle
    refine (h.ground gate.idle).observe h.described rfl rfl fun o ho => ?_
    change o ∈ observations.rows at ho
    rw [hsame, hgrown, mem_append] at ho
    rcases ho with hold | hnew
    · exact .inl ⟨o, hold, rfl, rfl, rfl⟩
    · obtain ⟨hpending, -, m, hm, hid, hnumber⟩ := hadded o hnew
      obtain ⟨hin, hcanonical⟩ := hgenuine m hm
      have hhash : o.blockHash = m.blockHash := congrArg Identity.blockHash hid
      refine .inr ⟨hpending, ?_⟩
      rw [hnumber, hhash, hviewed _ hin, hcanonical]
  | @confirmation thresholdN held basis cap gate policies confirmed =>
    suffices hobs : Described node _ ∧ Grounded _ from ChainInv.idle hobs.1 hobs.2 gate.idle
    refine (h.ground gate.idle).observe h.described rfl rfl fun o ho => ?_
    simp only at ho
    obtain ⟨p, hp, rfl⟩ := mem_map.mp ho
    refine .inl ⟨p, hp, ?_⟩
    split
    · next hpending =>
      simp only [pendingAt, Bool.and_eq_true, beq_iff_eq] at hpending
      exact ⟨rfl, rfl, by rw [hpending.2]; rfl⟩
    · exact ⟨rfl, rfl, rfl⟩
  | @established held nanos req idle policies row events version phase logged =>
    simp only [Call.body, eq_ok] at hbody
    obtain ⟨result, s₁, hopen, -, rfl⟩ := hbody
    obtain ⟨-, heq⟩ | ⟨-, -, _, opened, _, -, ⟨-, hancestor, hfrontier⟩, -, heq⟩ := establishRecovery_spec hopen
    · cases idle.symm.trans (congrArg recovery heq)
    obtain rfl : row = opened := some.inj (congrArg recovery heq)
    refine .of_ground (h.described.congr rfl rfl) ((h.ground idle).congr rfl rfl rfl) fun row' hrow' => ?_
    cases hrow'
    exact ⟨hancestor, .inl ⟨phase, hfrontier⟩⟩
  | @ancestorConfirmed held cap a row confirmed events gate canonical change logged =>
    have hconfirm := of_committing hbody
    have hphase : row.phase = .detected := mem_singleton.mp gate.phase
    obtain ⟨hnone, hanchored⟩ := h.opening row gate.active (by rw [hphase]; rfl)
    have hg : Grounded s := h.grounded fun r hr => by
      rw [gate.active, some.injEq] at hr
      rw [← hr]
      exact h.searching row gate.active hphase
    obtain ⟨-, -, hmoved, hset, hsame⟩ := RecoveryRow.confirmAncestor?_eq_some change
    have hfrontier := hsame.trans hnone
    obtain ⟨_, _, _, -, ⟨-, hnonneg⟩, -⟩ := confirmRecoveryAncestor_spec hconfirm
    obtain ⟨c, chain, hsway⟩ := hg.confirm canonical hnonneg haligned hfrontier
    refine .of_round rfl hset (h.described.congr rfl rfl)
      (fun o ho _ => (hanchored o ho).congr rfl) ⟨c, chain, hsway.congr rfl rfl rfl⟩
      (fun o ho _ => (hg.settled o ho).congr rfl) (fun _ => ⟨hfrontier, fun o ho => (hanchored o ho).congr rfl⟩) ?_
    rw [hmoved]
    decide
  | @blocksInvalidated held cap row a events gate ancestor logged =>
    refine h.reflag (sweptFlag s a.number) gate.active ancestor rfl (sweptFlag_keys s a.number)
      (fun b _ hb => sweptFlag_below hb) rfl rfl (row.inPhase_sameRound _) (fun _ => ?_) rfl
      (by change RecoveryPhase.invalidated ≠ .detected; decide) fun c chain hsway => ?_
    · have hphase := gate.phase
      simp only [mem_cons, not_mem_nil, or_false] at hphase
      rcases hphase with hphase | hphase <;> rw [hphase] <;> rfl
    · have hmoved : Swaying s (row.inPhase .invalidated) a c chain := hsway.congr rfl rfl rfl
      exact hmoved.reflag rfl rfl (sweptFlag_keys s a.number) (fun b _ hb => sweptFlag_below hb)
        fun k hk hash hhash => hsway.spine.only k hk hash (canonicalHashAt_swept rfl hhash)
  | @observationsInvalidated held cap row a transitions added events gate ancestor =>
    exact h.orphaned gate.active ancestor (mem_singleton.mp gate.phase)
  | @blockRolledBack held cap row a c checkpoint events gate ancestor current floor logged =>
    have hphase : row.phase = .invalidated := mem_singleton.mp gate.phase
    obtain ⟨hnone, hanchored⟩ := h.opening row gate.active (by rw [hphase]; rfl)
    obtain ⟨⟨c', chain, hsway⟩, hbelow⟩ := h.swaying row a gate.active ancestor
    have hc : c' = c := some.inj (hsway.checkpoint.symm.trans current)
    subst hc
    rcases floor with ⟨hempty, -⟩ | ⟨-, hash, hhash, rfl⟩
    · have := hsway.low
      omega
    · refine .of_round gate.active ancestor (h.described.congr rfl rfl)
        (fun o ho hstatus => (h.orphans o ho hstatus).congr rfl) ⟨_, chain, hsway.rollBack hnone hhash rfl rfl⟩
        (fun o ho hle => (hbelow o ho hle).congr rfl)
        (fun _ => ⟨hnone, fun o ho => (hanchored o ho).congr rfl⟩) ?_
      rw [hphase]
      decide
  | unitRolledBack stream => cases stream <;> exact h.quiet rfl rfl rfl rfl
  | replayed => exact h.replayed hgenuine haligned hbody
  | @recanonicalized held cap height oldHash row blocks events gate rows =>
    obtain ⟨habove, hview⟩ := hgenuine
    obtain ⟨a, ha⟩ := h.confirmed gate.active (replayPhases_late gate.phase)
    have hheight := habove row gate.active a ha
    refine h.reflag (recanonicalized height oldHash) gate.active ha rows
      (recanonicalized_keys height oldHash) (fun b _ hb => recanonicalized_of_ne (by omega)) rfl gate.active
      (.refl row) id rfl (replayPhases_late gate.phase).1 fun c chain hsway => hsway.flip hheight hview rfl rows
  | @revived held cap id row o transitions events gate target =>
    obtain ⟨a, ha⟩ := h.confirmed gate.active (replayPhases_late gate.phase)
    exact h.revived gate.active ha target
  | @signalled held cap row events gate =>
    exact h.move rfl rfl rfl gate.active rfl (row.inPhase_sameRound _) rfl (by rintro ⟨⟩) (fun _ => .inr rfl) (by rintro ⟨⟩)
  | @released call release row sweptTo events active phase verified logged =>
    cases ha : row.ancestor with
    | none =>
      unfold verifyCompletionReady at verified
      rw [ha] at verified
      cases verified
    | some a =>
      obtain ⟨⟨c, chain, hsway⟩, hbelow⟩ := h.swaying row a active ha
      have hg := hsway.released (verifyCompletionReady_complete verified ha) hbelow h.orphans
      exact .idle (h.described.congr rfl rfl) (hg.congr rfl rfl rfl) rfl

end Step

def Action.Genuine (node : Lineage) (s : Store) : Action → Prop
  | .submit call _ => call.Genuine node s
  | .operate _ => True

def Action.Aligned (node : Lineage) (s : Store) : Action → Prop
  | .submit call _ => call.Aligned node s
  | .operate _ => True

/-- The canonical chain of a store: one canonical row per height, the rows from the scan start to the
checkpoint on top of each other, the checkpoint on the last of them, and the observations with a
live status exactly those of canonical blocks. -/
structure CanonicalChain (s : Store) : Prop where
  single : ∀ b ∈ s.blocks.rows, ∀ d ∈ s.blocks.rows, b.canonical = true → d.canonical = true →
    b.number = d.number → b.hash = d.hash
  linked : ∀ c, s.checkpoint = some c → ∀ k, c.startHeight ≤ k → k ≤ c.height →
    ∃ b ∈ s.blocks.rows, b.number = k ∧ b.canonical = true ∧
      (c.startHeight < k → canonicalHashAt s (k - 1) = some b.parentHash)
  tip : ∀ c, s.checkpoint = some c → canonicalHashAt s c.height = some c.blockHash
  live : ∀ o ∈ s.observations.rows, o.status = .pending ∨ o.status = .confirmed → canonicalBlock s o.blockHash = true
  orphaned : ∀ o ∈ s.observations.rows, o.status = .orphaned → canonicalBlock s o.blockHash = false

theorem ChainInv.empty (node : Lineage) : ChainInv node empty := by
  refine .idle ⟨?_, ?_, ?_⟩ ⟨fun _ => rfl, ?_, ?_, ?_, ?_⟩ rfl <;> intro _ h <;> cases h

variable {s : Store}

theorem ChainInv.next {node : Lineage} (h : ChainInv node s) {a : Action} (hgenuine : a.Genuine node s)
    (haligned : a.Aligned node s) : ChainInv node (s.next a) := by
  cases a with
  | operate rows => exact h.quiet rfl rfl rfl rfl
  | submit call fault =>
    rcases s.next_submit call fault with hsame | ⟨s', hbody, hnew⟩
    · rwa [hsame]
    · rw [hnew]
      exact h.committed hgenuine haligned hbody

/-- A row of the chain that is canonical lies on the row below it. -/
theorem Grounded.linked (hg : Grounded s) {c : BlockCheckpoint} (hc : s.checkpoint = some c) {k : Int}
    (hlow : c.startHeight ≤ k) (hhigh : k ≤ c.height) :
    ∃ b ∈ s.blocks.rows, b.number = k ∧ b.canonical = true ∧
      (c.startHeight < k → canonicalHashAt s (k - 1) = some b.parentHash) := by
  obtain ⟨chain, hspine, hall⟩ := hg.spine c hc
  obtain ⟨b, hb, hnumber, hhash, hparent⟩ := hspine.stored k hlow hhigh
  obtain ⟨d, hd, hdnumber, hdcanonical, hdhash⟩ := canonicalHashAt_eq_some.mp (hall k hlow hhigh)
  have hsame : b = d := s.blocks.eq_of_clash hb hd (by simp [Constrained.clash, hhash, hdhash])
  subst hsame
  refine ⟨b, hb, hnumber, hdcanonical, fun hstart => ?_⟩
  rw [hparent hstart]
  exact hall (k - 1) (by omega) (by omega)

theorem Grounded.canonicalChain (hg : Grounded s) : CanonicalChain s where
  single b hb d hd hcanonical hcanonical' hnumber := by
    have hb' := canonicalHashAt_eq_some.mpr ⟨b, hb, hnumber, hcanonical, rfl⟩
    have hd' := canonicalHashAt_eq_some.mpr ⟨d, hd, rfl, hcanonical', rfl⟩
    exact some.inj (hb'.symm.trans hd')
  linked c hc k hlow hhigh := hg.linked hc hlow hhigh
  tip c hc := by
    obtain ⟨chain, hspine, hall⟩ := hg.spine c hc
    rw [← hspine.tip]
    exact hall c.height hspine.ordered (le_refl _)
  live o ho hstatus := (hg.settled o ho).mp (by rcases hstatus with h | h <;> rw [h] <;> rfl)
  orphaned o ho hstatus := by
    by_contra hcanonical
    have heffective := (hg.settled o ho).mpr (by simpa using hcanonical)
    rw [hstatus] at heffective
    cases heffective

/-- Between rounds the stored chain is canonical, in every run whose confirmed ancestors lie on the
scanned chain and whose replayed headers come with their own parents. -/
theorem canonical_chain_between_rounds (node : Lineage) (actions : List Action)
    (hrun : Along Store.next (fun s a => a.Genuine node s ∧ a.Aligned node s) Store.empty actions)
    (hidle : (run Store.next .empty actions).recovery = none) :
    CanonicalChain (run Store.next .empty actions) := by
  have hinv := invariant_of_along hrun (ChainInv.empty node) fun s a hstep h => h.next hstep.1 hstep.2
  exact (hinv.ground hidle).canonicalChain

instance (s : Store) (height : Int) : Decidable (s.AboveAncestor height) :=
  inferInstanceAs (Decidable (∀ row ∈ s.recovery, ∀ a ∈ row.ancestor, a.number < height))

instance (node : Lineage) (s : Store) (a : Action) : Decidable (a.Genuine node s) := by
  cases a with
  | operate rows => exact inferInstanceAs (Decidable True)
  | submit call fault =>
    cases call <;> unfold Action.Genuine Call.Genuine <;> infer_instance

instance (node : Lineage) (s : Store) (a : Action) : Decidable (a.Aligned node s) := by
  cases a with
  | operate rows => exact inferInstanceAs (Decidable True)
  | submit call fault =>
    cases call with
    | confirmAncestor held cap a =>
      exact inferInstanceAs (Decidable (∀ c ∈ s.checkpoint, a.number ≤ c.height))
    | replayRange held cap stream lo hi blocks logs observations =>
      -- a quantifier over parents would be decided by running through all hashes
      exact decidable_of_iff (∀ b ∈ blocks, b.parentHash.all (fun parent => parent == node.parent b.hash) = true)
        (by simp only [Action.Aligned, Call.Aligned, Option.all_eq_true, beq_iff_eq])
    | _ => exact inferInstanceAs (Decidable True)

namespace Sample

/-- Block `n` of a fork has hash `100 * fork + n`. A fork leaves the first one where its first hash
does. -/
def lineage (branch : List (Nat × Nat)) : Lineage where
  number h := (h.toNat % 100 : Nat)
  parent h := ((branch.find? (fun p => hash p.1 == h)).map (fun p => hash p.2)).getD (h - 1)

/-- Heights 0 to 3 of the first fork, without transfers. -/
def indexed : List Action := [header 0 0 100 99, header 0 1 101 100, header 0 2 102 101, header 0 3 103 102,
   logUnit 0 ⟨0, 3, by decide⟩ true [(0, 100), (1, 101), (2, 102), (3, 103)] [],
   depositUnit 0 ⟨0, 3, by decide⟩ none [(0, 100), (1, 101), (2, 102), (3, 103)] []]

/-- A round that replays height 1 of the second fork, flips back the retained rows above while the
node shows the first fork again, and completes when the node is back at height 1 of the second. -/
def torn : List Action := establish 1 3 103 :: rewind 1 3 0 100 ++
    [replay 1 3 .block 1 1 [⟨1, hash 201, some (hash 100)⟩],
     does (.recanonicalize true (owned 1 3) 2 (hash 102)),
     does (.recanonicalize true (owned 1 3) 3 (hash 103)),
     replay 1 3 .log 1 1 [], replay 1 3 .deposit 1 1 [], does (.complete true (owned 1 3))]

/-- A second round, on a fork that leaves the first one above height 2. -/
def mended : List Action := establish 2 3 103 :: rewind 2 3 2 102 ++
    [replay 2 3 .block 3 3 [⟨3, hash 303, some (hash 102)⟩], replay 2 3 .log 3 3 [],
     replay 2 3 .deposit 3 3 [], does (.complete true (owned 2 3))]

end Sample

open Sample in
/-- The second fork of the sample. -/
theorem canonical_chain_after_second_fork : (run Store.next .empty (firstFork ++ secondFork)).checkpoint.isSome ∧
      CanonicalChain (run Store.next .empty (firstFork ++ secondFork)) :=
  ⟨by decide +kernel, canonical_chain_between_rounds (lineage [(201, 100)]) _ (by decide +kernel) (by decide +kernel)⟩

open Sample in
/-- With an ancestor above the checkpoint a round completes on a chain whose row 2 does not lie on
row 1. -/
theorem torn_chain_after_round : ∃ (node : Lineage) (actions : List Action),
      Along Store.next (fun s a => a.Genuine node s) Store.empty actions ∧
        (run Store.next .empty actions).recovery = none ∧
        ¬ CanonicalChain (run Store.next .empty actions) := by
  refine ⟨lineage [(201, 100), (303, 102)], indexed ++ torn ++ mended, ?_, by decide +kernel, fun hchain => ?_⟩
  · rw [along_append, along_append]
    exact ⟨⟨by decide +kernel, by decide +kernel⟩, by decide +kernel⟩
  have hcheckpoint : ((run next .empty (indexed ++ torn ++ mended)).checkpoint.map
      fun c => (c.startHeight, c.height)) = some (0, 3) := by decide +kernel
  obtain ⟨c, hc, hbounds⟩ := Option.map_eq_some_iff.mp hcheckpoint
  obtain ⟨hstart, hheight⟩ := Prod.mk.inj hbounds
  obtain ⟨b, hb, hnumber, hcanonical, hparent⟩ := hchain.linked c hc 2 (by omega) (by omega)
  have hrows : ∀ b ∈ (run next .empty (indexed ++ torn ++ mended)).blocks.rows,
      b.number = 2 → b.canonical = true → canonicalHashAt (run next .empty (indexed ++ torn ++ mended)) (2 - 1) ≠
          some b.parentHash := by decide +kernel
  exact hrows b hb hnumber hcanonical (hparent (by omega))

end TxHarbor.Indexer
