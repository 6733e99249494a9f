import TxHarbor.Indexer.Assembly
import TxHarbor.Indexer.ReplayProgress
import TxHarbor.Indexer.DepositReplay

open Relational Constrained List Function

namespace TxHarbor.Indexer

open Table Function ReplayObservation TransferLog

/-! The way of a recovery round over canonical blocks: one transaction for each range of a stream. -/

/-- The recovery round has replayed a range from `lo` on, inside `[lo, hi]` and in ranges of any
size, each stream up to its own mark. -/
inductive Replayed (chain : List RawLog) (cap : RecoveryCapture) (lo hi : Int) (l₀ : Ledger) :
    (UnitStream → Int) → Ledger → Prop where
  | start : Replayed chain cap lo hi l₀ (fun _ => lo) l₀
  | range {marks : UnitStream → Int} {l l' : Ledger} (u : UnitStream) (range : HeightRange) (call : Call)
      (before : Replayed chain cap lo hi l₀ marks l) (position : range.lo = marks u)
      (inside : range.hi ≤ hi)
      (submit : replayCall cap u.stream range (assembly chain l.store u.stream range) = some call)
      (commit : call.ledgerBody l = .ok (true, l')) :
      Replayed chain cap lo hi l₀ (Function.update marks u (range.hi + 1)) l'

/-- Where the round stands over its start: the streams at their marks, the headers untouched, and
the row open for more ranges until both streams have reached the end. -/
structure ReplayedRound (cap : RecoveryCapture) (lo hi : Int) (l₀ : Ledger) (marks : UnitStream → Int)
    (l : Ledger) : Prop where
  bounds : ∀ u, lo ≤ marks u ∧ marks u ≤ hi + 1
  blocks : l.store.blocks = l₀.store.blocks
  versions : l.store.versions = l₀.store.versions
  outbox : l.outbox = l₀.outbox
  progress : ∀ u, ∃ c, l.store.progress u = some c ∧ c.nextBlock = marks u ∧ c.startBlock ≤ lo
  round : ∃ row a, l.store.recovery = some row ∧ cap.owned = some row.recoveryID ∧ cap.seq = row.seq ∧
    row.ancestor = some a ∧ hi ≤ sweepEnd l₀.store a.number ∧
    (∀ u : UnitStream, ∀ f ∈ row.frontier u.stream, f = marks u - 1) ∧
    ((∃ u, marks u ≤ hi) → row.phase ∈ [RecoveryPhase.invalidated, .replaying])

variable {cap : RecoveryCapture} {lo hi : Int} {l₀ l : Ledger} {marks : UnitStream → Int} {u : UnitStream}
  {range : HeightRange} {logs : List TransferLog} {observations : List ReplayObservation} {row : TransferLog}
  {chain : List RawLog} {s : Store}

section

variable (h : ReplayedRound cap lo hi l₀ marks l)
include h

/-- What a committed range of one stream does to the round. -/
theorem ReplayedRound.step {s' : Store} (position : range.lo = marks u) (inside : range.hi ≤ hi)
    (hrun : replayRecoveryRange true cap u.stream range.lo range.hi [] logs observations l.store = .ok (true, s')) :
    ReplayedRound cap lo hi l₀ (update marks u (range.hi + 1)) ⟨s', l.outbox⟩ ∧
      ∃ n s₁, replayRows u.stream range.lo range.hi [] logs observations l.store = .ok (n, s₁) ∧
        s'.logs = s₁.logs ∧ s'.observations = s₁.observations := by
  obtain ⟨row, a, s₁, s₂, events, hgate, hsteps, -, rfl⟩ := replayRecoveryRange_steps hrun
  obtain ⟨n, hrows⟩ := hsteps.rows
  obtain ⟨hblocks, hversions, hrecovery, hprogress⟩ := replayRows_unit hrows
  obtain ⟨row₀, a₀, hactive, howner, hversion, hancestor, hend, hfrontier, hphase⟩ := h.round
  have hsame : row = row₀ := Option.some.inj (hgate.active.symm.trans hactive)
  subst hsame
  have hsameAncestor : a = a₀ := Option.some.inj (hsteps.ancestor.symm.trans hancestor)
  subst hsameAncestor
  obtain ⟨c, hc, hnext, hstart⟩ := h.progress u
  obtain ⟨moved, hmovedStart, hmovedNext, hmoved⟩ := advanceReplayProgressTx_unit
    (hrecovery.trans hactive) ((hprogress u).trans hc) (hnext.trans position.symm) range.ordered
  have hs₂ : s₂ = ({ s₁ with recovery := some (row.setFrontier u.stream range.hi) } : Store).setProgress u moved := by
    have hboth := hsteps.progress.symm.trans hmoved
    simpa using hboth
  have hblocks₂ : s₂.blocks = l.store.blocks := by
    rw [hs₂]
    cases u <;> exact hblocks
  have hordered := range.ordered
  have hbound := h.bounds u
  have hmarks : ∀ v, ∃ c, s₂.progress v = some c ∧
      c.nextBlock = update marks u (range.hi + 1) v ∧ c.startBlock ≤ lo := by
    intro v
    by_cases hv : v = u
    · subst hv
      refine ⟨moved, ?_, by rw [update_self, hmovedNext], by omega⟩
      rw [hs₂]
      cases v <;> rfl
    · obtain ⟨d, hd, hdnext, hdstart⟩ := h.progress v
      refine ⟨d, ?_, by rw [update_of_ne hv, hdnext], hdstart⟩
      rw [hs₂, ← hd, ← hprogress v]
      cases u <;> cases v <;> first | rfl | exact absurd rfl hv
  have hfronts : ∀ v : UnitStream, ∀ f ∈ (row.setFrontier u.stream range.hi).frontier v.stream,
      f = update marks u (range.hi + 1) v - 1 := by
    intro v f hf
    rw [RecoveryRow.setFrontier_frontier] at hf
    by_cases hv : v = u
    · rw [if_pos hv] at hf
      cases hf
      rw [hv, update_self]
      omega
    · rw [if_neg hv] at hf
      rw [update_of_ne hv]
      exact hfrontier v f hf
  obtain ⟨hround, -⟩ := row.setFrontier_sameRound u.stream range.hi
  refine ⟨⟨fun v => ?_, hblocks₂.trans h.blocks, ?_, h.outbox, fun v => ?_, _, a, rfl,
    howner.trans (congrArg some hround.recoveryID.symm), hversion.trans hround.seq.symm, ?_, hend,
    fun v f hf => ?_, fun ⟨v, hv⟩ => ?_⟩, n, s₁, hrows, ?_, ?_⟩
  · by_cases hv : v = u
    · rw [hv, update_self]
      omega
    · rw [update_of_ne hv]
      exact h.bounds v
  · simp only [replayedStore, hs₂]
    rw [← h.versions, ← hversions]
    cases u <;> rfl
  · obtain ⟨d, hd, hdnext, hdstart⟩ := hmarks v
    refine ⟨d, ?_, hdnext, hdstart⟩
    rw [← hd]
    cases v <;> rfl
  · rw [← hancestor]
    exact hround.ancestor
  · exact hfronts v f (by cases v <;> exact hf)
  · obtain ⟨d, hd, -⟩ := hmarks v
    have hopen : replayedPhase s₂ (row.setFrontier u.stream range.hi) a.number = .replaying := by
      have hend₂ : hi ≤ sweepEnd s₂ a.number := by
        rwa [sweepEnd_congr (hblocks₂.trans h.blocks)]
      refine replayedPhase_of_behind hend₂ hd fun f hf => ?_
      have := hfronts v f hf
      omega
    simp [RecoveryRow.inPhase, hopen]
  · simp only [replayedStore, hs₂]
    cases u <;> rfl
  · simp only [replayedStore, hs₂]
    cases u <;> rfl

/-- A range at the mark of a stream commits when its rows go through. -/
theorem ReplayedRound.commits (hcovered : ∀ n, lo ≤ n → n ≤ hi → (canonicalHashAt l₀.store n).isSome)
    (hlinked : checkParentLinkage l₀.store lo hi = 0) {n : Nat} {s₁ : Store} (position : range.lo = marks u)
    (inside : range.hi ≤ hi)
    (hrows : replayRows u.stream range.lo range.hi [] logs observations l.store = .ok (n, s₁)) :
    ∃ s', replayRecoveryRange true cap u.stream range.lo range.hi [] logs observations l.store = .ok (true, s') := by
  obtain ⟨hblocks, -, hrecovery, hprogress⟩ := replayRows_unit hrows
  obtain ⟨row, a, hactive, howner, hversion, hancestor, -, hfrontier, hphase⟩ := h.round
  have hordered := range.ordered
  have hbound := h.bounds u
  obtain ⟨c, hc, hnext, -⟩ := h.progress u
  obtain ⟨moved, -, -, hmoved⟩ := advanceReplayProgressTx_unit
    (hrecovery.trans hactive) ((hprogress u).trans hc) (hnext.trans position.symm) range.ordered
  have hsame : s₁.blocks = l₀.store.blocks := hblocks.trans h.blocks
  have hgate : OwnedGate cap [.invalidated, .replaying] l.store row := ⟨hactive, howner, hversion, hphase ⟨u, by omega⟩⟩
  have hsteps : ReplaySteps u.stream range.lo range.hi [] logs observations l.store row a s₁ _ :=
    ⟨hordered, hancestor, fun f hf => by rw [position]; exact hfrontier u f hf, ⟨n, hrows⟩, fun k hlow hhigh => by
        rw [canonicalHashAt_congr hsame]
        exact hcovered k (by omega) (by omega),
      checkParentLinkage_inside hlinked hsame (by omega) (by omega), hmoved⟩
  obtain ⟨events, -, hcommit⟩ := hsteps.commits hgate
  exact ⟨_, hcommit⟩

/-- What the replay has done to a ledger when its streams stand at their marks. -/
structure ReplayedFacts (chain : List RawLog) (cap : RecoveryCapture) (lo hi : Int) (l₀ : Ledger)
    (marks : UnitStream → Int) (l : Ledger) : Prop where
  round : ReplayedRound cap lo hi l₀ marks l
  kept : ∀ row ∈ l₀.store.logs.rows, row ∈ l.store.logs.rows
  source : ∀ row ∈ l.store.logs.rows, row ∈ l₀.store.logs.rows ∨
    ∃ x ∈ chain, TransferIn lo (marks .log) x ∧ x.transfer? = some row
  logged : ∀ x ∈ chain, TransferIn lo (marks .log) x → ∃ r ∈ l.store.logs.rows, r.toIdentity = x.identity
  unchanged : (∀ x ∈ chain, TransferIn lo (hi + 1) x → ∀ o, Reidentifies l₀.store x.replayLog o →
      ∃ r ∈ l₀.store.observations.rows, r.toIdentity = o.toIdentity) →
    l.store.observations = l₀.store.observations

/-- The scope gate lets every height of the range through. -/
theorem ReplayedRound.scope {height : Int} (hlow : lo ≤ height) : depositScope l.store height = true := by
  obtain ⟨c, hc, -, hstart⟩ := h.progress .deposit
  have hc : l.store.depositCheckpoint = some c := hc
  simp only [depositScope, hc, Option.any_some, decide_eq_true_eq]
  omega

end

theorem TransferLog.row_eq_ok {l : TransferLog} (h : l.row lo hi = .ok row) : row = l := by
  obtain ⟨u, -, h⟩ := Tx.except_eq_ok.1.mp h
  exact (Except.ok.inj h).symm

theorem ReplayedFacts.step {l' : Ledger} (h : ReplayedFacts chain cap lo hi l₀ marks l)
    (hscope : ∀ height, lo ≤ height → depositScope l₀.store height = true) {call : Call}
    (position : range.lo = marks u) (inside : range.hi ≤ hi)
    (submit : replayCall cap u.stream range (assembly chain l.store u.stream range) = some call)
    (commit : call.ledgerBody l = .ok (true, l')) :
    ReplayedFacts chain cap lo hi l₀ (update marks u (range.hi + 1)) l' := by
  obtain ⟨logs, observations, hanswer, rfl⟩ := replayCall_eq_some submit
  obtain ⟨hbody, hemit⟩ := Call.ledgerBody_eq_ok.mp commit
  simp only [Call.emit, Except.ok.injEq] at hemit
  obtain ⟨hround, n, s₁, hrows, hlogs, hobservations⟩ := h.round.step position inside hbody
  have hl' : (⟨l'.store, l.outbox⟩ : Ledger) = l' := by rw [hemit]
  rw [hl'] at hround
  have hbounds := h.round.bounds
  have hordered := range.ordered
  cases u with
  | log =>
    obtain ⟨table, hinsert, rfl⟩ := replayRows_log.mp hrows
    obtain ⟨hmem, hshaped⟩ := assembly_log_eq_rows hanswer
    simp only [UnitStream.stream, if_true] at hinsert
    obtain ⟨added, hgrown, -, hadded⟩ := insertBatch_eq_ok hinsert
    obtain ⟨-, hstored⟩ := insertBatch_stored (fun a => by simp) hinsert
    have hlo := (hbounds .log).1
    refine ⟨hround, fun row hrow => ?_, fun row hrow => ?_, fun x hx hin => ?_, ?_⟩
    · rw [hlogs, hgrown]
      exact mem_append_left _ (h.kept row hrow)
    · rw [hlogs, hgrown, mem_append] at hrow
      rw [update_self]
      rcases hrow with hrow | hrow
      · have hmarks := (hbounds .log).2
        rcases h.source row hrow with hold | ⟨x, hx, hin, htransfer⟩
        · exact .inl hold
        · exact .inr ⟨x, hx, hin.mono (by omega), htransfer⟩
      · obtain ⟨⟨i, hinput, hirow⟩, -⟩ := hadded row hrow
        cases row_eq_ok hirow
        obtain ⟨x, hx, hin, htransfer⟩ := (hmem row).mp hinput
        exact .inr ⟨x, hx, ⟨hin.transfers, by have := hin.low; omega, hin.high⟩, htransfer⟩
    · rw [update_self] at hin
      by_cases hlt : (x.blockNumber : Int) < marks .log
      · obtain ⟨r, hr, hid⟩ := h.logged x hx ⟨hin.transfers, hin.low, hlt⟩
        exact ⟨r, by rw [hlogs, hgrown]; exact mem_append_left _ hr, hid⟩
      · have hin' : TransferIn range.lo (range.hi + 1) x := ⟨hin.transfers, by omega, hin.high⟩
        obtain ⟨row, htransfer⟩ := hshaped x hx hin'
        obtain ⟨row', hrow', r, hr, hsame⟩ := hstored row ((hmem row).mpr ⟨x, hx, hin', htransfer⟩)
        cases row_eq_ok hrow'
        refine ⟨r, by rwa [hlogs], ?_⟩
        rw [← (RawLog.transfer?_eq_some htransfer).1]
        exact (beq_iff_eq.mp hsame).symm
    · rw [hobservations]
      exact h.unchanged
  | deposit =>
    obtain ⟨table, hinsert, rfl⟩ := replayRows_deposit.mp hrows
    simp only [UnitStream.stream, if_true] at hinsert
    have hmarks : update marks UnitStream.deposit (range.hi + 1) .log = marks .log := update_of_ne (by simp) _ _
    have hlo := (hbounds .deposit).1
    refine ⟨hround, by rw [hlogs]; exact h.kept, by rw [hlogs, hmarks]; exact h.source,
      by rw [hlogs, hmarks]; exact h.logged, fun hnothing => ?_⟩
    rw [hobservations]
    have hsame := h.unchanged hnothing
    refine Eq.trans (insertBatch_kept hinsert fun i hinput row hrow => ?_) hsame
    obtain ⟨o, ho, rfl⟩ := mem_map.mp hinput
    obtain ⟨x, hx, hin, -, v, hversion, hseq, htransfer⟩ := (assembly_deposit_eq_rows hanswer o).mp ho
    have hin' : TransferIn lo (hi + 1) x := ⟨hin.transfers, by have := hin.low; omega, by have := hin.high; omega⟩
    rw [historicalMatch_congr h.round.versions] at hversion
    obtain ⟨r, hr, hid⟩ := hnothing x hx hin' o ⟨hscope _ hin'.low, v, hversion, hseq, htransfer⟩
    refine ⟨r, by rwa [hsame], ?_⟩
    simp [clash, hid, (row_source hrow).1]

/-- The recovery round stands before the range: its row is open, both streams are at the start of
the range, and the canonical blocks of the range form a chain inside the swept heights. -/
structure ReplayStart (cap : RecoveryCapture) (lo hi : Int) (s : Store) : Prop where
  row : ∃ row a, OwnedGate cap [.invalidated, .replaying] s row ∧ row.ancestor = some a ∧
    hi ≤ sweepEnd s a.number ∧ ∀ u : UnitStream, ∀ f ∈ row.frontier u.stream, f = lo - 1
  progress : ∀ u, ∃ c, s.progress u = some c ∧ c.nextBlock = lo
  linked : checkParentLinkage s lo hi = 0

theorem ReplayStart.round (hordered : lo ≤ hi) (h : ReplayStart cap lo hi l.store) :
    ReplayedRound cap lo hi l (fun _ => lo) l := by
  obtain ⟨row, a, hgate, hancestor, hend, hfrontier⟩ := h.row
  refine ⟨fun _ => ⟨le_refl _, by omega⟩, rfl, rfl, rfl, fun u => ?_, row, a, hgate.active, hgate.owner,
    hgate.version, hancestor, hend, hfrontier, fun _ => hgate.phase⟩
  obtain ⟨c, hc, hnext⟩ := h.progress u
  exact ⟨c, hc, hnext, by have := c.start_le_next; omega⟩

theorem Replayed.facts (hordered : lo ≤ hi) (hstart : ReplayStart cap lo hi l₀.store)
    (h : Replayed chain cap lo hi l₀ marks l) : ReplayedFacts chain cap lo hi l₀ marks l := by
  have hround := hstart.round hordered
  induction h with
  | start =>
    refine ⟨hround, fun row hrow => hrow, fun row hrow => .inl hrow, fun x _ hin => ?_, fun _ => rfl⟩
    have hlow := hin.low
    have hhigh := hin.high
    omega
  | range u range call before position inside submit commit ih =>
    exact ih.step (fun height hlow => hround.scope hlow) position inside submit commit

/-- The node answers for one chain. Its logs of the range stand in the canonical blocks, a slot of
a block holds one log, and a stored row of such a block is one of its logs. -/
structure TruthfulNode (chain : List RawLog) (s : Store) (lo hi : Int) : Prop where
  canonical : ∀ x ∈ chain, lo ≤ x.blockNumber → (x.blockNumber : Int) ≤ hi →
    canonicalHashAt s x.blockNumber = some x.blockHash
  slots : ∀ x ∈ chain, ∀ y ∈ chain, x.blockHash = y.blockHash → x.index = y.index → x = y
  stored : ∀ row ∈ s.logs.rows, ∀ n, lo ≤ n → n ≤ hi → canonicalHashAt s n = some row.blockHash →
    ∃ x ∈ chain, x.transfer? = some row

/-- A row of the chain in the slot of a log is the row of that log. -/
theorem TruthfulNode.row_of_slot (h : TruthfulNode chain s lo hi) {x y : RawLog} (hx : x ∈ chain) (hy : y ∈ chain)
    (hrow : y.transfer? = some row) (hhash : row.blockHash = x.blockHash) (hindex : row.logIndex = x.index) :
    x = y := by
  have hid := (RawLog.transfer?_eq_some hrow).1
  refine h.slots x hx y hy ?_ ?_
  · rw [← hhash, hid]
    rfl
  · have hsame : (x.index : Int) = y.index := by
      rw [← hindex, hid]
      rfl
    exact_mod_cast hsame

/-- A stored row in the slot of a log of the range is the row of that log. -/
theorem TruthfulNode.stored_row (h : TruthfulNode chain s lo hi) {x : RawLog} (hx : x ∈ chain)
    (hin : TransferIn lo (hi + 1) x) (hrow : row ∈ s.logs.rows) (hhash : row.blockHash = x.blockHash)
    (hindex : row.logIndex = x.index) : x.transfer? = some row := by
  have hhigh := hin.high
  have hcanonical := h.canonical x hx hin.low (by omega)
  rw [← hhash] at hcanonical
  obtain ⟨y, hy, htransfer⟩ := h.stored row hrow _ hin.low (by omega) hcanonical
  rwa [h.row_of_slot hx hy htransfer hhash hindex]

theorem TransferLog.row_ok {l : TransferLog} (hlo : lo ≤ l.blockNumber) (hhi : l.blockNumber ≤ hi) :
    l.row lo hi = .ok l := by
  simp [row, insideRange, hlo, hhi, bind, Except.bind]

theorem ReplayObservation.row_ok {versions : Table DepositVersion} {o : ReplayObservation}
    (hlo : lo ≤ o.blockNumber) (hhi : o.blockNumber ≤ hi) (hamount : 0 < o.amount)
    (hversion : ∃ v ∈ versions.rows, v.versionSeq = o.versionSeq) : ∃ row, o.row versions lo hi = .ok row := by
  obtain ⟨row, hrow, -⟩ := DepositMatch.observation_ok hamount o.versionSeq
  have hfound : (versions.rows.any fun v => v.versionSeq == o.versionSeq) = true := by
    obtain ⟨v, hv, hseq⟩ := hversion
    exact any_eq_true.mpr ⟨v, hv, by simp [hseq]⟩
  exact ⟨row, by simp [ReplayObservation.row, insideRange, hlo, hhi, hrow, hfound, bind, Except.bind]⟩

/-- The log rows of a replayed range can be inserted: the only stored row in the slot of a log is
its own. -/
theorem ReplayedFacts.log_rows (h : ReplayedFacts chain cap lo hi l₀ marks l)
    (htruth : TruthfulNode chain l₀.store lo hi) (position : range.lo = marks .log) (inside : range.hi ≤ hi)
    (hanswer : assembly chain l.store .log range = .rows logs observations) :
    ∃ n s₁, replayRows .log range.lo range.hi [] logs [] l.store = .ok (n, s₁) := by
  obtain ⟨hmem, -⟩ := assembly_log_eq_rows hanswer
  have hlo := (h.round.bounds .log).1
  have hsucceeds : ∃ t' n, l.store.logs.insertBatch (row range.lo range.hi)
      (fun a b => a.toIdentity == b.toIdentity) (fun _ => IndexerError.message "replay log") logs = .ok (t', n) := by
    refine insertBatch_succeeds (P := fun r : TransferLog => ∀ x ∈ chain,
      TransferIn lo (hi + 1) x → r.blockHash = x.blockHash → r.logIndex = (x.index : Int) →
        x.transfer? = some r) _ ?_ ?_
    · intro r hr x hx hin hhash hindex
      rcases h.source r hr with hold | ⟨y, hy, -, htransfer⟩
      · exact htruth.stored_row hx hin hold hhash hindex
      · rwa [htruth.row_of_slot hx hy htransfer hhash hindex]
    · intro row hrow
      obtain ⟨y, hy, hyin, htransfer⟩ := (hmem row).mp hrow
      obtain ⟨hid, hnumber, -⟩ := RawLog.transfer?_eq_some htransfer
      have hlow := hyin.low
      have hhigh := hyin.high
      have hin : TransferIn lo (hi + 1) y := ⟨hyin.transfers, by omega, by omega⟩
      refine ⟨row, row_ok (by omega) (by omega), fun x hx _ hhash hindex => ?_, fun r hmeets hclash => ?_⟩
      · rwa [htruth.row_of_slot hx hy htransfer hhash hindex]
      · simp only [clash, Bool.and_eq_true, beq_iff_eq] at hclash
        have hsame := hmeets y hy hin (hclash.1.trans (by rw [hid]; rfl)) (hclash.2.trans (by rw [hid]; rfl))
        cases htransfer.symm.trans hsame
        exact beq_self_eq_true _
  obtain ⟨table, n, hinsert⟩ := hsucceeds
  exact ⟨n, _, replayRows_log.mpr ⟨table, hinsert, rfl⟩⟩

theorem replayRows_deposit_ok (hanswer : assembly chain s .deposit range = .rows logs observations) :
    ∃ n s₁, replayRows .deposit range.lo range.hi [] [] observations s = .ok (n, s₁) := by
  have hcheck : ∀ i ∈ observations.map (row s.versions range.lo range.hi), ∃ row, id i = .ok row := by
    intro i hi
    obtain ⟨o, ho, rfl⟩ := mem_map.mp hi
    obtain ⟨x, -, hin, -, v, hversion, hseq, row, hrow, hmatched⟩ := (assembly_deposit_eq_rows hanswer o).mp ho
    obtain ⟨hdeposit, -, hamount⟩ := DepositMatchConfig.parseLog_matched hmatched
    obtain ⟨-, hnumber, -⟩ := RawLog.transfer?_eq_some hrow
    have hheight : o.blockNumber = x.blockNumber := by rwa [hdeposit]
    have hhigh := hin.high
    have hlow := hin.low
    exact row_ok (by omega) (by omega) hamount ⟨v, (latest_eq_some hversion).1, hseq.symm⟩
  have hkey : ∀ a b : DepositObservation, clash b a = (a.toIdentity == b.toIdentity) :=
    fun a b => by simp [clash, Bool.beq_comm]
  have hsucceeds : ∃ t' n, insertObservations s.observations
      (observations.map (row s.versions range.lo range.hi)) = .ok (t', n) := by
    obtain ⟨t', n, hbatch, -⟩ := insertBatch_ok s.observations hcheck hkey (fun a => by simp)
    exact ⟨t', n, hbatch⟩
  obtain ⟨table, n, hinsert⟩ := hsucceeds
  exact ⟨n, _, replayRows_deposit.mpr ⟨table, hinsert, rfl⟩⟩

end TxHarbor.Indexer
