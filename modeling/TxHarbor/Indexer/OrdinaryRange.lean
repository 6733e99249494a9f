import TxHarbor.Indexer.Assembly
import TxHarbor.Indexer.ReplayProgress
import TxHarbor.Indexer.DepositWorld

open Relational List

namespace TxHarbor.Indexer

/-! The ordinary way to index a range of a chain: log ranges and deposit units. -/

/-- The log and deposit scanners have processed a range from `lo` on, in ranges and units of any
size and in any order: logs up to the first height, deposits up to the second one. -/
inductive Indexed (scanner : DepositScanner) (chain : List RawLog) (lo : Int) (l₀ : Ledger) :
    Int → Int → Ledger → Prop where
  | start : Indexed scanner chain lo l₀ lo lo l₀
  | logs {n m : Int} {l l' : Ledger} (range : HeightRange) (first : Bool) (coverage : Int → Option Hash)
      (rows : List TransferLog) (cap : RecoveryCapture) (before : Indexed scanner chain lo l₀ n m l)
      (position : range.lo = n)
      (read : validateLogs scanner.logContracts range.lo range.hi coverage
        (filterLogs chain scanner.logContracts range.lo range.hi) = .ok rows)
      (commit : (Call.commitLogRange ⟨scanner.logStartHeight, scanner.upstreamHash⟩ true range first
        coverage rows cap).ledgerBody l = .ok (true, l')) :
      Indexed scanner chain lo l₀ (range.hi + 1) m l'
  | unit {n m : Int} {l l' : Ledger} (task : DepositTask) (before : Indexed scanner chain lo l₀ n m l)
      (read : scanner.read l.store = .ok task) (position : task.range.lo = m)
      (commit : (task.call true).ledgerBody l = .ok (true, l')) :
      Indexed scanner chain lo l₀ n (task.range.hi + 1) l'

/-- What the ordinary path has done to a ledger when its streams stand at `n` and `m`. -/
structure IndexedFacts (scanner : DepositScanner) (chain : List RawLog) (lo : Int) (l₀ : Ledger)
    (n m : Int) (l : Ledger) : Prop where
  order : lo ≤ m ∧ m ≤ n
  blocks : l.store.blocks = l₀.store.blocks
  watermark : ∀ c ∈ l.store.logCheckpoint, c.nextBlock = n
  covered : ∀ h, lo ≤ h → h < n → (canonicalHashAt l₀.store h).isSome
  kept : ∀ row ∈ l₀.store.logs.rows, row ∈ l.store.logs.rows
  source : ∀ row ∈ l.store.logs.rows, row ∈ l₀.store.logs.rows ∨ ∃ x ∈ chain, TransferIn lo n x ∧
    x.address ∈ scanner.logContracts ∧ x.transfer? = some row
  logged : ∀ x ∈ chain, TransferIn lo n x → x.address ∈ scanner.logContracts →
    ∃ row ∈ l.store.logs.rows, x.transfer? = some row
  parsed : ∀ row ∈ l.store.logs.rows, lo ≤ row.blockNumber → row.blockNumber < m →
    ∃ verdict, scanner.matchConfig.parseLog row = .ok verdict
  clean : ∀ row ∈ l.store.logs.rows, lo ≤ row.blockNumber → row.blockNumber < m →
    canonicalHashAt l₀.store row.blockNumber = some row.blockHash
  observed : ∀ row ∈ l.store.logs.rows, lo ≤ row.blockNumber → row.blockNumber < m →
    scanner.matchConfig.Deposits row → ∃ o ∈ l.store.observations.rows, o.toIdentity = row.toIdentity
  grown : l₀.store.observations.rows <+: l.store.observations.rows
  created : ∀ o ∈ l.store.observations.rows, o ∈ l₀.store.observations.rows ∨
    (∀ r ∈ l₀.store.observations.rows, r.toIdentity ≠ o.toIdentity) ∧ ∃ e ∈ l.outbox.rows, e.creates o.toIdentity = true
  unchanged : (∀ row ∈ l.store.logs.rows, lo ≤ row.blockNumber → row.blockNumber < m →
      scanner.matchConfig.Deposits row → ∃ o ∈ l₀.store.observations.rows, o.toIdentity = row.toIdentity) →
    l.store.observations = l₀.store.observations ∧ l.outbox = l₀.outbox

variable {scanner : DepositScanner} {chain : List RawLog} {lo : Int} {l₀ l : Ledger} {n m : Int}

/-- A log range of the ordinary path. -/
theorem IndexedFacts.logs {l' : Ledger} (ih : IndexedFacts scanner chain lo l₀ n m l) {range : HeightRange}
    {first : Bool} {coverage : Int → Option Hash} {rows : List TransferLog} {cap : RecoveryCapture}
    (position : range.lo = n) (read : validateLogs scanner.logContracts range.lo range.hi coverage
      (filterLogs chain scanner.logContracts range.lo range.hi) = .ok rows)
    (commit : (Call.commitLogRange ⟨scanner.logStartHeight, scanner.upstreamHash⟩ true range first
      coverage rows cap).ledgerBody l = .ok (true, l')) :
    IndexedFacts scanner chain lo l₀ (range.hi + 1) m l' := by
  obtain ⟨hbody, hemit⟩ := Call.ledgerBody_eq_ok.mp commit
  have hrun := of_committing hbody
  obtain ⟨-, hcanonical, logs, checkpoint, hstore, hadvance, added, hgrown, hadded, hstored⟩ := commitLogRange_spec hrun
  obtain ⟨hrows, hall⟩ := validateLogs_eq_ok read
  have hordered := range.ordered
  obtain ⟨hlo, hmn⟩ := ih.order
  have hlogs : l'.store.logs.rows = l.store.logs.rows ++ added := by rwa [hstore]
  have hobservations : l'.store.observations = l.store.observations := by rw [hstore]
  have houtbox : l'.outbox = l.outbox := by
    simp only [Call.emit, Except.ok.injEq] at hemit
    exact hemit.symm
  -- The new rows are those of the listed Transfer logs of the range.
  have hnew : ∀ row ∈ rows, ∃ x ∈ chain, TransferIn n (range.hi + 1) x ∧
      x.address ∈ scanner.logContracts ∧ x.transfer? = some row := fun row hrow => by
    obtain ⟨x, hx, hvalid⟩ := (hrows row).mp hrow
    obtain ⟨hmem, ⟨hlow, hhigh⟩, htransfers, -⟩ := mem_filterLogs.mp hx
    exact ⟨x, hmem, ⟨htransfers, by omega, by omega⟩, hvalid.listed, hvalid.transfer?⟩
  have hbelow : ∀ row ∈ l'.store.logs.rows, row.blockNumber < m → row ∈ l.store.logs.rows := fun row hrow hlt => by
      rw [hlogs, mem_append] at hrow
      refine hrow.resolve_right fun hmem => ?_
      obtain ⟨x, -, hx, -, htransfer⟩ := hnew row (hadded row hmem)
      have hnumber := (RawLog.transfer?_eq_some htransfer).2.1
      have hlow := hx.low
      omega
  refine ⟨⟨hlo, by omega⟩, ?_, ?_, ?_, ?_, ?_, ?_, ?_, ?_, ?_, ?_, ?_, ?_⟩
  · rw [hstore]
    exact ih.blocks
  · intro c hc
    rw [hstore] at hc
    cases hc
    exact (HeightRange.advance_eq_some hadvance).1
  · intro h hlow hhigh
    by_cases hlt : h < n
    · exact ih.covered h hlow hlt
    · rw [← canonicalHashAt_congr ih.blocks]
      exact hcanonical h (HeightRange.mem_heights.mpr ⟨by omega, by omega⟩)
  · intro row hrow
    rw [hlogs]
    exact mem_append_left _ (ih.kept row hrow)
  · intro row hrow
    rw [hlogs, mem_append] at hrow
    rcases hrow with hrow | hrow
    · rcases ih.source row hrow with hold | ⟨x, hx, hin, hlisted, htransfer⟩
      · exact .inl hold
      · exact .inr ⟨x, hx, hin.mono (by omega), hlisted, htransfer⟩
    · obtain ⟨x, hx, hin, hlisted, htransfer⟩ := hnew row (hadded row hrow)
      exact .inr ⟨x, hx, ⟨hin.transfers, by have := hin.low; omega, hin.high⟩, hlisted, htransfer⟩
  · intro x hx hin hlisted
    by_cases hlt : (x.blockNumber : Int) < n
    · obtain ⟨row, hrow, htransfer⟩ := ih.logged x hx ⟨hin.transfers, hin.low, hlt⟩ hlisted
      exact ⟨row, by rw [hlogs]; exact mem_append_left _ hrow, htransfer⟩
    · have hhigh := hin.high
      have hmem : x ∈ filterLogs chain scanner.logContracts range.lo range.hi :=
        mem_filterLogs.mpr ⟨hx, ⟨by omega, by omega⟩, hin.transfers, .inr hlisted⟩
      obtain ⟨row, hvalid⟩ := hall x hmem
      exact ⟨row, by rw [hstore]; exact hstored row ((hrows row).mpr ⟨x, hmem, hvalid⟩), hvalid.transfer?⟩
  · exact fun row hrow hlow hhigh => ih.parsed row (hbelow row hrow hhigh) hlow hhigh
  · exact fun row hrow hlow hhigh => ih.clean row (hbelow row hrow hhigh) hlow hhigh
  · rw [hobservations]
    exact fun row hrow hlow hhigh => ih.observed row (hbelow row hrow hhigh) hlow hhigh
  · rw [hobservations]
    exact ih.grown
  · rw [hobservations, houtbox]
    exact ih.created
  · rw [hobservations, houtbox]
    intro hdeposits
    refine ih.unchanged fun row hrow hlow hhigh hdeposit => hdeposits row ?_ hlow hhigh hdeposit
    rw [hlogs]
    exact mem_append_left _ hrow

/-- A deposit unit of the ordinary path. -/
theorem IndexedFacts.unit {l' : Ledger} (ih : IndexedFacts scanner chain lo l₀ n m l) {task : DepositTask}
    (read : scanner.read l.store = .ok task) (position : task.range.lo = m)
    (commit : (task.call true).ledgerBody l = .ok (true, l')) :
    IndexedFacts scanner chain lo l₀ n (task.range.hi + 1) l' := by
  obtain ⟨hbody, hemit⟩ := Call.ledgerBody_eq_ok.mp commit
  have hrun := of_committing hbody
  have htask := DepositScanner.read_eq_ok read
  obtain ⟨-, versions, observations, checkpoint, hstore, hunit⟩ := commitDepositUnit_committed hrun
  obtain ⟨parsed, hparsed, hbatch⟩ := htask.parsed
  obtain ⟨hmatched, -⟩ := parseDepositLogs_spec hparsed
  obtain ⟨added, hgrown, hadded⟩ := hunit.grown
  obtain ⟨up, hup, -, -, hbelow⟩ := htask.covered.upstream
  have hordered := task.range.ordered
  have hmark := ih.watermark up hup
  obtain ⟨hlo, hmn⟩ := ih.order
  have hlogs : l'.store.logs = l.store.logs := by rw [hstore]
  have hobservations : l'.store.observations = observations := by rw [hstore]
  have hinserted : l.outbox.appendAll appendCreated added = .ok l'.outbox := by
    simp only [DepositTask.call, Call.emit] at hemit
    rw [insertedObservations_eq (by rwa [hobservations])] at hemit
    exact hemit
  obtain ⟨hkept, hevents⟩ := Outbox.appendAll_created hinserted
  obtain ⟨older, holder⟩ := ih.grown
  have hsource : ∀ row ∈ l.store.logs.rows, m ≤ row.blockNumber → row.blockNumber < task.range.hi + 1 →
      row ∈ sourceRows l.store task.range.lo task.range.hi := fun row hrow hlow hhigh =>
    mem_sourceRows.mpr ⟨hrow, by omega, by omega⟩
  refine ⟨⟨by omega, by omega⟩, ?_, ?_, ih.covered, ?_, ?_, ?_, ?_, ?_, ?_, ?_, ?_, ?_⟩
  · rw [hstore]
    exact ih.blocks
  · rw [hstore]
    exact ih.watermark
  · rw [hlogs]
    exact ih.kept
  · rw [hlogs]
    exact ih.source
  · rw [hlogs]
    exact ih.logged
  · rw [hlogs]
    intro row hrow hlow hhigh
    by_cases hlt : row.blockNumber < m
    · exact ih.parsed row hrow hlow hlt
    · exact parseDepositLogs_parsed hparsed row (hsource row hrow (by omega) hhigh)
  · rw [hlogs]
    intro row hrow hlow hhigh
    by_cases hlt : row.blockNumber < m
    · exact ih.clean row hrow hlow hlt
    · by_contra hleft
      rw [← canonicalHashAt_congr ih.blocks] at hleft
      exact DepositScanner.read_clean read row ⟨hrow, by omega, by omega, hleft⟩
  · rw [hlogs, hobservations]
    intro row hrow hlow hhigh hdeposit
    by_cases hlt : row.blockNumber < m
    · obtain ⟨o, ho, hid⟩ := ih.observed row hrow hlow hlt hdeposit
      exact ⟨o, by rw [hgrown]; exact mem_append_left _ ho, hid⟩
    · have hmem : row.deposit ∈ task.batch.matched := by
        rw [hbatch]
        exact (hmatched _).mpr ⟨row, hsource row hrow (by omega) hhigh, hdeposit⟩
      exact DepositMatch.consistent_identity (hunit.stored _ hmem)
  · rw [hobservations, hgrown, ← holder, append_assoc]
    exact prefix_append _ _
  · rw [hobservations]
    intro o ho
    rw [hgrown, mem_append] at ho
    rcases ho with ho | ho
    · refine (ih.created o ho).imp_right ?_
      rintro ⟨hfresh, e, he, hcreates⟩
      exact ⟨hfresh, e, hkept e he, hcreates⟩
    · refine .inr ⟨fun r hr => (hadded o ho).2.1 r ?_, hevents o ho⟩
      rw [← holder]
      exact mem_append_left _ hr
  · rw [hlogs, hobservations]
    intro hdeposits
    obtain ⟨hsame, hsameEvents⟩ := ih.unchanged fun row hrow hlow hhigh =>
      hdeposits row hrow hlow (by omega)
    have hnone : added = [] := by
      refine eq_nil_iff_forall_not_mem.mpr fun o ho => ?_
      obtain ⟨-, hfresh, match₀, hmatch, hid, -⟩ := hadded o ho
      rw [hbatch] at hmatch
      obtain ⟨row, hrow, hdeposit⟩ := (hmatched match₀).mp hmatch
      obtain ⟨rfl, -⟩ := DepositMatchConfig.parseLog_matched hdeposit
      obtain ⟨hmem, hlow, hhigh⟩ := mem_sourceRows.mp hrow
      obtain ⟨r, hr, hrid⟩ := hdeposits row hmem (by omega) (by omega) hdeposit
      exact hfresh r (by rwa [hsame]) (hrid.trans hid.symm)
    subst hnone
    refine ⟨(Table.ext (by simpa using hgrown)).trans hsame, ?_⟩
    simp only [Outbox.appendAll, Except.ok.injEq] at hinserted
    rwa [← hinserted]

theorem Indexed.facts (hstart : ∀ c ∈ l₀.store.logCheckpoint, c.nextBlock = lo)
    (h : Indexed scanner chain lo l₀ n m l) : IndexedFacts scanner chain lo l₀ n m l := by
  induction h with
  | start =>
    refine ⟨⟨le_refl _, le_refl _⟩, rfl, hstart, fun h hlo hhi => by omega, fun row hrow => hrow,
      fun row hrow => .inl hrow, fun x _ hx => ?_, fun row _ hlo hhi => by omega,
      fun row _ hlo hhi => by omega, fun row _ hlo hhi => by omega, prefix_refl _, fun o ho => .inl ho, fun _ => ⟨rfl, rfl⟩⟩
    have hlow := hx.low
    have hhigh := hx.high
    omega
  | logs range first coverage rows cap before position read commit ih => exact ih.logs position read commit
  | unit task before read position commit ih => exact ih.unit read position commit

end TxHarbor.Indexer
