import TxHarbor.Indexer.DepositParse
import TxHarbor.Indexer.CommitEffect

open Relational List Option

namespace TxHarbor.Indexer

/-! What the deposit scanner reads before a unit: the upstream watermark, the canonical blocks of
the range and the stored log rows, which have to belong to them. -/

/-- The configuration of one deposit scanner, with the upstream whitelist it shares. -/
structure DepositScanner extends DepositConfig where
  logContracts : List Address
  upstreamHash : Hash
  logStartHeight : Int
  batchBlocks : Nat
  deriving DecidableEq

def DepositScanner.readUpstream (scanner : DepositScanner) (s : Store) :
    Except IndexerError (Option StreamCheckpoint) :=
  match s.logCheckpoint with
  | none => .ok none
  | some c =>
    if c.configHash = scanner.upstreamHash then .ok (some c)
    else .error (.upstreamDrift c.configHash scanner.upstreamHash)

def DepositScanner.classifyUpstreamGap (scanner : DepositScanner) (up : Option StreamCheckpoint)
    (lo hi : Int) : Option DepositGap :=
  if lo < (up.map (·.startBlock)).getD scanner.logStartHeight then
    some ⟨.belowUpstreamStart, lo, hi⟩
  else if scanner.assets.any fun e => decide (e.effective ≤ hi) && !(scanner.logContracts.contains e.address) then
    some ⟨.assetNotIndexed, lo, hi⟩
  else
    match up with
    | none => some ⟨.behindHead, lo, hi⟩
    | some c => if c.nextBlock ≤ hi then some ⟨.behindHead, lo, hi⟩ else none

/-- `readDepositSourceRowsSQL`: the rows of a range in consumption order. -/
def sourceRows (s : Store) (lo hi : Int) : List TransferLog :=
  (s.logs.rows.filter fun row => decide (lo ≤ row.blockNumber) && decide (row.blockNumber ≤ hi)).insertionSort
    fun a b => a.blockNumber < b.blockNumber ∨ (a.blockNumber = b.blockNumber ∧ a.logIndex ≤ b.logIndex)

/-- The heights from `lo` to `hi`. -/
def heightsBetween (lo hi : Int) : List Int := (List.range (hi - lo + 1).toNat).map fun i : Nat => lo + i

/-- The proof both readers of a range run: every height has a canonical block, and every stored
row of the range belongs to the canonical block of its height. -/
def readBoundRows (s : Store) (lo hi : Int) : Except IndexerError (List TransferLog) :=
  match (heightsBetween lo hi).find? fun n => (canonicalHashAt s n).isNone with
  | some n => .error (.chainView n none none)
  | none =>
    match (sourceRows s lo hi).find? fun row => canonicalHashAt s row.blockNumber != some row.blockHash with
    | some row =>
      .error (.chainView row.blockNumber (canonicalHashAt s row.blockNumber) (some row.blockHash))
    | none => .ok (sourceRows s lo hi)

structure DepositUnit where
  canonical : Int → Option Hash
  rows : List TransferLog

def DepositScanner.readCoveredUnit (scanner : DepositScanner) (s : Store) (lo hi : Int) :
    Except IndexerError DepositUnit :=
  if hi < lo then .error (.message "deposit unit is empty")
  else do
    let up ← scanner.readUpstream s
    match scanner.classifyUpstreamGap up lo hi with
    | some gap => .error (.gap gap)
    | none =>
      rejectStreamPauses s
      let rows ← readBoundRows s lo hi
      pure ⟨canonicalHashAt s, rows⟩

/-- `depositUnitEnd`, guarded against unsigned overflow. -/
def depositUnitEnd (a : Int) (batch : Nat) : Int :=
  if batch = 0 then a else min (a + batch - 1) (2 ^ 64 - 1)

/-- `depositCoveredEnd`: the batch is trimmed to the exclusive upstream watermark. -/
def depositCoveredEnd (a : Int) (batch : Nat) (nextExclusive : Int) : Int :=
  max a (if a < nextExclusive then min (depositUnitEnd a batch) (nextExclusive - 1)
    else depositUnitEnd a batch)

/-- The unit that starts at `a`. -/
def DepositScanner.unitRange (scanner : DepositScanner) (a : Int) (up : Option StreamCheckpoint) : HeightRange :=
  ⟨a, depositCoveredEnd a scanner.batchBlocks ((up.map (·.nextBlock)).getD 0), le_max_left _ _⟩

def DepositScanner.verifyProgressIdentity (scanner : DepositScanner) : Option DepositProgress → Except IndexerError Unit
  | none => .ok ()
  | some p =>
    if p.checkpoint.startBlock ≠ scanner.startBlock ∨ p.checkpoint.configHash ≠ scanner.configHash then
      .error .depositConfigMismatch
    else .ok ()

/-- Everything one iteration of the scan loop has read when it calls `commitDepositUnit`. -/
structure DepositTask where
  scanner : DepositScanner
  batch : DepositBatch
  captured : Option DepositProgress
  range : HeightRange
  cap : RecoveryCapture

/-- One iteration of `ServeLoop` up to the commit: the recovery version first, then the progress,
the unit at its position and the parse of its rows. -/
def DepositScanner.read (scanner : DepositScanner) (s : Store) : Except IndexerError DepositTask :=
  let (cap, active) := captureRecoveryVersion s
  if active then .error .stale
  else do
    let progress ← readProgress s
    scanner.verifyProgressIdentity progress
    let up ← scanner.readUpstream s
    let range := scanner.unitRange ((progress.map (·.checkpoint.nextBlock)).getD scanner.startBlock) up
    let unit ← scanner.readCoveredUnit s range.lo range.hi
    let parsed ← parseDepositLogs scanner.matchConfig unit.rows
    pure { scanner := scanner, captured := progress, range := range, cap := cap,
           batch := ⟨unit.canonical, unit.rows.map (·.toIdentity), parsed.matched, parsed.zero, parsed.unmatched⟩ }

/-- `authReproveRange`, empty when its bounds cross. -/
def authReproveRange (s : Store) (lo hi : Int) : Except IndexerError Unit :=
  if hi < lo then .ok () else (readBoundRows s lo hi).map fun _ => ()

variable {lo hi : Int} {s : Store} {scanner : DepositScanner}

variable {n : Int} {up : Option StreamCheckpoint} {task : DepositTask}

theorem mem_heightsBetween : n ∈ heightsBetween lo hi ↔ lo ≤ n ∧ n ≤ hi := by
  simp only [heightsBetween, List.mem_map, List.mem_range]
  constructor
  · rintro ⟨i, hbound, rfl⟩
    omega
  · rintro ⟨hlo, hhi⟩
    exact ⟨(n - lo).toNat, by omega, by omega⟩

theorem HeightRange.mem_heights {r : HeightRange} : n ∈ r.heights ↔ r.lo ≤ n ∧ n ≤ r.hi := by
  rw [← mem_heightsBetween]
  simp [HeightRange.heights, heightsBetween]

theorem mem_sourceRows {row : TransferLog} :
    row ∈ sourceRows s lo hi ↔ row ∈ s.logs.rows ∧ lo ≤ row.blockNumber ∧ row.blockNumber ≤ hi := by
  simp [sourceRows, mem_insertionSort]

/-- The rows of a range that belong to a block other than the canonical one of their height. -/
def Leftover (s : Store) (lo hi : Int) (row : TransferLog) : Prop :=
  row ∈ s.logs.rows ∧ lo ≤ row.blockNumber ∧ row.blockNumber ≤ hi ∧
    canonicalHashAt s row.blockNumber ≠ some row.blockHash

/-- The proof of a range of canonical heights fails exactly on a leftover row. -/
theorem readBoundRows_eq_ok {rows : List TransferLog} : readBoundRows s lo hi = .ok rows ↔
      (∀ n, lo ≤ n → n ≤ hi → (canonicalHashAt s n).isSome) ∧ (∀ row, ¬ Leftover s lo hi row) ∧
        rows = sourceRows s lo hi := by
  unfold readBoundRows
  cases hheight : (heightsBetween lo hi).find? fun n => (canonicalHashAt s n).isNone with
  | some n =>
    have hn := mem_heightsBetween.mp (mem_of_find?_eq_some hheight)
    have hnone := find?_some hheight
    simp only [reduceCtorEq, false_iff, not_and]
    intro hall
    have hsome := hall n hn.1 hn.2
    simp [isNone_iff_eq_none.mp hnone] at hsome
  | none =>
    have hall : ∀ n, lo ≤ n → n ≤ hi → (canonicalHashAt s n).isSome := fun n hlo hhi => by
      have := find?_eq_none.mp hheight n (mem_heightsBetween.mpr ⟨hlo, hhi⟩)
      simpa [← isSome_iff_ne_none] using this
    cases hrow : (sourceRows s lo hi).find? fun row => canonicalHashAt s row.blockNumber != some row.blockHash with
    | some row =>
      obtain ⟨hmem, hlo, hhi⟩ := mem_sourceRows.mp (mem_of_find?_eq_some hrow)
      have hne := find?_some hrow
      simp only [reduceCtorEq, false_iff, not_and]
      intro _ hclean
      exact absurd ⟨hmem, hlo, hhi, by simpa using hne⟩ (hclean row)
    | none =>
      simp only [Except.ok.injEq]
      refine ⟨fun h => ⟨hall, ?_, h.symm⟩, fun h => h.2.2.symm⟩
      rintro row ⟨hmem, hlo, hhi, hne⟩
      have := find?_eq_none.mp hrow row (mem_sourceRows.mpr ⟨hmem, hlo, hhi⟩)
      simp_all

/-- What a covered unit is read from: the watermark of the named whitelist beyond the unit, no
pause row and canonical blocks throughout. -/
structure CoveredUnit (scanner : DepositScanner) (s : Store) (lo hi : Int) : Prop where
  ordered : lo ≤ hi
  upstream : ∃ c, s.logCheckpoint = some c ∧ c.configHash = scanner.upstreamHash ∧ c.startBlock ≤ lo ∧ hi < c.nextBlock
  indexed : ∀ e ∈ scanner.assets, (e.effective : Int) ≤ hi → e.address ∈ scanner.logContracts
  unpaused : rejectStreamPauses s = .ok ()
  canonical : ∀ n, lo ≤ n → n ≤ hi → (canonicalHashAt s n).isSome

theorem DepositScanner.readUpstream_eq_ok : scanner.readUpstream s = .ok up ↔
      up = s.logCheckpoint ∧ ∀ c ∈ s.logCheckpoint, c.configHash = scanner.upstreamHash := by
  unfold readUpstream
  cases hlog : s.logCheckpoint with
  | none => simp [eq_comm]
  | some c =>
    by_cases hhash : c.configHash = scanner.upstreamHash <;> simp [hhash, eq_comm]

/-- No gap is left when the unit starts at or above the upstream start, ends below its watermark
and every asset it needs is indexed. -/
theorem DepositScanner.classifyUpstreamGap_eq_none :
    scanner.classifyUpstreamGap up lo hi = none ↔ (∃ c, up = some c ∧ c.startBlock ≤ lo ∧ hi < c.nextBlock) ∧
        ∀ e ∈ scanner.assets, (e.effective : Int) ≤ hi → e.address ∈ scanner.logContracts := by
  have hany : (scanner.assets.any fun e =>
      decide (e.effective ≤ hi) && !(scanner.logContracts.contains e.address)) = false ↔
        ∀ e ∈ scanner.assets, (e.effective : Int) ≤ hi → e.address ∈ scanner.logContracts := by
    simp [List.any_eq_false]
  unfold classifyUpstreamGap
  rw [← hany]
  generalize (scanner.assets.any fun e =>
    decide (e.effective ≤ hi) && !(scanner.logContracts.contains e.address)) = unindexed
  cases up with
  | none =>
    simp only [reduceCtorEq, false_and, exists_false, iff_false]
    split
    · simp
    · split <;> simp
  | some c =>
    simp only [map_some, getD_some, some.injEq, exists_eq_left']
    by_cases hstart : lo < c.startBlock
    · simp [hstart]
    · cases unindexed with
      | true => simp [hstart]
      | false =>
        have hstart' : c.startBlock ≤ lo := by omega
        by_cases hnext : c.nextBlock ≤ hi
        · simp [hstart, hnext]
        · simp [hstart, hstart', hnext, Int.not_le.mp hnext]

/-- A unit is read exactly when it is covered and no leftover row stands in its range. -/
theorem DepositScanner.readCoveredUnit_eq_ok {unit : DepositUnit} : scanner.readCoveredUnit s lo hi = .ok unit ↔
      CoveredUnit scanner s lo hi ∧ (∀ row, ¬ Leftover s lo hi row) ∧
        unit = ⟨canonicalHashAt s, sourceRows s lo hi⟩ := by
  constructor
  · intro h
    unfold readCoveredUnit at h
    split at h
    · cases h
    next hordered =>
      obtain ⟨up, hup, h⟩ := Tx.except_eq_ok.1.mp h
      split at h
      · cases h
      next hgap =>
        simp only [Tx.except_eq_ok] at h
        obtain ⟨u, hpause, rows, hrows, rfl⟩ := h
        obtain ⟨rfl, hhash⟩ := readUpstream_eq_ok.mp hup
        obtain ⟨⟨c, hc, hstart, hnext⟩, hindexed⟩ := classifyUpstreamGap_eq_none.mp hgap
        obtain ⟨hcanonical, hclean, rfl⟩ := readBoundRows_eq_ok.mp hrows
        exact ⟨⟨by omega, ⟨c, hc, hhash c hc, hstart, hnext⟩, hindexed, hpause, hcanonical⟩, hclean, rfl⟩
  · rintro ⟨⟨hordered, ⟨c, hc, hhash, hstart, hnext⟩, hindexed, hpause, hcanonical⟩, hclean, rfl⟩
    have hup : scanner.readUpstream s = .ok (some c) := readUpstream_eq_ok.mpr ⟨hc.symm, fun c' hc' => by
        cases hc.symm.trans hc'
        exact hhash⟩
    have hgap : scanner.classifyUpstreamGap (some c) lo hi = none :=
      classifyUpstreamGap_eq_none.mpr ⟨⟨c, rfl, hstart, hnext⟩, hindexed⟩
    have hrows : readBoundRows s lo hi = .ok (sourceRows s lo hi) := readBoundRows_eq_ok.mpr ⟨hcanonical, hclean, rfl⟩
    simp [readCoveredUnit, hup, hgap, hpause, hrows, Int.not_lt.mpr hordered, bind, Except.bind, pure, Except.pure]

theorem authReproveRange_eq_ok : authReproveRange s lo hi = .ok () ↔
    (∀ n, lo ≤ n → n ≤ hi → (canonicalHashAt s n).isSome) ∧ ∀ row, ¬ Leftover s lo hi row := by
  unfold authReproveRange
  by_cases hempty : hi < lo
  · simp only [hempty, if_true, true_iff]
    refine ⟨fun n hlo hhi => by omega, ?_⟩
    rintro row ⟨-, hlo, hhi, -⟩
    omega
  · simp only [hempty, if_false]
    cases hrows : readBoundRows s lo hi with
    | error e =>
      simp only [Except.map, reduceCtorEq, false_iff]
      rintro ⟨hcanonical, hclean⟩
      have := readBoundRows_eq_ok.mpr ⟨hcanonical, hclean, rfl⟩
      simp [hrows] at this
    | ok rows =>
      obtain ⟨hcanonical, hclean, -⟩ := readBoundRows_eq_ok.mp hrows
      simp only [Except.map, true_iff]
      exact ⟨hcanonical, hclean⟩

/-- What a scanner that is ready to commit has read, all of it from one store. -/
structure ReadTask (scanner : DepositScanner) (s : Store) (task : DepositTask) : Prop where
  owner : task.scanner = scanner
  idle : s.recovery = none
  cap : task.cap = ⟨recoveryEventsMax s, none⟩
  progress : readProgress s = .ok task.captured
  identity : scanner.verifyProgressIdentity task.captured = .ok ()
  start : task.range.lo = (task.captured.map (·.checkpoint.nextBlock)).getD scanner.startBlock
  covered : CoveredUnit scanner s task.range.lo task.range.hi
  parsed : ∃ parsed, parseDepositLogs scanner.matchConfig (sourceRows s task.range.lo task.range.hi) = .ok parsed ∧
      task.batch = ⟨canonicalHashAt s, (sourceRows s task.range.lo task.range.hi).map (·.toIdentity),
        parsed.matched, parsed.zero, parsed.unmatched⟩

theorem DepositScanner.read_spec (h : scanner.read s = .ok task) :
    ReadTask scanner s task ∧ ∀ row, ¬ Leftover s task.range.lo task.range.hi row := by
  unfold DepositScanner.read captureRecoveryVersion at h
  cases hidle : s.recovery with
  | some row => simp [hidle] at h
  | none =>
    simp only [hidle, Bool.false_eq_true, if_false, Tx.except_eq_ok] at h
    obtain ⟨progress, hprogress, u, hidentity, up, hup, unit, hunit, parsed, hparsed, rfl⟩ := h
    obtain ⟨hcovered, hclean, rfl⟩ := readCoveredUnit_eq_ok.mp hunit
    exact ⟨⟨rfl, hidle, rfl, hprogress, hidentity, rfl, hcovered, parsed, hparsed, rfl⟩, hclean⟩

theorem DepositScanner.read_eq_ok (h : scanner.read s = .ok task) : ReadTask scanner s task := (read_spec h).1

/-- A unit that was read holds no leftover row. -/
theorem DepositScanner.read_clean (h : scanner.read s = .ok task) (row : TransferLog) :
    ¬ Leftover s task.range.lo task.range.hi row :=
  (read_spec h).2 row

end TxHarbor.Indexer
