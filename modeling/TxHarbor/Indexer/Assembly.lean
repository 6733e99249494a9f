import TxHarbor.Indexer.LogScan
import TxHarbor.Indexer.Executor

open Relational List

namespace TxHarbor.Indexer

/-! What the recovery executor makes of the node's logs before it submits a range. It asks for
every Transfer log, whatever the contract, and matches each height under its historical version. -/

/-- Whether the first topic is that of a Transfer event. -/
def RawLog.transfers (l : RawLog) : Bool := l.topics.head? == some transferSig

/-- `FilterLogs` for Transfer events of a range. No contracts means all of them. -/
def filterLogs (chain : List RawLog) (contracts : List Address) (lo hi : Int) : List RawLog :=
  chain.filter fun l => decide (lo ≤ l.blockNumber) && decide ((l.blockNumber : Int) ≤ hi) &&
    l.transfers && (contracts.isEmpty || contracts.contains l.address)

/-- `ReplayLog`. A topic the log lacks is an empty text, and the data is as long as the log has
it. -/
structure ReplayLog extends Identity where
  blockNumber : Int
  contract : Address
  topic0 : Option Hash
  topic1 : Option Hash
  topic2 : Option Hash
  data : List UInt8
  deriving DecidableEq

/-- The row of one log, with `pickTopic` for its topics. -/
def RawLog.replayLog (l : RawLog) : ReplayLog where
  toIdentity := l.identity
  blockNumber := l.blockNumber
  contract := l.address
  topic0 := l.topics[0]?
  topic1 := l.topics[1]?
  topic2 := l.topics[2]?
  data := l.data

/-- The stored row, unless a CHECK on a topic or on the data refuses it. -/
def ReplayLog.row? (l : ReplayLog) : Option TransferLog :=
  match l.topic0, l.topic1, l.topic2 with
  | some topic0, some topic1, some topic2 =>
    if l.data.length = 32 then
      some { toIdentity := l.toIdentity, blockNumber := l.blockNumber, contract := l.contract,
             topic0 := topic0, topic1 := topic1, topic2 := topic2, data := dataWord l.data }
    else none
  | _, _, _ => none

/-- The stored row of a log as the executor assembles it. -/
def RawLog.transfer? (l : RawLog) : Option TransferLog := l.replayLog.row?

/-- The class of a row that no column format allows: the topics are checked before the data. -/
def ReplayLog.defect (l : ReplayLog) : DepositClass :=
  if l.topic1.any zeroHigh12 && l.topic2.any zeroHigh12 then .badAmount else .badTopics

/-- `parseLog` on an assembled row. -/
def ReplayLog.parse (cfg : DepositMatchConfig) (l : ReplayLog) : Except IndexerError DepositVerdict :=
  match l.row? with
  | some row => cfg.parseLog row
  | none => .error (.depositParse l.blockNumber l.logIndex l.defect)

/-- `parseDepositLogs` on assembled rows. -/
def parseReplayLogs (cfg : DepositMatchConfig) : List ReplayLog → Except IndexerError ParsedDeposits
  | [] => .ok ⟨[], 0, 0⟩
  | l :: rest =>
    match l.parse cfg with
    | .error e => .error e
    | .ok verdict =>
      match parseReplayLogs cfg rest with
      | .error e => .error e
      | .ok batch => .ok (batch.add verdict)

/-- Why an assembly hands out no rows: `errRecoveryAssemblyHold`, or an error that fails the
tick. -/
inductive AssemblyStop where
  | hold (height : Int)
  | failed (err : IndexerError)
  deriving DecidableEq

/-- `historicalMatch`: the latest version whose start covers the height. -/
def historicalMatch (s : Store) (height : Int) : Option DepositVersion :=
  s.versions.latest (fun v => decide (v.startBlock ≤ height)) (·.versionSeq)

/-- The deposit scope gate over `depositScopeStart`. -/
def depositScope (s : Store) (height : Int) : Bool := s.depositCheckpoint.any fun c => decide (c.startBlock ≤ height)

/-- The observations of one height inside the deposit scope. -/
def assembleHeight (s : Store) (logs : List ReplayLog) (height : Int) : Except AssemblyStop (List ReplayObservation) :=
  match historicalMatch s height with
  | none => .error (.hold height)
  | some v =>
    match parseReplayLogs v.matchConfig (logs.filter fun l => l.blockNumber == height) with
    | .error e => .error (.failed e)
    | .ok batch => .ok (batch.matched.map fun m => ⟨m, v.versionSeq⟩)

/-- The loop over the heights that have a log. -/
def assembleHeights (s : Store) (logs : List ReplayLog) : List Int → Except AssemblyStop (List ReplayObservation)
  | [] => .ok []
  | height :: rest =>
    match if depositScope s height then assembleHeight s logs height else .ok [] with
    | .error e => .error e
    | .ok first =>
      match assembleHeights s logs rest with
      | .error e => .error e
      | .ok others => .ok (first ++ others)

/-- `assembleLogsAndDeposits` for an answered query. -/
def assembleLogsAndDeposits (chain : List RawLog) (s : Store) (lo hi : Int) :
    Except AssemblyStop (List ReplayLog × List ReplayObservation) :=
  let logs := (filterLogs chain [] lo hi).map RawLog.replayLog
  match assembleHeights s logs (logs.map (·.blockNumber)).dedup with
  | .error e => .error e
  | .ok observations => .ok (logs, observations)

/-- The rows a stream submits for a range. A log row that its CHECKs refuse fails the transaction
of the log stream, and no other stream carries log rows. -/
def assembly (chain : List RawLog) (s : Store) (stream : RecoveryStream) (range : HeightRange) : Assembly :=
  match assembleLogsAndDeposits chain s range.lo range.hi with
  | .error (.hold _) => .hold
  | .error (.failed _) => .failed
  | .ok (logs, observations) =>
    if stream = .log then
      if logs.all fun l => l.row?.isSome then .rows (logs.filterMap ReplayLog.row?) observations
      else .failed
    else .rows [] observations

/-- The transaction `submitRange` runs over heights that need no header. -/
def replayCall (cap : RecoveryCapture) (stream : RecoveryStream) (range : HeightRange) : Assembly → Option Call
  | .rows logs observations => some (.replayRange true cap stream range.lo range.hi []
      (if stream = .log then logs else []) (if stream = .deposit then observations else []))
  | _ => none

variable {range : HeightRange} {chain : List RawLog} {lo hi : Int} {l : RawLog} {s : Store} {logs : List ReplayLog}
  {observations : List ReplayObservation} {cap : RecoveryCapture} {stream : RecoveryStream} {answer : Assembly} {call : Call}

theorem mem_filterLogs {contracts : List Address} :
    l ∈ filterLogs chain contracts lo hi ↔ l ∈ chain ∧ (lo ≤ l.blockNumber ∧ (l.blockNumber : Int) ≤ hi) ∧
      l.transfers = true ∧ (contracts = [] ∨ l.address ∈ contracts) := by
  simp [filterLogs, and_assoc]

theorem historicalMatch_congr {s' : Store} (h : s'.versions = s.versions) (height : Int) :
    historicalMatch s' height = historicalMatch s height := by
  unfold historicalMatch
  rw [h]

open RawLog ReplayLog

/-- A valid log of the ordinary path has the row the executor assembles. -/
theorem ValidLog.transfer? {whitelist : List Address} {coverage : Int → Option Hash} {row : TransferLog}
    (h : ValidLog whitelist lo hi coverage l row) : l.transfer? = some row := by
  obtain ⟨topic1, topic2, htopics, -, -, rfl⟩ := h.shaped
  simp [RawLog.transfer?, row?, RawLog.replayLog, htopics, h.word, RawLog.row]

/-- A stored row keeps the identity, the height and the first topic of its log. -/
theorem RawLog.transfer?_eq_some {row : TransferLog} (h : l.transfer? = some row) :
    row.toIdentity = l.identity ∧ row.blockNumber = l.blockNumber ∧
      (row.topic0 = transferSig → l.transfers = true) := by
  simp only [transfer?, row?] at h
  split at h
  next topic0 topic1 topic2 htopic0 htopic1 htopic2 =>
    split at h
    · cases h
      refine ⟨rfl, rfl, fun hsig => ?_⟩
      simp only [replayLog] at htopic0
      simp only at hsig
      rw [transfers, head?_eq_getElem?, htopic0, hsig]
      exact beq_self_eq_true _
    · cases h
  · cases h

variable {cfg : DepositMatchConfig}

/-- What a parse of assembled rows gives: every row is well formed and has a verdict, and the
matches are those of the rows. -/
theorem parseReplayLogs_spec {batch : ParsedDeposits} (h : parseReplayLogs cfg logs = .ok batch) (m : DepositMatch) :
    m ∈ batch.matched ↔ ∃ l ∈ logs, ∃ row, l.row? = some row ∧ cfg.parseLog row = .ok (.matched m) := by
  induction logs generalizing batch with
  | nil =>
    cases h
    simp
  | cons l rest ih =>
    simp only [parseReplayLogs, parse] at h
    cases hrow : l.row? with
    | none => simp [hrow] at h
    | some row =>
      cases hparse : cfg.parseLog row with
      | error e => simp [hrow, hparse] at h
      | ok verdict =>
        cases hrest : parseReplayLogs cfg rest with
        | error e => simp [hrow, hparse, hrest] at h
        | ok tail =>
          simp only [hrow, hparse, hrest, Except.ok.injEq] at h
          subst h
          cases verdict with
          | noMatch | zero => simp [ParsedDeposits.add, ih hrest, hrow, hparse]
          | matched first => simp [ParsedDeposits.add, ih hrest, hrow, hparse, eq_comm]

theorem parseReplayLogs_ok (h : ∀ l ∈ logs, ∃ row verdict, l.row? = some row ∧ cfg.parseLog row = .ok verdict) :
    ∃ batch, parseReplayLogs cfg logs = .ok batch := by
  induction logs with
  | nil => exact ⟨_, rfl⟩
  | cons l rest ih =>
    obtain ⟨row, verdict, hrow, hparse⟩ := h l mem_cons_self
    obtain ⟨batch, hbatch⟩ := ih fun l' hl' => h l' (mem_cons_of_mem _ hl')
    exact ⟨batch.add verdict, by simp [parseReplayLogs, parse, hrow, hparse, hbatch]⟩

/-- The observation the executor makes of one assembled row: in scope, and a deposit under the
version of its height. -/
def Reidentifies (s : Store) (l : ReplayLog) (o : ReplayObservation) : Prop :=
  depositScope s l.blockNumber = true ∧ ∃ v, historicalMatch s l.blockNumber = some v ∧ o.versionSeq = v.versionSeq ∧
      ∃ row, l.row? = some row ∧ v.matchConfig.parseLog row = .ok (.matched o.toDepositMatch)

theorem assembleHeight_spec {height : Int} (hscope : depositScope s height = true)
    (h : assembleHeight s logs height = .ok observations) (o : ReplayObservation) :
    o ∈ observations ↔ ∃ l ∈ logs, l.blockNumber = height ∧ Reidentifies s l o := by
  unfold assembleHeight at h
  cases hversion : historicalMatch s height with
  | none => simp [hversion] at h
  | some v =>
    simp only [hversion] at h
    split at h
    · cases h
    next batch hbatch =>
      cases h
      simp only [mem_map, parseReplayLogs_spec hbatch, mem_filter, beq_iff_eq]
      constructor
      · rintro ⟨m, ⟨l, ⟨hl, rfl⟩, row, hrow, hmatched⟩, rfl⟩
        exact ⟨l, hl, rfl, hscope, v, hversion, rfl, row, hrow, hmatched⟩
      · rintro ⟨l, hl, rfl, -, v', hversion', hseq, row, hrow, hmatched⟩
        cases hversion.symm.trans hversion'
        exact ⟨o.toDepositMatch, ⟨l, ⟨hl, rfl⟩, row, hrow, hmatched⟩, by rw [← hseq]⟩

theorem assembleHeights_spec {heights : List Int} (h : assembleHeights s logs heights = .ok observations)
    (o : ReplayObservation) : o ∈ observations ↔ ∃ l ∈ logs, l.blockNumber ∈ heights ∧ Reidentifies s l o := by
  induction heights generalizing observations with
  | nil =>
    cases h
    simp
  | cons height rest ih =>
    simp only [assembleHeights] at h
    split at h
    · cases h
    next first hfirst =>
      split at h
      · cases h
      next others hothers =>
        cases h
        have hmem : o ∈ first ↔ ∃ l ∈ logs, l.blockNumber = height ∧ Reidentifies s l o := by
          by_cases hscope : depositScope s height = true
          · rw [if_pos hscope] at hfirst
            exact assembleHeight_spec hscope hfirst o
          · rw [if_neg hscope] at hfirst
            cases hfirst
            simp only [not_mem_nil, false_iff, not_exists, not_and]
            rintro l - rfl ⟨hin, -⟩
            exact hscope hin
        simp only [mem_append, hmem, ih hothers, mem_cons, or_and_right, and_or_left, exists_or]

/-- A row that does not stop the assembly: out of scope, or parsed under a bound version. -/
def Assembles (s : Store) (l : ReplayLog) : Prop :=
  depositScope s l.blockNumber = true → ∃ v row verdict, historicalMatch s l.blockNumber = some v ∧
    l.row? = some row ∧ v.matchConfig.parseLog row = .ok verdict

theorem assembleHeights_ok (h : ∀ l ∈ logs, Assembles s l) {heights : List Int}
    (hheights : ∀ height ∈ heights, ∃ l ∈ logs, l.blockNumber = height) :
    ∃ observations, assembleHeights s logs heights = .ok observations := by
  induction heights with
  | nil => exact ⟨[], rfl⟩
  | cons height rest ih =>
    obtain ⟨others, hothers⟩ := ih fun n hn => hheights n (mem_cons_of_mem _ hn)
    have hfirst : ∃ first, (if depositScope s height then assembleHeight s logs height else .ok []) = .ok first := by
      by_cases hscope : depositScope s height = true
      · obtain ⟨l, hl, rfl⟩ := hheights height mem_cons_self
        obtain ⟨v, -, -, hversion, -⟩ := h l hl hscope
        have hparsed : ∃ batch, parseReplayLogs v.matchConfig
            (logs.filter fun l' => l'.blockNumber == l.blockNumber) = .ok batch := by
          refine parseReplayLogs_ok fun l' hl' => ?_
          obtain ⟨hmem, hsame⟩ := mem_filter.mp hl'
          have hsame : l'.blockNumber = l.blockNumber := by simpa using hsame
          obtain ⟨v', row, verdict, hversion', hrow, hparse⟩ := h l' hmem (hsame ▸ hscope)
          rw [hsame, hversion] at hversion'
          cases hversion'
          exact ⟨row, verdict, hrow, hparse⟩
        obtain ⟨batch, hbatch⟩ := hparsed
        refine ⟨batch.matched.map fun m => ⟨m, v.versionSeq⟩, ?_⟩
        simp only [if_pos hscope, assembleHeight, hversion, hbatch]
      · exact ⟨[], by rw [if_neg hscope]⟩
    obtain ⟨first, hfirst⟩ := hfirst
    exact ⟨first ++ others, by simp [assembleHeights, hfirst, hothers]⟩

/-- The executor's answer for a range when no log of it stops the assembly. -/
theorem assembleLogsAndDeposits_ok (h : ∀ l ∈ filterLogs chain [] lo hi, Assembles s l.replayLog) : ∃ observations,
      assembleLogsAndDeposits chain s lo hi = .ok ((filterLogs chain [] lo hi).map replayLog, observations) := by
  have hall : ∀ l ∈ (filterLogs chain [] lo hi).map replayLog, Assembles s l := fun l hl => by
    obtain ⟨raw, hraw, rfl⟩ := mem_map.mp hl
    exact h raw hraw
  have hheights : ∀ height ∈ (((filterLogs chain [] lo hi).map replayLog).map (·.blockNumber)).dedup,
        ∃ l ∈ (filterLogs chain [] lo hi).map replayLog, l.blockNumber = height :=
    fun height hheight => mem_map.mp (mem_dedup.mp hheight)
  obtain ⟨observations, hobservations⟩ := assembleHeights_ok hall hheights
  exact ⟨observations, by simp only [assembleLogsAndDeposits, hobservations]⟩

theorem assembleLogsAndDeposits_spec (h : assembleLogsAndDeposits chain s lo hi = .ok (logs, observations)) :
    logs = (filterLogs chain [] lo hi).map replayLog ∧
      ∀ o, o ∈ observations ↔ ∃ l ∈ filterLogs chain [] lo hi, Reidentifies s l.replayLog o := by
  simp only [assembleLogsAndDeposits] at h
  split at h
  · cases h
  next found hfound =>
    cases h
    refine ⟨rfl, fun o => ?_⟩
    rw [assembleHeights_spec hfound]
    constructor
    · rintro ⟨l, hl, -, ho⟩
      obtain ⟨raw, hraw, rfl⟩ := mem_map.mp hl
      exact ⟨raw, hraw, ho⟩
    · rintro ⟨raw, hraw, ho⟩
      have hmem := mem_map_of_mem (f := replayLog) hraw
      exact ⟨raw.replayLog, hmem, mem_dedup.mpr (mem_map_of_mem hmem), ho⟩

/-- A Transfer log of the chain from `lo` up to below `n`. -/
structure TransferIn (lo n : Int) (x : RawLog) : Prop where
  transfers : x.transfers = true
  low : lo ≤ x.blockNumber
  high : (x.blockNumber : Int) < n

theorem TransferIn.mono {n n' : Int} {x : RawLog} (h : TransferIn lo n x) (hle : n ≤ n') : TransferIn lo n' x :=
  ⟨h.transfers, h.low, by have := h.high; omega⟩

theorem mem_filterLogs_all {x : RawLog} : x ∈ filterLogs chain [] lo hi ↔ x ∈ chain ∧ TransferIn lo (hi + 1) x := by
  rw [mem_filterLogs]
  constructor
  · rintro ⟨hx, ⟨hlow, hhigh⟩, htransfers, -⟩
    exact ⟨hx, htransfers, hlow, by omega⟩
  · rintro ⟨hx, htransfers, hlow, hhigh⟩
    exact ⟨hx, ⟨hlow, by omega⟩, htransfers, .inl rfl⟩

variable {logs : List TransferLog}

/-- The log rows a stream submits are those of every Transfer log of the range. -/
theorem assembly_log_eq_rows (h : assembly chain s .log range = .rows logs observations) :
    (∀ row, row ∈ logs ↔ ∃ x ∈ chain, TransferIn range.lo (range.hi + 1) x ∧ x.transfer? = some row) ∧
      ∀ x ∈ chain, TransferIn range.lo (range.hi + 1) x → ∃ row, x.transfer? = some row := by
  unfold assembly at h
  split at h
  · cases h
  · cases h
  next found observations' hfound =>
    obtain ⟨rfl, -⟩ := assembleLogsAndDeposits_spec hfound
    rw [if_pos rfl] at h
    split at h
    next hshaped =>
      cases h
      refine ⟨fun row => ?_, fun x hx hin => ?_⟩
      · simp only [mem_filterMap, mem_map, mem_filterLogs_all]
        constructor
        · rintro ⟨_, ⟨x, ⟨hx, hin⟩, rfl⟩, htransfer⟩
          exact ⟨x, hx, hin, htransfer⟩
        · rintro ⟨x, hx, hin, htransfer⟩
          exact ⟨_, ⟨x, ⟨hx, hin⟩, rfl⟩, htransfer⟩
      · have hsome := all_eq_true.mp hshaped x.replayLog (mem_map_of_mem (mem_filterLogs_all.mpr ⟨hx, hin⟩))
        exact Option.isSome_iff_exists.mp hsome
    · cases h

/-- The observations a stream submits are those of the Transfer logs of the range. -/
theorem assembly_deposit_eq_rows
    (h : assembly chain s .deposit range = .rows logs observations) (o : ReplayObservation) :
    o ∈ observations ↔ ∃ x ∈ chain, TransferIn range.lo (range.hi + 1) x ∧ Reidentifies s x.replayLog o := by
  unfold assembly at h
  split at h
  · cases h
  · cases h
  next found observations' hfound =>
    cases h
    simp only [(assembleLogsAndDeposits_spec hfound).2, mem_filterLogs_all, and_assoc]

/-- No stream is stopped over a range whose Transfer logs all fit their columns and parse. -/
theorem assembly_ok (h : ∀ x ∈ chain, TransferIn range.lo (range.hi + 1) x →
      Assembles s x.replayLog ∧ ∃ row, x.transfer? = some row) (stream : RecoveryStream) :
    ∃ logs observations, assembly chain s stream range = .rows logs observations := by
  obtain ⟨observations, hfound⟩ := assembleLogsAndDeposits_ok (s := s) fun x hx =>
    (h x (mem_filterLogs_all.mp hx).1 (mem_filterLogs_all.mp hx).2).1
  unfold assembly
  rw [hfound]
  by_cases hlog : stream = .log
  · have hshaped : (((filterLogs chain [] range.lo range.hi).map replayLog).all fun l => l.row?.isSome) = true := by
      refine all_eq_true.mpr fun l hl => ?_
      obtain ⟨x, hx, rfl⟩ := mem_map.mp hl
      obtain ⟨hmem, hin⟩ := mem_filterLogs_all.mp hx
      exact Option.isSome_iff_exists.mpr (h x hmem hin).2
    simp only [if_pos hlog, if_pos hshaped]
    exact ⟨_, _, rfl⟩
  · simp only [if_neg hlog]
    exact ⟨_, _, rfl⟩

theorem replayCall_eq_some (h : replayCall cap stream range answer = some call) :
    ∃ logs observations, answer = .rows logs observations ∧
      call = .replayRange true cap stream range.lo range.hi [] (if stream = .log then logs else [])
        (if stream = .deposit then observations else []) := by
  cases answer with
  | rows logs observations =>
    cases h
    exact ⟨logs, observations, rfl, rfl⟩
  | hold | failed => cases h

end TxHarbor.Indexer
