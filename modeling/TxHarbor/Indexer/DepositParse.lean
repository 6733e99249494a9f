import TxHarbor.Indexer.Commit

open Relational

namespace TxHarbor.Indexer

open List

/-! The pure parse and match layer of the deposit stream. Stored columns are typed here, so of the
structural checks only those on the topics can fail. -/

/-- `eth.TransferSig`, the hash of `Transfer(address,address,uint256)`. -/
def transferSig : Hash := 0xddf252ad1be2c89b69c2b068fc378daa952ba7f163c4a11628f55a4df523b3ef#256

/-- `zeroHigh12`: the topic is an address padded to 32 bytes. -/
def zeroHigh12 (topic : Hash) : Bool := decide (topic.toNat < 2 ^ 160)

/-- The low 20 bytes of a topic. -/
def topicAddress (topic : Hash) : Address := topic.setWidth 160

/-- The map a loop over a collection fills: a later entry of an address replaces an earlier one. -/
def effectiveHeights (entries : List DepositEntry) (address : Address) : Option Nat :=
  entries.foldl (fun found e => if e.address = address then some e.effective else found) none

structure DepositMatchConfig where
  startBlock : Int
  assets : Address → Option Nat
  watches : Address → Option Nat

def DepositConfig.matchConfig (cfg : DepositConfig) : DepositMatchConfig where
  startBlock := cfg.startBlock
  assets := effectiveHeights cfg.assets
  watches := effectiveHeights cfg.watches

/-- The view a stored configuration version matches with. -/
def DepositVersion.matchConfig (v : DepositVersion) : DepositMatchConfig where
  startBlock := v.startBlock
  assets := effectiveHeights v.assets
  watches := effectiveHeights v.watches

/-- `depositVerdict`, with the observation of a match. -/
inductive DepositVerdict where
  | noMatch
  | zero
  | matched (m : DepositMatch)
  deriving DecidableEq

/-- The observation a matching row gives. -/
def TransferLog.deposit (row : TransferLog) : DepositMatch where
  toIdentity := row.toIdentity
  blockNumber := row.blockNumber
  contract := row.contract
  sender := topicAddress row.topic1
  recipient := topicAddress row.topic2
  amount := row.data.toNat

/-- The three effective heights of a row whose contract and recipient are configured. -/
def DepositMatchConfig.inForce (cfg : DepositMatchConfig) (row : TransferLog) : Bool :=
  match cfg.assets row.contract, cfg.watches (topicAddress row.topic2) with
  | some asset, some watch =>
    decide (cfg.startBlock ≤ row.blockNumber) && decide (asset ≤ row.blockNumber) &&
      decide (watch ≤ row.blockNumber)
  | _, _ => false

def DepositMatchConfig.parseLog (cfg : DepositMatchConfig) (row : TransferLog) : Except IndexerError DepositVerdict :=
  if row.topic0 = transferSig ∧ zeroHigh12 row.topic1 = true ∧ zeroHigh12 row.topic2 = true then
    if cfg.inForce row = false then .ok .noMatch
    else if row.data = 0 then .ok .zero
    else .ok (.matched row.deposit)
  else .error (.depositParse row.blockNumber row.logIndex .badTopics)

/-- `depositBatch` as the parser returns it. -/
structure ParsedDeposits where
  matched : List DepositMatch
  zero : Nat
  unmatched : Nat
  deriving DecidableEq

def ParsedDeposits.add (batch : ParsedDeposits) : DepositVerdict → ParsedDeposits
  | .matched m => { batch with matched := m :: batch.matched }
  | .zero => { batch with zero := batch.zero + 1 }
  | .noMatch => { batch with unmatched := batch.unmatched + 1 }

/-- `parseDepositLogs`: one invalid row fails the whole batch. -/
def parseDepositLogs (cfg : DepositMatchConfig) : List TransferLog → Except IndexerError ParsedDeposits
  | [] => .ok ⟨[], 0, 0⟩
  | row :: rest =>
    match cfg.parseLog row with
    | .error e => .error e
    | .ok verdict =>
      match parseDepositLogs cfg rest with
      | .error e => .error e
      | .ok batch => .ok (batch.add verdict)

variable {cfg : DepositMatchConfig} {row : TransferLog} {entries : List DepositEntry}

theorem DepositMatchConfig.inForce_start (h : cfg.inForce row = true) : cfg.startBlock ≤ row.blockNumber := by
  unfold DepositMatchConfig.inForce at h
  split at h
  · simp only [Bool.and_eq_true, decide_eq_true_eq] at h
    exact h.1.1
  · cases h

/-- No address is listed twice. -/
def SoleAddresses (entries : List DepositEntry) : Prop := (entries.map (·.address)).Nodup

instance (entries : List DepositEntry) : Decidable (SoleAddresses entries) := by
  unfold SoleAddresses
  infer_instance

theorem foldl_effective (hsole : SoleAddresses entries) (address : Address) (height : Nat) (found : Option Nat) :
    entries.foldl (fun found e => if e.address = address then some e.effective else found) found = some height ↔
      (⟨address, height⟩ : DepositEntry) ∈ entries ∨ (found = some height ∧ ∀ e ∈ entries, e.address ≠ address) := by
  induction entries generalizing found with
  | nil => simp
  | cons e rest ih =>
    obtain ⟨hfresh, hrest⟩ := nodup_cons.mp hsole
    rw [foldl_cons, ih hrest]
    by_cases he : e.address = address
    · have hnone : ∀ r ∈ rest, r.address ≠ address := fun r hr heq =>
        hfresh (mem_map.mpr ⟨r, hr, heq.trans he.symm⟩)
      have hnot : (⟨address, height⟩ : DepositEntry) ∉ rest := fun hmem => hnone _ hmem rfl
      have heq : (⟨address, height⟩ : DepositEntry) = e ↔ e.effective = height := by
        constructor
        · rintro rfl
          rfl
        · rintro rfl
          rw [← he]
      simp [he, hnot, heq]
      exact fun _ => hnone
    · have hne : (⟨address, height⟩ : DepositEntry) ≠ e := fun heq => he (by rw [← heq])
      simp [he, hne]

/-- With one entry for each address the map holds exactly the entries. -/
theorem effectiveHeights_eq_some (hsole : SoleAddresses entries) {address : Address} {height : Nat} :
    effectiveHeights entries address = some height ↔ (⟨address, height⟩ : DepositEntry) ∈ entries := by
  simpa [effectiveHeights] using foldl_effective hsole address height none

variable {entries' : List DepositEntry} {rows : List TransferLog} {batch : ParsedDeposits}

theorem SoleAddresses.perm (hsole : SoleAddresses entries) (hperm : entries'.Perm entries) : SoleAddresses entries' :=
  ((hperm.map _).nodup_iff).mpr hsole

/-- With one entry for each address the map does not depend on their order. -/
theorem effectiveHeights_perm (hsole : SoleAddresses entries) (hperm : entries'.Perm entries) :
    effectiveHeights entries' = effectiveHeights entries := by
  funext address
  refine Option.ext fun height => ?_
  rw [effectiveHeights_eq_some (hsole.perm hperm), effectiveHeights_eq_some hsole, hperm.mem_iff]

theorem depositSnapshot_perm (entries : List DepositEntry) : (depositSnapshot entries).Perm entries :=
  perm_insertionSort _ entries

/-- With one entry for each address a row is in force under the entries of its own asset and watch
address. -/
theorem inForce_iff {start : Int} {assets watches : List DepositEntry} (hassets : SoleAddresses assets)
    (hwatches : SoleAddresses watches) :
    (⟨start, effectiveHeights assets, effectiveHeights watches⟩ : DepositMatchConfig).inForce row = true ↔
      ∃ a ∈ assets, ∃ w ∈ watches, a.address = row.contract ∧ w.address = topicAddress row.topic2 ∧
        start ≤ row.blockNumber ∧ (a.effective : Int) ≤ row.blockNumber ∧ (w.effective : Int) ≤ row.blockNumber := by
  unfold DepositMatchConfig.inForce
  constructor
  · intro h
    cases ha : effectiveHeights assets row.contract with
    | none => simp [ha] at h
    | some asset =>
      cases hw : effectiveHeights watches (topicAddress row.topic2) with
      | none => simp [ha, hw] at h
      | some watch =>
        simp only [ha, hw, Bool.and_eq_true, decide_eq_true_eq] at h
        exact ⟨_, (effectiveHeights_eq_some hassets).mp ha, _, (effectiveHeights_eq_some hwatches).mp hw,
          rfl, rfl, h.1.1, h.1.2, h.2⟩
  · rintro ⟨a, ha, w, hw, hcontract, hrecipient, hstart, hasset, hwatch⟩
    have ha' : effectiveHeights assets row.contract = some a.effective :=
      (effectiveHeights_eq_some hassets).mpr (by rwa [← hcontract])
    have hw' : effectiveHeights watches (topicAddress row.topic2) = some w.effective :=
      (effectiveHeights_eq_some hwatches).mpr (by rwa [← hrecipient])
    simp [ha', hw', hstart, hasset, hwatch]

/-- The row is a deposit under the configuration. -/
def DepositMatchConfig.Deposits (cfg : DepositMatchConfig) (row : TransferLog) : Prop :=
  cfg.parseLog row = .ok (.matched row.deposit)

instance (cfg : DepositMatchConfig) (row : TransferLog) : Decidable (cfg.Deposits row) := by
  unfold DepositMatchConfig.Deposits
  infer_instance

namespace DepositMatchConfig

/-- A match is the observation of its own row, in force and of a positive amount. -/
theorem parseLog_matched {m : DepositMatch} (h : cfg.parseLog row = .ok (.matched m)) :
    m = row.deposit ∧ cfg.inForce row = true ∧ 0 < m.amount := by
  unfold parseLog at h
  split at h
  · iterate 2 (split at h; · cases h)
    rename_i hforce hdata
    cases h
    refine ⟨rfl, by simpa using hforce, ?_⟩
    have hne : row.data.toNat ≠ 0 := fun hzero => hdata (BitVec.eq_of_toNat_eq (by simpa using hzero))
    simp only [TransferLog.deposit]
    omega
  · cases h

theorem Deposits.inForce (h : cfg.Deposits row) : cfg.inForce row = true := (parseLog_matched h).2.1

theorem Deposits.transferSig (h : cfg.Deposits row) : row.topic0 = Indexer.transferSig := by
  by_contra hother
  simp [Deposits, parseLog, hother] at h

/-- Which rows are deposits depends on the configuration only through the heights in force. -/
theorem Deposits.transfer {cfg' : DepositMatchConfig} (h : cfg.Deposits row)
    (hforce : cfg'.inForce row = true) : cfg'.Deposits row := by
  have hold := h.inForce
  unfold Deposits parseLog at h ⊢
  simpa only [hold, hforce] using h

end DepositMatchConfig

theorem parseDepositLogs_cons {rest : List TransferLog} (h : parseDepositLogs cfg (row :: rest) = .ok batch) :
    ∃ verdict tail, cfg.parseLog row = .ok verdict ∧ parseDepositLogs cfg rest = .ok tail ∧
      batch = tail.add verdict := by
  simp only [parseDepositLogs] at h
  cases hrow : cfg.parseLog row with
  | error e => simp [hrow] at h
  | ok verdict =>
    cases hrest : parseDepositLogs cfg rest with
    | error e => simp [hrow, hrest] at h
    | ok tail =>
      simp only [hrow, hrest, Except.ok.injEq] at h
      subst h
      exact ⟨verdict, tail, rfl, rfl, rfl⟩

/-- A parsed batch holds exactly the deposits of its rows and accounts for every row. -/
theorem parseDepositLogs_spec (h : parseDepositLogs cfg rows = .ok batch) :
    (∀ m, m ∈ batch.matched ↔ ∃ row ∈ rows, cfg.parseLog row = .ok (.matched m)) ∧
      batch.matched.length + batch.zero + batch.unmatched = rows.length := by
  induction rows generalizing batch with
  | nil =>
    cases h
    simp
  | cons row rest ih =>
    obtain ⟨verdict, tail, hrow, hrest, rfl⟩ := parseDepositLogs_cons h
    obtain ⟨hmatched, hcount⟩ := ih hrest
    cases verdict with
    | noMatch | zero =>
      simp only [ParsedDeposits.add, length_cons, mem_cons, hmatched,
        exists_eq_or_imp, hrow, Except.ok.injEq, reduceCtorEq, false_or]
      exact ⟨fun m => by simp, by omega⟩
    | matched first =>
      simp only [ParsedDeposits.add, length_cons, mem_cons, hmatched,
        exists_eq_or_imp, hrow, Except.ok.injEq, DepositVerdict.matched.injEq]
      exact ⟨fun m => or_congr_left eq_comm, by omega⟩

/-- Every row of a parsed batch has a verdict. -/
theorem parseDepositLogs_parsed (h : parseDepositLogs cfg rows = .ok batch) :
    ∀ row ∈ rows, ∃ verdict, cfg.parseLog row = .ok verdict := by
  induction rows generalizing batch with
  | nil => simp
  | cons row rest ih =>
    obtain ⟨verdict, tail, hrow, hrest, rfl⟩ := parseDepositLogs_cons h
    intro r hr
    rcases mem_cons.mp hr with rfl | hr
    · exact ⟨verdict, hrow⟩
    · exact ih hrest r hr

end TxHarbor.Indexer
