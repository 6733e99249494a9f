import TxHarbor.Indexer.DepositParse

open Relational

namespace TxHarbor.Indexer

/-! What the log scanner makes of the node's answer before it commits a range. -/

/-- `types.Log`, a log as the node sends it. -/
structure RawLog where
  address : Address
  topics : List Hash
  data : List UInt8
  blockNumber : Nat
  blockHash : Hash
  txHash : Hash
  index : Nat
  removed : Bool
  deriving DecidableEq

/-- The number that the bytes of a data field denote. -/
def dataWord (bytes : List UInt8) : Hash := BitVec.ofNat 256 (bytes.foldl (fun n b => 256 * n + b.toNat) 0)

def RawLog.identity (l : RawLog) : Identity := ⟨l.blockHash, l.txHash, l.index⟩

/-- The row of a log whose three topics and one data word are those given. -/
def RawLog.row (l : RawLog) (topic0 topic1 topic2 data : Hash) : TransferLog where
  toIdentity := l.identity
  blockNumber := l.blockNumber
  contract := l.address
  topic0 := topic0
  topic1 := topic1
  topic2 := topic2
  data := data

def validateLog (whitelist : List Address) (lo hi : Int) (coverage : Int → Option Hash) (l : RawLog) :
    Except IndexerError TransferLog :=
  if l.address ∉ whitelist then .error (.logInvalid l.blockNumber .badAddress)
  else if (l.blockNumber : Int) < lo ∨ hi < l.blockNumber then
    .error (.logInvalid l.blockNumber .outOfRange)
  else if l.blockHash = 0 ∨ l.txHash = 0 then .error (.logInvalid l.blockNumber .missingField)
  else if l.removed then .error (.logInvalid l.blockNumber .removed)
  else
    match l.topics with
    | [topic0, topic1, topic2] =>
      if topic0 ≠ transferSig ∨ zeroHigh12 topic1 = false ∨ zeroHigh12 topic2 = false then
        .error (.logInvalid l.blockNumber .badTopics)
      else if l.data.length ≠ 32 then .error (.logInvalid l.blockNumber .badData)
      else if coverage l.blockNumber ≠ some l.blockHash then
        .error (.chainView l.blockNumber (coverage l.blockNumber) (some l.blockHash))
      else .ok (l.row topic0 topic1 topic2 (dataWord l.data))
    | _ => .error (.logInvalid l.blockNumber .badTopics)

/-- `validateLogs` over the rows seen so far: an exact repeat converges, and a second log in the
same slot of a block is a conflict. -/
def validateLogsFrom (whitelist : List Address) (lo hi : Int) (coverage : Int → Option Hash)
    (seen : List TransferLog) : List RawLog → Except IndexerError (List TransferLog)
  | [] => .ok seen
  | l :: rest =>
    match validateLog whitelist lo hi coverage l with
    | .error e => .error e
    | .ok row =>
      match seen.find? fun r => r.blockHash == row.blockHash && r.logIndex == row.logIndex with
      | some prev =>
        if prev = row then validateLogsFrom whitelist lo hi coverage seen rest
        else .error (.logConflict row.toIdentity)
      | none => validateLogsFrom whitelist lo hi coverage (seen ++ [row]) rest

/-- `validateLogs`. -/
def validateLogs (whitelist : List Address) (lo hi : Int) (coverage : Int → Option Hash)
    (logs : List RawLog) : Except IndexerError (List TransferLog) :=
  validateLogsFrom whitelist lo hi coverage [] logs

/-- What a valid log is: a whitelisted transfer of the canonical block of its height. -/
structure ValidLog (whitelist : List Address) (lo hi : Int) (coverage : Int → Option Hash)
    (l : RawLog) (row : TransferLog) : Prop where
  listed : l.address ∈ whitelist
  inside : lo ≤ l.blockNumber ∧ (l.blockNumber : Int) ≤ hi
  named : l.blockHash ≠ 0 ∧ l.txHash ≠ 0
  kept : l.removed = false
  shaped : ∃ topic1 topic2, l.topics = [transferSig, topic1, topic2] ∧ zeroHigh12 topic1 = true ∧
    zeroHigh12 topic2 = true ∧ row = l.row transferSig topic1 topic2 (dataWord l.data)
  word : l.data.length = 32
  canonical : coverage l.blockNumber = some l.blockHash

variable {whitelist : List Address} {lo hi : Int} {coverage : Int → Option Hash}

theorem validateLog_eq_ok {l : RawLog} {row : TransferLog} :
    validateLog whitelist lo hi coverage l = .ok row ↔ ValidLog whitelist lo hi coverage l row := by
  constructor
  · intro h
    unfold validateLog at h
    iterate 4 (split at h; · cases h)
    rename_i hlisted hinside hnamed hkept
    split at h
    next topic0 topic1 topic2 htopics =>
      iterate 3 (split at h; · cases h)
      rename_i hshape hword hcanonical
      simp only [not_or, not_not, Bool.not_eq_false] at hlisted hinside hnamed hshape hword hcanonical
      obtain ⟨rfl, hone, htwo⟩ := hshape
      cases h
      exact ⟨hlisted, by omega, hnamed, by simpa using hkept, ⟨topic1, topic2, htopics, hone, htwo, rfl⟩,
        hword, hcanonical⟩
    · cases h
  · rintro ⟨hlisted, ⟨hlo, hhi⟩, ⟨hblock, htx⟩, hkept, ⟨topic1, topic2, htopics, hone, htwo, rfl⟩, hword, hcanonical⟩
    simp [validateLog, hlisted, Int.not_lt.mpr hlo, Int.not_lt.mpr hhi, hkept, htopics, hone, htwo, hword, hcanonical]
    exact ⟨hblock, htx⟩

/-- The rows a range passes with: valid logs of the answer, one for each slot of a block. -/
theorem validateLogsFrom_eq_ok {seen rows : List TransferLog} {logs : List RawLog}
    (h : validateLogsFrom whitelist lo hi coverage seen logs = .ok rows) :
    (∀ row, row ∈ rows ↔ row ∈ seen ∨ ∃ l ∈ logs, ValidLog whitelist lo hi coverage l row) ∧
      ∀ l ∈ logs, ∃ row, ValidLog whitelist lo hi coverage l row := by
  induction logs generalizing seen with
  | nil =>
    cases h
    simp
  | cons l rest ih =>
    simp only [validateLogsFrom] at h
    cases hrow : validateLog whitelist lo hi coverage l with
    | error e => simp [hrow] at h
    | ok row =>
      have hsole : ∀ r, ValidLog whitelist lo hi coverage l r ↔ r = row := fun r => by
        rw [← validateLog_eq_ok, hrow, Except.ok.injEq, eq_comm]
      simp only [hrow] at h
      simp only [List.exists_mem_cons_iff, List.forall_mem_cons, hsole, exists_eq, true_and]
      split at h
      next prev hfound =>
        split at h
        next hsame =>
          subst hsame
          obtain ⟨hrows, hall⟩ := ih h
          refine ⟨fun r => ?_, hall⟩
          rw [hrows]
          constructor
          · exact Or.imp_right Or.inr
          · rintro (hr | rfl | hr)
            · exact .inl hr
            · exact .inl (List.mem_of_find?_eq_some hfound)
            · exact .inr hr
        · cases h
      · obtain ⟨hrows, hall⟩ := ih h
        refine ⟨fun r => ?_, hall⟩
        rw [hrows, List.mem_append, List.mem_singleton, or_assoc]

/-- A validated range holds exactly the valid logs of the answer, and every log of it is valid. -/
theorem validateLogs_eq_ok {rows : List TransferLog} {logs : List RawLog}
    (h : validateLogs whitelist lo hi coverage logs = .ok rows) :
    (∀ row, row ∈ rows ↔ ∃ l ∈ logs, ValidLog whitelist lo hi coverage l row) ∧
      ∀ l ∈ logs, ∃ row, ValidLog whitelist lo hi coverage l row := by
  obtain ⟨hrows, hall⟩ := validateLogsFrom_eq_ok h
  exact ⟨fun row => by simpa using hrows row, hall⟩

end TxHarbor.Indexer
