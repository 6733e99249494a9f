import TxHarbor.Nonce.Admin

open Relational Tx

namespace TxHarbor.Nonce

/-- The columns the two registry updates set. -/
def WalletRegistry.switched (state : RegistryState) (r : WalletRegistry) : WalletRegistry :=
  { r with state := state, registrySeq := r.registrySeq + 1 }

/-- `bumpRegistryActiveSQL` and `disableRegistrySQL`: flip the row out of the given state. -/
def switchRegistryTx (scope : Scope) (source target : RegistryState) : NonceTx Bool := do
  let s ← get
  let rows : WalletRegistry → Bool := fun r => r.toScope == scope && r.state == source
  set { s with registry := s.registry.update rows (WalletRegistry.switched target) (fun _ _ h => h) }
  pure (s.registry.affected rows == 1)

def registryInTx (req : AdminRequest) : NonceTx AdminTxOutcome := do
  let s ← get
  match req.action with
  | .registryRegister =>
    match s.registry.insert? ⟨req.toScope, .active, 1⟩ with
    | some registry =>
      set { s with registry := registry }
      pure ⟨.applied, "sender registered"⟩
    | none =>
      let bumped ← switchRegistryTx req.toScope .disabled .active
      if bumped then pure ⟨.applied, "sender re-enabled with a bumped registry_seq"⟩
      else pure ⟨.nop, "sender is already registered and active; zero change"⟩
  | _ =>
    let disabled ← switchRegistryTx req.toScope .active .disabled
    if disabled then pure ⟨.applied, "sender disabled with a bumped registry_seq"⟩
    else pure ⟨.nop, "sender is unregistered or already disabled; zero change"⟩

def adminInTx (env : Environment) (mint : Mint) (req : AdminRequest) (obs : Observation) : NonceTx AdminTxOutcome :=
  match req.action with
  | .holdRelease => holdReleaseInTx env mint req obs
  | .bindingRelease => bindingReleaseInTx env.now req obs
  | .registryRegister | .registryDisable => registryInTx req

def auditInputPrefix : String := "input="

def adminInputDigest (env : Environment) (req : AdminRequest) : String :=
  env.sha256Hex (String.join (List.map (fun part => part ++ "\n")
    [req.action.text, toString req.chainID, req.sender, req.subjectID, req.observationID,
     req.operator, req.reason, req.evidence]))

def auditInputDigestOf (detail : String) : String :=
  if auditInputPrefix.toList.isPrefixOf detail.toList then
    let rest := detail.toList.drop auditInputPrefix.toList.length
    if rest.contains ';' then String.ofList (rest.takeWhile (· != ';')) else ""
  else ""

private def afterSeparator : List Char → List Char
  | ';' :: ' ' :: rest => rest
  | _ :: rest => afterSeparator rest
  | [] => []

def auditDetailOf (detail : String) : String :=
  if auditInputPrefix.toList.isPrefixOf detail.toList then
    String.ofList (afterSeparator detail.toList)
  else detail

def insertAuditTx (env : Environment) (req : AdminRequest) (out : AdminTxOutcome) : NonceTx Unit := do
  let s ← get
  let audit ← demand (.violation .opsAuditOperationIDUniq) (s.audit.insert?
      { toScope := req.toScope, operationID := req.operationID, action := req.action,
        subjectID := req.subjectID, outcome := out.outcome, operator := req.operator,
        reason := req.reason, evidence := req.evidence,
        detail := auditInputPrefix ++ adminInputDigest env req ++ "; " ++ out.detail })
  set { s with audit := audit }

structure AdminResult where
  outcome : Outcome
  action : AdminAction
  subjectID : String
  detail : String
  deriving DecidableEq

/-- What `AdminRunner.Run` hands back. -/
inductive AdminReturn where
  | done (result : AdminResult)
  | refused (err : Error)
  | invalid (text : String)
  | crashed
  deriving DecidableEq

/-- `replayRecorded`: the recorded attempt is authoritative and never upgraded. -/
def replayRecorded (env : Environment) (req : AdminRequest) (s : Store) : AdminReturn :=
  match readAuditByOperationIDTx s req.operationID with
  | none =>
    .refused (refuse .temporarilyUnavailable "operation-id race classify miss; retry with the same operation id")
  | some row =>
    if auditInputDigestOf row.detail = adminInputDigest env req then
      .done ⟨row.outcome, row.action, row.subjectID, auditDetailOf row.detail⟩
    else
      .refused (refuse .operationConflict "operation_id was already recorded with a differing op-input")

/-- The transaction of `AdminRunner.Run`: the action and its audit row. -/
def adminAttemptInTx (env : Environment) (mint : Mint) (req : AdminRequest) (obs : Observation) :
    NonceTx AdminTxOutcome := do
  let out ← adminInTx env mint req obs
  insertAuditTx env req out
  pure out

/-- The switch of `AdminRunner.Run` over the outcome of its transaction. -/
def settleAdmin (env : Environment) (req : AdminRequest) (s : Store) : Attempt TxError AdminTxOutcome → AdminReturn
  | .notOpened => .refused (storageRefusal "open admin transaction")
  | .failed err =>
    if auditOperationIDConflict err then replayRecorded env req s
    else .refused (storageRefusal "admin transaction failed")
  | .committed out | .rolledBack out => .done ⟨out.outcome, req.action, req.subjectID, out.detail⟩
  | .commitUnknown _ => .refused (storageRefusal "commit admin transaction")
  | .crashed => .crashed

/-- `AdminRunner.Run`. The registry actions take no chain view. -/
def adminRun (view : ChainView) (env : Environment) (mint : Mint) (fault : Fault TxError)
    (req : AdminRequest) (s : Store) : AdminReturn × Store :=
  match req.validate with
  | .error text => (.invalid text, s)
  | .ok () =>
    let done := attempt fault (adminAttemptInTx env mint req (observe req.toScope .reconcile view)) (fun _ => true) s
    (settleAdmin env req done.2 done.1, done.2)

end TxHarbor.Nonce
