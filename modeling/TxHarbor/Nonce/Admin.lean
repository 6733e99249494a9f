import TxHarbor.Nonce.Admission

open Relational Tx

namespace TxHarbor.Nonce

structure AdminRequest extends Scope where
  action : AdminAction
  operationID : String
  holdID : String
  bindingID : String
  observationID : String
  evidence : String
  operator : String
  reason : String
  deriving DecidableEq

def AdminRequest.validate (r : AdminRequest) : Except String Unit :=
  if r.operationID = "" then .error "operation_id is required (mint it first)"
  else if 128 < r.operationID.utf8ByteSize then .error "operation_id exceeds 128 bytes"
  else if r.chainID ≤ 0 then
    .error ("admin chain id " ++ toString r.chainID ++ " is not positive")
  else if obsSenderPattern r.sender = false then
    .error ("admin sender " ++ quoted r.sender ++ " is not a lowercase 0x + 40 hex address")
  else
    match r.action with
    | .holdRelease =>
      if r.holdID = "" then .error "hold-release requires hold_id" else .ok ()
    | .bindingRelease =>
      if r.bindingID = "" then .error "binding-release requires binding_id" else .ok ()
    | .registryRegister | .registryDisable => .ok ()

def AdminRequest.subjectID (r : AdminRequest) : String :=
  match r.action with
  | .holdRelease => r.holdID
  | .bindingRelease => r.bindingID
  | .registryRegister | .registryDisable => r.sender

structure AdminTxOutcome where
  outcome : Outcome
  detail : String
  deriving DecidableEq

/-- `scopeAttributionOK`. The state domain is the type's own. -/
def scopeAttributionOK (bindings : List Binding) : Bool :=
  bindings.all fun b => b.intentID != "" && b.terminalConsistent

def gateSummary (g : GateState) : String :=
  match g.causes with
  | [] => "clear"
  | causes => ",".intercalate causes

/-- The releasing part of `holdReleaseInTx`, after every check has passed. -/
def clearHoldInTx (env : Environment) (mint : Mint) (req : AdminRequest) (obs : Observation)
    (registry : WalletRegistry) : NonceTx AdminTxOutcome := do
  let s ← get
  let active := readActiveHoldsTx s req.toScope
  let freshID ← insertObservationTx mint
    { toScope := req.toScope, observationID := "", kind := .reconcile,
      classification := some .consistent, latestCount := obs.latestCount,
      pendingCount := obs.pendingCount, headNumber := obs.headNumber, headHash := obs.headHash,
      errorClass := "", rpcRef := obs.rpcRef }
  let version := "registry_seq=" ++ toString registry.registrySeq ++ " registry_state=" ++
    registry.state.text ++ " active_holds=" ++ toString active.length ++ " 006=" ++
    gateSummary env.gates ++ " release_observation=" ++ freshID
  let cleared ← releaseHoldTx env.now req.holdID req.operator req.operationID (req.evidence ++ " | " ++ version) freshID
  require (cleared = true) (.message "hold release lost its active row")
  let _ ← advanceScopeFloorTx req.toScope obs.pendingCount
  pure ⟨.applied, version⟩

def holdReleaseInTx (env : Environment) (mint : Mint) (req : AdminRequest) (obs : Observation) :
    NonceTx AdminTxOutcome := do
  lockScopeRowTx req.toScope
  let s ← get
  match (readHoldByIDForUpdateTx s req.holdID).filter (·.status == .active) with
  | none => pure ⟨.nop, "hold is missing or already released; zero change"⟩
  | some hold =>
    if hold.toScope ≠ req.toScope then
      pure ⟨.refused, "hold scope does not match the requested chain_id/sender"⟩
    else if req.evidence = "" then
      pure ⟨.refused, "release requires an operator finding (evidence)"⟩
    else if req.observationID = "" then
      pure ⟨.refused, "release requires an observation reference"⟩
    else if readObservationScopeTx s req.observationID ≠ some req.toScope then
      pure ⟨.refused, "observation reference is missing or outside the scope"⟩
    else
      match readRegistryBySenderTx s req.toScope with
      | none => pure ⟨.refused, "registry row is missing for the scope"⟩
      | some registry =>
        if scopeAttributionOK (readBindingsByScopeTx s req.toScope) = false then
          pure ⟨.refused, "scope has unattributable bindings; resolve them first"⟩
        else
          let decision := classify (classificationInput s req.toScope obs)
          if decision.classification ≠ .consistent then
            pure ⟨.refused, "fresh observation still classifies " ++ decision.classification.text⟩
          else clearHoldInTx env mint req obs registry

/-- The releasing part of `bindingReleaseInTx`, after every check has passed. -/
def disposeBindingInTx (now : Int) (req : AdminRequest) (b : Binding) (latest pending : Int) :
    NonceTx AdminTxOutcome := do
  let moved ← advanceBindingStateTx now b.bindingID .released req.operationID b.state
  require (moved = true) (.message "binding release lost its expected state")
  let detail := "fresh latest=" ++ formatDecimal latest ++ " pending=" ++ formatDecimal pending ++
    " nonce=" ++ formatDecimal b.nonce
  let created ← insertBindingEventTx
    { bindingID := b.bindingID, fromState := some b.state, toState := .released,
      observationID := "", operationID := req.operationID, detail := detail ++ "; " ++ req.evidence }
  require (created = true) (.message "binding release event was not written")
  pure ⟨.applied, detail⟩

def bindingReleaseInTx (now : Int) (req : AdminRequest) (obs : Observation) : NonceTx AdminTxOutcome := do
  lockScopeRowTx req.toScope
  let s ← get
  match (readBindingByIDTx s req.bindingID).filter (·.state != .released) with
  | none => pure ⟨.nop, "binding is missing or already released; zero change"⟩
  | some b =>
    if b.toScope ≠ req.toScope then
      pure ⟨.refused, "binding scope does not match the requested chain_id/sender"⟩
    else if b.state = .consumed then
      pure ⟨.refused, "binding is consumed; its nonce was used and is never released"⟩
    else if req.evidence = "" then
      pure ⟨.refused, "release requires explicit no-side-effect evidence; " ++
        "a timeout or connection error alone is never evidence"⟩
    else if req.observationID ≠ "" ∧ readObservationScopeTx s req.observationID ≠ some req.toScope then
      pure ⟨.refused, "observation reference is missing or outside the scope"⟩
    else
      match obs.classification == some .unavailable, obs.latestCount, obs.pendingCount with
      | false, some latest, some pending =>
        if pending < latest then
          pure ⟨.refused, "fresh chain view diverges; the evidence is not trustworthy"⟩
        else if b.nonce < latest ∨ b.nonce < pending then
          pure ⟨.refused, "fresh observation shows the nonce mined or pending; " ++
            "the binding has an external side effect"⟩
        else disposeBindingInTx now req b latest pending
      | _, _, _ =>
        pure ⟨.refused, "fresh chain re-observation unavailable; " ++ "no-side-effect evidence was not established"⟩

end TxHarbor.Nonce
