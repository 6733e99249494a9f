import TxHarbor.Nonce.Binding
import TxHarbor.Nonce.Classify
import TxHarbor.Nonce.Hold

open Relational

namespace TxHarbor.Nonce

structure AllocationRequest extends Scope where
  intentID : String
  authorizationID : String
  deriving DecidableEq

def validateOpaqueID (name value : String) (printableFrom : UInt8) : Except String Unit :=
  let bytes := value.toUTF8.data.toList
  if bytes.length < 1 ∨ 128 < bytes.length then
    .error (name ++ " must be 1..128 bytes, got " ++ toString bytes.length)
  else
    match bytes.findIdx? fun b => b < printableFrom || 0x7e < b with
    | some i => .error (name ++ " contains a non-printable byte at offset " ++ toString i)
    | none => .ok ()

def AllocationRequest.validate (r : AllocationRequest) : Except String Unit :=
  if r.chainID ≤ 0 then
    .error ("allocation chain id " ++ toString r.chainID ++ " is not positive")
  else if obsSenderPattern r.sender = false then
    .error ("allocation sender " ++ quoted r.sender ++ " is not a lowercase 0x + 40 hex address")
  else do
    validateOpaqueID "intent_id" r.intentID 0x21
    validateOpaqueID "authorization_id" r.authorizationID 0x20

/-- `GateState`: the pause rows and the active recovery row of the indexer. -/
structure GateState where
  indexerPause : Bool
  logPause : Bool
  depositPause : Bool
  recoveryID : String
  recoveryPhase : String
  deriving DecidableEq

def GateState.any (g : GateState) : Bool := g.indexerPause || g.logPause || g.depositPause || g.recoveryID != ""

/-- `GateState.Causes`. -/
def GateState.causes (g : GateState) : List String := (if g.indexerPause then ["indexer_pause"] else []) ++
  (if g.logPause then ["log_pause"] else []) ++
  (if g.depositPause then ["deposit_pause"] else []) ++
  (if g.recoveryID != "" then ["reorg_recovery:" ++ g.recoveryPhase] else [])

/-- `withdrawal_authorizations`, as far as admission reads it. -/
structure AuthorizationRow where
  authorizationID : String
  chainID : Int
  asset : String
  recipient : String
  amount : String
  state : String
  expiresAt : Option Int
  deriving DecidableEq

/-- What a transaction sees outside the nonce tables: the indexer's gates, the authorization
rows, the two database clocks, and the library functions behind the version digest. -/
structure Environment where
  gates : GateState
  authorizations : List AuthorizationRow
  clock : Int
  now : Int
  sha256Hex : String → String
  rfc3339Nano : Int → String

def readAuthorizationForShareTx (env : Environment) (authorizationID : String) (chainID : Int) :
    Option AuthorizationRow :=
  env.authorizations.find? fun row =>
    row.authorizationID == authorizationID && row.chainID == chainID && row.state == "active" &&
      (match row.expiresAt with
       | none => true
       | some t => decide (env.clock < t))

def authorizationVersionDigest (env : Environment) (row : AuthorizationRow) (authorizationID : String) : String :=
  env.sha256Hex (String.join (List.map (fun part => part ++ "\n")
    ["txharbor:nonce:authorization:v1", authorizationID, toString row.chainID, row.asset,
     row.recipient, row.amount, row.state,
     match row.expiresAt with
     | none => ""
     | some t => env.rfc3339Nano t]))

def admissionRefusal : Option WalletRegistry → Option Outcome
  | none => some .senderNotRegistered
  | some r => if r.state = .active then none else some .senderDisabled

def registryRefusalReason : Option WalletRegistry → String
  | none => "sender is not in nonce_wallet_registry"
  | some r => "sender registry state is " ++ r.state.text

def bindingMatchesInput (b : Binding) (req : AllocationRequest) : Bool :=
  b.chainID == req.chainID && b.sender == req.sender && b.authorizationID == req.authorizationID

/-- The loop body of `MaxBoundNonce`. -/
def takeMax (max : Option Int) (b : Binding) : Option Int :=
  match max with
  | none => some b.nonce
  | some m => if m < b.nonce then some b.nonce else some m

def maxBoundNonce (bindings : List Binding) : Option Int := bindings.foldl takeMax none

/-- The matrix input all three classifying transactions build under the lock. -/
def classificationInput (s : Store) (scope : Scope) (obs : Observation) : ClassificationInput :=
  let bindings := readBindingsByScopeTx s scope
  { readFailed := obs.classification == some .unavailable
    latest := obs.latestCount
    pending := obs.pendingCount
    pendingPrev := scopeLastPending s scope
    maxBindingNonce := maxBoundNonce bindings
    hasBindings := 0 < bindings.length
    reconciledFloor := scopeFloor s scope }

/-- The waterline write of both classifying writers: only a trusted view's counts are facts. -/
def recordFrontierTx (scope : Scope) (obs : Observation) (observationID : String) : NonceTx Unit :=
  match obs.latestCount, obs.pendingCount with
  | some latest, some pending =>
    if obs.trusted then
      updateScopeFrontierTx scope latest pending observationID
    else pure ()
  | _, _ => pure ()

/-- The hold a decision demands, if any. -/
def holdForDecisionTx (now : Int) (mint : Mint) (scope : Scope) (decision : Decision)
    (observationID : String) : NonceTx Unit :=
  match decision.holdCause with
  | none => pure ()
  | some cause => do
    let _ ← establishHoldTx now mint
      { toScope := scope, cause := cause, observationID := observationID,
        detail := decision.classification.text }
    pure ()

/-- `allocationTxResult`. A replay and a plain refusal are rolled back, a classification refusal
and a new binding are committed. -/
inductive AllocationTxResult where
  | replay (binding : Binding)
  | refused (err : Error)
  | classified (err : Error)
  | bound (binding : Binding)
  deriving DecidableEq

/-- Whether the caller commits. -/
def AllocationTxResult.keep : AllocationTxResult → Bool
  | .replay _ | .refused _ => false
  | .classified _ | .bound _ => true

end TxHarbor.Nonce
