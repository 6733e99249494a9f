import TxHarbor.Execution.Lifecycle
import TxHarbor.Nonce.Vocabulary
import TxHarbor.Signer.FeeScope

namespace TxHarbor.Lifecycle

open Execution (AttemptID AttemptState Claim Holder Probe SendKind SendOutcome)
open Nonce (BindingState HoldCause RegistryState)
open Signer (FeeCaps FeeShape)

/-! The tables the send region of the transaction lifecycle (010) reads and writes. Keys are numbers, a
table is a function from its key. -/

abbrev IntentID := Nat

abbrev ChainID := Nat

abbrev Address := Nat

abbrev BindingID := Nat

abbrev AuthorizationID := Nat

inductive PauseKind where
  | indexer
  | log
  | deposit
  deriving DecidableEq

/-- A row of `indexer_pause`, `log_pause` or `deposit_pause`. -/
structure Pause where
  kind : PauseKind
  createdAt : Int
  deriving DecidableEq

/-- `nonce_bindings`. -/
structure Binding where
  intent : IntentID
  chain : ChainID
  sender : Address
  nonce : Nat
  state : BindingState
  deriving DecidableEq

inductive GrantState where
  | active
  | revoked
  | expired
  deriving DecidableEq

/-- `withdrawal_authorizations`. -/
structure Grant where
  state : GrantState
  chain : ChainID
  asset : Address
  recipient : Address
  amount : Nat
  expiresAt : Option Int
  deriving DecidableEq

/-- `withdrawal_authorization_scopes`. -/
structure GrantScope where
  intent : IntentID
  sender : Address
  authorizationVersion : Nat
  allowsFeeReplacement : Bool
  caps : FeeCaps
  deriving DecidableEq

/-- The tables of other components whose rows decide about a dispatch. -/
structure GateTables where
  claims : IntentID → Option Claim
  /-- Whether `indexer_lease` has a row for the chain. -/
  leases : ChainID → Bool
  pauses : ChainID → List Pause
  /-- The sequence of the active reorganisation recovery. -/
  recovery : ChainID → Option Nat
  recoveryEvents : ChainID → List Nat
  bindings : BindingID → Option Binding
  registry : ChainID → Address → Option RegistryState
  /-- The causes of the active holds. -/
  holds : ChainID → Address → List HoldCause
  grants : AuthorizationID → Option Grant
  scopes : AuthorizationID → Option GrantScope

/-- The identity and content columns of `tx_attempts`; no statement changes them. -/
structure Content where
  intent : IntentID
  binding : BindingID
  authorization : AuthorizationID
  authorizationVersion : Nat
  recoveryVersion : Nat
  chain : ChainID
  sender : Address
  nonce : Nat
  gasLimit : Nat
  fees : FeeShape
  asset : Address
  recipient : Address
  amount : Nat
  replacementOf : Option AttemptID
  deriving DecidableEq

structure Attempt where
  content : Content
  state : AttemptState
  revision : Nat
  deriving DecidableEq

/-- `reconstructSignedBytes`: the transaction of the content under a signature. -/
structure SignedTx where
  content : Content
  signature : Nat
  deriving DecidableEq

/-- `tx_send_attempts`. The region dispatches only if it observed no pause, so `observed_pause` is always
`none`. `dispatch` names the call of the node the row is about. -/
structure SendRow where
  attempt : AttemptID
  sendSeq : Nat
  kind : SendKind
  outcome : SendOutcome
  dispatchedAt : Int
  dispatch : Nat
  deriving DecidableEq

structure Database where
  gates : GateTables
  attempts : AttemptID → Option Attempt
  /-- `tx_attempt_signings`. -/
  signings : AttemptID → Option SignedTx
  sends : List SendRow
  /-- `tx_intent_freezes`: whether the freeze was released. -/
  freezes : IntentID → Option Bool

inductive Refusal where
  | claimAbsent
  | claimRevoked
  | claimExpired
  | claimVersionMismatch
  | coordinationUnavailable
  | pausePresent (causes : List PauseKind)
  | recoveryActive (recoverySeq : Nat)
  | recoveryVersionChanged
  | bindingAbsent
  | bindingConflict
  | bindingTerminal
  | bindingPaused
  | authorizationMissing
  | authorizationRevoked
  | authorizationInactive
  | authorizationExpired
  | authorizationMismatch
  | authorizationUnverifiable
  | scopeReuseForbidden
  | feeScopeExceeded
  deriving DecidableEq

/-- `applyStateTx` on the row of an attempt. -/
def Attempt.move (state : AttemptState) (a : Attempt) : Attempt := { a with state := state, revision := a.revision + 1 }

namespace Database

def moveAttempt (db : Database) (id : AttemptID) (state : AttemptState) : Database :=
  { db with attempts := Function.update db.attempts id ((db.attempts id).map (Attempt.move state)) }

/-- The send rows of one attempt, in the order they were written. -/
def rows (db : Database) (id : AttemptID) : List SendRow := db.sends.filter fun row => row.attempt == id

def accepted (db : Database) (id : AttemptID) : Bool := (db.rows id).any fun row => row.outcome == .accepted

def nextSendSeq (db : Database) (id : AttemptID) : Nat := ((db.rows id).map SendRow.sendSeq).foldl max 0 + 1

/-- `checkIntentFreeze`. -/
def frozen (db : Database) (intent : IntentID) : Bool := db.freezes intent == some false

/-- The insert of a send row with the move of its attempt. -/
def record (db : Database) (row : SendRow) (state : AttemptState) : Database :=
  { db.moveAttempt row.attempt state with sends := db.sends ++ [row] }

def earliestPause (db : Database) (chain : ChainID) : Option Int := ((db.gates.pauses chain).map Pause.createdAt).min?

/-- `detectFreeze`: a dispatch that recorded no pause although one was created before it. -/
def detectFreeze (db : Database) (id : AttemptID) (content : Content) : Database :=
  match db.earliestPause content.chain with
  | none => db
  | some pause =>
    if (db.rows id).any fun row => decide (pause < row.dispatchedAt) then
      -- `ON CONFLICT DO NOTHING`: a released freeze stays released
      { db with freezes := Function.update db.freezes content.intent (some ((db.freezes content.intent).getD false)) }
    else db

/-- The states a verified receipt leaves to the attempt and its siblings. Which ones is decided elsewhere. -/
def settle (db : Database) (verdicts : List (AttemptID × AttemptState)) : Database :=
  verdicts.foldl (fun db v => db.moveAttempt v.1 v.2) db

/-- `Reconcile` of an attempt with its content, given the answer of the node. -/
def reconcile (db : Database) (id : AttemptID) (a : Attempt) (probe : Probe) (verdicts : List (AttemptID × AttemptState)) :
    Database :=
  let moved := match Execution.reconcileTransition probe a.state with
    | none => db
    | some state => db.moveAttempt id state
  let settled := match probe with
    | .included _ _ _ => moved.settle verdicts
    | _ => moved
  settled.detectFreeze id a.content

/-- `Release` with its permission. -/
def release (db : Database) (intent : IntentID) : Database :=
  if db.freezes intent = some false then { db with freezes := Function.update db.freezes intent (some true) } else db

end Database

end TxHarbor.Lifecycle
