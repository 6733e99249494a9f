import TxHarbor.Nonce.Vocabulary
import TxHarbor.Relational.Table
import TxHarbor.Relational.Transaction

open Relational Bool

namespace TxHarbor.Nonce

/-- The `(chain_id, sender)` pair that every row and request of the nonce manager carries. -/
structure Scope where
  chainID : Int
  sender : String
  deriving DecidableEq

/-- `nonce_wallet_registry`. -/
structure WalletRegistry extends Scope where
  state : RegistryState
  registrySeq : Int
  deriving DecidableEq

/-- `nonce_scope_state`. -/
structure ScopeState extends Scope where
  reconciledFloor : Option Int
  lastLatest : Option Int
  lastPending : Option Int
  lastObservationID : Option String
  deriving DecidableEq

/-- `nonce_bindings`. -/
structure Binding extends Scope where
  bindingID : String
  intentID : String
  nonce : Int
  state : BindingState
  authorizationID : String
  authorizationVersion : String
  registrySeq : Int
  allocationObservationID : String
  consumedAt : Option Int
  releasedAt : Option Int
  releaseOperationID : Option String
  deriving DecidableEq

/-- `nonce_binding_events`, in `event_id` order. The empty string stands for NULL in the two
reference columns. -/
structure BindingEvent where
  bindingID : String
  fromState : Option BindingState
  toState : BindingState
  observationID : String
  operationID : String
  detail : String
  deriving DecidableEq

/-- `nonce_observations`. The classification is absent until the caller has classified the
view, and such a row is never stored. -/
structure Observation extends Scope where
  observationID : String
  kind : ObservationKind
  classification : Option Classification
  latestCount : Option Int
  pendingCount : Option Int
  headNumber : Option Int
  headHash : String
  errorClass : String
  rpcRef : String
  deriving DecidableEq

/-- `nonce_scope_holds`. -/
structure ScopeHold extends Scope where
  holdID : String
  cause : HoldCause
  status : HoldStatus
  establishedAt : Int
  evidenceObservationID : String
  evidenceDetail : String
  releasedAt : Option Int
  releasedBy : Option String
  releaseOperationID : Option String
  releaseEvidence : Option String
  releaseObservationID : Option String
  deriving DecidableEq

/-- `nonce_ops_audit`. -/
structure AdminAudit extends Scope where
  operationID : String
  action : AdminAction
  subjectID : String
  outcome : Outcome
  operator : String
  reason : String
  evidence : String
  detail : String
  deriving DecidableEq

/-- `nonce_wallet_registry_pkey`. -/
instance : Constrained WalletRegistry where
  clash a b := a.toScope == b.toScope
  clash_comm _ _ := beq_comm

/-- `nonce_scope_state_pkey`. -/
instance : Constrained ScopeState where
  clash a b := a.toScope == b.toScope
  clash_comm _ _ := beq_comm

/-- `nonce_bindings_pkey`, `nonce_bindings_intent_uniq`, `nonce_bindings_scope_nonce_uniq`. -/
instance : Constrained Binding where
  clash a b := a.bindingID == b.bindingID || a.intentID == b.intentID || (a.toScope == b.toScope && a.nonce == b.nonce)
  clash_comm a b := by
    rw [beq_comm, beq_comm (a := a.intentID), beq_comm (a := a.toScope), beq_comm (a := a.nonce)]

/-- `nonce_binding_events_binding_to_uniq`. -/
instance : Constrained BindingEvent where
  clash a b := a.bindingID == b.bindingID && a.toState == b.toState
  clash_comm a b := by rw [beq_comm, beq_comm (a := a.toState)]

/-- `nonce_observations_pkey`. -/
instance : Constrained Observation where
  clash a b := a.observationID == b.observationID
  clash_comm _ _ := beq_comm

/-- `nonce_scope_holds_pkey`. -/
instance : Constrained ScopeHold where
  clash a b := a.holdID == b.holdID
  clash_comm _ _ := beq_comm

/-- `nonce_ops_audit_operation_id_uniq`. -/
instance : Constrained AdminAudit where
  clash a b := a.operationID == b.operationID
  clash_comm _ _ := beq_comm

/-- The seven tables of the nonce manager. -/
structure Store where
  registry : Table WalletRegistry
  scopes : Table ScopeState
  bindings : Table Binding
  events : Table BindingEvent
  observations : Table Observation
  holds : Table ScopeHold
  audit : Table AdminAudit

def Store.empty : Store := ⟨.empty, .empty, .empty, .empty, .empty, .empty, .empty⟩

/-- The named constraints a statement can trip over. -/
inductive Constraint where
  | bindingsPkey
  | bindingsIntentUniq
  | bindingsScopeNonceUniq
  | bindingsNonceRange
  | bindingsTerminalConsistency
  | bindingsRegistryFkey
  | observationsPkey
  | scopeStateRegistryFkey
  | scopeHoldsPkey
  | scopeHoldsRegistryFkey
  | opsAuditOperationIDUniq
  deriving DecidableEq

/-- Why a transaction body stops: a constraint violation reported by the database, or an error
raised by the code. -/
inductive TxError where
  | violation (constraint : Constraint)
  | message (text : String)
  deriving DecidableEq

/-- A body over the nonce tables, run under the chain coordination lock. -/
abbrev NonceTx := Tx Store TxError

def bindingCarrierConstraint : TxError → Bool
  | .violation .bindingsPkey => true
  | .violation .bindingsIntentUniq => true
  | .violation .bindingsScopeNonceUniq => true
  | _ => false

def auditOperationIDConflict : TxError → Bool
  | .violation .opsAuditOperationIDUniq => true
  | _ => false

/-- `Binding.TerminalConsistent`, which is also the `nonce_bindings_terminal_consistency`
CHECK. -/
def Binding.terminalConsistent (b : Binding) : Bool := ((b.state == .consumed) == b.consumedAt.isSome) &&
    ((b.state == .released) == (b.releasedAt.isSome && b.releaseOperationID.isSome))

end TxHarbor.Nonce
