import Mathlib

namespace TxHarbor.Nonce

/-- Admission and operator outcomes of `errors.go`. -/
inductive Outcome where
  | allocated
  | replayed
  | allocationConflict
  | chainViewUnavailable
  | scopeHeld
  | senderNotRegistered
  | senderDisabled
  | authorizationInvalid
  | rebuildIncomplete
  | recoveryActive
  | temporarilyUnavailable
  | operationConflict
  | applied
  | nop
  | refused
  deriving DecidableEq

/-- The `nonce_scope_holds.cause` domain. -/
inductive HoldCause where
  | unattributedConsumption
  | unexplainedGap
  | chainViewDivergence
  deriving DecidableEq

def HoldCause.text : HoldCause → String
  | .unattributedConsumption => "unattributed_consumption"
  | .unexplainedGap => "unexplained_gap"
  | .chainViewDivergence => "chain_view_divergence"

/-- The `nonce_observations.classification` domain. -/
inductive Classification where
  | consistent
  | bootstrapExternal
  | unattributedConsumption
  | unexplainedGap
  | divergence
  | unavailable
  deriving DecidableEq

def Classification.text : Classification → String
  | .consistent => "consistent"
  | .bootstrapExternal => "bootstrap_external_consumed"
  | .unattributedConsumption => "unattributed_consumption"
  | .unexplainedGap => "unexplained_gap"
  | .divergence => "divergence"
  | .unavailable => "unavailable"

/-- The `nonce_bindings.state` domain. -/
inductive BindingState where
  | allocated
  | inFlight
  | consumed
  | released
  deriving DecidableEq

def BindingState.text : BindingState → String
  | .allocated => "allocated"
  | .inFlight => "in_flight"
  | .consumed => "consumed"
  | .released => "released"

def isTerminal (state : BindingState) : Bool := state == .consumed || state == .released

/-- `CanTransition`: operator and observer edges combined. -/
def canTransition : BindingState → BindingState → Bool
  | .allocated, target => target == .inFlight || target == .consumed || target == .released
  | .inFlight, target => target == .consumed || target == .released
  | _, _ => false

/-- `CanAutoTransition`: the observer never produces `released`. -/
def canAutoTransition (source target : BindingState) : Bool := canTransition source target && target != .released

inductive RegistryState where
  | active
  | disabled
  deriving DecidableEq

def RegistryState.text : RegistryState → String
  | .active => "active"
  | .disabled => "disabled"

inductive HoldStatus where
  | active
  | released
  deriving DecidableEq

inductive ObservationKind where
  | allocation
  | reconcile
  deriving DecidableEq

/-- The `nonce_ops_audit.action` domain. -/
inductive AdminAction where
  | holdRelease
  | bindingRelease
  | registryRegister
  | registryDisable
  deriving DecidableEq

def AdminAction.text : AdminAction → String
  | .holdRelease => "hold_release"
  | .bindingRelease => "binding_release"
  | .registryRegister => "registry_register"
  | .registryDisable => "registry_disable"

/-- `Error`: a classified refusal. The wrapped cause only reaches logs and is left out. -/
structure Error where
  outcome : Outcome
  reason : String
  deriving DecidableEq

def refuse (outcome : Outcome) (reason : String) : Error := ⟨outcome, reason⟩

def storageRefusal (reason : String) : Error := refuse .temporarilyUnavailable reason

theorem canTransition_of_terminal {source target : BindingState} (h : isTerminal source = true) :
    canTransition source target = false := by
  cases source with
  | allocated | inFlight => cases h
  | consumed | released => rfl

end TxHarbor.Nonce
