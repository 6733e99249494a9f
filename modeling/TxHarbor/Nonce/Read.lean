import TxHarbor.Nonce.Store

open Relational

namespace TxHarbor.Nonce

def readRegistryBySenderTx (s : Store) (scope : Scope) : Option WalletRegistry :=
  s.registry.select fun r => r.toScope == scope

def readScopeStateTx (s : Store) (scope : Scope) : Option ScopeState := s.scopes.select fun r => r.toScope == scope

/-- `readBindingByIDTx`, also in its FOR UPDATE form. -/
def readBindingByIDTx (s : Store) (bindingID : String) : Option Binding :=
  s.bindings.select fun b => b.bindingID == bindingID

def readBindingByIntentTx (s : Store) (intentID : String) : Option Binding :=
  s.bindings.select fun b => b.intentID == intentID

def readBindingByScopeNonceTx (s : Store) (scope : Scope) (nonce : Int) : Option Binding :=
  s.bindings.select fun b => b.toScope == scope && b.nonce == nonce

/-- The bindings of one scope, in row order. -/
def scopeBindings (s : Store) (scope : Scope) : List Binding := s.bindings.rows.filter fun b => b.toScope == scope

/-- `readBindingsByScopeTx`: ordered by nonce. -/
def readBindingsByScopeTx (s : Store) (scope : Scope) : List Binding :=
  (scopeBindings s scope).insertionSort fun a b => a.nonce ≤ b.nonce

/-- The `ORDER BY established_at, hold_id` of the hold readers. -/
def ScopeHold.before (a b : ScopeHold) : Bool :=
  a.establishedAt < b.establishedAt || (a.establishedAt == b.establishedAt && a.holdID ≤ b.holdID)

def readActiveHoldsTx (s : Store) (scope : Scope) : List ScopeHold :=
  (s.holds.rows.filter fun h => h.toScope == scope && h.status == .active).insertionSort fun a b => a.before b = true

def readActiveHoldByCauseTx (s : Store) (scope : Scope) (cause : HoldCause) : Option ScopeHold :=
  (readActiveHoldsTx s scope).find? fun h => h.cause == cause

def readHoldByIDForUpdateTx (s : Store) (holdID : String) : Option ScopeHold :=
  s.holds.select fun h => h.holdID == holdID

/-- `readObservationScopeTx`: the scope an observation row belongs to. -/
def readObservationScopeTx (s : Store) (observationID : String) : Option Scope :=
  (s.observations.select fun o => o.observationID == observationID).map (·.toScope)

def readAuditByOperationIDTx (s : Store) (operationID : String) : Option AdminAudit :=
  s.audit.select fun a => a.operationID == operationID

end TxHarbor.Nonce
