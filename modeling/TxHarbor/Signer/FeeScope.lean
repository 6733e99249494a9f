import Mathlib

namespace TxHarbor.Signer

/-! The fee part of a grant scope (009): what a signing request may offer under the caps of its grant. -/

/-- The refusal classes of the signer. -/
inductive RefusalClass where
  | unauthenticated
  | signingNotPermitted
  | malformedRequest
  | arbitraryDigestRejected
  | validationFailed
  | policyRefused
  | requestConflict
  | bindingAbsent
  | bindingConflict
  | bindingPaused
  | bindingTerminal
  | bindingReadFailed
  | authorizationInvalid
  | authorizationExpired
  | authorizationRevoked
  | authorizationUnverifiable
  | recoveryPaused
  | recoveryActive
  | recoveryVersionChanged
  | gateReadFailed
  | keyProviderUnavailable
  | keyProviderTimeout
  | storageUnavailable
  | outcomeNotYetVisible
  | signatureWithheld
  | outcomeUnknown
  deriving DecidableEq

/-- The fee fields: exactly the ones of the transaction's type. -/
inductive FeeShape where
  | legacy (gasPrice : Nat)
  | dynamicFee (maxFeePerGas maxPriorityFeePerGas : Nat)
  deriving DecidableEq

namespace FeeShape

def perGas : FeeShape → Nat
  | .legacy gasPrice => gasPrice
  | .dynamicFee maxFeePerGas _ => maxFeePerGas

def priority : FeeShape → Nat
  | .legacy _ => 0
  | .dynamicFee _ maxPriorityFeePerGas => maxPriorityFeePerGas

end FeeShape

/-- `fee_max_total`, `fee_max_per_gas` and `fee_max_priority` of a scope. The schema admits zero for each. -/
structure FeeCaps where
  total : Nat
  perGas : Nat
  priority : Nat
  deriving DecidableEq

/-- An all-zero scope sets no fee constraint. -/
def FeeCaps.unconstrained (caps : FeeCaps) : Bool := caps.total == 0 && caps.perGas == 0 && caps.priority == 0

/-- `requestFeeTriple`: the total, the fee per gas and the priority fee of a request with positive fields. -/
def requestFeeTriple (gasLimit : Nat) : FeeShape → Option (Nat × Nat × Nat)
  | .legacy price => if gasLimit = 0 ∨ price = 0 then none else some (gasLimit * price, price, 0)
  | .dynamicFee maxFee tip =>
    if gasLimit = 0 ∨ maxFee = 0 ∨ tip = 0 then none else some (gasLimit * maxFee, maxFee, tip)

def feeScopeRefusal (caps : FeeCaps) (gasLimit : Nat) (fees : FeeShape) : Option RefusalClass :=
  if caps.unconstrained then none
  else match requestFeeTriple gasLimit fees with
    | none => some .authorizationInvalid
    | some (total, perGas, priority) =>
      if perGas < priority ∨ caps.perGas < caps.priority then some .authorizationInvalid
      else if caps.total = 0 ∨ caps.perGas = 0 then some .authorizationInvalid
      else if caps.total < total ∨ caps.perGas < perGas then some .authorizationInvalid
      else if 0 < priority ∧ (caps.priority = 0 ∨ caps.priority < priority) then some .authorizationInvalid
      else none

/-- The fees of a transaction are within the caps. -/
structure FeeCaps.Covers (caps : FeeCaps) (gasLimit : Nat) (fees : FeeShape) : Prop where
  total : gasLimit * fees.perGas ≤ caps.total
  perGas : fees.perGas ≤ caps.perGas
  priority : fees.priority ≤ caps.priority

theorem requestFeeTriple_eq_some {gasLimit total perGas priority : Nat} {fees : FeeShape}
    (h : requestFeeTriple gasLimit fees = some (total, perGas, priority)) :
    total = gasLimit * fees.perGas ∧ perGas = fees.perGas ∧ priority = fees.priority := by
  cases fees with
  | legacy price | dynamicFee maxFee tip =>
    simp only [requestFeeTriple, Option.ite_none_left_eq_some, Option.some.injEq, Prod.mk.injEq] at h
    obtain ⟨-, rfl, rfl, rfl⟩ := h
    exact ⟨rfl, rfl, rfl⟩

/-- A request passes the fee test if its scope sets no constraint or covers it. -/
theorem covers_of_feeScopeRefusal {caps : FeeCaps} {gasLimit : Nat} {fees : FeeShape}
    (h : feeScopeRefusal caps gasLimit fees = none) : caps.unconstrained = true ∨ caps.Covers gasLimit fees := by
  unfold feeScopeRefusal at h
  by_cases hfree : caps.unconstrained = true
  · exact .inl hfree
  rw [if_neg hfree] at h
  refine .inr ?_
  cases htriple : requestFeeTriple gasLimit fees with
  | none => simp [htriple] at h
  | some triple =>
    obtain ⟨total, perGas, priority⟩ := triple
    obtain ⟨rfl, rfl, rfl⟩ := requestFeeTriple_eq_some htriple
    simp only [htriple] at h
    split_ifs at h
    constructor <;> omega

end TxHarbor.Signer
