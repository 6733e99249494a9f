import TxHarbor.Nonce.Admission

open Relational Tx

namespace TxHarbor.Nonce

/-- The binding row an admission inserts. -/
def admittedBinding (env : Environment) (req : AllocationRequest) (auth : AuthorizationRow)
    (registrySeq : Int) (hex observationID : String) (candidate : Int) : Binding :=
  { toScope := req.toScope, bindingID := "nb-" ++ hex, intentID := req.intentID,
    nonce := candidate, state := .allocated, authorizationID := req.authorizationID,
    authorizationVersion := authorizationVersionDigest env auth req.authorizationID,
    registrySeq := registrySeq, allocationObservationID := observationID,
    consumedAt := none, releasedAt := none, releaseOperationID := none }

/-- The part of `allocateInTx` from classification on. -/
def admitInTx (env : Environment) (mint : Mint) (req : AllocationRequest) (obs : Observation)
    (auth : AuthorizationRow) (registrySeq : Int) : NonceTx AllocationTxResult := do
  let s ← get
  let decision := classify (classificationInput s req.toScope obs)
  let obs := { obs with classification := some decision.classification }
  let observationID ← insertObservationTx mint obs
  recordFrontierTx req.toScope obs observationID
  match decision.candidate with
  | none => do
    holdForDecisionTx env.now mint req.toScope decision observationID
    -- Every decision without a candidate carries a refusal.
    pure (.classified (refuse (decision.refusal.getD .temporarilyUnavailable) decision.classification.text))
  | some candidate => do
    let hex ← demand (.message "mint binding id") mint.binding
    let binding := admittedBinding env req auth registrySeq hex observationID candidate
    insertBindingTx binding
    let created ← insertBindingEventTx
      { bindingID := binding.bindingID, fromState := none, toState := .allocated,
        observationID := observationID, operationID := "", detail := "admission" }
    require (created = true) (.message "admission creation event was not written")
    pure (.bound binding)

/-- `allocateInTx`. The coordination lock makes the whole body one serialized step. -/
def allocateInTx (env : Environment) (mint : Mint) (req : AllocationRequest)
    (obs : Observation) : NonceTx AllocationTxResult := do
  let s ← get
  if env.gates.any then
    pure (.refused (refuse .recoveryActive ("006 gate active: " ++ ",".intercalate env.gates.causes)))
  else
    match readRegistryBySenderTx s req.toScope, admissionRefusal (readRegistryBySenderTx s req.toScope) with
    | some registry, none => do
      ensureScopeRowTx req.toScope
      lockScopeRowTx req.toScope
      let s ← get
      match readActiveHoldsTx s req.toScope, readAuthorizationForShareTx env req.authorizationID req.chainID,
          readBindingByIntentTx s req.intentID with
      | h :: rest, _, _ =>
        pure (.refused (refuse .scopeHeld
          ("active holds: " ++ ",".intercalate ((h :: rest).map fun h => h.cause.text))))
      | [], none, _ =>
        pure (.refused (refuse .authorizationInvalid
          "authorization is missing, inactive, expired, or chain-mismatched"))
      | [], some _, some existing =>
        if bindingMatchesInput existing req then pure (.replay existing)
        else
          pure (.refused (refuse .allocationConflict "intent already bound to a differing input set"))
      | [], some auth, none => admitInTx env mint req obs auth registry.registrySeq
    | registry, refusal =>
      pure (.refused (refuse (refusal.getD .senderNotRegistered) (registryRefusalReason registry)))

/-- `RebuildGate`: the startup readiness gate. -/
structure RebuildGate where
  isOpen : Bool
  reason : String
  deriving DecidableEq

/-- What an `Allocate` call hands back. `bound` is the return with a nil error. -/
inductive AllocateReturn where
  | bound (binding : Binding) (outcome : Outcome)
  | refused (err : Error)
  | invalid (text : String)
  deriving DecidableEq

/-- Where the first transaction of a call leaves it: returned, on its way to the race classify
of `convergeAfterRace`, or dead with its process. -/
inductive AllocateProgress where
  | returned (result : AllocateReturn)
  | raced
  | crashed
  deriving DecidableEq

/-- The switch of `Allocate` over the outcome of its transaction. -/
def settleAllocation : Attempt TxError AllocationTxResult → AllocateProgress
  | .notOpened => .returned (.refused (storageRefusal "open allocation transaction"))
  | .failed err =>
    if bindingCarrierConstraint err then .raced
    else .returned (.refused (storageRefusal "allocation transaction failed"))
  | .rolledBack (.replay binding) => .returned (.bound binding .replayed)
  | .rolledBack (.refused err) | .committed (.classified err) => .returned (.refused err)
  | .committed (.bound binding) => .returned (.bound binding .allocated)
  | .commitUnknown (.classified _) =>
    .returned (.refused (storageRefusal "commit classification refusal"))
  | .commitUnknown _ => .returned (.refused (storageRefusal "commit allocation"))
  | .crashed => .crashed
  -- `keep` decides between rollback and commit, so these two never occur.
  | .rolledBack _ | .committed _ => .crashed

/-- One `Allocate` call up to the end of its first transaction. The chain view is sampled
before the transaction opens. -/
def allocate (gate : RebuildGate) (view : ChainView) (env : Environment) (mint : Mint)
    (fault : Fault TxError) (req : AllocationRequest) (s : Store) : AllocateProgress × Store :=
  match req.validate with
  | .error text => (.returned (.invalid text), s)
  | .ok () =>
    if gate.isOpen = false then
      (.returned (.refused (refuse .rebuildIncomplete
        (if gate.reason = "" then "startup rebuild verification has not completed"
         else gate.reason))), s)
    else
      let done := attempt fault
        (allocateInTx env mint req (observe req.toScope .allocation view)) AllocationTxResult.keep s
      (settleAllocation done.1, done.2)

/-- A call is turned away before its transaction, or settles one attempt at it. -/
theorem allocate_cases (gate : RebuildGate) (view : ChainView) (env : Environment) (mint : Mint)
    (fault : Fault TxError) (req : AllocationRequest) (s : Store) :
    (∃ result, allocate gate view env mint fault req s = (.returned result, s) ∧
        ∀ b outcome, result ≠ .bound b outcome) ∨
      ∃ done, done = attempt fault (allocateInTx env mint req
          (observe req.toScope .allocation view)) AllocationTxResult.keep s ∧
        allocate gate view env mint fault req s = (settleAllocation done.1, done.2) := by
  unfold allocate
  cases req.validate with
  | error text => exact .inl ⟨_, rfl, by simp⟩
  | ok u =>
    by_cases hgate : gate.isOpen = false
    · rw [if_pos hgate]
      exact .inl ⟨_, rfl, by simp⟩
    · rw [if_neg hgate]
      exact .inr ⟨_, rfl, rfl⟩

/-- `resolveAdmissionRace`: the fixed-order classify after a unique violation. -/
def resolveAdmissionRace (s : Store) (req : AllocationRequest) (attempted : Option Int) : Except Error Binding :=
  match readBindingByIntentTx s req.intentID with
  | some winner =>
    if bindingMatchesInput winner req then .ok winner
    else .error (refuse .allocationConflict "intent already bound to a differing input set")
  | none =>
    match attempted with
    | none => .error (refuse .temporarilyUnavailable "allocation race classify miss")
    | some nonce =>
      match readBindingByScopeNonceTx s req.toScope nonce with
      | some _ =>
        .error (refuse .temporarilyUnavailable "scope nonce carrier raced; retry with the same input set")
      | none =>
        .error (refuse .temporarilyUnavailable "allocation race classify miss; retry with the same input set")

/-- `convergeAfterRace`: a fresh read-only transaction, whose own failure is a refusal. -/
def convergeAfterRace (fault : Fault TxError) (req : AllocationRequest) (attempted : Option Int)
    (s : Store) : AllocateProgress :=
  match fault with
  | .beginFails => .returned (.refused (storageRefusal "open race classify transaction"))
  | .statementFails _ => .returned (.refused (storageRefusal "race classify read failed"))
  | .crash _ => .crashed
  | _ =>
    match resolveAdmissionRace s req attempted with
    | .ok binding => .returned (.bound binding .replayed)
    | .error err => .returned (.refused err)

end TxHarbor.Nonce
