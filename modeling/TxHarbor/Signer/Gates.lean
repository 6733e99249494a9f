import TxHarbor.Nonce.Read
import TxHarbor.Signer.Request

namespace TxHarbor.Signer

open Option

/-! What a submit asks of the recovery (006), the binding (008), the grant with its scope (007) and the policy. Every
test answers with the class it refuses with, or `none`. -/

/-- The classes whose refusal is recorded: a retry of the same identity cannot succeed. -/
def RefusalClass.retryNever : RefusalClass → Bool
  | .bindingPaused | .bindingReadFailed | .recoveryPaused | .recoveryActive | .gateReadFailed | .keyProviderUnavailable
  | .keyProviderTimeout | .storageUnavailable | .outcomeNotYetVisible | .signatureWithheld | .outcomeUnknown => false
  | _ => true

/-! ### Recovery -/

/-- `RecoveryGate`. The pauses are those of any chain; `released` is whether a recovery of the chain was released. -/
structure RecoveryGate where
  paused : Bool
  recoverySeq : Option Nat
  eventsMax : Option Nat
  released : Bool
  deriving DecidableEq

def RecoveryGate.currentVersion (g : RecoveryGate) : Nat := g.recoverySeq.getD (g.eventsMax.getD 0)

def RecoveryGate.evaluate (g : RecoveryGate) (requestVersion : Int) : Option RefusalClass :=
  if g.paused then some .recoveryPaused
  else if g.recoverySeq.isSome then some .recoveryActive
  else if (g.currentVersion : Int) ≠ requestVersion then some .recoveryVersionChanged
  else none

/-! ### Binding -/

inductive BindingResult where
  | matches
  | absent
  | conflict
  | paused
  | terminal
  | readFailed
  deriving DecidableEq

def bindingRefusal : BindingResult → Option RefusalClass
  | .matches => none
  | .absent => some .bindingAbsent
  | .conflict => some .bindingConflict
  | .paused => some .bindingPaused
  | .terminal => some .bindingTerminal
  | .readFailed => some .bindingReadFailed

/-- `ReadBinding` of the adapter: the binding of the intent with its scope, holds, registry and recovery. The read has
no expected scope, so it never answers with a conflict. -/
def readBinding (s : Nonce.Store) (recovery : Int → RecoveryGate) (intentID : String) : BindingResult :=
  if intentID = "" then .readFailed
  else match Nonce.readBindingByIntentTx s intentID with
    | none => .absent
    | some b =>
      if (Nonce.readScopeStateTx s b.toScope).isNone then .readFailed
      else match Nonce.readRegistryBySenderTx s b.toScope with
        | none => .readFailed
        | some registry =>
          if Nonce.isTerminal b.state then .terminal
          else if Nonce.readActiveHoldsTx s b.toScope ≠ [] ∨ (recovery b.chainID).recoverySeq.isSome ∨
              (recovery b.chainID).released ∨ registry.state ≠ .active then .paused
          else .matches

/-- The adapter finds a binding of the intent that is not terminal. -/
theorem readBinding_matches {s : Nonce.Store} {recovery : Int → RecoveryGate} {intentID : String}
    (h : readBinding s recovery intentID = .matches) :
    ∃ b, Nonce.readBindingByIntentTx s intentID = some b ∧ Nonce.isTerminal b.state = false := by
  unfold readBinding at h
  split_ifs at h
  split at h
  · cases h
  next b hb =>
    refine ⟨b, hb, ?_⟩
    split_ifs at h with _ hlive
    · split at h <;> cases h
    · exact Bool.eq_false_iff.mpr hlive

/-! ### Grant -/

inductive GrantState where
  | active
  | revoked
  | expired
  deriving DecidableEq

/-- `AuthzGrant`: the row of `withdrawal_authorizations`. -/
structure AuthzGrant where
  callerID : Nat
  chainID : Int
  asset : String
  recipient : String
  amount : Nat
  state : GrantState
  expiresAt : Option Int
  deriving DecidableEq

def evaluateGrant (grant : Option AuthzGrant) (callerID : Nat) (req : Request) (now : Int) : Option RefusalClass :=
  match grant with
  | none => some .authorizationInvalid
  | some grant =>
    if grant.state = .revoked then some .authorizationRevoked
    else if grant.state ≠ .active then some .authorizationInvalid
    else if grant.expiresAt.any (fun expiry => decide (expiry ≤ now)) then some .authorizationExpired
    else if grant.callerID ≠ callerID then some .authorizationInvalid
    else if grant.chainID ≠ int64 req.chainID then some .authorizationInvalid
    else if equalFold grant.asset req.asset = false ∨ equalFold grant.recipient req.recipient = false then
      some .authorizationInvalid
    else if decimalBig req.amount ≠ some grant.amount then some .authorizationInvalid
    else none

variable {req : Request} {t : Transaction}

/-- A grant that passes names the payment of the request. -/
theorem evaluateGrant_eq_none {grant : Option AuthzGrant} {callerID : Nat} {now : Int}
    (h : evaluateGrant grant callerID req now = none) :
    ∃ g, grant = some g ∧ lowerAddr g.asset = lowerAddr req.asset ∧ lowerAddr g.recipient = lowerAddr req.recipient ∧
      decimalBig req.amount = some g.amount := by
  cases grant with
  | none => cases h
  | some g =>
    simp only [evaluateGrant] at h
    split_ifs at h with _ _ _ _ _ hfold hamount
    rw [not_or, Bool.not_eq_false, Bool.not_eq_false] at hfold
    exact ⟨g, rfl, lowerAddr_of_equalFold hfold.1, lowerAddr_of_equalFold hfold.2, not_not.mp hamount⟩

/-- `GrantScope`: the row of `withdrawal_authorization_scopes`. -/
structure GrantScope where
  authorizationID : String
  intentID : String
  requestID : String
  sender : String
  caps : FeeCaps
  allowsFeeReplacement : Bool
  authorizationVersion : Nat
  deriving DecidableEq

/-- `feeScopeRefusal` of a request; unreadable fees are refused under every constraint. -/
def Request.feeScopeRefusal (req : Request) (caps : FeeCaps) : Option RefusalClass :=
  if caps.unconstrained then none
  else match decimalBig req.gasLimit, req.fees with
    | some gasLimit, some fees => Signer.feeScopeRefusal caps gasLimit fees
    | _, _ => some .authorizationInvalid

def evaluateGrantScopeBoundIdentity (scope : Option GrantScope) (req : Request) (boundRequestID : String) :
    Option RefusalClass :=
  match scope with
  | none => some .authorizationUnverifiable
  | some scope =>
    if scope.authorizationID ≠ req.authorizationID then some .authorizationInvalid
    else if equalFold scope.sender req.sender = false then some .authorizationInvalid
    else if scope.intentID ≠ req.intentID ∨ scope.requestID ≠ boundRequestID then some .authorizationInvalid
    else req.feeScopeRefusal scope.caps

def evaluateGrantReuse (scope : Option GrantScope) (req : Request) : Option RefusalClass :=
  match scope with
  | none => some .authorizationInvalid
  | some scope => if scope.allowsFeeReplacement = false then some .authorizationInvalid else req.feeScopeRefusal scope.caps

/-- The scope covers the fees of the transaction, or sets no constraint. -/
theorem evaluateGrantScopeBoundIdentity_eq_none {scope : Option GrantScope} {boundRequestID : String}
    (h : evaluateGrantScopeBoundIdentity scope req boundRequestID = none) (ht : req.transaction = some t) :
    ∃ g, scope = some g ∧ (g.caps.unconstrained = true ∨ g.caps.Covers t.gasLimit t.fees) := by
  cases scope with
  | none => cases h
  | some g =>
    simp only [evaluateGrantScopeBoundIdentity] at h
    split_ifs at h
    refine ⟨g, rfl, ?_⟩
    obtain ⟨-, -, -, hgas, hfees, -⟩ := Request.transaction_reads ht
    unfold Request.feeScopeRefusal at h
    split_ifs at h with hfree
    · exact .inl hfree
    · rw [hgas, hfees] at h
      exact covers_of_feeScopeRefusal h

/-! ### Anchor -/

/-- `equalDecimal` of a `NUMERIC` column, whose text reads back as its number, and a text of the request. -/
def equalDecimal (column : Nat) (s : String) : Bool := decimalBig s == some column

/-- `anchorRebindingField`: the first field of the anchor that the replacement changes. -/
def anchorRebindingField (a : Columns) (req : Request) : Option String :=
  refusedUnless (a.chainID == int64 req.chainID) "chain_id" <|>
    refusedUnless (equalFold a.sender req.sender) "sender" <|>
    refusedUnless (a.txType == req.txType) "tx_type" <|>
    refusedUnless (equalDecimal a.nonce req.nonce) "nonce" <|>
    refusedUnless (equalDecimal a.value req.value) "value" <|>
    refusedUnless (equalDecimal a.gasLimit req.gasLimit) "gas_limit" <|>
    refusedUnless (equalDecimal a.amount req.amount) "amount" <|>
    refusedUnless (equalFold a.toAddr req.toAddr) "to" <|>
    refusedUnless (equalFold a.asset req.asset) "asset" <|>
    refusedUnless (equalFold a.recipient req.recipient) "recipient" <|>
    refusedUnless (hexDecode req.data == some a.data) "data"

def evaluateAnchorBinding (a : Columns) (req : Request) : Option RefusalClass :=
  if (anchorRebindingField a req).isSome then some .authorizationInvalid else none

/-- Columns of some request: the addresses are canonical. -/
structure Columns.Canonical (c : Columns) : Prop where
  lowerSender : lowerAddr c.sender = c.sender
  lowerTo : lowerAddr c.toAddr = c.toAddr
  lowerAsset : lowerAddr c.asset = c.asset
  lowerRecipient : lowerAddr c.recipient = c.recipient

theorem Request.columns_canonical {r : Request} {c : Columns} (h : r.columns = some c) : c.Canonical := by
  simp only [Request.columns, bind_eq_bind, bind_eq_some_iff] at h
  obtain ⟨nonce, -, value, -, data, -, gasLimit, -, fees, -, amount, -, h⟩ := h
  cases h
  exact ⟨lowerAddr_lowerAddr _, lowerAddr_lowerAddr _, lowerAddr_lowerAddr _, lowerAddr_lowerAddr _⟩

/-- A replacement that keeps the binding of its anchor pays what the anchor pays. -/
theorem evaluateAnchorBinding_pays {a : Columns} (ha : a.Canonical) (h : evaluateAnchorBinding a req = none)
    (ht : req.transaction = some t) : t.Pays a := by
  unfold evaluateAnchorBinding at h
  split_ifs at h with hchanged
  rw [not_isSome_iff_eq_none] at hchanged
  simp only [anchorRebindingField, orElse_eq_none, refusedUnless_eq_none, equalDecimal, beq_iff_eq] at hchanged
  obtain ⟨hchain, hsender, htype, hnonce, hvalue, hgas, -, hto, -, -, hdata⟩ := hchanged
  obtain ⟨hnonce', hvalue', hdata', hgas', -, hchain', htype', hsender', hto'⟩ := Request.transaction_reads ht
  refine ⟨(congrArg int64 hchain').trans hchain.symm, ?_, some.inj (hnonce'.symm.trans hnonce),
    htype'.trans htype.symm, ?_, some.inj (hvalue'.symm.trans hvalue), some.inj (hdata'.symm.trans hdata),
    some.inj (hgas'.symm.trans hgas)⟩
  · exact hsender'.trans ((lowerAddr_of_equalFold hsender).symm.trans ha.lowerSender)
  · exact hto'.trans ((lowerAddr_of_equalFold hto).symm.trans ha.lowerTo)

/-! ### Policy -/

/-- `Policy`: the allowlists and caps of the deployment. -/
structure Policy where
  chainIDs : List Int
  senders : List String
  assets : List String
  recipients : List String
  maxAmount : Nat
  maxGasLimit : Nat
  maxFee : Nat
  maxPriority : Nat
  maxGasPrice : Nat
  deriving DecidableEq

def lowerText (s : String) : String := String.ofList (s.toList.map Char.toLower)

/-- `Check`: the field it refuses. -/
def Policy.check (p : Policy) (r : Request) : Option String :=
  refusedUnless (p.chainIDs.contains (int64 r.chainID)) "chain_id" <|>
    refusedUnless (p.senders.contains (lowerText r.sender)) "sender" <|>
    refusedUnless (p.assets.contains (lowerText r.asset)) "asset" <|>
    refusedUnless (p.recipients.contains (lowerText r.recipient)) "recipient" <|>
    refusedUnless ((decimalBig r.amount).any (· ≤ p.maxAmount)) "amount" <|>
    refusedUnless ((decimalUint64 r.gasLimit).any (· ≤ p.maxGasLimit)) "gas_limit" <|>
    if r.txType = 0 then refusedUnless ((decimalBig r.gasPrice).any (· ≤ p.maxGasPrice)) "gas_price"
    else if r.txType = 2 then
      refusedUnless (decimalBig r.maxFeePerGas).isSome "max_fee_per_gas" <|>
        refusedUnless (decimalBig r.maxPriorityFeePerGas).isSome "max_priority_fee_per_gas" <|>
        refusedUnless ((decimalBig r.maxFeePerGas).any (· ≤ p.maxFee)) "max_fee_per_gas" <|>
        refusedUnless ((decimalBig r.maxPriorityFeePerGas).any (· ≤ p.maxPriority)) "max_priority_fee_per_gas"
    else some "tx_type"

end TxHarbor.Signer
