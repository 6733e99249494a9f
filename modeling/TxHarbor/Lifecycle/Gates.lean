import TxHarbor.Lifecycle.Store

open Function Option

namespace TxHarbor.Lifecycle

open Execution (AttemptID AttemptState Claim Holder SendKind)
open Nonce (HoldCause RegistryState)
open Signer (FeeCaps FeeShape)

/-! `runGates`: what the send region reads of other components, in its order, and the writers that wait
for it. -/

/-- `SendRequest`. The intent of the claim is the caller's. -/
structure SendRequest where
  attempt : AttemptID
  kind : SendKind
  claimIntent : IntentID
  holder : Holder
  expectedRevision : Option Nat
  deriving DecidableEq

/-- What the gates judge: the request, the attempt as read before the region, and the grant of its anchor. -/
structure GateInputs where
  request : SendRequest
  content : Content
  anchorAuthorization : Option AuthorizationID
  deriving DecidableEq

inductive Gate where
  | claim
  | protection
  | binding
  | grant
  | fees
  deriving DecidableEq

def Gate.order : List Gate := [.claim, .protection, .binding, .grant, .fees]

open Gate

theorem Gate.mem_order (g : Gate) : g ∈ order := by
  cases g <;> decide

/-- `ClaimAdapter.Read`. -/
def claimRefusal (claims : IntentID → Option Claim) (req : SendRequest) (now : Int) : Option Refusal :=
  match claims req.claimIntent with
  | none => some .claimAbsent
  | some c =>
    if c.state ≠ .active then some .claimRevoked
    else if c.expiresAt ≤ now then some .claimExpired
    else if c.owner ≠ req.holder.owner then some .claimVersionMismatch
    else if c.leaseVersion ≠ req.holder.leaseVersion then some .claimVersionMismatch
    else none

/-- `pauseCauses`. -/
def pauseCauses (pauses : List Pause) : List PauseKind :=
  [PauseKind.indexer, .log, .deposit].filter fun kind => pauses.any fun p => p.kind == kind

def GateTables.recoveryVersion (t : GateTables) (chain : ChainID) : Nat := (t.recoveryEvents chain).foldl max 0

/-- The coordination row, the pauses and the recovery of the chain. -/
def protectionRefusal (t : GateTables) (a : Content) : Option Refusal :=
  if t.leases a.chain = false then some .coordinationUnavailable
  else if pauseCauses (t.pauses a.chain) ≠ [] then some (.pausePresent (pauseCauses (t.pauses a.chain)))
  else match t.recovery a.chain with
    | some seq => some (.recoveryActive seq)
    | none => if t.recoveryVersion a.chain ≠ a.recoveryVersion then some .recoveryVersionChanged else none

/-- The binding joined with the registry of its sender, and the holds on the attempt's sender. -/
def bindingRefusal (bindings : BindingID → Option Binding) (registry : ChainID → Address → Option RegistryState)
    (holds : ChainID → Address → List HoldCause) (a : Content) : Option Refusal :=
  match bindings a.binding with
  | none => some .bindingAbsent
  | some b =>
    match registry b.chain b.sender with
    | none => some .bindingAbsent
    | some state =>
      if b.intent ≠ a.intent ∨ b.chain ≠ a.chain ∨ b.sender ≠ a.sender ∨ b.nonce ≠ a.nonce then some .bindingConflict
      else if b.state ≠ .allocated ∧ b.state ≠ .inFlight then some .bindingTerminal
      else if state ≠ .active then some .bindingPaused
      else if holds a.chain a.sender ≠ [] then some .bindingPaused
      else none

/-- A grant that is still good at the clock. -/
def Grant.unexpired (g : Grant) (now : Int) : Bool := g.expiresAt.all fun expiry => decide (now < expiry)

def grantRefusal (grants : AuthorizationID → Option Grant) (scopes : AuthorizationID → Option GrantScope)
    (a : Content) (now : Int) : Option Refusal :=
  match grants a.authorization with
  | none => some .authorizationMissing
  | some g =>
    match g.state with
    | .revoked => some .authorizationRevoked
    | .expired => some .authorizationInactive
    | .active =>
      if g.unexpired now = false then some .authorizationExpired
      else if g.chain ≠ a.chain ∨ g.asset ≠ a.asset ∨ g.recipient ≠ a.recipient ∨ g.amount ≠ a.amount then
        some .authorizationMismatch
      else match scopes a.authorization with
        | none => some .authorizationUnverifiable
        | some scope =>
          if scope.intent ≠ a.intent ∨ scope.sender ≠ a.sender ∨
              scope.authorizationVersion ≠ a.authorizationVersion then some .authorizationMismatch
          else none

/-- `checkFeeTriple`: the priority fee counts for a dynamic-fee transaction only. -/
def checkFeeTriple (gasLimit : Nat) (fees : FeeShape) (caps : FeeCaps) : Option Refusal :=
  if caps.total < gasLimit * fees.perGas then some .feeScopeExceeded
  else if caps.perGas < fees.perGas then some .feeScopeExceeded
  else match fees with
    | .legacy _ => none
    | .dynamicFee _ priority => if caps.priority < priority then some .feeScopeExceeded else none

/-- The conditional reuse of the anchor's own grant. A fresh grant skips it. -/
def feeRefusal (scopes : AuthorizationID → Option GrantScope) (a : Content)
    (anchorAuthorization : Option AuthorizationID) : Option Refusal :=
  if a.replacementOf.isSome ∧ anchorAuthorization = some a.authorization then
    match scopes a.authorization with
    | none => some .authorizationUnverifiable
    | some scope =>
      if scope.allowsFeeReplacement = false then some .scopeReuseForbidden
      else checkFeeTriple a.gasLimit a.fees scope.caps
  else none

/-- One gate of `runGates` at the clock. -/
def Gate.refusal (s : GateInputs) (now : Int) (t : GateTables) : Gate → Option Refusal
  | .claim => claimRefusal t.claims s.request now
  | .protection => protectionRefusal t s.content
  | .binding => bindingRefusal t.bindings t.registry t.holds s.content
  | .grant => grantRefusal t.grants t.scopes s.content now
  | .fees => feeRefusal t.scopes s.content s.anchorAuthorization

/-! ### Writers of the gate tables -/

inductive Write where
  | claim (intent : IntentID) (row : Option Claim)
  | lease (chain : ChainID) (row : Bool)
  | clearPause (chain : ChainID) (kind : PauseKind)
  | recovery (chain : ChainID) (active : Option Nat) (events : List Nat)
  | binding (id : BindingID) (row : Option Binding)
  | registry (chain : ChainID) (sender : Address) (row : Option RegistryState)
  | holds (chain : ChainID) (sender : Address) (causes : List HoldCause)
  | grant (id : AuthorizationID) (row : Option Grant)
  | supplyScope (id : AuthorizationID) (row : GrantScope)
  | bumpScope (id : AuthorizationID)

/-- A supply inserts the scope of a new grant; afterwards only its version moves. -/
def Write.apply (t : GateTables) : Write → GateTables
  | .claim intent row => { t with claims := Function.update t.claims intent row }
  | .lease chain row => { t with leases := Function.update t.leases chain row }
  | .clearPause chain kind =>
    { t with pauses := Function.update t.pauses chain ((t.pauses chain).filter fun p => p.kind != kind) }
  | .recovery chain active events =>
    { t with recovery := Function.update t.recovery chain active
             recoveryEvents := Function.update t.recoveryEvents chain events }
  | .binding id row => { t with bindings := Function.update t.bindings id row }
  | .registry chain sender row =>
    { t with registry := Function.update t.registry chain (Function.update (t.registry chain) sender row) }
  | .holds chain sender causes =>
    { t with holds := Function.update t.holds chain (Function.update (t.holds chain) sender causes) }
  | .grant id row => { t with grants := Function.update t.grants id row }
  | .supplyScope id row => { t with scopes := Function.update t.scopes id (some ((t.scopes id).getD row)) }
  | .bumpScope id =>
    { t with scopes := Function.update t.scopes id ((t.scopes id).map fun scope =>
        { scope with authorizationVersion := scope.authorizationVersion + 1 }) }

/-- A writer waits for the region that passed the gate: the claim, grant and scope rows are locked
`FOR SHARE`, the coordination row `FOR UPDATE`, the pause and recovery tables in `SHARE` mode, and the
writers of a nonce scope wait for its row. -/
def Write.waitsFor (s : GateInputs) : Write → Gate → Bool
  | .claim intent _, .claim => intent == s.request.claimIntent
  | .lease chain _, .protection => chain == s.content.chain
  | .clearPause _ _, .protection | .recovery _ _ _, .protection => true
  | .binding id _, .binding => id == s.content.binding
  | .registry chain sender _, .binding | .holds chain sender _, .binding =>
    chain == s.content.chain && sender == s.content.sender
  | .grant id _, .grant => id == s.content.authorization
  | .supplyScope id _, .grant | .bumpScope id, .grant | .supplyScope id _, .fees | .bumpScope id, .fees =>
    id == s.content.authorization
  | _, _ => false

/-- The insert of a pause row by a transaction that began at `startedAt`. -/
def GateTables.insertPause (t : GateTables) (chain : ChainID) (kind : PauseKind) (startedAt : Int) : GateTables :=
  { t with pauses := Function.update t.pauses chain (t.pauses chain ++ [⟨kind, startedAt⟩]) }

/-! ### What a passed gate says -/

section Passed

variable {s : GateInputs} {now : Int} {t : GateTables} {a : Content}

theorem claimRefusal_eq_none {claims : IntentID → Option Claim} {req : SendRequest} :
    claimRefusal claims req now = none ↔ ∃ c, claims req.claimIntent = some c ∧ c.state = .active ∧
      now < c.expiresAt ∧ c.owner = req.holder.owner ∧ c.leaseVersion = req.holder.leaseVersion := by
  unfold claimRefusal
  cases claims req.claimIntent with
  | none => simp
  | some c =>
    simp only [ne_eq, ite_not, some.injEq, exists_eq_left']
    split_ifs with hactive hexpired howner hversion <;> simp_all

theorem pauseCauses_eq_nil {pauses : List Pause} : pauseCauses pauses = [] ↔ pauses = [] := by
  constructor
  · intro h
    cases pauses with
    | nil => rfl
    | cons p rest =>
      have hmem : p.kind ∈ pauseCauses (p :: rest) := by
        refine List.mem_filter.mpr ⟨?_, by simp⟩
        cases p.kind <;> decide
      rw [h] at hmem
      cases hmem
  · rintro rfl
    rfl

theorem protectionRefusal_eq_none : protectionRefusal t a = none ↔ t.leases a.chain = true ∧ t.pauses a.chain = [] ∧
    t.recovery a.chain = none ∧ t.recoveryVersion a.chain = a.recoveryVersion := by
  unfold protectionRefusal
  rw [← pauseCauses_eq_nil]
  cases t.recovery a.chain with
  | none => split_ifs <;> simp_all
  | some seq => split_ifs <;> simp_all

theorem bindingRefusal_eq_none : bindingRefusal t.bindings t.registry t.holds a = none ↔
    ∃ b, t.bindings a.binding = some b ∧ b.intent = a.intent ∧ b.chain = a.chain ∧ b.sender = a.sender ∧
      b.nonce = a.nonce ∧ (b.state = .allocated ∨ b.state = .inFlight) ∧
      t.registry a.chain a.sender = some .active ∧ t.holds a.chain a.sender = [] := by
  unfold bindingRefusal
  cases t.bindings a.binding with
  | none => simp
  | some b =>
    simp only [some.injEq, exists_eq_left']
    constructor
    · intro h
      cases hregistry : t.registry b.chain b.sender with
      | none => simp [hregistry] at h
      | some state =>
        simp only [hregistry] at h
        split_ifs at h with hconflict hterminal hpaused hheld
        simp only [not_or, not_not, ne_eq] at hconflict hpaused hheld
        obtain ⟨hintent, hchain, hsender, hnonce⟩ := hconflict
        refine ⟨hintent, hchain, hsender, hnonce, by tauto, ?_, hheld⟩
        rw [← hchain, ← hsender, hregistry, hpaused]
    · rintro ⟨hintent, hchain, hsender, hnonce, hstate, hregistry, hholds⟩
      rw [hchain, hsender, hregistry]
      simp only [hintent, hnonce, hholds]
      rcases hstate with hstate | hstate <;> simp [hstate]

theorem grantRefusal_eq_none : grantRefusal t.grants t.scopes a now = none ↔
    (∃ g, t.grants a.authorization = some g ∧ g.state = .active ∧ g.unexpired now = true ∧ g.chain = a.chain ∧
      g.asset = a.asset ∧ g.recipient = a.recipient ∧ g.amount = a.amount) ∧
    ∃ scope, t.scopes a.authorization = some scope ∧ scope.intent = a.intent ∧ scope.sender = a.sender ∧
      scope.authorizationVersion = a.authorizationVersion := by
  unfold grantRefusal
  cases t.grants a.authorization with
  | none => simp
  | some g =>
    cases hstate : g.state with
    | revoked | expired => simp [hstate]
    | active =>
      cases t.scopes a.authorization with
      | none => simp only [hstate, some.injEq, exists_eq_left']; split_ifs <;> simp
      | some scope =>
        simp only [hstate, some.injEq, exists_eq_left']
        split_ifs <;> simp_all <;> tauto

theorem checkFeeTriple_eq_none {gasLimit : Nat} {fees : FeeShape} {caps : FeeCaps} :
    checkFeeTriple gasLimit fees caps = none ↔ caps.Covers gasLimit fees := by
  unfold checkFeeTriple
  cases fees with
  | legacy price =>
    constructor
    · intro h
      split_ifs at h
      exact ⟨by omega, by omega, Nat.zero_le _⟩
    · rintro ⟨htotal, hperGas, -⟩
      rw [if_neg (by omega), if_neg (by omega)]
  | dynamicFee maxFee tip =>
    constructor
    · intro h
      simp only at h
      split_ifs at h
      exact ⟨by omega, by omega, by simp only [FeeShape.priority]; omega⟩
    · rintro ⟨htotal, hperGas, hpriority⟩
      simp only [FeeShape.priority] at hpriority
      rw [if_neg (by omega), if_neg (by omega)]
      exact if_neg (by omega)

theorem feeRefusal_eq_none {anchor : Option AuthorizationID} : feeRefusal t.scopes a anchor = none ↔
    (a.replacementOf.isSome = true → anchor = some a.authorization → ∃ scope, t.scopes a.authorization = some scope ∧
      scope.allowsFeeReplacement = true ∧ scope.caps.Covers a.gasLimit a.fees) := by
  unfold feeRefusal
  by_cases hreuse : a.replacementOf.isSome = true ∧ anchor = some a.authorization
  · rw [if_pos hreuse]
    cases t.scopes a.authorization with
    | none => simp [hreuse]
    | some scope =>
      simp only [hreuse, some.injEq, exists_eq_left', forall_const]
      rw [← checkFeeTriple_eq_none]
      split_ifs with hforbidden <;> simp_all
  · rw [if_neg hreuse]
    simp only [true_iff]
    exact fun hreplacement hown => absurd ⟨hreplacement, hown⟩ hreuse

/-- The part of the gate tables a passed gate rests on. -/
def Gate.SameRows (s : GateInputs) (t t' : GateTables) : Gate → Prop
  | .claim => t'.claims s.request.claimIntent = t.claims s.request.claimIntent
  | .protection => t'.leases s.content.chain = t.leases s.content.chain ∧
    t'.pauses s.content.chain = t.pauses s.content.chain ∧ t'.recovery s.content.chain = t.recovery s.content.chain ∧
    t'.recoveryEvents s.content.chain = t.recoveryEvents s.content.chain
  | .binding => t'.bindings s.content.binding = t.bindings s.content.binding ∧
    t'.registry s.content.chain s.content.sender = t.registry s.content.chain s.content.sender ∧
    t'.holds s.content.chain s.content.sender = t.holds s.content.chain s.content.sender
  | .grant => t'.grants s.content.authorization = t.grants s.content.authorization ∧
    t'.scopes s.content.authorization = t.scopes s.content.authorization
  | .fees => t'.scopes s.content.authorization = t.scopes s.content.authorization

theorem Gate.SameRows.refl (s : GateInputs) (t : GateTables) (g : Gate) : g.SameRows s t t := by
  cases g <;> simp [Gate.SameRows]

theorem Gate.SameRows.passed {g : Gate} {t' : GateTables} (h : g.SameRows s t t') (hpassed : g.refusal s now t = none) :
    g.refusal s now t' = none := by
  cases g with
  | claim =>
    rw [refusal, claimRefusal_eq_none] at hpassed ⊢
    rwa [h]
  | protection =>
    obtain ⟨hleases, hpauses, hrecovery, hevents⟩ := h
    rw [refusal, protectionRefusal_eq_none] at hpassed ⊢
    rwa [hleases, hpauses, hrecovery, GateTables.recoveryVersion, hevents]
  | binding =>
    obtain ⟨hbindings, hregistry, hholds⟩ := h
    rw [refusal, bindingRefusal_eq_none] at hpassed ⊢
    rwa [hbindings, hregistry, hholds]
  | grant =>
    obtain ⟨hgrants, hscopes⟩ := h
    rw [refusal, grantRefusal_eq_none] at hpassed ⊢
    rwa [hgrants, hscopes]
  | fees =>
    rw [refusal, feeRefusal_eq_none] at hpassed ⊢
    rwa [h]

theorem update_update_of_ne {A B C : Type} [DecidableEq A] [DecidableEq B] (f : A → B → C) {a a' : A} {b b' : B} (c : C)
    (h : (a == a' && b == b') = false) : Function.update f a (Function.update (f a) b c) a' b' = f a' b' := by
  by_cases ha : a' = a
  · subst ha
    have hb : b' ≠ b := by rintro rfl; simp at h
    rw [update_self, update_of_ne hb]
  · rw [update_of_ne ha]

/-- A write that does not wait for a gate leaves its rows alone. -/
theorem Write.sameRows {x : Write} {g : Gate} (h : x.waitsFor s g = false) : g.SameRows s t (x.apply t) := by
  have hne : ∀ {m n : Nat}, (m == n) = false → n ≠ m := fun hmn => Ne.symm (beq_eq_false_iff_ne.mp hmn)
  cases x <;> cases g <;> first
      | exact rfl
      | exact ⟨rfl, rfl⟩
      | exact ⟨rfl, rfl, rfl⟩
      | exact ⟨rfl, rfl, rfl, rfl⟩
      | exact update_of_ne (hne h) _ _
      | exact ⟨update_of_ne (hne h) _ _, rfl⟩
      | exact ⟨rfl, update_of_ne (hne h) _ _⟩
      | exact ⟨update_of_ne (hne h) _ _, rfl, rfl⟩
      | exact ⟨update_of_ne (hne h) _ _, rfl, rfl, rfl⟩
      | exact ⟨rfl, update_update_of_ne _ _ h, rfl⟩
      | exact ⟨rfl, rfl, update_update_of_ne _ _ h⟩
      | cases h

/-- A pause only concerns the gate whose tables it waits for. -/
theorem GateTables.insertPause_sameRows {g : Gate} (h : g ≠ .protection) (chain : ChainID) (kind : PauseKind)
    (startedAt : Int) : g.SameRows s t (t.insertPause chain kind startedAt) := by
  cases g with
  | protection => exact absurd rfl h
  | claim | fees => exact rfl
  | binding => exact ⟨rfl, rfl, rfl⟩
  | grant => exact ⟨rfl, rfl⟩

end Passed

end TxHarbor.Lifecycle
