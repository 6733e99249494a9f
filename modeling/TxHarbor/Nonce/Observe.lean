import TxHarbor.Nonce.Scope

open Relational Tx

namespace TxHarbor.Nonce

/-- `eth.Kind`: the class of a failed RPC. -/
inductive Kind where
  | transport
  | timeout
  | chainMismatch
  | invalidResponse
  | notFound
  | rateLimited
  | incomplete
  | alreadyKnown
  | nonceTooLow
  | replacementUnderpriced
  | insufficientFunds
  | intrinsicGasTooLow
  | hashMismatch
  | budgetPaused
  deriving DecidableEq

def errorClassOf : Kind → String
  | .transport => "transport"
  | .timeout => "timeout"
  | .rateLimited => "rate_limited"
  | .invalidResponse => "invalid_response"
  | .chainMismatch => "chain_mismatch"
  | _ => "rpc_unavailable"

structure RpcHead where
  number : Option String
  hash : String
  deriving DecidableEq

/-- What the node answers to the three reads of one observation, each after the bounded
retries of `Observer.call`. -/
structure ChainView where
  latest : Except Kind String
  pending : Except Kind String
  head : Except Kind (Option RpcHead)

/-- A lowercase `0x` text with `n` hexadecimal digits. -/
def hexPattern (n : Nat) (s : String) : Bool :=
  match s.toList with
  | '0' :: 'x' :: digits =>
    digits.length == n && digits.all fun c => ('0' ≤ c && c ≤ '9') || ('a' ≤ c && c ≤ 'f')
  | _ => false

def obsSenderPattern : String → Bool := hexPattern 40

def obsHashPattern : String → Bool := hexPattern 64

/-- `%q` for text without characters to escape. -/
def quoted (s : String) : String := "\"" ++ s ++ "\""

def transactionCount (answer : Except Kind String) : Except Kind Int := do
  let raw ← answer
  match parseHexQuantity raw with
  | some n => .ok n
  | none => .error .invalidResponse

def latestHead (answer : Except Kind (Option RpcHead)) : Except Kind (Int × String) := do
  match ← answer with
  | none => .error .notFound
  | some head =>
    match head.number.bind parseHexQuantity with
    | some n => if obsHashPattern head.hash then .ok (n, head.hash) else .error .invalidResponse
    | none => .error .invalidResponse

/-- The observation before any read. -/
def Observation.start (scope : Scope) (kind : ObservationKind) : Observation :=
  { toScope := scope, observationID := "", kind := kind, classification := none,
    latestCount := none, pendingCount := none, headNumber := none, headHash := "",
    errorClass := "", rpcRef := "" }

def Observation.failed (obs : Observation) (kind : Kind) : Observation :=
  { obs with classification := some .unavailable, errorClass := errorClassOf kind }

/-- `Observer.Observe`: a partial result is never a value. -/
def observe (scope : Scope) (kind : ObservationKind) (view : ChainView) : Observation :=
  let obs := Observation.start scope kind
  match transactionCount view.latest with
  | .error k => obs.failed k
  | .ok latest =>
    match transactionCount view.pending with
    | .error k => obs.failed k
    | .ok pending =>
      match latestHead view.head with
      | .error k => obs.failed k
      | .ok (number, hash) =>
        { obs with latestCount := some latest, pendingCount := some pending,
                   headNumber := some number, headHash := hash }

/-- A view whose counts are facts: neither a failed read nor a contradictory one. -/
def Observation.trusted (obs : Observation) : Bool :=
  obs.classification != some .unavailable && obs.classification != some .divergence

private def validateCount (name : String) : Option Int → Except String Unit
  | none => .ok ()
  | some n =>
    match validateNonceRange (some n) with
    | .ok () => .ok ()
    | .error e => .error ("observation " ++ name ++ ": " ++ e)

def validateObservation (obs : Observation) : Except String Unit := do
  if obs.chainID ≤ 0 then
    .error ("observation chain id " ++ toString obs.chainID ++ " is not positive")
  else if obsSenderPattern obs.sender = false then
    .error ("observation sender " ++ quoted obs.sender ++ " is not a lowercase 0x address")
  else if obs.classification = none then
    .error ("observation classification " ++ quoted "" ++ " is not persistable")
  else do
    validateCount "latest_count" obs.latestCount
    validateCount "pending_count" obs.pendingCount
    validateCount "head_number" obs.headNumber
    if obs.headHash ≠ "" ∧ obsHashPattern obs.headHash = false then
      .error ("observation head hash " ++ quoted obs.headHash ++ " is not 0x + 64 hex")
    else .ok ()

/-- The random part of each identity one transaction may mint; a missing part is a failure of
the random source. -/
structure Mint where
  observation : Option String
  binding : Option String
  hold : Option String
  deriving DecidableEq

/-- `insertObservationTx`: one evidence row, under a minted id when the row has none. -/
def insertObservationTx (mint : Mint) (obs : Observation) : NonceTx String := do
  lift TxError.message (validateObservation obs)
  let id ← demand (.message "mint observation id")
    (if obs.observationID = "" then mint.observation.map fun hex => "no-" ++ hex
     else some obs.observationID)
  let s ← get
  let observations ← demand (.violation .observationsPkey) (s.observations.insert? { obs with observationID := id })
  set { s with observations := observations }
  pure id

@[simp] theorem observe_toScope (scope : Scope) (kind : ObservationKind) (view : ChainView) :
    (observe scope kind view).toScope = scope := by
  unfold observe
  cases transactionCount view.latest with
  | error k => rfl
  | ok latest =>
    cases transactionCount view.pending with
    | error k => rfl
    | ok pending =>
      cases latestHead view.head with
      | error k => rfl
      | ok head => rfl

variable {u : Unit} {obs : Observation}

private theorem validateCount_eq_ok {name : String} {n : Option Int} (h : validateCount name n = .ok u) :
    ∀ k, n = some k → 0 ≤ k ∧ k ≤ maxNonceBig := by
  intro k hk
  subst hk
  unfold validateCount at h
  cases hrange : validateNonceRange (some k) with
  | error e => simp [hrange] at h
  | ok u => exact validateNonceRange_eq_ok.mp hrange

/-- What a persisted observation satisfies: it is classified and its counts are nonces. -/
theorem validateObservation_eq_ok (h : validateObservation obs = .ok u) :
    (∃ c, obs.classification = some c) ∧ ∀ n, obs.pendingCount = some n → 0 ≤ n ∧ n ≤ maxNonceBig := by
  unfold validateObservation at h
  iterate 3 (split at h; · cases h)
  rename_i hclass
  refine ⟨Option.ne_none_iff_exists'.mp hclass, ?_⟩
  simp only [except_eq_ok] at h
  obtain ⟨_, -, _, hpending, -⟩ := h
  exact validateCount_eq_ok hpending

/-- Recording an observation appends exactly one row, and only to its own table. -/
theorem insertObservationTx_spec {mint : Mint} {s s' : Store} {id : String}
    (h : insertObservationTx mint obs s = .ok (id, s')) :
    validateObservation obs = .ok () ∧ ∃ observations, s' = { s with observations := observations } ∧
        observations.rows = s.observations.rows ++ [{ obs with observationID := id }] := by
  simp only [insertObservationTx, eq_ok, lift_eq_ok] at h
  obtain ⟨_, _, ⟨hvalid, rfl⟩, _, _, ⟨-, rfl⟩, _, _, ⟨rfl, rfl⟩, observations, _,
    ⟨hinsert, rfl⟩, _, _, rfl, rfl, rfl⟩ := h
  exact ⟨hvalid, observations, rfl, (Table.insert?_eq_some hinsert).2⟩

end TxHarbor.Nonce
