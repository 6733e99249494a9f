import TxHarbor.Withdrawal.Acceptance

/-!
# Withdrawal intake

`SubmitWithdrawal` over the ledger of grants and requests. A call reads by its key, then the allowlist, then runs its
receipt transaction; a violated unique index and an uncertain commit both end in `classifyFixedOrder`, which reads by key
and then by authorization, each read on its own.
-/

namespace TxHarbor.Withdrawal

/-- A submission. `row` is what it would insert: the caller, the key, the normalized parameters and the minted id. A
malformed one is refused before its parameters are used. -/
structure SubmitCall where
  authenticated : Bool
  canCreate : Bool
  malformed : Bool
  row : Request
  deriving DecidableEq

/-- The facts that a 200 or a 201 tells. -/
structure Receipt where
  requestID : String
  asset : String
  recipient : String
  amount : String
  deriving DecidableEq

def Request.receipt (r : Request) : Receipt := ⟨r.requestID, r.asset, r.recipient, r.amount⟩

def Request.matches (r p : Request) : Bool :=
  r.authorizationID == p.authorizationID && r.chainID == p.chainID && r.asset == p.asset && r.recipient == p.recipient &&
    r.amount == p.amount

def Request.sameKey (p r : Request) : Bool := r.callerID == p.callerID && r.idempotencyKey == p.idempotencyKey

/-- The answers 201, 200, 409, 403, 422, 503 and 401. -/
inductive Answer
  | created (receipt : Receipt)
  | replayed (receipt : Receipt)
  | conflict (requestID : String)
  | forbidden
  | invalid
  | unavailable
  | unauthenticated
  deriving DecidableEq

/-- Where a call stands. `running` has its transaction, `classifying` and `unbound` are before the two reads of
`classifyFixedOrder`. -/
inductive Phase
  | started
  | admitted
  | missed
  | listed
  | running (i : Nat)
  | classifying
  | unbound
  | answered (answer : Answer)
  deriving DecidableEq

/-- The call has passed authentication, permission and the checks of its input. -/
def Phase.passed : Phase → Bool
  | .started | .answered _ => false
  | _ => true

/-- The call has read that no request has its key, and has not answered. -/
def Phase.missedKey : Phase → Bool
  | .missed | .listed | .running _ | .unbound => true
  | _ => false

/-- The call has read that its asset is listed, and has not answered. -/
def Phase.readList : Phase → Bool
  | .listed | .running _ | .classifying | .unbound => true
  | _ => false

structure Call where
  call : SubmitCall
  phase : Phase
  deriving DecidableEq

inductive Move
  | screen
  | readKey
  | checkAllowlist
  | beginTx
  | lockGrant
  | checkGrant
  | insert
  | commit
  /-- The acknowledgement is lost; the commit has taken effect or may still. -/
  | loseCommit (effective : Bool)
  | rereadKey
  | readBound
  /-- A storage failure, the capacity gate or an unreadable allowlist. -/
  | fail
  deriving DecidableEq

inductive IntakeAction
  | environment (act : Action)
  | setAllowlist (assets : List String)
  | begin (call : SubmitCall)
  | call (k : Nat) (move : Move)
  deriving DecidableEq

structure IntakeWorld where
  ledger : Ledger
  allowlist : List String
  calls : List Call

def Ledger.readRequestByKey (l : Ledger) (p : Request) : Option Request := l.requests.find? p.sameKey

def Ledger.requestBoundToAuthorization (l : Ledger) (p : Request) : Bool :=
  l.requests.any (·.authorizationID == p.authorizationID)

def Ledger.grantValid (l : Ledger) (p : Request) : Bool :=
  (l.grants p.authorizationID).any fun g => g.validFor p l.clock

/-- The request that a commit of the transaction makes visible. -/
def Ledger.accepting (l : Ledger) (i : Nat) : Option Request :=
  match l.sessions[i]? with
  | some ⟨.accept row, .inserted _⟩ => some row
  | _ => none

def Ledger.hasEnded (l : Ledger) (i : Nat) : Bool := l.sessions[i]?.any (·.stage == .ended)

/-- What a found row answers. -/
def foundAnswer (row p : Request) : Answer :=
  if row.matches p then .replayed row.receipt else .conflict row.requestID

namespace IntakeWorld

def initial (clock : Int) : IntakeWorld := ⟨.initial clock, [], []⟩

/-- The answer of a sequential intake: an accepted request is replayed whatever holds now, and a first one is decided by
the allowlist and the grant. -/
def sequential (w : IntakeWorld) (call : SubmitCall) : Answer :=
  match w.ledger.readRequestByKey call.row with
  | some row => if call.malformed then .conflict row.requestID else foundAnswer row call.row
  | none =>
    if !call.canCreate then .forbidden
    else if call.malformed || !w.allowlist.contains call.row.asset then .invalid
    else if w.ledger.grantValid call.row && !w.ledger.requestBoundToAuthorization call.row then
      .created call.row.receipt
    else .forbidden

/-- A statement of the receipt transaction in the stage it belongs to. An ended transaction is where the call leaves it. -/
def statement (w : IntakeWorld) (i : Nat) (stage : Stage → Bool) (act : Action) (left : Phase) :
    Option (Ledger × Phase) :=
  if w.ledger.sessions[i]?.any (fun s => stage s.stage) then
    some (w.ledger.next act, if (w.ledger.next act).hasEnded i then left else .running i)
  else none

def isBegun : Stage → Bool
  | .begun => true
  | _ => false

def isSharing : Stage → Bool
  | .sharing => true
  | _ => false

def isChecked : Stage → Bool
  | .checked _ => true
  | _ => false

def isInserted : Stage → Bool
  | .inserted _ => true
  | _ => false

/-- One step of a call: the ledger after it and where the call then stands. -/
def move (w : IntakeWorld) (c : Call) : Move → Option (Ledger × Phase)
  | .screen =>
    match c.phase with
    | .started =>
      some (w.ledger,
        if !c.call.authenticated then .answered .unauthenticated
        else if !c.call.canCreate then .answered .forbidden
        else if c.call.malformed then .answered .invalid
        else .admitted)
    | _ => none
  | .readKey =>
    match c.phase with
    | .admitted =>
      match w.ledger.readRequestByKey c.call.row with
      | some row => some (w.ledger, .answered (foundAnswer row c.call.row))
      | none => some (w.ledger, .missed)
    | _ => none
  | .checkAllowlist =>
    match c.phase with
    | .missed => some (w.ledger, if w.allowlist.contains c.call.row.asset then .listed else .answered .invalid)
    | _ => none
  | .beginTx =>
    match c.phase with
    | .listed => some (w.ledger.next (.start (.accept c.call.row)), .running w.ledger.sessions.length)
    | _ => none
  | .lockGrant =>
    match c.phase with
    | .running i => w.statement i isBegun (.lock i) (.answered .forbidden)
    | _ => none
  | .checkGrant =>
    match c.phase with
    | .running i => w.statement i isSharing (.clock i) (.answered .forbidden)
    | _ => none
  | .insert =>
    match c.phase with
    | .running i => w.statement i isChecked (.insert i) .classifying
    | _ => none
  | .commit =>
    match c.phase with
    | .running i => w.statement i isInserted (.commit i) (.answered (.created c.call.row.receipt))
    | _ => none
  | .loseCommit effective =>
    match c.phase with
    | .running i =>
      if w.ledger.sessions[i]?.any (fun s => isInserted s.stage) then
        some (if effective then w.ledger.next (.commit i) else w.ledger, .classifying)
      else none
    | _ => none
  | .rereadKey =>
    match c.phase with
    | .classifying =>
      match w.ledger.readRequestByKey c.call.row with
      | some row => some (w.ledger, .answered (foundAnswer row c.call.row))
      | none => some (w.ledger, .unbound)
    | _ => none
  | .readBound =>
    match c.phase with
    | .unbound =>
      some (w.ledger,
        if w.ledger.requestBoundToAuthorization c.call.row then .answered .forbidden else .answered .unavailable)
    | _ => none
  | .fail =>
    match c.phase with
    | .answered _ => none
    | .running i => some (w.ledger.next (.abort i), .answered .unavailable)
    | _ => some (w.ledger, .answered .unavailable)

/-- The statements of a receipt transaction are its call's. Once the call has left it, it is committed or rolled back
behind the call's back. -/
def permits (w : IntakeWorld) : Action → Bool
  | .tick _ => true
  | .start (.accept _) => false
  | .start _ => true
  | .lock i | .decide i | .clock i | .insert i =>
    w.ledger.sessions[i]?.all fun s => match s.job with
      | .accept _ => false
      | _ => true
  | .commit i | .abort i => !w.calls.any (·.phase == .running i)

def next (w : IntakeWorld) : IntakeAction → IntakeWorld
  | .environment act => if w.permits act then { w with ledger := w.ledger.next act } else w
  | .setAllowlist assets => { w with allowlist := assets }
  | .begin call => { w with calls := w.calls ++ [⟨call, .started⟩] }
  | .call k m =>
    match w.calls[k]? with
    | none => w
    | some c =>
      match w.move c m with
      | none => w
      | some (ledger, phase) => { w with ledger := ledger, calls := w.calls.set k { c with phase := phase } }

/-- The answer that an action gives, with its call. -/
def answer (w : IntakeWorld) : IntakeAction → Option (SubmitCall × Answer)
  | .call k m =>
    match w.calls[k]? with
    | none => none
    | some c =>
      match w.move c m with
      | some (_, .answered a) => some (c.call, a)
      | _ => none
  | _ => none

/-- The request whose commit takes effect in the step. -/
def lands (w : IntakeWorld) : IntakeAction → Option Request
  | .environment (.commit i) => w.ledger.accepting i
  | .call k .commit | .call k (.loseCommit true) => w.calls[k]?.bind fun c =>
    match c.phase with
    | .running i => w.ledger.accepting i
    | _ => none
  | _ => none

/-- The calls other than the one that steps. -/
def others (w : IntakeWorld) : IntakeAction → List Call
  | .call k _ => w.calls.eraseIdx k
  | _ => w.calls

/-- No asset is delisted while a call that has read the list goes on; a call without permission or with malformed input
uses a fresh key; a COMMIT is sent before the grant expires. -/
def undisturbed (w : IntakeWorld) : IntakeAction → Bool
  | .setAllowlist assets => w.calls.all fun c => !c.phase.readList || assets.contains c.call.row.asset
  | .call k .screen => w.calls[k]?.all fun c =>
    c.call.canCreate && !c.call.malformed || (w.ledger.readRequestByKey c.call.row).isNone
  | .call k .commit => w.calls[k]?.all fun c => (w.ledger.grants c.call.row.authorizationID).all fun g =>
    g.terms.expiresAt.all fun expires => decide (w.ledger.clock < expires)
  | _ => true

/-- The schedule also lets no request land between another call's read by the same key and its answer. -/
def steady (w : IntakeWorld) (act : IntakeAction) : Bool :=
  w.undisturbed act && (w.lands act).all fun row =>
    (w.others act).all fun c => !(c.phase.missedKey && c.call.row.sameKey row)

/-- An answer is the sequential one in the state that it is given in, a 201 adds its request there and the others add
nothing; requests stay, and so do answers. -/
structure Sequential (w : IntakeWorld) (act : IntakeAction) : Prop where
  answer : ∀ call a, w.answer act = some (call, a) → a ≠ .unauthenticated → a ≠ .unavailable → a = w.sequential call
  added : ∀ call receipt, w.answer act = some (call, .created receipt) →
    (w.next act).ledger.requests = call.row :: w.ledger.requests
  unchanged : ∀ call a, w.answer act = some (call, a) → (∀ receipt, a ≠ .created receipt) →
    (w.next act).ledger.requests = w.ledger.requests
  kept : ∀ r ∈ w.ledger.requests, r ∈ (w.next act).ledger.requests
  final : ∀ (k : Nat) (c : Call) a, w.calls[k]? = some c → c.phase = .answered a → (w.next act).calls[k]? = some c

end IntakeWorld

end TxHarbor.Withdrawal
