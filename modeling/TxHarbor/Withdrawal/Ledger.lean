import TxHarbor.Transition.Run

/-!
# Withdrawal grants and requests

The transactions of `internal/withdrawal` that write grants, their scopes and withdrawal requests, statement by
statement. A supply or a revoke holds the row of its grant FOR UPDATE, the acceptance of a request holds it FOR SHARE, and
an inserted row holds its keys until the transaction ends. Whoever needs a held row waits. A transaction commits or is
rolled back at any time after its last statement, whatever its client has been told.
-/

open Transition

namespace TxHarbor.Withdrawal

inductive GrantState
  | active
  | revoked
  | expired
  deriving DecidableEq

/-- The columns of `withdrawal_authorizations` that an op-input gives. -/
structure GrantTerms where
  callerID : Int
  chainID : Int
  asset : String
  recipient : String
  amount : String
  expiresAt : Option Int
  deriving DecidableEq

structure Grant where
  terms : GrantTerms
  state : GrantState
  deriving DecidableEq

/-- The content of a scope row, without its version. -/
structure ScopeTerms where
  intentID : String
  requestID : String
  sender : String
  feeMaxTotal : Int
  feeMaxPerGas : Int
  feeMaxPriority : Int
  allowsFeeReplacement : Bool
  attestedBy : String
  deriving DecidableEq

structure Scope where
  terms : ScopeTerms
  authorizationVersion : Nat
  deriving DecidableEq

/-- The scope is there iff the op-input is `scoped`. -/
structure OpInput where
  operationID : String
  authorizationID : String
  terms : GrantTerms
  scope : Option ScopeTerms
  deriving DecidableEq

/-- A row of `withdrawal_requests`. -/
structure Request where
  requestID : String
  callerID : Int
  idempotencyKey : String
  authorizationID : String
  chainID : Int
  asset : String
  recipient : String
  amount : String
  deriving DecidableEq

/-- The three unique constraints of the table. -/
def Request.conflicts (r s : Request) : Bool :=
  r.requestID == s.requestID || (r.callerID == s.callerID && r.idempotencyKey == s.idempotencyKey) ||
    r.authorizationID == s.authorizationID

/-- `intakeGrantValid`, at the clock read under the lock. -/
def Grant.validFor (g : Grant) (r : Request) (tCheck : Int) : Bool :=
  g.state == .active && (g.terms.expiresAt.all fun expires => decide (tCheck < expires)) &&
    g.terms.callerID == r.callerID && g.terms.chainID == r.chainID && g.terms.asset == r.asset &&
    g.terms.recipient == r.recipient && g.terms.amount == r.amount

/-- A transaction. `refused` is the outcome of the authority check in `SupplyGrantAuthorized`. -/
inductive Job
  | supply (op : OpInput) (refused : Bool)
  | revoke (op : OpInput)
  | reissue (op : OpInput) (scope : ScopeTerms) (oldAuthorizationID : String) (refused : Bool)
  | accept (row : Request)
  deriving DecidableEq

def Job.authorizationID : Job → String
  | .supply op _ => op.authorizationID
  | .revoke op => op.authorizationID
  | .reissue op _ _ _ => op.authorizationID
  | .accept row => row.authorizationID

def Job.operationID : Job → String
  | .supply op _ => op.operationID
  | .revoke op => op.operationID
  | .reissue op _ _ _ => op.operationID
  | .accept row => row.requestID

/-- What a grant transaction is going to write besides its audit row. -/
inductive Writes
  | audit
  | create (terms : GrantTerms) (scope : Option ScopeTerms)
  | bump
  | revoke
  deriving DecidableEq

inductive Stage
  | begun
  /-- No grant row was found, so none is locked. -/
  | missing
  /-- The grant row is locked FOR UPDATE. -/
  | held
  | written (writes : Writes)
  /-- The grant row is locked FOR SHARE. -/
  | sharing
  | checked (tCheck : Int)
  | inserted (tCheck : Int)
  | ended
  deriving DecidableEq

/-- The row of the grant, or its key, is locked against everyone else. -/
def Stage.exclusive : Stage → Bool
  | .held | .written (.create ..) | .written .bump | .written .revoke => true
  | _ => false

def Stage.shared : Stage → Bool
  | .sharing | .checked _ | .inserted _ => true
  | _ => false

structure Session where
  job : Job
  stage : Stage
  deriving DecidableEq

def Session.excludes (s : Session) (a : String) : Bool := s.job.authorizationID == a && s.stage.exclusive

def Session.shares (s : Session) (a : String) : Bool := s.job.authorizationID == a && s.stage.shared

/-- The transaction has inserted a request that the given one cannot stand beside. -/
def Session.claims (s : Session) (r : Request) : Bool :=
  match s.job, s.stage with
  | .accept row, .inserted _ => row.conflicts r
  | _, _ => false

/-- What a committed transaction did, as far as the order of commits is asked for. -/
inductive Commit
  | revoked (authorizationID : String)
  | accepted (row : Request) (tCheck : Int)
  deriving DecidableEq

/-- The tables and the open transactions. `commits` has the latest first, and `reads` are the clock values read under a
share lock. -/
structure Ledger where
  clock : Int
  grants : String → Option Grant
  scopes : String → Option Scope
  attempts : List String
  requests : List Request
  created : List String
  received : List String
  sessions : List Session
  commits : List Commit
  reads : List (String × Int)

inductive Action
  | tick (elapsed : Nat)
  | start (job : Job)
  | lock (i : Nat)
  | decide (i : Nat)
  | clock (i : Nat)
  | insert (i : Nat)
  | commit (i : Nat)
  | abort (i : Nat)
  deriving DecidableEq

namespace Ledger

def initial (clock : Int) : Ledger := ⟨clock, fun _ => none, fun _ => none, [], [], [], [], [], [], []⟩

def others (w : Ledger) (i : Nat) (P : Session → Bool) : Bool := (w.sessions.eraseIdx i).any P

def move (w : Ledger) (i : Nat) (s : Session) (stage : Stage) : Ledger :=
  { w with sessions := w.sessions.set i { s with stage := stage } }

/-- `readGrant`: SELECT FOR UPDATE. -/
def holdGrant (w : Ledger) (i : Nat) (s : Session) : Ledger :=
  let a := s.job.authorizationID
  match w.grants a with
  | none => w.move i s .missing
  | some _ => if w.others i fun t => t.excludes a || t.shares a then w else w.move i s .held

/-- The first read of a transaction, after the authority check. -/
def lockGrant (w : Ledger) (i : Nat) (s : Session) : Ledger :=
  match s.job with
  | .supply _ refused => if refused then w.move i s (.written .audit) else w.holdGrant i s
  | .revoke _ => w.holdGrant i s
  | .reissue _ _ old refused =>
    if refused then w.move i s (.written .audit)
    else if (w.grants old).isSome then w.move i s .missing
    else w.move i s .ended
  | .accept row =>
    match w.grants row.authorizationID with
    | none => w.move i s .ended
    | some _ => if w.others i (·.excludes row.authorizationID) then w else w.move i s .sharing

/-- `runSupplyTx` on the row it holds. -/
def supplyHeld (w : Ledger) (i : Nat) (s : Session) (op : OpInput) (g : Grant) : Ledger :=
  if g.terms = op.terms then
    match op.scope with
    | none => w.move i s (.written .audit)
    | some terms =>
      if (w.scopes op.authorizationID).any fun scope => decide (scope.terms = terms) then
        if g.state = .active then w.move i s (.written .audit) else w.move i s (.written .bump)
      else w.move i s .ended
  else w.move i s (.written .audit)

/-- The INSERT of a grant and its scope. A key that is taken fails it; the recovery of a first supply then only writes an
audit row. -/
def createGrant (w : Ledger) (i : Nat) (s : Session) (terms : GrantTerms) (scope : Option ScopeTerms) (taken : Stage) :
    Ledger :=
  let a := s.job.authorizationID
  if w.others i (·.excludes a) then w
  else if (w.grants a).isSome then w.move i s taken
  else w.move i s (.written (.create terms scope))

def decideGrant (w : Ledger) (i : Nat) (s : Session) : Ledger :=
  match s.stage, w.grants s.job.authorizationID, s.job with
  | .held, some g, .supply op _ => w.supplyHeld i s op g
  | .held, some g, .revoke _ =>
    if g.state = .active then w.move i s (.written .revoke) else w.move i s (.written .audit)
  | .missing, _, .supply op _ => w.createGrant i s op.terms op.scope (.written .audit)
  | .missing, _, .reissue op scope _ _ => w.createGrant i s op.terms (some scope) .ended
  | .missing, _, .revoke _ => w.move i s (.written .audit)
  | _, _, _ => w

/-- `clock_timestamp()` after the lock, and `intakeGrantValid`. -/
def checkGrant (w : Ledger) (i : Nat) (s : Session) (row : Request) : Ledger :=
  if (w.grants row.authorizationID).any fun g => g.validFor row w.clock then
    { w.move i s (.checked w.clock) with reads := (row.authorizationID, w.clock) :: w.reads }
  else w.move i s .ended

/-- The INSERT of the request. -/
def insertRequest (w : Ledger) (i : Nat) (s : Session) (row : Request) (tCheck : Int) : Ledger :=
  if w.others i (·.claims row) then w
  else if w.requests.any (·.conflicts row) then w.move i s .ended
  else w.move i s (.inserted tCheck)

/-- `scopeBumpVersionSQL`. -/
def bumped (w : Ledger) (a : String) : Ledger :=
  { w with
    scopes := fun b =>
      if b = a then (w.scopes b).map fun s => { s with authorizationVersion := s.authorizationVersion + 1 }
      else w.scopes b }

def apply (w : Ledger) (a : String) : Writes → Ledger
  | .audit => w
  | .create terms scope =>
    { w with
      grants := fun b => if b = a then some ⟨terms, .active⟩ else w.grants b
      scopes := fun b => if b = a then scope.map fun s => ⟨s, 1⟩ else w.scopes b }
  | .bump => w.bumped a
  | .revoke =>
    { w.bumped a with
      grants := fun b => if b = a then (w.grants b).map fun g => { g with state := .revoked } else w.grants b
      commits := .revoked a :: w.commits }

/-- The request, its created audit row and its received event. -/
def accepted (w : Ledger) (row : Request) (tCheck : Int) : Ledger :=
  { w with
    requests := row :: w.requests
    created := row.requestID :: w.created
    received := row.requestID :: w.received
    commits := .accepted row tCheck :: w.commits }

def commitSession (w : Ledger) (i : Nat) (s : Session) : Ledger :=
  match s.stage, s.job with
  | .written writes, job =>
    -- The audit row of an operation id is unique.
    if w.attempts.contains job.operationID then w.move i s .ended
    else
      { (w.move i s .ended).apply job.authorizationID writes with attempts := job.operationID :: w.attempts }
  | .inserted tCheck, .accept row => (w.move i s .ended).accepted row tCheck
  | _, _ => w

def next (w : Ledger) : Action → Ledger
  | .tick elapsed => { w with clock := w.clock + elapsed }
  | .start job => { w with sessions := w.sessions ++ [⟨job, .begun⟩] }
  | .lock i =>
    match w.sessions[i]? with
    | some ⟨job, .begun⟩ => w.lockGrant i ⟨job, .begun⟩
    | _ => w
  | .decide i =>
    match w.sessions[i]? with
    | some s => w.decideGrant i s
    | none => w
  | .clock i =>
    match w.sessions[i]? with
    | some ⟨.accept row, .sharing⟩ => w.checkGrant i ⟨.accept row, .sharing⟩ row
    | _ => w
  | .insert i =>
    match w.sessions[i]? with
    | some ⟨.accept row, .checked tCheck⟩ => w.insertRequest i ⟨.accept row, .checked tCheck⟩ row tCheck
    | _ => w
  | .commit i =>
    match w.sessions[i]? with
    | some s => w.commitSession i s
    | none => w
  | .abort i =>
    match w.sessions[i]? with
    | some s => w.move i s .ended
    | none => w

/-- What an action can do. A stage that holds nothing can be entered at any time. -/
inductive Step (w : Ledger) : Ledger → Prop
  | same : Step w w
  | ticked (elapsed : Nat) : Step w { w with clock := w.clock + elapsed }
  | started (job : Job) : Step w { w with sessions := w.sessions ++ [⟨job, .begun⟩] }
  | freed {i : Nat} {s : Session} {stage : Stage} (hi : w.sessions[i]? = some s) (hexclusive : stage.exclusive = false)
      (hshared : stage.shared = false) : Step w (w.move i s stage)
  | held {i : Nat} {s : Session} (hi : w.sessions[i]? = some s) (hpresent : ∃ g, w.grants s.job.authorizationID = some g)
      (halone : w.others i (fun t => t.excludes s.job.authorizationID || t.shares s.job.authorizationID) = false) :
      Step w (w.move i s .held)
  | creating {i : Nat} {s : Session} {terms : GrantTerms} {scope : Option ScopeTerms} (hi : w.sessions[i]? = some s)
      (habsent : w.grants s.job.authorizationID = none)
      (halone : w.others i (·.excludes s.job.authorizationID) = false) :
      Step w (w.move i s (.written (.create terms scope)))
  | bumping {i : Nat} {s : Session} (hi : w.sessions[i]? = some s) (hstage : s.stage = .held) :
      Step w (w.move i s (.written .bump))
  | revoking {i : Nat} {s : Session} {g : Grant} (hi : w.sessions[i]? = some s) (hstage : s.stage = .held)
      (hgrant : w.grants s.job.authorizationID = some g) (hactive : g.state = .active) :
      Step w (w.move i s (.written .revoke))
  | sharing {i : Nat} {s : Session} {row : Request} (hi : w.sessions[i]? = some s) (hjob : s.job = .accept row)
      (hpresent : ∃ g, w.grants s.job.authorizationID = some g)
      (halone : w.others i (·.excludes s.job.authorizationID) = false) : Step w (w.move i s .sharing)
  | checked {i : Nat} {s : Session} {row : Request} {g : Grant} (hi : w.sessions[i]? = some s)
      (hjob : s.job = .accept row) (hstage : s.stage = .sharing) (hgrant : w.grants row.authorizationID = some g)
      (hvalid : g.validFor row w.clock = true) :
      Step w { w.move i s (.checked w.clock) with reads := (row.authorizationID, w.clock) :: w.reads }
  | inserted {i : Nat} {s : Session} {row : Request} {tCheck : Int} (hi : w.sessions[i]? = some s)
      (hjob : s.job = .accept row) (hstage : s.stage = .checked tCheck) (halone : w.others i (·.claims row) = false)
      (hfresh : w.requests.any (·.conflicts row) = false) : Step w (w.move i s (.inserted tCheck))
  | wrote {i : Nat} {s : Session} {writes : Writes} (hi : w.sessions[i]? = some s) (hstage : s.stage = .written writes) :
      Step w { (w.move i s .ended).apply s.job.authorizationID writes with
        attempts := s.job.operationID :: w.attempts }
  | accepted {i : Nat} {s : Session} {row : Request} {tCheck : Int} (hi : w.sessions[i]? = some s)
      (hjob : s.job = .accept row) (hstage : s.stage = .inserted tCheck) :
      Step w ((w.move i s .ended).accepted row tCheck)

section Inversion

variable {w : Ledger} {i : Nat} {s : Session}

section

variable (hi : w.sessions[i]? = some s)
include hi

theorem holdGrant_step : w.Step (w.holdGrant i s) := by
  simp only [holdGrant]
  split
  · exact .freed hi rfl rfl
  next g hgrant =>
    split
    · exact .same
    next halone => exact .held hi ⟨g, hgrant⟩ (Bool.not_eq_true _ ▸ halone)

/-- The first read of a transaction is one of the steps. -/
theorem lockGrant_step : w.Step (w.lockGrant i s) := by
  simp only [lockGrant]
  split
  · split
    · exact .freed hi rfl rfl
    · exact holdGrant_step hi
  · exact holdGrant_step hi
  · split
    · exact .freed hi rfl rfl
    · split <;> exact .freed hi rfl rfl
  next row hjob =>
    split
    · exact .freed hi rfl rfl
    next g hgrant =>
      split
      · exact .same
      next halone =>
        rw [Bool.not_eq_true] at halone
        refine .sharing hi hjob ⟨g, ?_⟩ ?_
        · rwa [hjob]
        · rwa [hjob]

theorem supplyHeld_step (hstage : s.stage = .held) (op : OpInput) (g : Grant) : w.Step (w.supplyHeld i s op g) := by
  unfold supplyHeld
  split
  · split
    · exact .freed hi rfl rfl
    · split
      · split
        · exact .freed hi rfl rfl
        · exact .bumping hi hstage
      · exact .freed hi rfl rfl
  · exact .freed hi rfl rfl

/-- An INSERT of a grant is a step, also when the key is taken. -/
theorem createGrant_step {terms : GrantTerms} {scope : Option ScopeTerms} {taken : Stage}
    (hexclusive : taken.exclusive = false) (hshared : taken.shared = false) :
    w.Step (w.createGrant i s terms scope taken) := by
  simp only [createGrant]
  split
  · exact .same
  next halone =>
    split
    · exact .freed hi hexclusive hshared
    next habsent =>
      rw [Bool.not_eq_true, Option.isSome_eq_false_iff, Option.isNone_iff_eq_none] at habsent
      exact .creating hi habsent (Bool.not_eq_true _ ▸ halone)

theorem decideGrant_step : w.Step (w.decideGrant i s) := by
  simp only [decideGrant]
  split
  next hstage _ _ => exact supplyHeld_step hi hstage _ _
  next g op hstage hgrant hjob =>
    split
    next hactive => exact .revoking hi hstage hgrant hactive
    · exact .freed hi rfl rfl
  · exact createGrant_step hi rfl rfl
  · exact createGrant_step hi rfl rfl
  · exact .freed hi rfl rfl
  · exact .same

theorem commitSession_step : w.Step (w.commitSession i s) := by
  simp only [commitSession]
  split
  next writes hstage =>
    split
    · exact .freed hi rfl rfl
    · exact .wrote hi hstage
  next tCheck row hstage hjob => exact .accepted hi hjob hstage
  · exact .same

end

end Inversion

/-- Every action is one of the steps, or changes nothing. -/
theorem next_step (w : Ledger) (act : Action) : w.Step (w.next act) := by
  cases act <;> simp only [next]
  case tick elapsed => exact .ticked elapsed
  case start job => exact .started job
  case lock i =>
    split
    next job hi => exact lockGrant_step hi
    · exact .same
  case decide i =>
    split
    next s hi => exact decideGrant_step hi
    · exact .same
  case clock i =>
    split
    next row hi =>
      unfold checkGrant
      split
      next hvalid =>
        simp only [Option.any_eq_true] at hvalid
        obtain ⟨g, hgrant, hvalid⟩ := hvalid
        exact .checked hi rfl rfl hgrant hvalid
      · exact .freed hi rfl rfl
    · exact .same
  case insert i =>
    split
    next row tCheck hi =>
      unfold insertRequest
      split
      · exact .same
      next halone =>
        split
        · exact .freed hi rfl rfl
        next hfresh =>
          rw [Bool.not_eq_true] at halone hfresh
          exact .inserted hi rfl rfl halone hfresh
    · exact .same
  case commit i =>
    split
    next s hi => exact commitSession_step hi
    · exact .same
  case abort i =>
    split
    next s hi => exact .freed hi rfl rfl
    · exact .same

variable {w : Ledger} {i j : Nat} {s t : Session}

theorem others_eq_false {P : Session → Bool} :
    w.others i P = false ↔ ∀ (j : Nat) (s : Session), j ≠ i → w.sessions[j]? = some s → P s = false :=
  any_eraseIdx_eq_false

theorem getElem?_move {stage : Stage} (h : (w.move i s stage).sessions[j]? = some t) :
    j = i ∧ t = { s with stage := stage } ∨ j ≠ i ∧ w.sessions[j]? = some t :=
  getElem?_set_eq_some h

end Ledger

end TxHarbor.Withdrawal
