import TxHarbor.Lifecycle.Gates
import TxHarbor.Transition.Run

namespace TxHarbor.Lifecycle

open Execution (AttemptID AttemptState Holder Probe SendKind SendOutcome)
open Signer (FeeCaps FeeShape)

/-! `Send` statement by statement, next to every other `Send`, `Reconcile`, `Release` and writer of the gate
tables. A lock is held from the statement that takes it to the end of the region. -/

/-- How far a `Send` call has come. -/
inductive Phase where
  | loading
  | unsigned
  | loaded (state : AttemptState)
  | unfrozen (state : AttemptState)
  | gates (passed todo : List Gate)
  | locked (sendSeq : Nat)
  | bytes (sendSeq : Nat) (raw : SignedTx)
  | checked (sendSeq : Nat) (raw : SignedTx) (checkedAt : Int)
  | timed (sendSeq : Nat) (raw : SignedTx) (checkedAt dispatchedAt : Int)
  | dispatched (sendSeq : Nat) (dispatchedAt : Int) (outcome : SendOutcome)
  | failed
  | done
  deriving DecidableEq

/-- The region holds the locks of the attempt row. -/
def Phase.locksAttempt : Phase → Bool
  | .locked _ | .bytes _ _ | .checked _ _ _ | .timed _ _ _ _ | .dispatched _ _ _ => true
  | _ => false

/-- The region holds the locks of a gate. -/
def Phase.holds : Phase → Gate → Bool
  | .gates passed _, g => passed.contains g
  | phase, _ => phase.locksAttempt

/-- The node was not called yet, and the call is still running. -/
def Phase.undispatched : Phase → Bool
  | .dispatched _ _ _ | .failed | .done => false
  | _ => true

structure Session extends GateInputs where
  phase : Phase
  /-- The clock when the claim gate was passed. -/
  claimedAt : Int
  deriving DecidableEq

namespace Session

def attempt (s : Session) : AttemptID := s.request.attempt

/-- The session with the call at another statement. -/
def goto (s : Session) (phase : Phase) : Session := { s with phase := phase }

/-- The session with one more gate passed. -/
def pass (s : Session) (now : Int) (g : Gate) (passed rest : List Gate) : Session :=
  { s with phase := .gates (g :: passed) rest, claimedAt := if g = .claim then now else s.claimedAt }

def locks (s : Session) (id : AttemptID) : Bool := s.phase.locksAttempt && s.attempt == id

/-- Its region keeps a writer waiting. -/
def blocks (s : Session) (x : Write) : Bool := Gate.order.any fun g => s.phase.holds g && x.waitsFor s.toGateInputs g

end Session

/-- What becomes of a COMMIT. -/
inductive CommitResult where
  | acknowledged
  | failed
  | unacknowledged
  deriving DecidableEq

/-- What the signer, the node and the database answer to the next statement. -/
structure Answer where
  signature : Nat := 0
  probe : Probe := .unavailable
  verdicts : List (AttemptID × AttemptState) := []
  outcome : SendOutcome := .unknown
  commit : CommitResult := .acknowledged

/-- One `SendSignedTransaction`: the session that made it, the last reading of the clock against the expiry of
the grant, and the one that is recorded. -/
structure Call where
  session : Nat
  attempt : AttemptID
  raw : SignedTx
  checkedAt : Int
  dispatchedAt : Int
  deriving DecidableEq

/-- What one statement leaves. -/
structure Outcome where
  session : Session
  db : Database
  call : Option Call := none

/-- The fee part of what 009 asks before it signs the content of an attempt. -/
def signerApproves (t : GateTables) (a : Content) : Bool :=
  (t.scopes a.authorization).any fun scope => (Signer.feeScopeRefusal scope.caps a.gasLimit a.fees).isNone

/-- `SignAndPersist`. -/
def Database.sign (db : Database) (id : AttemptID) (raw : SignedTx) : Database :=
  { db.moveAttempt id .signed with signings := Function.update db.signings id (some raw) }

/-- The rows a reconcile writes. -/
def Probe.writes (probe : Probe) (id : AttemptID) (verdicts : List (AttemptID × AttemptState)) : List AttemptID :=
  match probe with
  | .included _ _ _ => id :: verdicts.map Prod.fst
  | _ => [id]

/-- The state of an attempt after a dispatch. -/
def dispatchState (outcome : SendOutcome) (state : AttemptState) : AttemptState :=
  if outcome = .accepted ∨ state = .sent then .sent else .unknown

namespace Session

variable (s : Session) (i : Nat) (now : Int) (db : Database) (others : List Session) (ans : Answer)

/-- The region opens, with the grant of the anchor read. -/
def openRegion (db : Database) : Session :=
  match s.content.replacementOf with
  | none => { s with anchorAuthorization := none, phase := .gates [] Gate.order }
  | some anchor =>
    match db.attempts anchor with
    | none => s.goto .done
    | some b => { s with anchorAuthorization := some b.content.authorization, phase := .gates [] Gate.order }

/-- The next statement of the call, or `none` while it waits for a lock. -/
def advance : Option Outcome :=
  let locked := fun id => others.any fun o => o.locks id
  match s.phase with
  | .loading =>
    match db.attempts s.attempt with
    | none => some ⟨s.goto .done, db, none⟩
    | some a =>
      if a.state ≠ .prepared then some ⟨s.goto (.loaded a.state), db, none⟩
      else if s.request.kind = .initial then some ⟨s.goto .unsigned, db, none⟩
      else some ⟨s.goto .done, db, none⟩
  | .unsigned =>
    if locked s.attempt then none
    else match db.attempts s.attempt with
      | none => some ⟨s.goto .done, db, none⟩
      | some a =>
        if a.state = .prepared ∧ db.signings s.attempt = none ∧ signerApproves db.gates s.content = true then
          some ⟨s.goto .loading, db.sign s.attempt ⟨s.content, ans.signature⟩, none⟩
        else some ⟨s.goto .done, db, none⟩
  | .loaded state =>
    if db.frozen s.content.intent then some ⟨s.goto .done, db, none⟩ else some ⟨s.goto (.unfrozen state), db, none⟩
  | .unfrozen state =>
    if state = .signed ∨ state = .unknown then
      if (Probe.writes ans.probe s.attempt ans.verdicts).any locked then none
      else match db.attempts s.attempt with
        | none => some ⟨s.goto .done, db, none⟩
        | some a =>
          let db' := db.reconcile s.attempt a ans.probe ans.verdicts
          match ans.probe with
          | .unavailable | .included _ _ _ => some ⟨s.goto .done, db', none⟩
          | _ => some ⟨s.openRegion db', db', none⟩
    else some ⟨s.openRegion db, db, none⟩
  | .gates passed (g :: rest) =>
    -- the coordination row is locked `FOR UPDATE`, one region at a time
    if g = .protection ∧ others.any (fun o => o.phase.holds .protection && o.content.chain == s.content.chain) then none
    else match g.refusal s.toGateInputs now db.gates with
      | some _ => some ⟨s.goto .done, db, none⟩
      | none => some ⟨s.pass now g passed rest, db, none⟩
  | .gates _ [] =>
    if locked s.attempt then none
    else match db.attempts s.attempt with
      | none => some ⟨s.goto .done, db, none⟩
      | some a =>
        if s.request.expectedRevision.all (fun revision => revision == a.revision) = false then some ⟨s.goto .done, db, none⟩
        else match Execution.sendabilityRefusal s.request.kind a.state (db.accepted s.attempt) with
          | some _ => some ⟨s.goto .done, db, none⟩
          | none => some ⟨s.goto (.locked (db.nextSendSeq s.attempt)), db, none⟩
  | .locked sendSeq =>
    match db.signings s.attempt with
    | none => some ⟨s.goto .done, db, none⟩
    | some raw => some ⟨s.goto (.bytes sendSeq raw), db, none⟩
  | .bytes sendSeq raw =>
    -- `lastMomentExpiry`
    if (db.gates.grants s.content.authorization).all (fun g => g.unexpired now) then
      some ⟨s.goto (.checked sendSeq raw now), db, none⟩
    else some ⟨s.goto .done, db, none⟩
  | .checked sendSeq raw checkedAt => some ⟨s.goto (.timed sendSeq raw checkedAt now), db, none⟩
  | .timed sendSeq raw checkedAt dispatchedAt =>
    some ⟨s.goto (.dispatched sendSeq dispatchedAt ans.outcome), db, some ⟨i, s.attempt, raw, checkedAt, dispatchedAt⟩⟩
  | .dispatched sendSeq dispatchedAt outcome =>
    if locked s.attempt then none
    else match db.attempts s.attempt with
      | none => some ⟨s.goto .failed, db, none⟩
      | some a =>
        let recorded := db.record ⟨s.attempt, sendSeq, s.request.kind, outcome, dispatchedAt, i⟩
          (dispatchState outcome a.state)
        match ans.commit with
        | .acknowledged => some ⟨s.goto .done, recorded, none⟩
        | .failed => some ⟨s.goto .failed, db, none⟩
        | .unacknowledged => some ⟨s.goto .failed, recorded, none⟩
  | .failed =>
    -- `recordRegionWriteFailure`
    if locked s.attempt then none
    else match db.attempts s.attempt with
      | none => some ⟨s.goto .done, db, none⟩
      | some a =>
        if ans.commit = .failed then some ⟨s.goto .done, db, none⟩
        else some ⟨s.goto .done, db.record ⟨s.attempt, db.nextSendSeq s.attempt, s.request.kind, .unknown, now, i⟩
          (dispatchState .unknown a.state), none⟩
  | .done => none

end Session

/-- A pause transaction that began and has not committed. -/
structure PauseTx where
  chain : ChainID
  kind : PauseKind
  startedAt : Int
  pending : Bool
  deriving DecidableEq

structure World where
  now : Int
  db : Database
  sessions : List Session
  pausing : List PauseTx
  /-- Every `SendSignedTransaction` so far. -/
  calls : List Call

/-- The replacement a caller asks `replace` for. -/
structure Replacement where
  anchor : AttemptID
  authorization : Option AuthorizationID
  maxFeePerGas : Nat
  maxPriorityFeePerGas : Nat
  recoveryVersion : Nat
  deriving DecidableEq

inductive Action where
  | tick (ticks : Nat)
  | write (x : Write)
  | beginPause (chain : ChainID) (kind : PauseKind)
  | commitPause (j : Nat)
  /-- `constructFirst` and `PrepareAttempt`; the content has everything but the version and the fees. -/
  | firstBroadcast (id : AttemptID) (content : Content)
  | replace (id : AttemptID) (r : Replacement)
  | send (req : SendRequest)
  | advance (i : Nat) (ans : Answer)
  /-- The connection breaks before the node was called. -/
  | abort (i : Nat)
  | reconcile (id : AttemptID) (probe : Probe) (verdicts : List (AttemptID × AttemptState))
  | release (intent : IntentID)

def advanceGasLimit : Nat := 100000

/-- `constructFees`: the fee per gas and the priority fee under the caps. A zero total cap does not bound. -/
def constructFees (gasLimit : Nat) (caps : FeeCaps) : Option (Nat × Nat) :=
  let perGas := if 0 < caps.total then min caps.perGas (caps.total / gasLimit) else caps.perGas
  if perGas = 0 then none else some (perGas, min caps.priority perGas)

/-- The fee shape `PrepareRequest.Validate` accepts. -/
def validFeeShape : FeeShape → Bool
  | .legacy gasPrice => decide (0 < gasPrice)
  | .dynamicFee maxFee tip => decide (0 < maxFee) && decide (0 < tip) && decide (tip ≤ maxFee)

def constructFirst (t : GateTables) (content : Content) : Option Content := do
  let scope ← t.scopes content.authorization
  let (maxFee, priority) ← constructFees advanceGasLimit scope.caps
  some { content with
    authorizationVersion := scope.authorizationVersion
    gasLimit := advanceGasLimit
    fees := .dynamicFee maxFee priority
    replacementOf := none }

/-- The content `replace` builds: the anchor's with the caller's fees, under its own grant after the fee test, or
under a fresh one. -/
def constructReplacement (db : Database) (r : Replacement) : Option Content := do
  let anchor ← db.attempts r.anchor
  let authorization := r.authorization.getD anchor.content.authorization
  let scope ← db.gates.scopes authorization
  let fees := FeeShape.dynamicFee r.maxFeePerGas r.maxPriorityFeePerGas
  if authorization = anchor.content.authorization ∧
      (scope.allowsFeeReplacement = false ∨ checkFeeTriple advanceGasLimit fees scope.caps ≠ none) then none
  else some { anchor.content with
    authorization := authorization
    authorizationVersion := scope.authorizationVersion
    recoveryVersion := r.recoveryVersion
    gasLimit := advanceGasLimit
    fees := fees
    replacementOf := some r.anchor }

/-- `PrepareAttempt` of a new attempt; a retry with a used identity writes nothing. -/
def Database.prepare (db : Database) (id : AttemptID) (content : Option Content) : Database :=
  match content, db.attempts id with
  | some content, none =>
    if validFeeShape content.fees then
      { db with attempts := Function.update db.attempts id (some ⟨content, .prepared, 1⟩) }
    else db
  | _, _ => db

namespace World

/-- The start of a history: no call has begun. -/
def initial (now : Int) (db : Database) : World := ⟨now, db, [], [], []⟩

/-- The next statement of a call, if it does not wait. -/
def advance (w : World) (i : Nat) (ans : Answer) : World :=
  match w.sessions[i]? with
  | none => w
  | some s =>
    match s.advance i w.now w.db (w.sessions.eraseIdx i) ans with
    | none => w
    | some o => { w with db := o.db, sessions := w.sessions.set i o.session, calls := w.calls ++ o.call.toList }

def abort (w : World) (i : Nat) : World :=
  match w.sessions[i]? with
  | none => w
  | some s => if s.phase.undispatched then { w with sessions := w.sessions.set i (s.goto .done) } else w

def commitPause (w : World) (j : Nat) : World :=
  match w.pausing[j]? with
  | none => w
  | some p =>
    -- the insert waits behind the coordination row and the `SHARE` lock
    if p.pending = false ∨ w.sessions.any (fun s => s.phase.holds .protection) then w
    else { w with
      db := { w.db with gates := w.db.gates.insertPause p.chain p.kind p.startedAt }
      pausing := w.pausing.set j { p with pending := false } }

def next (w : World) : Action → World
  | .tick ticks => { w with now := w.now + ticks }
  | .write x =>
    if w.sessions.any fun s => s.blocks x then w else { w with db := { w.db with gates := x.apply w.db.gates } }
  | .beginPause chain kind => { w with pausing := w.pausing ++ [⟨chain, kind, w.now, true⟩] }
  | .commitPause j => w.commitPause j
  | .firstBroadcast id content => { w with db := w.db.prepare id (constructFirst w.db.gates content) }
  | .replace id r => { w with db := w.db.prepare id (constructReplacement w.db r) }
  | .send req =>
    match w.db.attempts req.attempt with
    | none => w
    | some a => { w with sessions := w.sessions ++ [⟨⟨req, a.content, none⟩, .loading, w.now⟩] }
  | .advance i ans => w.advance i ans
  | .abort i => w.abort i
  | .reconcile id probe verdicts =>
    match w.db.attempts id with
    | none => w
    | some a =>
      if w.db.signings id = none ∨ (Probe.writes probe id verdicts).any (fun id => w.sessions.any fun s => s.locks id)
      then w
      else { w with db := w.db.reconcile id a probe verdicts }
  | .release intent => { w with db := w.db.release intent }

end World

end TxHarbor.Lifecycle
