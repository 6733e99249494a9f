import TxHarbor.Nonce.Frame
import TxHarbor.Signer.Gates

namespace TxHarbor.Signer

/-! `submitFirst` statement by statement, next to every other submit, every operation on nonces and every writer of the
tables it reads. A submit is one transaction: its row is seen by others after the COMMIT, but its unique keys count from
the insert on. -/

/-- `CanonicalEnvelope`: the request with its texts in canonical form. -/
structure Envelope where
  identity : String × String × String × String × String
  recoveryVersion : UInt64
  chainID : UInt64
  txType : UInt8
  addresses : String × String × String × String
  data : List Char
  numbers : Nat × Nat × Nat × Nat
  fees : Nat × Nat × Nat
  deriving DecidableEq

def orZero (s : String) : String := if s = "" then "0" else s

def Request.envelope (r : Request) : Option Envelope := do
  let _ ← hexDecode r.data
  let nonce ← decimalBig r.nonce
  let value ← decimalBig r.value
  let gasLimit ← decimalBig r.gasLimit
  let amount ← decimalBig r.amount
  let gasPrice ← decimalBig (orZero r.gasPrice)
  let maxFee ← decimalBig (orZero r.maxFeePerGas)
  let maxPriority ← decimalBig (orZero r.maxPriorityFeePerGas)
  some ⟨(r.signingRequestID, r.attemptID, r.intentID, r.bindingRef, r.authorizationID), r.recoveryVersion, r.chainID,
    r.txType, (lowerAddr r.sender, lowerAddr r.toAddr, lowerAddr r.asset, lowerAddr r.recipient), r.data.map Char.toLower,
    (nonce, value, gasLimit, amount), (gasPrice, maxFee, maxPriority)⟩

/-- The states of a request that a COMMIT leaves. -/
inductive RequestState where
  | received
  | signed
  | rejected (class' : RefusalClass)
  deriving DecidableEq

/-- `signing_requests`. -/
structure RequestRow where
  id : Nat
  callerID : Nat
  signingRequestID : String
  attemptID : String
  replacementOf : Option Nat
  intentID : String
  bindingRef : String
  authorizationID : String
  columns : Columns
  envelope : Envelope
  state : RequestState
  deriving DecidableEq

/-- The unique keys of `signing_requests`. -/
inductive UniqueKey where
  | callerRequest
  | attempt
  | authorizationAnchor
  deriving DecidableEq

/-- Two rows share a key. The anchor key only holds rows that replace nothing. -/
def RequestRow.shares (a b : RequestRow) : UniqueKey → Bool
  | .callerRequest => a.callerID == b.callerID && a.signingRequestID == b.signingRequestID
  | .attempt => a.attemptID == b.attemptID
  | .authorizationAnchor => a.authorizationID == b.authorizationID && a.replacementOf.isNone && b.replacementOf.isNone

def UniqueKey.all : List UniqueKey := [.callerRequest, .attempt, .authorizationAnchor]

theorem UniqueKey.mem_all (key : UniqueKey) : key ∈ all := by
  cases key <;> decide

/-- The first key on which a new row violates the uniqueness. -/
def violated (rows : List RequestRow) (row : RequestRow) : Option UniqueKey :=
  UniqueKey.all.find? fun key => rows.any fun r => r.shares row key

/-- `signature_results`, with the grant and the scope the transaction had read under their locks. -/
structure SignatureResult where
  row : Nat
  authorizationID : String
  transaction : Transaction
  signature : Nat
  grant : AuthzGrant
  scope : GrantScope
  deriving DecidableEq

/-- Everything a submit reads or writes. -/
structure Store where
  nonce : Nonce.World
  recovery : Int → RecoveryGate
  grants : String → Option AuthzGrant
  scopes : String → Option GrantScope
  /-- The committed rows. -/
  requests : List RequestRow
  results : List SignatureResult
  nextID : Nat

/-- What a caller gets. -/
inductive Reply where
  | signed (row : Nat)
  | refused (class' : RefusalClass)
  deriving DecidableEq

/-- The open transaction after its insert. `held` is whether the scope row was there to be locked. -/
structure Draft where
  held : Bool
  anchor : Option RequestRow
  row : RequestRow
  deriving DecidableEq

inductive Phase where
  | opened
  | locked (held : Bool)
  | anchored (held : Bool) (anchor : Option RequestRow)
  | inserted (d : Draft)
  | recovered (d : Draft)
  | bound (d : Draft)
  | granted (d : Draft) (grant : Option AuthzGrant) (scope : Option GrantScope)
  | signed (d : Draft) (result : SignatureResult)
  | done (reply : Reply)
  deriving DecidableEq

namespace Phase

/-- The transaction has inserted its row. -/
def draft? : Phase → Option Draft
  | .inserted d | .recovered d | .bound d | .granted d _ _ | .signed d _ => some d
  | _ => none

/-- The anchor the transaction has found. -/
def anchor? : Phase → Option RequestRow
  | .anchored _ anchor => anchor
  | phase => phase.draft?.bind Draft.anchor

/-- The transaction holds the scope row. -/
def holdsScope : Phase → Bool
  | .locked held | .anchored held _ => held
  | phase => phase.draft?.any Draft.held

/-- The transaction holds the recovery tables. -/
def holdsRecovery : Phase → Bool
  | .opened | .done _ => false
  | _ => true

/-- The transaction holds the rows of its grant. -/
def holdsGrant : Phase → Bool
  | .granted _ _ _ | .signed _ _ => true
  | _ => false

end Phase

/-- One call of `Submit` after its validation. -/
structure Session where
  callerID : Nat
  req : Request
  phase : Phase
  deriving DecidableEq

/-- The policy and the checksum of the deployment. -/
structure Deps where
  policy : Policy
  checksum : String → Bool

/-- What the binding reader, the key provider and the database answer to the next statement. -/
structure Answer where
  readable : Bool := true
  signature : Except RefusalClass Nat := .ok 0
  committed : Bool := true
  acknowledged : Bool := true

namespace Session

variable (s : Session)

def goto (phase : Phase) : Session := { s with phase := phase }

/-- The scope that is locked, by the values of the request. -/
def scope : Nonce.Scope := ⟨int64 s.req.chainID, lowerAddr s.req.sender⟩

/-- The row that only its own transaction sees. -/
def pending : Option RequestRow := s.phase.draft?.map Draft.row

def findAnchorRow (requests : List RequestRow) : Option RequestRow :=
  requests.find? fun row => row.callerID == s.callerID && row.intentID == s.req.intentID &&
    row.bindingRef == s.req.bindingRef && row.authorizationID == s.req.authorizationID && row.replacementOf.isNone &&
    row.signingRequestID != s.req.signingRequestID

/-- The row of `insertRequestRow`. -/
def newRow (id : Nat) (anchor : Option RequestRow) (columns : Columns) (envelope : Envelope) : RequestRow where
  id := id
  callerID := s.callerID
  signingRequestID := s.req.signingRequestID
  attemptID := s.req.attemptID
  replacementOf := anchor.map RequestRow.id
  intentID := s.req.intentID
  bindingRef := s.req.bindingRef
  authorizationID := s.req.authorizationID
  columns := columns
  envelope := envelope
  state := .received

def replayExisting (db : Store) (envelope : Envelope) : Reply :=
  match db.requests.find? fun r => r.callerID == s.callerID && r.signingRequestID == s.req.signingRequestID with
  | none => .refused .outcomeNotYetVisible
  | some row =>
    if row.envelope ≠ envelope then .refused .requestConflict
    else if db.results.any fun r => r.row == row.id then .signed row.id
    else match row.state with
      | .rejected class' => .refused class'
      | _ => .refused .outcomeNotYetVisible

def classifyDuplicate (db : Store) (envelope : Envelope) : UniqueKey → Reply
  | .callerRequest => s.replayExisting db envelope
  | .authorizationAnchor => .refused .authorizationInvalid
  | .attempt => .refused .requestConflict

/-- `submitRefusal`: a class that is never retried is recorded on the row, any other rolls back. -/
def submitRefusal (db : Store) (d : Draft) (class' : RefusalClass) : Session × Store :=
  (s.goto (.done (.refused class')),
    if class'.retryNever then { db with requests := db.requests ++ [{ d.row with state := .rejected class' }] } else db)

/-- The tests between the read of the grant and the signature. -/
def refusal (deps : Deps) (now : Int) (d : Draft) (grant : Option AuthzGrant) (scope : Option GrantScope) :
    Option RefusalClass :=
  evaluateGrant grant s.callerID s.req now <|>
    (d.anchor.bind fun anchor => evaluateGrantReuse scope s.req <|> evaluateAnchorBinding anchor.columns s.req) <|>
    evaluateGrantScopeBoundIdentity scope s.req ((d.anchor.map RequestRow.signingRequestID).getD s.req.signingRequestID) <|>
    (deps.policy.check s.req).map fun _ => .policyRefused

/-- The next statement of the transaction, or `none` while it waits for a unique key. -/
def advance (deps : Deps) (now : Int) (db : Store) (others : List Session) (ans : Answer) : Option (Session × Store) :=
  match s.phase with
  -- the scope row and then the recovery tables; nothing is read in between
  | .opened => some (s.goto (.locked (Nonce.readScopeStateTx db.nonce.store s.scope).isSome), db)
  | .locked held =>
    if s.req.searchable then some (s.goto (.anchored held (s.findAnchorRow db.requests)), db)
    else some (s.goto (.done (.refused .storageUnavailable)), db)
  | .anchored held anchor =>
    match s.req.columns, s.req.envelope with
    | some columns, some envelope =>
      let row := s.newRow db.nextID anchor columns envelope
      -- the types and the `CHECK`s of the row come before its unique keys
      if s.req.storable columns = false then some (s.goto (.done (.refused .storageUnavailable)), db)
      else if (violated (others.filterMap pending) row).isSome then none
      else match violated db.requests row with
        | some key => some (s.goto (.done (s.classifyDuplicate db envelope key)), db)
        | none => some (s.goto (.inserted ⟨held, anchor, row⟩), { db with nextID := db.nextID + 1 })
    | _, _ => some (s.goto (.done (.refused .validationFailed)), db)
  | .inserted d =>
    match (db.recovery (int64 s.req.chainID)).evaluate (int64 s.req.recoveryVersion) with
    | some class' => some (s.submitRefusal db d class')
    | none => some (s.goto (.recovered d), db)
  | .recovered d =>
    match bindingRefusal (if ans.readable then readBinding db.nonce.store db.recovery s.req.intentID else .readFailed) with
    | some class' => some (s.submitRefusal db d class')
    | none => some (s.goto (.bound d), db)
  | .bound d => some (s.goto (.granted d (db.grants s.req.authorizationID) (db.scopes s.req.authorizationID)), db)
  | .granted d grant scope =>
    match s.refusal deps now d grant scope with
    | some class' => some (s.submitRefusal db d class')
    | none =>
      match s.req.transaction, ans.signature, grant, scope with
      | some transaction, .ok signature, some grant, some scope =>
        some (s.goto (.signed d ⟨d.row.id, s.req.authorizationID, transaction, signature, grant, scope⟩), db)
      | some _, .error class', _, _ => some (s.submitRefusal db d class')
      | _, _, _, _ => some (s.submitRefusal db d .validationFailed)
  | .signed d result =>
    -- `signature_results_tx_hash_uniq`
    if ans.committed = false ∨
        db.results.any (fun r => r.transaction == result.transaction && r.signature == result.signature) then
      some (s.goto (.done (.refused .storageUnavailable)), db)
    else some (s.goto (.done (if ans.acknowledged then .signed d.row.id else .refused .storageUnavailable)),
      { db with requests := db.requests ++ [{ d.row with state := .signed }], results := db.results ++ [result] })
  | .done _ => none

end Session

structure World where
  now : Int
  db : Store
  sessions : List Session

inductive Action where
  | tick (ticks : Nat)
  | nonce (act : Nonce.Action)
  | recover (chainID : Int) (gate : RecoveryGate)
  | grant (id : String) (row : Option AuthzGrant)
  | scope (id : String) (row : Option GrantScope)
  /-- An authenticated caller that may sign, with a decoded body. -/
  | submit (callerID : Nat) (req : Request)
  | advance (i : Nat) (ans : Answer)
  /-- The connection breaks. -/
  | abort (i : Nat)

namespace World

/-- The start of a history: no submit has begun and none has committed. -/
def initial (now : Int) (nonce : Nonce.World) (recovery : Int → RecoveryGate) (grants : String → Option AuthzGrant)
    (scopes : String → Option GrantScope) : World :=
  ⟨now, ⟨nonce, recovery, grants, scopes, [], [], 1⟩, []⟩

def advance (deps : Deps) (w : World) (i : Nat) (ans : Answer) : World :=
  match w.sessions[i]? with
  | none => w
  | some s =>
    match s.advance deps w.now w.db (w.sessions.eraseIdx i) ans with
    | none => w
    | some (s', db) => { w with db := db, sessions := w.sessions.set i s' }

def next (deps : Deps) (w : World) : Action → World
  | .tick ticks => { w with now := w.now + ticks }
  | .nonce act =>
    if w.sessions.any fun s => s.phase.holdsScope && act.lockedScope == some s.scope then w
    else { w with db := { w.db with nonce := w.db.nonce.next act } }
  | .recover chainID gate =>
    if w.sessions.any fun s => s.phase.holdsRecovery then w
    else { w with db := { w.db with recovery := Function.update w.db.recovery chainID gate } }
  | .grant id row =>
    if w.sessions.any fun s => s.phase.holdsGrant && s.req.authorizationID == id then w
    else { w with db := { w.db with grants := Function.update w.db.grants id row } }
  | .scope id row =>
    if w.sessions.any fun s => s.phase.holdsGrant && s.req.authorizationID == id then w
    else { w with db := { w.db with scopes := Function.update w.db.scopes id row } }
  | .submit callerID req =>
    if (validate deps.checksum req).isSome then w else { w with sessions := w.sessions ++ [⟨callerID, req, .opened⟩] }
  | .advance i ans => w.advance deps i ans
  | .abort i =>
    match w.sessions[i]? with
    | none => w
    | some s => { w with sessions := w.sessions.set i (s.goto (.done (.refused .storageUnavailable))) }

end World

/-! ### What one statement does -/

/-- The statements of a submit with what each one rests on. -/
inductive Session.Moves (s : Session) (deps : Deps) (db : Store) (others : List Session) : Session × Store → Prop where
  | stop (reply : Reply) : s.Moves deps db others (s.goto (.done reply), db)
  | lock (hphase : s.phase = .opened) :
    s.Moves deps db others (s.goto (.locked (Nonce.readScopeStateTx db.nonce.store s.scope).isSome), db)
  | anchor (held : Bool) (hphase : s.phase = .locked held) :
    s.Moves deps db others (s.goto (.anchored held (s.findAnchorRow db.requests)), db)
  | insert (held : Bool) (anchor : Option RequestRow) (columns : Columns) (envelope : Envelope)
    (hphase : s.phase = .anchored held anchor) (hcolumns : s.req.columns = some columns)
    (hpending : violated (others.filterMap pending) (s.newRow db.nextID anchor columns envelope) = none)
    (hcommitted : violated db.requests (s.newRow db.nextID anchor columns envelope) = none) :
    s.Moves deps db others (s.goto (.inserted ⟨held, anchor, s.newRow db.nextID anchor columns envelope⟩),
      { db with nextID := db.nextID + 1 })
  | recover (d : Draft) (hphase : s.phase = .inserted d) : s.Moves deps db others (s.goto (.recovered d), db)
  | bind (d : Draft) (hphase : s.phase = .recovered d)
    (hbinding : readBinding db.nonce.store db.recovery s.req.intentID = .matches) :
    s.Moves deps db others (s.goto (.bound d), db)
  | read (d : Draft) (hphase : s.phase = .bound d) :
    s.Moves deps db others (s.goto (.granted d (db.grants s.req.authorizationID) (db.scopes s.req.authorizationID)), db)
  | sign (d : Draft) (now : Int) (transaction : Transaction) (signature : Nat) (grant : AuthzGrant) (scope : GrantScope)
    (hphase : s.phase = .granted d (some grant) (some scope))
    (hpassed : s.refusal deps now d (some grant) (some scope) = none) (htransaction : s.req.transaction = some transaction) :
    s.Moves deps db others
      (s.goto (.signed d ⟨d.row.id, s.req.authorizationID, transaction, signature, grant, scope⟩), db)
  | reject (d : Draft) (class' : RefusalClass) (hphase : s.phase.draft? = some d) :
    s.Moves deps db others (s.goto (.done (.refused class')),
      { db with requests := db.requests ++ [{ d.row with state := .rejected class' }] })
  | commit (d : Draft) (result : SignatureResult) (reply : Reply) (hphase : s.phase = .signed d result) :
    s.Moves deps db others (s.goto (.done reply),
      { db with requests := db.requests ++ [{ d.row with state := .signed }], results := db.results ++ [result] })

variable {s : Session} {deps : Deps} {db : Store} {others : List Session}

theorem Session.submitRefusal_moves {d : Draft} {class' : RefusalClass} (hphase : s.phase.draft? = some d) :
    s.Moves deps db others (s.submitRefusal db d class') := by
  unfold Session.submitRefusal
  split
  · exact .reject d class' hphase
  · exact .stop _

theorem Session.advance_moves {now : Int} {ans : Answer} {o : Session × Store}
    (h : s.advance deps now db others ans = some o) : s.Moves deps db others o := by
  unfold Session.advance at h
  cases hphase : s.phase <;> simp only [hphase] at h
  case opened =>
    cases h
    exact .lock hphase
  case locked held =>
    split at h <;> cases h
    · exact .anchor held hphase
    · exact .stop _
  case anchored held anchor =>
    split at h
    next columns envelope hcolumns _ =>
      split at h
      · cases h
        exact .stop _
      split at h
      · cases h
      next hpending =>
        split at h <;> cases h
        · exact .stop _
        next hcommitted =>
          exact .insert held anchor columns envelope hphase hcolumns (Option.not_isSome_iff_eq_none.mp hpending) hcommitted
    · cases h
      exact .stop _
  case inserted d =>
    split at h <;> cases h
    · exact submitRefusal_moves (by rw [hphase]; rfl)
    · exact .recover d hphase
  case recovered d =>
    split at h <;> cases h
    · exact submitRefusal_moves (by rw [hphase]; rfl)
    next hbinding =>
      refine .bind d hphase ?_
      generalize hresult : readBinding db.nonce.store db.recovery s.req.intentID = result at hbinding
      cases result <;> split at hbinding <;> first | rfl | cases hbinding
  case bound d =>
    cases h
    exact .read d hphase
  case granted d grant scope =>
    split at h
    · cases h
      exact submitRefusal_moves (by rw [hphase]; rfl)
    next hpassed =>
      split at h <;> cases h
      next transaction signature grant scope htransaction _ =>
        exact .sign d now transaction signature grant scope hphase hpassed htransaction
      all_goals exact submitRefusal_moves (by rw [hphase]; rfl)
  case signed d result =>
    split at h <;> cases h
    · exact .stop _
    · exact .commit d result _ hphase
  case done reply =>
    cases h

/-- What one action does to the sessions and the tables of the signer. -/
inductive World.Steps (deps : Deps) (w : World) (act : Action) : World → Prop where
  | outside (now : Int) (nonce : Nonce.World) (recovery : Int → RecoveryGate) (grants : String → Option AuthzGrant)
    (scopes : String → Option GrantScope)
    (hnonce : nonce = w.db.nonce ∨ ∃ nonceAct, nonce = w.db.nonce.next nonceAct ∧
      ∀ s ∈ w.sessions, s.phase.holdsScope = true → nonceAct.lockedScope ≠ some s.scope) :
    Steps deps w act
      { w with now := now
               db := { w.db with nonce := nonce, recovery := recovery, grants := grants, scopes := scopes } }
  | begin (callerID : Nat) (req : Request) (hvalid : validate deps.checksum req = none) :
    Steps deps w act { w with sessions := w.sessions ++ [⟨callerID, req, .opened⟩] }
  | statement (i : Nat) (s : Session) (o : Session × Store)
    (hact : (∃ ans, act = .advance i ans) ∨ ∃ reply, o = (s.goto (.done reply), w.db)) (hs : w.sessions[i]? = some s)
    (hmove : s.Moves deps w.db (w.sessions.eraseIdx i) o) :
    Steps deps w act { w with db := o.2, sessions := w.sessions.set i o.1 }

open World

theorem World.next_steps (deps : Deps) (w : World) (act : Action) : w.Steps deps act (w.next deps act) := by
  have hidle : w.Steps deps act w := .outside w.now w.db.nonce w.db.recovery w.db.grants w.db.scopes (.inl rfl)
  cases act <;> simp only [next]
  case tick ticks => exact .outside (w.now + ticks) _ _ _ _ (.inl rfl)
  case nonce nonceAct =>
    split
    · exact hidle
    next hfree =>
      refine .outside w.now _ w.db.recovery w.db.grants w.db.scopes (.inr ⟨nonceAct, rfl, fun s hs hheld hlocked => ?_⟩)
      exact hfree (List.any_eq_true.mpr ⟨s, hs, by rw [hheld, hlocked]; exact beq_self_eq_true _⟩)
  case recover chainID gate =>
    split
    · exact hidle
    · exact .outside w.now w.db.nonce _ w.db.grants w.db.scopes (.inl rfl)
  case grant id row =>
    split
    · exact hidle
    · exact .outside w.now w.db.nonce w.db.recovery _ w.db.scopes (.inl rfl)
  case scope id row =>
    split
    · exact hidle
    · exact .outside w.now w.db.nonce w.db.recovery w.db.grants _ (.inl rfl)
  case submit callerID req =>
    split
    · exact hidle
    next hvalid => exact .begin callerID req (Option.not_isSome_iff_eq_none.mp hvalid)
  case advance i ans =>
    simp only [World.advance]
    split
    · exact hidle
    next s hs =>
      split
      · exact hidle
      next s' db hmove => exact .statement i s (s', db) (.inl ⟨ans, rfl⟩) hs (Session.advance_moves hmove)
  case abort i =>
    split
    · exact hidle
    next s hs => exact .statement i s _ (.inr ⟨.refused .storageUnavailable, rfl⟩) hs (.stop _)

end TxHarbor.Signer
