import TxHarbor.Reconciliation.Scan

open Transition

namespace TxHarbor.Reconciliation

/-! Tickets and their re-verification. A re-verification loads a ticket together with its validity
token, reads evidence outside any transaction, and persists its verdict under the row lock of the
ticket. A transaction that has taken the row lock runs alone on that ticket until its COMMIT, so the
statements from the lock to the COMMIT are one step here. -/

inductive DiscrepancyState where
  | openClaimable
  | claimed
  | disposing
  | pendingVerify
  | closed
  | reopened
  deriving DecidableEq

def canTransitionDiscrepancy : DiscrepancyState → DiscrepancyState → Bool
  | .openClaimable, to' => to' == .claimed
  | .claimed, to' => to' == .disposing
  | .disposing, to' => to' == .pendingVerify
  | .pendingVerify, to' => to' == .closed || to' == .reopened
  | .closed, to' => to' == .pendingVerify || to' == .reopened
  | .reopened, to' => to' == .pendingVerify

inductive ReverifyVerdict where
  | consistent
  | divergent
  | unknown
  | stale
  deriving DecidableEq

/-- The range of an `IdentityScope`. -/
structure IdentityScope where
  kind : ScopeKind
  first : Int
  last : Int
  deriving DecidableEq

/-- What re-verification reads of `evidence_version_domain`. -/
structure EvidenceDomain where
  scope : Option IdentityScope
  blockNumber : Nat
  blockHash : String
  evidenceAt : Option Int
  deriving DecidableEq

/-- `discrepancy`. -/
structure Ticket where
  state : DiscrepancyState
  generation : Nat
  domain : EvidenceDomain
  createdAt : Int
  deriving DecidableEq

/-- `reverifyEvidenceAtExpr`. -/
def Ticket.evidenceAt (t : Ticket) : Int := t.domain.evidenceAt.getD t.createdAt

/-- `reverify`. The last two columns are history: the steps in which the evidence read behind the
verdict began and in which the verdict was committed. -/
structure Reverify where
  discrepancyID : Nat
  verdict : ReverifyVerdict
  evidenceRef : String
  freshnessAt : Option Int
  createdAt : Int
  reverifyID : Nat
  readFrom : Nat
  accepted : Nat
  deriving DecidableEq

/-- `ORDER BY created_at DESC, reverify_id DESC`. -/
def Reverify.before (q r : Reverify) : Bool :=
  r.createdAt < q.createdAt || r.createdAt = q.createdAt && r.reverifyID < q.reverifyID

inductive GapBound where
  | height (n : Int)
  | time (t : Int)
  deriving DecidableEq

inductive ReverifyGapReason where
  | queryFailed
  | freshnessHold
  deriving DecidableEq

/-- `recon_gap`, as a re-verification writes it. -/
structure ReverifyGap where
  taskID : Nat
  start : GapBound
  stop : GapBound
  reason : ReverifyGapReason
  deriving DecidableEq

inductive AuditResult where
  | verdict (v : ReverifyVerdict)
  | queryFailed
  | timeout
  | discarded
  deriving DecidableEq

structure HistorySweepCursor where
  evidenceAt : Int
  discrepancyID : Nat
  deriving DecidableEq

def cursorAdvance (current : Option HistorySweepCursor) (next : HistorySweepCursor) : Bool :=
  current.all fun c => c.evidenceAt < next.evidenceAt ||
    c.evidenceAt = next.evidenceAt && c.discrepancyID < next.discrepancyID

/-- A committed change of the row of a ticket, and the step that committed it. -/
structure Change where
  discrepancyID : Nat
  step : Nat
  /-- The ticket entered `pending_verify`. -/
  entered : Bool
  /-- The recorded evidence was replaced. -/
  replaced : Bool
  deriving DecidableEq

/-- The tables. `step` counts the steps made and `changes` lists the committed changes of ticket rows;
no operation reads either. -/
structure TicketStore where
  clock : Int
  step : Nat
  tickets : Nat → Option Ticket
  verdicts : List Reverify
  nextReverifyID : Nat
  gaps : List ReverifyGap
  audit : List (Nat × AuditResult)
  cursors : Nat → Option HistorySweepCursor
  changes : List Change

inductive ReverifySource where
  | ticket
  | crossCheck
  | retry
  | enumeration
  deriving DecidableEq

/-- `reverifyItem`, with the token captured by the read that loaded it. `loaded` is the step of that
read. -/
structure ReverifyItem where
  discrepancyID : Nat
  domain : EvidenceDomain
  evidenceAt : Option Int
  source : ReverifySource
  state : DiscrepancyState
  generation : Nat
  evidenceHash : Nat
  loaded : Nat
  deriving DecidableEq

/-- `ReverifyFinding`, with the failure token of an evaluator error. -/
structure ReverifyFinding where
  verdict : ReverifyVerdict
  evidenceRef : String
  freshnessAt : Option Int
  failure : Option AuditResult
  deriving DecidableEq

/-- `unicode.IsSpace`. -/
def isSpace (c : Char) : Bool :=
  let n := c.toNat
  9 ≤ n && n ≤ 13 || [0x20, 0x85, 0xA0, 0x1680, 0x2028, 0x2029, 0x202F, 0x205F, 0x3000].contains n ||
    0x2000 ≤ n && n ≤ 0x200A

def trimSpace (s : String) : String :=
  .ofList ((s.toList.dropWhile isSpace).reverse.dropWhile isSpace).reverse

/-- `strings.TrimSpace` leaves nothing. -/
def blank (s : String) : Bool := s.toList.all isSpace

/-- `normalizeReverifyFinding`: a consistent finding needs a reference and a freshness. -/
def ReverifyFinding.normalize (f : ReverifyFinding) : ReverifyFinding :=
  if f.verdict = .consistent ∧ (blank f.evidenceRef ∨ f.freshnessAt = none) then
    { f with verdict := .unknown, evidenceRef := trimSpace f.evidenceRef }
  else { f with evidenceRef := trimSpace f.evidenceRef }

def ReverifyItem.gapPosition (i : ReverifyItem) : Option (GapBound × GapBound) :=
  if 0 < i.domain.blockNumber ∧ (i.domain.blockNumber : Int) ≤ maxInt64 then
    some (.height i.domain.blockNumber, .height i.domain.blockNumber)
  else match i.evidenceAt, i.domain.scope with
    | some t, _ => some (.time t, .time t)
    | none, some s => match s.kind with
      | .height => some (.height s.first, .height s.last)
      | .time => some (.time s.first, .time s.last)
    | none, none => none

namespace TicketStore

/-- `readLatestReverifyTx`. -/
def readLatestReverify (b : TicketStore) (id : Nat) : Option Reverify :=
  (b.verdicts.filter (·.discrepancyID = id)).find? fun r =>
    (b.verdicts.filter (·.discrepancyID = id)).all fun q => !q.before r

def load (b : TicketStore) (sum256 : EvidenceDomain → Nat) (id : Nat) (source : ReverifySource)
    (t : Ticket) (evidenceAt : Option Int) : ReverifyItem :=
  { discrepancyID := id, domain := t.domain, evidenceAt, source, state := t.state,
    generation := t.generation, evidenceHash := sum256 t.domain, loaded := b.step }

/-- `loadPendingDiscrepancy`, and the refusal of any other state. -/
def loadPendingDiscrepancy (b : TicketStore) (sum256 : EvidenceDomain → Nat) (id : Nat) : Option ReverifyItem :=
  (b.tickets id).bind fun t =>
    if t.state = .pendingVerify then some (b.load sum256 id .ticket t t.domain.evidenceAt) else none

/-- `loadClosedDiscrepancy`, and one row of the candidate queries. -/
def loadClosedDiscrepancy (b : TicketStore) (sum256 : EvidenceDomain → Nat) (source : ReverifySource)
    (id : Nat) : Option ReverifyItem :=
  (b.tickets id).bind fun t =>
    if t.state = .closed ∧ source ≠ .ticket then some (b.load sum256 id source t (some t.evidenceAt))
    else none

/-- A write to the row of a ticket, which advances its generation. -/
def change (b : TicketStore) (id : Nat) (write : Ticket → Ticket) (entered replaced : Ticket → Bool) : TicketStore :=
  match b.tickets id with
  | none => b
  | some t =>
    { b with
      tickets := Function.update b.tickets id (some { write t with generation := t.generation + 1 })
      changes := ⟨id, b.step, entered t, replaced t⟩ :: b.changes }

/-- `updateDiscrepancySQL`, for an edge `ValidateDiscrepancyTransition` lets pass. -/
def updateDiscrepancy (b : TicketStore) (id : Nat) (to' : DiscrepancyState) : TicketStore :=
  match b.tickets id with
  | none => b
  | some t =>
    if canTransitionDiscrepancy t.state to' then
      b.change id ({ · with state := to' }) (fun _ => to' = .pendingVerify) (fun _ => false)
    else b

/-- The transition of `EvaluateInvalidationForDiscrepancy`; without a disposition, `disposing` is left. -/
def invalidateClosed (b : TicketStore) (id : Nat) : TicketStore :=
  if (b.tickets id).any (·.state = .disposing) then b else b.updateDiscrepancy id .pendingVerify

/-- `CanClose`: consistent, with a reference, and fresh at `now`. -/
def canClose (r : Reverify) (now tolerance : Int) : Bool :=
  r.verdict = .consistent && !blank r.evidenceRef && 0 < tolerance
    && r.freshnessAt.any fun f => f ≤ now && now - f ≤ tolerance

/-- The row a `CloseDiscrepancy` call closes the ticket on, if it closes it. -/
def closesOn (b : TicketStore) (id : Nat) (now tolerance : Int) : Option Reverify :=
  match b.tickets id, b.readLatestReverify id with
  | some t, some r => if t.state = .pendingVerify ∧ canClose r now tolerance then some r else none
  | _, _ => none

def closeDiscrepancy (b : TicketStore) (id : Nat) (now tolerance : Int) : TicketStore :=
  match b.closesOn id now tolerance with
  | some _ => b.updateDiscrepancy id .closed
  | none => b

/-- The states `invalidateTxAggregateSQL` moves to `pending_verify`. -/
def moved (s : DiscrepancyState) : DiscrepancyState :=
  match s with
  | .claimed => .claimed
  | .disposing => .disposing
  | _ => .pendingVerify

/-- `invalidateTxAggregateSQL`. -/
def invalidateTxAggregate (b : TicketStore) (id : Nat) (d : EvidenceDomain) : TicketStore :=
  b.change id (fun t => { t with state := moved t.state, domain := d })
    (fun t => moved t.state = .pendingVerify) (fun _ => true)

/-- `insertDiscrepancySQL`: `ON CONFLICT DO NOTHING`. -/
def insertDiscrepancy (b : TicketStore) (id : Nat) (d : EvidenceDomain) : TicketStore :=
  match b.tickets id with
  | some _ => b
  | none =>
    { b with tickets := Function.update b.tickets id (some ⟨.openClaimable, 0, d, b.clock⟩) }

/-- The token matches the locked row. -/
def tokenMatches (b : TicketStore) (sum256 : EvidenceDomain → Nat) (i : ReverifyItem) : Bool :=
  (b.tickets i.discrepancyID).any fun t =>
    i.generation = t.generation && i.state = t.state && i.evidenceHash = sum256 t.domain

/-- The gap rows of an accepted finding: removed at its position when consistent, else one row. -/
def markGap (gaps : List ReverifyGap) (taskID : Nat) (i : ReverifyItem) (f : ReverifyFinding) : List ReverifyGap :=
  match i.gapPosition with
  | none => gaps
  | some (start, stop) =>
    if f.verdict = .consistent then
      gaps.filter fun g => !(g.taskID = taskID && g.start = start && g.stop = stop)
    else
      let g : ReverifyGap := ⟨taskID, start, stop, if f.verdict = .stale then .freshnessHold else .queryFailed⟩
      if g ∈ gaps then gaps else g :: gaps

/-- An outcome whose token matches, persisted in a transaction begun at `began`. -/
def accept (b : TicketStore) (taskID : Nat) (i : ReverifyItem) (f : ReverifyFinding) (readFrom : Nat)
    (began : Int) : TicketStore :=
  { b.change i.discrepancyID id (fun _ => false) (fun _ => false) with
    verdicts := ⟨i.discrepancyID, f.verdict, f.evidenceRef, if f.verdict = .consistent then f.freshnessAt else none,
        began, b.nextReverifyID, readFrom, b.step⟩ :: b.verdicts
    nextReverifyID := b.nextReverifyID + 1
    gaps := markGap b.gaps taskID i f
    audit := (i.discrepancyID, f.failure.getD (.verdict f.verdict)) :: b.audit }

/-- `insertReverifyDiscardAuditTx`. -/
def discard (b : TicketStore) (i : ReverifyItem) : TicketStore :=
  { b with audit := (i.discrepancyID, .discarded) :: b.audit }

/-- `persistReverifyOutcomeTx`. -/
def persistReverifyOutcome (b : TicketStore) (sum256 : EvidenceDomain → Nat) (taskID : Nat)
    (i : ReverifyItem) (f : ReverifyFinding) (readFrom : Nat) (began : Int) : TicketStore :=
  if b.tokenMatches sum256 i then b.accept taskID i f readFrom began else b.discard i

/-- `writeHistorySweepThrough`: the recorded cursor only advances. -/
def writeHistorySweepThrough (b : TicketStore) (taskID : Nat) (c : HistorySweepCursor) : TicketStore :=
  if cursorAdvance (b.cursors taskID) c then
    { b with cursors := Function.update b.cursors taskID (some c) }
  else b

end TicketStore

/-- How a statement of a call ends: done, refused with an error, done with the acknowledgement lost,
or never, because the process stops or its budget or context ends. -/
inductive Answer where
  | ok
  | error
  | lost
  | halt
  deriving DecidableEq

/-- Where a `VerifyPendingDiscrepancy` or `RunReverifySweep` call stands. -/
inductive Phase where
  | idle
  | pending (id : Nat)
  | plan
  | next
  | read (i : ReverifyItem) (readFrom : Nat)
  | persist (i : ReverifyItem) (f : ReverifyFinding) (readFrom : Nat) (began : Int)
  | evaluate (i : ReverifyItem)
  | invalidate (i : ReverifyItem)
  | writeCursor
  deriving DecidableEq

/-- One call. `items` is the rest of its plan. -/
structure Call where
  taskID : Nat
  phase : Phase
  items : List ReverifyItem
  cursor : Option HistorySweepCursor
  cursorAdvanced : Bool
  cursorBlocked : Bool
  deriving DecidableEq

namespace Call

/-- The end of one item of the sweep loop: the cursor of the call follows an enumerated item. -/
def settle (c : Call) (i : ReverifyItem) : Call :=
  let next : HistorySweepCursor := ⟨i.evidenceAt.getD 0, i.discrepancyID⟩
  if i.source = .enumeration ∧ !c.cursorBlocked ∧ cursorAdvance c.cursor next then
    { c with phase := .next, cursor := some next, cursorAdvanced := true }
  else { c with phase := .next }

/-- The call after its persistence transaction was accepted. -/
def accepted (c : Call) (i : ReverifyItem) (f : ReverifyFinding) : Call :=
  if i.source = .ticket then { c with phase := .idle }
  else if f.verdict = .divergent then { c with phase := .evaluate i }
  else c.settle i

/-- The call after its outcome was discarded. -/
def rejected (c : Call) (i : ReverifyItem) : Call :=
  if i.source = .ticket then { c with phase := .idle }
  else { c with phase := .next, cursorBlocked := true }

def stop (c : Call) : Call := { c with phase := .idle }

/-- The call has returned. -/
def idle (c : Call) : Bool := c.phase = .idle

/-- One row of a finder of `planReverifySweep`. Which closed items the finders return, and how many of
them a slice takes, is left open. -/
def select (c : Call) (sum256 : EvidenceDomain → Nat) (b : TicketStore) (source : ReverifySource) (id : Nat) : Call :=
  match c.phase, b.loadClosedDiscrepancy sum256 source id with
  | .plan, some i => { c with items := c.items ++ [i] }
  | _, _ => c

end Call

variable (sum256 : EvidenceDomain → Nat)

/-- The next statement of a call, which `answer` ends; `finding` is what its evaluator returned. A
statement whose acknowledgement is lost has been executed, but its call ends like after an error. -/
def Call.proceed (c : Call) (b : TicketStore) (answer : Answer) (finding : ReverifyFinding) : TicketStore × Call :=
  match c.phase, answer with
  | .persist i f readFrom began, .lost =>
    (b.persistReverifyOutcome sum256 c.taskID i f readFrom began, c.stop)
  -- An invalidation that fails is only counted: the loop goes on with the next item.
  | .evaluate i, .error | .evaluate i, .lost | .invalidate i, .error => (b, c.settle i)
  | .invalidate i, .lost => (b.invalidateClosed i.discrepancyID, c.settle i)
  | .writeCursor, .ok | .writeCursor, .lost => (c.cursor.elim b (b.writeHistorySweepThrough c.taskID), c.stop)
  | _, .error | _, .lost | _, .halt => (b, c.stop)
  | .idle, .ok => (b, c)
  | .pending id, .ok =>
    (b, match b.loadPendingDiscrepancy sum256 id with
      | none => c.stop
      | some i => { c with phase := .read i b.step })
  | .plan, .ok => (b, { c with phase := .next })
  | .next, .ok =>
    (b, match c.items with
      | [] => { c with phase := if c.cursorAdvanced then .writeCursor else .idle }
      | i :: rest => { c with phase := .read i b.step, items := rest })
  | .read i readFrom, .ok => (b, { c with phase := .persist i finding.normalize readFrom b.clock })
  | .persist i f readFrom began, .ok =>
    (b.persistReverifyOutcome sum256 c.taskID i f readFrom began,
      if b.tokenMatches sum256 i then c.accepted i f else c.rejected i)
  | .evaluate i, .ok =>
    -- `EvaluateInvalidation` on the state a plain read returned.
    (b, if (b.tickets i.discrepancyID).any (·.state = .closed) then { c with phase := .invalidate i }
      else c.settle i)
  | .invalidate i, .ok => (b.invalidateClosed i.discrepancyID, c.settle i)

/-- The tables and the calls in flight. -/
structure TicketWorld where
  store : TicketStore
  calls : Nat → Call

inductive TicketAction where
  | wait (d : Nat)
  | detect (id : Nat) (d : EvidenceDomain)
  | replace (id : Nat) (d : EvidenceDomain)
  | transition (id : Nat) (to' : DiscrepancyState)
  | close (id : Nat) (now tolerance : Int)
  | verify (n taskID id : Nat)
  | sweep (n taskID : Nat)
  | select (n : Nat) (source : ReverifySource) (id : Nat)
  | proceed (n : Nat) (answer : Answer) (finding : ReverifyFinding)
  deriving DecidableEq

/-- A call at its first statement. A sweep has read the recorded cursor of its task. -/
def Call.start (taskID : Nat) (cursor : Option HistorySweepCursor) (phase : Phase) : Call :=
  ⟨taskID, phase, [], cursor, false, false⟩

namespace TicketWorld

/-- One step, before the count of steps advances. `CloseDiscrepancy` is the only way to `closed`. -/
def move (w : TicketWorld) : TicketAction → TicketWorld
  | .wait d => { w with store := { w.store with clock := w.store.clock + d } }
  | .detect id d => { w with store := w.store.insertDiscrepancy id d }
  | .replace id d => { w with store := w.store.invalidateTxAggregate id d }
  | .transition id to' =>
    { w with store := if to' = .closed then w.store else w.store.updateDiscrepancy id to' }
  | .close id now tolerance => { w with store := w.store.closeDiscrepancy id now tolerance }
  | .verify n taskID id =>
    if (w.calls n).idle then
      { w with calls := Function.update w.calls n (.start taskID none (.pending id)) }
    else w
  | .sweep n taskID =>
    if (w.calls n).idle then
      { w with calls := Function.update w.calls n (.start taskID (w.store.cursors taskID) .plan) }
    else w
  | .select n source id =>
    { w with calls := Function.update w.calls n ((w.calls n).select sum256 w.store source id) }
  | .proceed n answer finding =>
    let r := (w.calls n).proceed sum256 w.store answer finding
    ⟨r.1, Function.update w.calls n r.2⟩

def next (w : TicketWorld) (a : TicketAction) : TicketWorld :=
  { w.move sum256 a with store := { (w.move sum256 a).store with step := w.store.step + 1 } }

/-- No ticket, and no call in flight. -/
def initial : TicketWorld := ⟨⟨0, 0, fun _ => none, [], 0, [], [], fun _ => none, []⟩, fun _ => .start 0 none .idle⟩

end TicketWorld

end TxHarbor.Reconciliation
