import TxHarbor.Indexer.Outbox
import TxHarbor.Relational.Locking

open Relational Transition List Option Bool

namespace TxHarbor.Indexer

/-! The single-master lease. Every write transaction of the indexer locks the lease row, checks its
own owner and token on it and holds the lock to its COMMIT. -/

/-- `indexer_lease`. -/
structure LeaseRow where
  owner : String
  fencingToken : Int
  expiresAt : Int
  deriving DecidableEq

/-- `acquireSQL` at `now()`, the start of its transaction: the row it leaves, or none when an
unexpired lease stands. -/
def acquireLease (now : Int) (owner : String) (ttl : Int) : Option LeaseRow → Option LeaseRow
  | none => some ⟨owner, 0, now + ttl⟩
  | some r => if r.expiresAt < now then some ⟨owner, r.fencingToken + 1, now + ttl⟩ else none

/-- `Renew` asks for the owner only, so it also extends a lease that has expired. -/
def renewLease (now : Int) (owner : String) (ttl : Int) : Option LeaseRow → Option LeaseRow
  | none => none
  | some r => if r.owner = owner then some { r with expiresAt := now + ttl } else none

/-- `ensureLeaseSQL`: the row there is to lock. -/
def ensureLease (now : Int) (owner : String) (token ttl : Int) (row : Option LeaseRow) : LeaseRow :=
  row.getD ⟨owner, token, now + ttl⟩

/-- `leaseVerdictSQL`. -/
def LeaseRow.verdict (r : LeaseRow) (owner : String) (token now : Int) : Bool :=
  r.owner == owner && r.fencingToken == token && decide (now < r.expiresAt)

/-- The answer of the verdict a call was built with. The operator's calls ask for none. -/
def Call.held? : Call → Option Bool
  | .commitBlock _ held .. => some held
  | .commitLogRange _ held .. => some held
  | .commitDepositUnit _ _ held .. => some held
  | .confirmDepositUnit _ held .. => some held
  | .establish held .. => some held
  | .confirmAncestor held .. => some held
  | .invalidateBlocks held .. => some held
  | .invalidateObservations held .. => some held
  | .rollback held .. => some held
  | .replayRange held .. => some held
  | .recanonicalize held .. => some held
  | .revive held .. => some held
  | .complete held .. => some held
  | .signalReconcile held .. => some held
  | .note held .. => some held
  | .authorizeRepair .. => none
  | .authorizeRelease .. => none

/-- A transaction of the workers, which waits for the verdict. -/
structure WorkerCall where
  call : Bool → Call
  asks : ∀ held, (call held).held? = some held

/-- What a worker writes: one of the calls, or the rows of a pause. -/
inductive LeaseWork where
  | call (c : WorkerCall)
  | pauses (rows : OperatorRows)

def LeaseWork.run (held : Bool) (l : Ledger) : LeaseWork → Option Ledger
  | .call c =>
    match (c.call held).ledgerBody l with
    | .ok (true, l') => some l'
    | _ => none
  | .pauses rows => if held then some (l.next (.operate rows)) else none

/-- What an operator writes, under the lock and without the verdict. -/
inductive OperatorWork where
  | repair (operator evidence disposition : String)
  | release (operator evidence disposition : String)
  | policies (rows : OperatorRows)

def OperatorWork.action : OperatorWork → Action
  | .repair operator evidence disposition =>
    .submit (.authorizeRepair operator evidence disposition) .none
  | .release operator evidence disposition =>
    .submit (.authorizeRelease operator evidence disposition) .none
  | .policies rows => .operate rows

/-- The transactions over the lease row. The placeholder of an operator may have expired. -/
inductive LeaseJob where
  | acquire (owner : String) (ttl : Int)
  | renew (owner : String) (ttl : Int)
  | write (owner : String) (ttl : Int) (work : LeaseWork)
  | operator (name : String) (ttl : Int) (work : OperatorWork)

/-- The lease row with the indexer's tables. -/
structure LeaseDb where
  lease : Option LeaseRow
  ledger : Ledger

/-- What a job does under the lock. The tokens are those its worker's handle has now. -/
def LeaseJob.decide (tokens : String → Int) (now : Int) (job : LeaseJob) (db : LeaseDb) : Option LeaseDb :=
  match job with
  | .acquire owner ttl => (acquireLease now owner ttl db.lease).map fun r => { db with lease := some r }
  | .renew owner ttl => (renewLease now owner ttl db.lease).map fun r => { db with lease := some r }
  | .write owner ttl work =>
    let r := ensureLease now owner (tokens owner) ttl db.lease
    (work.run (r.verdict owner (tokens owner) now) db.ledger).map fun l => ⟨some r, l⟩
  | .operator name ttl work =>
    some ⟨some (ensureLease now name 0 ttl db.lease), db.ledger.next work.action⟩

abbrev LeaseSession := Session (String → Int) LeaseJob LeaseDb

def LeaseJob.acquires (owner : String) : LeaseJob → Bool
  | .acquire o _ => o == owner
  | _ => false

def LeaseJob.writes (owner : String) : LeaseJob → Bool
  | .write o _ _ => o == owner
  | _ => false

/-- `runStreams`: a worker acquires when all its loops have returned, and starts them when its
`Acquire` has returned. The heartbeat is not waited for. -/
def LeaseJob.may (sessions : List LeaseSession) : LeaseJob → Bool
  | .acquire owner _ =>
    sessions.all fun s => !(s.driven && (s.job.acquires owner || s.job.writes owner))
  | .write owner _ _ => sessions.all fun s => !(s.driven && s.job.acquires owner)
  | .renew .. => true
  | .operator .. => true

/-- `Acquire` stores the token it scanned. -/
def LeaseJob.learn (tokens : String → Int) (job : LeaseJob) (db : LeaseDb) : String → Int :=
  match job with
  | .acquire owner _ => Function.update tokens owner ((db.lease.map (·.fencingToken)).getD 0)
  | _ => tokens

def leaseClients : Clients (String → Int) LeaseJob LeaseDb where
  may := LeaseJob.may
  decide := LeaseJob.decide
  learn := LeaseJob.learn

abbrev LeaseWorld := Locked (String → Int) LeaseJob LeaseDb

/-- An empty schema, and handles that have never won. -/
def LeaseWorld.empty : LeaseWorld := ⟨0, fun _ => 0, ⟨none, Ledger.empty⟩, []⟩

/-- What a committed transaction says about the lease: an acquisition with its token, or a write
begun under a pair. -/
inductive LeaseEvent where
  | took (owner : String) (token : Int)
  | wrote (owner : String) (token : Int)
  deriving DecidableEq

def LeaseSession.event (s : LeaseSession) (result : LeaseDb) : Option LeaseEvent :=
  match s.job with
  | .acquire owner _ => some (.took owner ((result.lease.map (·.fencingToken)).getD 0))
  | .write owner _ _ => some (.wrote owner (s.entered owner))
  | _ => none

def LeaseWorld.emit (w : LeaseWorld) (a : LockAction LeaseJob) : Option LeaseEvent :=
  (w.commits a).bind fun p => LeaseSession.event p.1 p.2

/-- The pair a write transaction that is past its verdict has presented. -/
def LeaseWorld.presented (w : LeaseWorld) (i : Nat) : Option (String × Int) :=
  match w.sessions[i]? with
  | none => none
  | some s =>
    match s.stage, s.job with
    | .decided tokens _, .write owner _ _ => some (owner, tokens owner)
    | _, _ => none

/-- The fence between two committed transactions, the earlier one first: later tokens are larger,
and after an acquisition no transaction of an older pair commits. -/
def LeaseEvent.Fences : LeaseEvent → LeaseEvent → Prop
  | .took _ token, .took _ token' => token < token'
  | .took owner token, .wrote owner' token' => token < token' ∨ token = token' ∧ owner = owner'
  | .wrote .., _ => True

/-- The transaction never goes through. -/
def Refused {A : Type} (body : IndexerTx A) : Prop := ∀ s a s', body s ≠ .ok (a, s')

variable {A B : Type} {call : Call} {held : Bool} {l l' : Ledger} {work : LeaseWork} {token : Int} {owner : String}
  {r : LeaseRow} {job : LeaseJob} {w' : LeaseWorld} {result : LeaseDb}

theorem Refused.bind {body : IndexerTx A} (h : Refused body) (rest : A → IndexerTx B) : Refused (body >>= rest) := by
  intro s b s' hok
  obtain ⟨a, s₁, hbody, -⟩ := Tx.bind_eq_ok.mp hok
  exact h s a s₁ hbody

theorem Refused.after {rest : A → IndexerTx B} (h : ∀ a, Refused (rest a)) (first : IndexerTx A) :
    Refused (first >>= rest) := by
  intro s b s' hok
  obtain ⟨a, s₁, -, hrest⟩ := Tx.bind_eq_ok.mp hok
  exact h a s₁ b s' hrest

theorem leaseVerdict_refused : Refused (leaseVerdict false) := by
  intro s a s' hok
  exact false_ne_true (Tx.require_eq_ok.mp hok).1

theorem openOwned_refused (cap : RecoveryCapture) (allowed : List RecoveryPhase) :
    Refused (openOwned false cap allowed) :=
  leaseVerdict_refused.bind _

open Refused

theorem Call.body_refused (hheld : call.held? = some false) : Refused call.body := by
  -- the verdict follows the tests of the arguments, or is the first statement of the opening
  have hverdict : ∀ {A : Type} (rest : Unit → IndexerTx A), Refused (leaseVerdict false >>= rest) :=
    fun rest => leaseVerdict_refused.bind rest
  cases call with
  | commitBlock | commitLogRange =>
    cases hheld
    exact bind (after (fun _ => after (fun _ => after (fun _ => hverdict _) _) _) _) _
  | commitDepositUnit =>
    cases hheld
    exact bind (after (fun _ => after (fun _ => hverdict _) _) _) _
  | establish =>
    cases hheld
    exact bind (after (fun _ => hverdict _) _) _
  | confirmDepositUnit =>
    cases hheld
    refine after (fun _ => after (fun _ => after (fun _ => ?_) _) _) _
    exact after (fun _ => hverdict _) _
  | signalReconcile =>
    cases hheld
    exact hverdict _
  | confirmAncestor | invalidateBlocks | invalidateObservations | rollback | recanonicalize | complete | note =>
    cases hheld
    exact bind (bind (openOwned_refused _ _) _) _
  | replayRange =>
    cases hheld
    exact after (fun _ => bind (openOwned_refused _ _) _) _
  | revive =>
    cases hheld
    exact bind (openOwned_refused _ _) _
  | authorizeRepair | authorizeRelease => cases hheld

/-- No transaction of a worker goes through without the verdict. -/
theorem Call.body_held {s s' : Store} {commits : Bool} (h : call.body s = .ok (commits, s')) :
    call.held? ≠ some false :=
  fun hheld => Call.body_refused hheld s commits s' h

open LeaseWork

theorem LeaseWork.run_held (h : work.run held l = some l') : held = true := by
  cases work with
  | pauses rows =>
    cases held with
    | true => rfl
    | false => simp [run] at h
  | call c =>
    simp only [run] at h
    split at h
    next l₁ hbody =>
      have hheld := Call.body_held (Call.ledgerBody_eq_ok.mp hbody).1
      rw [c.asks] at hheld
      simpa using hheld
    · cases h

/-- The lease row before and after a transaction: tokens never go down and a token has one owner.
An acquisition raises the token, and a write leaves the row of its own pair. -/
structure RowAfter (tokens : String → Int) (job : LeaseJob) (row : Option LeaseRow) (r' : LeaseRow) :
    Prop where
  kept : ∀ r, row = some r → r.fencingToken < r'.fencingToken ∨ r.fencingToken = r'.fencingToken ∧ r.owner = r'.owner
  acquired : ∀ owner ttl, job = .acquire owner ttl →
    r'.owner = owner ∧ ∀ r, row = some r → r.fencingToken < r'.fencingToken
  written : ∀ owner ttl work, job = .write owner ttl work →
    r'.owner = owner ∧ r'.fencingToken = tokens owner ∧ ∀ r, row = some r → r = r'

variable {now : Int} {tokens : String → Int} {w : LeaseWorld} {i : Nat} {s : LeaseSession} {past : List LeaseEvent}

theorem ensureLease_kept {ttl : Int} {row : Option LeaseRow} (h : row = some r) :
    r = ensureLease now owner token ttl row := by
  rw [h]
  rfl

theorem LeaseRow.verdict_eq_true (h : r.verdict owner token now = true) : r.owner = owner ∧ r.fencingToken = token := by
  simp only [LeaseRow.verdict, and_eq_true, beq_iff_eq] at h
  exact h.1

theorem LeaseJob.decide_row {db db' : LeaseDb} (h : job.decide tokens now db = some db') :
    ∃ r', db'.lease = some r' ∧ RowAfter tokens job db.lease r' := by
  cases job with
  | acquire owner ttl =>
    obtain ⟨r', hacquire, rfl⟩ := map_eq_some_iff.mp h
    refine ⟨r', rfl, ?_⟩
    cases hrow : db.lease with
    | none =>
      rw [hrow] at hacquire
      cases hacquire
      exact ⟨by simp, by simp, by simp⟩
    | some r =>
      simp only [acquireLease, hrow] at hacquire
      split at hacquire
      · cases hacquire
        have hraised : ∀ r₀, some r = some r₀ → r₀.fencingToken < r.fencingToken + 1 := fun r₀ hr => by
          cases hr
          omega
        refine ⟨fun r₀ hr => .inl (hraised r₀ hr), ?_, by simp⟩
        rintro _ _ ⟨⟩
        exact ⟨rfl, hraised⟩
      · cases hacquire
  | renew owner ttl =>
    obtain ⟨r', hrenew, rfl⟩ := map_eq_some_iff.mp h
    refine ⟨r', rfl, ?_⟩
    cases hrow : db.lease with
    | none => simp [hrow, renewLease] at hrenew
    | some r =>
      simp only [renewLease, hrow] at hrenew
      split at hrenew
      · cases hrenew
        exact ⟨by simp, by simp, by simp⟩
      · cases hrenew
  | write owner ttl work =>
    obtain ⟨l, hrun, rfl⟩ := map_eq_some_iff.mp h
    obtain ⟨howner, htoken⟩ := LeaseRow.verdict_eq_true (run_held hrun)
    refine ⟨_, rfl, fun r hr => ?_, by simp, ?_⟩
    · rw [← ensureLease_kept hr]
      exact .inr ⟨rfl, rfl⟩
    · rintro _ _ _ ⟨⟩
      exact ⟨howner, htoken, fun r hr => ensureLease_kept hr⟩
  | operator name ttl work =>
    cases h
    refine ⟨_, rfl, fun r hr => ?_, by simp, by simp⟩
    rw [← ensureLease_kept hr]
    exact .inr ⟨rfl, rfl⟩

/-- The tokens of the handles beside the driven sessions: a writing worker still has the token it
began with, and no other session of an acquiring worker presents one. -/
structure HandlesKept (w : LeaseWorld) : Prop where
  token : ∀ {i : Nat} {s : LeaseSession} {owner : String}, w.sessions[i]? = some s →
    s.driven = true → s.job.writes owner = true → w.env owner = s.entered owner
  apart : ∀ {i j : Nat} {s t : LeaseSession} {owner : String}, w.sessions[i]? = some s →
    w.sessions[j]? = some t → s.driven = true → t.driven = true → s.job.acquires owner = true →
      (t.job.acquires owner || t.job.writes owner) = true → j = i
  presented : ∀ {i : Nat} {s : LeaseSession} {tokens : String → Int} {result : LeaseDb} {owner : String},
    w.sessions[i]? = some s → s.stage = .decided tokens result → s.job.writes owner = true →
      tokens owner = s.entered owner

/-- Changing how far a session has come, not its job, keeps the handles. -/
theorem HandlesKept.set (h : HandlesKept w) {s' : LeaseSession} (hopen : w.sessions[i]? = some s)
    (hjob : s'.job = s.job) (hentered : s'.entered = s.entered) (hdriven : s'.driven = true → s.driven = true)
    (hpresented : ∀ tokens result owner, s'.stage = .decided tokens result →
      s'.job.writes owner = true → tokens owner = s'.entered owner) :
    HandlesKept { w with sessions := w.sessions.set i s' } := by
  have hsame : ∀ {j : Nat} {t : LeaseSession}, (w.sessions.set i s')[j]? = some t →
      ∃ t', w.sessions[j]? = some t' ∧ t'.job = t.job ∧ t'.entered = t.entered ∧
        (t.driven = true → t'.driven = true) := fun hj => by
    rcases getElem?_set_eq_some hj with ⟨rfl, rfl⟩ | ⟨-, hj⟩
    · exact ⟨s, hopen, hjob.symm, hentered.symm, hdriven⟩
    · exact ⟨_, hj, rfl, rfl, id⟩
  refine ⟨fun hj hlive hwrites => ?_, fun hj hk hlive hlive' hacquires huses => ?_, fun hj hstage hwrites => ?_⟩
  · obtain ⟨t', hj', hjob', hentered', hdriven'⟩ := hsame hj
    rw [← hentered']
    exact h.token hj' (hdriven' hlive) (by rwa [hjob'])
  · obtain ⟨t', hj', hjob', -, hdriven'⟩ := hsame hj
    obtain ⟨u', hk', hjob'', -, hdriven''⟩ := hsame hk
    exact h.apart hj' hk' (hdriven' hlive) (hdriven'' hlive') (by rwa [hjob'])
      (by rwa [hjob''])
  · rcases getElem?_set_eq_some hj with ⟨rfl, rfl⟩ | ⟨-, hj⟩
    · exact hpresented _ _ _ hstage hwrites
    · exact h.presented hj hstage hwrites

open LeaseJob

theorem HandlesKept.started (h : HandlesKept w) (hmay : job.may w.sessions = true) :
    HandlesKept { w with sessions := w.sessions ++ [⟨job, w.clock, w.env, true, .waiting⟩] } := by
  -- A driven session beside the new one cannot present a token that an acquisition would change.
  have hfree : ∀ (owner : String) {j : Nat} {t : LeaseSession}, w.sessions[j]? = some t →
      t.driven = true → (job.acquires owner = true → (t.job.acquires owner || t.job.writes owner) = false) ∧
        (job.writes owner = true → t.job.acquires owner = false) := by
    intro owner j t hj hlive
    have hmem := mem_of_getElem? hj
    cases job with
    | acquire o ttl =>
      have := all_eq_true.mp hmay t hmem
      refine ⟨fun hown => ?_, by simp [writes]⟩
      rw [show o = owner by simpa [acquires] using hown] at this
      simpa [hlive] using this
    | write o ttl work =>
      have := all_eq_true.mp hmay t hmem
      refine ⟨by simp [acquires], fun hown => ?_⟩
      rw [show o = owner by simpa [writes] using hown] at this
      simpa [hlive] using this
    | renew o ttl | operator name ttl work => simp [acquires, writes]
  refine ⟨fun hj hlive hwrites => ?_, fun {i j s t owner} hi hj hlive hlive' hacquires huses => ?_,
    fun hj hstage hwrites => ?_⟩
  · rcases getElem?_append_eq_some hj with hj | ⟨-, rfl⟩
    · exact h.token hj hlive hwrites
    · rfl
  · rcases getElem?_append_eq_some hi with hi | ⟨hlast, rfl⟩
    · rcases getElem?_append_eq_some hj with hj | ⟨-, rfl⟩
      · exact h.apart hi hj hlive hlive' hacquires huses
      · obtain ⟨hacquire, hwrite⟩ := hfree owner hi hlive
        rcases or_eq_true_iff.mp huses with hown | hown
        · simp [hacquires] at hacquire
          simp [hacquire] at hown
        · simp [hwrite hown] at hacquires
    · rcases getElem?_append_eq_some hj with hj | ⟨hlast', -⟩
      · have := (hfree owner hj hlive').1 hacquires
        rw [this] at huses
        cases huses
      · rw [hlast, hlast']
  · rcases getElem?_append_eq_some hj with hj | ⟨-, rfl⟩
    · exact h.presented hj hstage hwrites
    · cases hstage

open Session

theorem HandlesKept.step {a : LockAction LeaseJob} (h : HandlesKept w) (hstep : Locked.Step leaseClients w a w') :
    HandlesKept w' := by
  cases hstep with
  | idle clock hsilent => exact ⟨h.token, h.apart, h.presented⟩
  | started permitted => exact h.started permitted
  | @granted i s hopen hwaiting hfree =>
    exact h.set hopen rfl rfl (fun hdriven => by simpa [driven, hwaiting] using hdriven) (by simp)
  | @decided i s result hopen hholding hattended hdecision =>
    have hdriven : s.driven = true := by
      cases hstage : s.stage with
      | ended => simp [hstage, Stage.locks] at hholding
      | _ => simp [driven, hstage, hattended]
    refine h.set hopen rfl rfl (fun _ => hdriven) fun tokens result' owner hstage hwrites => ?_
    have howns : s.job.writes owner = true := hwrites
    have hkept := h.token hopen hdriven howns
    cases hstage
    exact hkept
  | ended hopen hsilent => exact h.set hopen rfl rfl (by simp [driven]) (by simp)
  | @abandoned i s hopen =>
    refine h.set hopen rfl rfl (fun hdriven => ?_) fun tokens result owner hstage hwrites => ?_
    · cases hstage : s.stage <;> simp [driven, hstage] at hdriven
    · have hdecided : s.stage = .decided tokens result := hstage
      have howns : s.job.writes owner = true := hwrites
      have hkept := h.presented hopen hdecided howns
      exact hkept
  | @committed i told s tokens result hopen hdecision =>
    have hkept : HandlesKept (w.move i s .ended) := h.set hopen rfl rfl (by simp [driven]) (by simp)
    refine ⟨fun {j t owner} hj hlive hwrites => ?_, hkept.apart, hkept.presented⟩
    rw [← hkept.token hj hlive hwrites]
    -- Only an acquisition its worker hears of changes a handle, and that worker has no other session.
    split
    next htold =>
      cases hjob : s.job with
      | acquire o ttl =>
        refine Function.update_of_ne ?_ _ _
        rintro rfl
        rcases getElem?_set_eq_some hj with ⟨rfl, rfl⟩ | ⟨hne, hj⟩
        · simp [driven] at hlive
        · have hdriven : s.driven = true := by
            simp only [and_eq_true] at htold
            simp [driven, hdecision, htold.2]
          have hacquires : s.job.acquires owner = true := by simp [hjob, acquires]
          exact hne (h.apart hopen hj hdriven hlive hacquires (by simp [hwrites]))
      | _ => rfl
    · rfl

/-- The fence as an invariant of a state and of the events that led to it: the lease row stands at
or above every acquisition. -/
structure Fenced (w : LeaseWorld) (past : List LeaseEvent) : Prop where
  serial : Locked.Serial leaseClients w
  handles : HandlesKept w
  floor : ∀ owner token, .took owner token ∈ past → ∃ r, w.data.lease = some r ∧
    (token < r.fencingToken ∨ token = r.fencingToken ∧ owner = r.owner)
  ordered : past.Pairwise LeaseEvent.Fences

/-- The event of a committed transaction names the row it leaves. -/
theorem Fenced.event (h : Fenced w past) (hopen : w.sessions[i]? = some s)
    (hdecision : s.stage = .decided tokens result) {r' : LeaseRow} (hr' : result.lease = some r')
    (hafter : RowAfter tokens s.job w.data.lease r') {e : LeaseEvent} (he : LeaseSession.event s result = some e) :
    (e = .took r'.owner r'.fencingToken ∧ ∀ r, w.data.lease = some r → r.fencingToken < r'.fencingToken) ∨
      e = .wrote r'.owner r'.fencingToken := by
  unfold LeaseSession.event at he
  cases hjob : s.job with
  | acquire owner ttl =>
    simp only [hjob, hr', map_some, getD_some, some.injEq] at he
    obtain ⟨howner, hraised⟩ := hafter.acquired owner ttl hjob
    exact .inl ⟨by rw [← he, howner], hraised⟩
  | write owner ttl work =>
    simp only [hjob, some.injEq] at he
    obtain ⟨howner, htoken, -⟩ := hafter.written owner ttl work hjob
    have howns : s.job.writes owner = true := by simp [hjob, writes]
    have hpresented := h.handles.presented hopen hdecision howns
    exact .inr (by rw [← he, howner, htoken, hpresented])
  | renew owner ttl => simp [hjob] at he
  | operator name ttl work => simp [hjob] at he

theorem Fenced.committed (h : Fenced w past) (hopen : w.sessions[i]? = some s)
    (hdecision : s.stage = .decided tokens result) (hserial : Locked.Serial leaseClients w')
    (hhandles : HandlesKept w') (hdata : w'.data = result) :
    Fenced w' (past ++ (LeaseSession.event s result).toList) := by
  obtain ⟨r', hr', hafter⟩ := decide_row (h.serial.current hopen hdecision)
  have hbelow : ∀ owner token, .took owner token ∈ past →
      token < r'.fencingToken ∨ token = r'.fencingToken ∧ owner = r'.owner := by
    intro owner token hmem
    obtain ⟨r, hr, hbound⟩ := h.floor owner token hmem
    rcases hafter.kept r hr with hraised | ⟨hsame, howner⟩
    · exact .inl (by omega)
    · rwa [← hsame, ← howner]
  refine ⟨hserial, hhandles, fun owner token hmem => ⟨r', by rw [hdata, hr'], ?_⟩, ?_⟩
  · rcases mem_append.mp hmem with hold | hnew
    · exact hbelow owner token hold
    · rcases h.event hopen hdecision hr' hafter (mem_toList.mp hnew) with ⟨heq, -⟩ | heq
      · cases heq
        exact .inr ⟨rfl, rfl⟩
      · cases heq
  · refine pairwise_append.mpr ⟨h.ordered, ?_, fun e he e' he' => ?_⟩
    · cases LeaseSession.event s result <;> simp
    · cases e with
      | wrote owner token => trivial
      | took owner token =>
        rcases h.event hopen hdecision hr' hafter (mem_toList.mp he') with ⟨rfl, hraised⟩ | rfl
        · obtain ⟨r, hr, hbound⟩ := h.floor owner token he
          have := hraised r hr
          change token < r'.fencingToken
          omega
        · exact hbelow owner token he

open LeaseWorld Locked

theorem Fenced.next (h : Fenced w past) (a : LockAction LeaseJob) :
    Fenced (w.next leaseClients a) (past ++ (w.emit a).toList) := by
  have hstep := next_step leaseClients w a
  have hserial := h.serial.step hstep
  have hhandles := h.handles.step hstep
  generalize w.next leaseClients a = w' at hstep hserial hhandles
  have hquiet : w'.data = w.data → w.emit a = none → Fenced w' (past ++ (w.emit a).toList) := fun hdata hnone => by
      rw [hnone, toList_none, append_nil]
      exact ⟨hserial, hhandles, by rw [hdata]; exact h.floor, h.ordered⟩
  cases hstep with
  | idle clock hsilent | ended hopen hsilent => exact hquiet rfl (by simp [emit, hsilent])
  | started permitted => exact hquiet rfl rfl
  | granted hopen hwaiting hfree => exact hquiet rfl rfl
  | decided hopen hholding hattended hdecision => exact hquiet rfl rfl
  | abandoned hopen => exact hquiet rfl rfl
  | @committed i told s tokens result hopen hdecision =>
    have hemit : w.emit (.commit i told) = LeaseSession.event s result := by
      simp only [emit, commits, hopen, hdecision, bind_some]
    rw [hemit]
    exact h.committed hopen hdecision hserial hhandles rfl

theorem Fenced.empty : Fenced empty [] where
  serial := Locked.Serial.empty ..
  handles := ⟨by simp [LeaseWorld.empty], by simp [LeaseWorld.empty], by simp [LeaseWorld.empty]⟩
  floor := by simp
  ordered := .nil

theorem LeaseWorld.presented_eq_some {p : String × Int} (h : w.presented i = some p) :
    ∃ s, w.sessions[i]? = some s ∧ s.stage.locks = true := by
  unfold presented at h
  split at h
  · cases h
  next s hopen =>
    split at h
    next hstage hjob => exact ⟨s, hopen, by rw [hstage]; rfl⟩
    · cases h

/-- Whatever acquisitions, renewals, takeovers, lost answers, crashes and write transactions
interleave: the tokens of the acquisitions grow, after an acquisition no transaction begun under an
older pair commits, and at every moment the transactions that are past their verdict have presented
one pair. -/
theorem lease_fences (actions : List (LockAction LeaseJob)) :
    (emitted (Locked.next leaseClients) LeaseWorld.emit LeaseWorld.empty actions).Pairwise LeaseEvent.Fences ∧
      ∀ i j p q, LeaseWorld.presented (run (Locked.next leaseClients) LeaseWorld.empty actions) i = some p →
        LeaseWorld.presented (run (Locked.next leaseClients) LeaseWorld.empty actions) j = some q → p = q := by
  have h : Fenced (run (next leaseClients) empty actions) (emitted (next leaseClients) emit empty actions) :=
    emitted_invariant Fenced.empty (fun w past a hw => hw.next a) actions
  refine ⟨h.ordered, fun i j p q hi hj => ?_⟩
  obtain ⟨s, hs, hlocks⟩ := presented_eq_some hi
  obtain ⟨t, ht, hlocks'⟩ := presented_eq_some hj
  have hij := h.serial.sole hs ht hlocks hlocks'
  subst hij
  exact some.inj (hi.symm.trans hj)

theorem LeaseWork.run_reachable (h : work.run held l = some l') (hl : l.Reachable) : l'.Reachable := by
  cases work with
  | pauses rows =>
    simp only [run] at h
    split at h
    · cases h
      exact hl.step (.operate rows)
    · cases h
  | call c =>
    simp only [run] at h
    split at h
    next l₁ hbody =>
      cases h
      have hnext : l.next (.submit (c.call held) .none) = l' := by
        simp [Ledger.next, Tx.attempt_none_ok hbody]
      rw [← hnext]
      exact hl.step (.submit (c.call held) .none)
    · cases h

/-- The interleaved system has no store the serialized one does not have. -/
theorem LeaseWorld.ledger_reachable (h : Reachable (next leaseClients) empty w) :
    w.data.ledger.Reachable := by
  refine (data_reachable h).2.invariant (I := fun db : LeaseDb => db.ledger.Reachable) ⟨[], rfl⟩ fun db a hdb => ?_
  obtain ⟨tokens, now, job⟩ := a
  unfold atomic
  cases hdecide : leaseClients.decide tokens now job db with
  | none => exact hdb
  | some db' =>
    have hjob : job.decide tokens now db = some db' := hdecide
    cases job with
    | acquire owner ttl | renew owner ttl =>
      obtain ⟨r, -, rfl⟩ := map_eq_some_iff.mp hjob
      exact hdb
    | write owner ttl work =>
      obtain ⟨l, hrun, rfl⟩ := map_eq_some_iff.mp hjob
      exact run_reachable hrun hdb
    | operator name ttl work =>
      cases hjob
      exact hdb.step work.action

theorem ledger_reachable_written : (run (next leaseClients) empty [.start (.acquire "a" 5), .lock 0, .decide 0,
    .commit 0 true, .start (.write "a" 5 (.pauses ⟨none, true, none, .empty, .empty, .empty⟩)), .lock 1, .decide 1,
    .commit 1 true]).data.ledger.Reachable :=
  LeaseWorld.ledger_reachable ⟨_, rfl⟩

end TxHarbor.Indexer
