import TxHarbor.Indexer.Executor
import TxHarbor.Indexer.Committed

open Relational Tx Transition

namespace TxHarbor.Indexer

/-! The header scanner, which records a divergence it has found as a pause, and the trigger of the
recovery loop, which reads that pause. -/

structure PauseInfo extends IndexerPause where
  expected : Hash
  actual : Hash
  deriving DecidableEq

/-- The divergence as it is verified again under the lock. -/
def PauseInfo.stands (p : PauseInfo) (s : Store) : Bool :=
  match p.kind with
  | .hashMismatch => (canonicalHashAt s p.height).any fun stored => stored == p.expected && stored != p.actual
  | .parentMismatch =>
    p.height != 0 && s.checkpoint.any fun c => c.height == p.height - 1 && c.blockHash == p.expected
  | .checkpointChanged => s.checkpoint.any fun c => c.height == p.height && c.blockHash == p.expected

def commitPause (held : Bool) (p : PauseInfo) : IndexerTx Unit := do
  let s ← get
  require (s.indexerPause = none) .paused
  leaseVerdict held
  require (p.stands s = true) .stale
  set { s with indexerPause := some p.toIndexerPause }

/-- Where the scanner stands between two of its reads and writes. -/
inductive Scanner where
  | stopped
  | verifying (cp : BlockCheckpoint)
  | ready (cp : Option BlockCheckpoint)
  | fetched (cp : Option BlockCheckpoint) (w : BlockWrite) (cap : RecoveryCapture)
  | rereading (w : BlockWrite)
  | pausing (p : PauseInfo)
  deriving DecidableEq

/-- The start of `ServeLoop`: another start height and a pause row stop it. -/
def Scanner.start (startHeight : Int) (s : Store) : Scanner :=
  if s.checkpoint.any fun c => c.startHeight != startHeight then .stopped
  else if s.indexerPause.isSome then .stopped
  else
    match s.checkpoint with
    | some cp => .verifying cp
    | none => .ready none

/-- `verifyCheckpoint`. A node without an answer is asked again. -/
def Scanner.verify (answer : Option Hash) : Scanner → Scanner
  | .verifying cp =>
    match answer with
    | none => .verifying cp
    | some actual =>
      if actual ≠ cp.blockHash then .pausing ⟨⟨.checkpointChanged, cp.height⟩, cp.blockHash, actual⟩
      else .ready (some cp)
  | scanner => scanner

/-- The header of the next height with its parent: the first block is not checked against a
predecessor, every other one has to link to the checkpoint. -/
def Scanner.fetch (startHeight : Int) (s : Store) (answer : Option (Hash × Hash)) : Scanner → Scanner
  | .ready cp =>
    let (cap, active) := captureRecoveryVersion s
    match active, answer with
    | false, some (hash, parent) =>
      match cp with
      | none => .fetched none ⟨startHeight, hash, parent, true⟩ cap
      | some c =>
        if parent ≠ c.blockHash then .pausing ⟨⟨.parentMismatch, c.height + 1⟩, c.blockHash, parent⟩
        else .fetched (some c) ⟨c.height + 1, hash, parent, false⟩ cap
    | _, _ => .ready cp
  | scanner => scanner

/-- How the loop goes on after `commitBlock`. A failure it does not know stays on the height. -/
def Scanner.wrote (startHeight : Int) (cp : Option BlockCheckpoint) (w : BlockWrite) :
    Attempt IndexerError Unit → Scanner
  | .committed _ => .ready (some ⟨w.number, w.hash, (cp.map (·.startHeight)).getD startHeight⟩)
  | .failed (.hashMismatch stored actual) => .pausing ⟨⟨.hashMismatch, w.number⟩, stored, actual⟩
  | .failed .paused => .stopped
  | .failed .leaseLost => .stopped
  | .failed .stale => .rereading w
  | .failed (.gate _) => .rereading w
  | .crashed => .stopped
  | _ => .ready cp

/-- The durable state read again: a foreign block at the height just fetched is a divergence. -/
def Scanner.reread (s : Store) : Scanner → Scanner
  | .rereading w =>
    if s.indexerPause.isSome then .stopped
    else
      match s.checkpoint with
      | none => .ready none
      | some c =>
        if c.height = w.number ∧ c.blockHash ≠ w.hash then
          .pausing ⟨⟨.hashMismatch, w.number⟩, c.blockHash, w.hash⟩
        else .ready (some c)
  | scanner => scanner

/-- The store with one scanner beside all other workers. -/
structure ScanWorld where
  store : Store
  scanner : Scanner

def ScanWorld.empty : ScanWorld := ⟨Store.empty, .stopped⟩

inductive ScanAction where
  | other (a : Action)
  | start
  | verify (answer : Option Hash)
  | fetch (answer : Option (Hash × Hash))
  | write (held : Bool) (fault : Fault IndexerError)
  | reread
  | pause (held : Bool) (fault : Fault IndexerError)

def ScanWorld.next (startHeight : Int) (w : ScanWorld) : ScanAction → ScanWorld
  | .other a => { w with store := w.store.next a }
  | .start => { w with scanner := Scanner.start startHeight w.store }
  | .verify answer => { w with scanner := w.scanner.verify answer }
  | .fetch answer => { w with scanner := w.scanner.fetch startHeight w.store answer }
  | .write held fault =>
    match w.scanner with
    | .fetched cp block cap =>
      let attempt := attempt fault (commitBlock startHeight held block cap) (fun _ => true) w.store
      ⟨attempt.2, Scanner.wrote startHeight cp block attempt.1⟩
    | _ => w
  | .reread => { w with scanner := w.scanner.reread w.store }
  | .pause held fault =>
    match w.scanner with
    | .pausing p => ⟨(attempt fault (commitPause held p) (fun _ => true) w.store).2, .stopped⟩
    | _ => w

/-- The step leaves the pause row to the code: operators do not touch it. -/
def ScanAction.KeepsPause (w : ScanWorld) : ScanAction → Prop
  | .other (.operate rows) => rows.indexerPause = w.store.indexerPause
  | _ => True

instance (w : ScanWorld) (a : ScanAction) : Decidable (a.KeepsPause w) := by
  unfold ScanAction.KeepsPause
  split <;> infer_instance

/-- Everything `EstablishRecovery` needs beside the pause: no active round, a persisted tip and a
readable head, an accepted depth, and a version that is left. -/
structure Ready (e : RecoveryExecutor) (view : NodeView) (s : Store) : Prop where
  idle : s.recovery = none
  chain : 0 < e.chainID
  tip : (canonicalTip s).isSome
  head : view.head.isSome
  policy : (bindReorgPolicy s e.maxDepth).toOption.isSome
  version : recoveryEventsMax s + 1 < maxRecoverySeq

instance (e : RecoveryExecutor) (view : NodeView) (s : Store) : Decidable (Ready e view s) :=
  decidable_of_iff (s.recovery = none ∧ 0 < e.chainID ∧ (canonicalTip s).isSome ∧ view.head.isSome ∧
      (bindReorgPolicy s e.maxDepth).toOption.isSome ∧ recoveryEventsMax s + 1 < maxRecoverySeq)
    ⟨fun h => ⟨h.1, h.2.1, h.2.2.1, h.2.2.2.1, h.2.2.2.2.1, h.2.2.2.2.2⟩,
      fun h => ⟨h.idle, h.chain, h.tip, h.head, h.policy, h.version⟩⟩

/-- The recovery loop's next iteration, undisturbed, leaves an active recovery. -/
def TickEstablishes (e : RecoveryExecutor) (view : NodeView) (s : Store) : Prop :=
  (e.serve s ⟨view, [.none]⟩).recovery.isSome = true

instance (e : RecoveryExecutor) (view : NodeView) (s : Store) : Decidable (TickEstablishes e view s) := by
  unfold TickEstablishes
  infer_instance

theorem recoveryEventsMax_nonneg (s : Store) : 0 ≤ recoveryEventsMax s :=
  (Table.le_foldl_max (fun e : RecoveryEvent => e.recoverySeq) s.recoveryEvents.rows 0).1

variable {s : Store} {startHeight : Int} {w : ScanWorld} {scanner : Scanner}

variable {e : RecoveryExecutor} {view : NodeView} {s' : Store} {p : PauseInfo}

open Option

theorem establish_commits (h : Ready e view s) (nanos oldNumber newNumber : Int) (oldHash newHash : Hash) :
    ∃ s', (Call.establish true nanos ⟨e.chainID, oldNumber, oldHash, newNumber, newHash, e.maxDepth⟩).body s
      = .ok (true, s') ∧ s'.recovery.isSome = true := by
  obtain ⟨⟨policy, policies⟩, hpolicy⟩ := isSome_iff_exists.mp h.policy
  have hbind : bindReorgPolicy s e.maxDepth = .ok (policy, policies) := by
    cases hresult : bindReorgPolicy s e.maxDepth with
    | error err => simp [hresult, Except.toOption] at hpolicy
    | ok p =>
      simp only [hresult, Except.toOption, some.injEq] at hpolicy
      rw [hpolicy]
  have hversion : 0 < recoveryEventsMax s + 1 ∧ recoveryEventsMax s + 1 < maxRecoverySeq := by
    have := recoveryEventsMax_nonneg s
    exact ⟨by omega, h.version⟩
  generalize hreq : (⟨e.chainID, oldNumber, oldHash, newNumber, newHash, e.maxDepth⟩ : EstablishRequest) = req
  have hchain : 0 < req.chainID := by
    rw [← hreq]
    exact h.chain
  have hdepth : req.envMaxDepth = e.maxDepth := by rw [← hreq]
  cases hopen : RecoveryRow.open? ⟨req.chainID, req.oldTipNumber, nanos⟩ policy req (recoveryEventsMax s + 1) with
  | none => simp [RecoveryRow.open?, hversion] at hopen
  | some row =>
    obtain ⟨events, hevent⟩ := appendRecoveryEvent_ok row .established
      { s with reorgPolicies := policies, recovery := some row }
    refine ⟨{ s with reorgPolicies := policies, recovery := some row, recoveryEvents := events }, ?_, rfl⟩
    simp only [Call.body, establishRecovery, leaseVerdict, eq_ok]
    refine ⟨⟨row.recoveryID, row.seq, false⟩, _, ⟨(), s, ⟨hchain, rfl⟩, (), s, ⟨trivial, rfl⟩, s, s, ⟨rfl, rfl⟩, ?_⟩,
      rfl, rfl⟩
    simp only [h.idle, eq_ok, lift_eq_ok]
    exact ⟨(policy, policies), s, ⟨by rwa [hdepth], rfl⟩, row, s, ⟨hopen, rfl⟩, (), _, rfl,
      (), _, hevent, rfl, rfl⟩

/-- A loop that has everything else establishes exactly on a hash-mismatch pause. -/
theorem Ready.establishes_iff (h : Ready e view s) :
    TickEstablishes e view s ↔ ∃ q, s.indexerPause = some q ∧ q.kind = .hashMismatch := by
  obtain ⟨tip, htip⟩ := isSome_iff_exists.mp h.tip
  obtain ⟨⟨newNumber, newHash⟩, hhead⟩ := isSome_iff_exists.mp h.head
  have hserve : e.serve s ⟨view, [.none]⟩ = ((tickIdle e view).run Call.body [.none] s).1 := by
    unfold RecoveryExecutor.serve serveTick
    rw [Client.run_get_bind, h.idle]
    rfl
  have hidle : ∀ m : Executor Unit, m = pure () → (m.run Call.body [.none] s).1.recovery.isSome = false := by
    rintro m rfl
    change s.recovery.isSome = false
    rw [h.idle]
    rfl
  unfold TickEstablishes
  rw [hserve, tickIdle, Client.run_get_bind]
  cases hpause : s.indexerPause with
  | none => simpa using hidle (pure ()) rfl
  | some q =>
    rw [htip, hhead]
    simp only [some.injEq, exists_eq_left']
    by_cases hkind : q.kind = .hashMismatch
    · obtain ⟨s', hbody, hsome⟩ := establish_commits h view.nanos tip.number newNumber tip.hash newHash
      simp only [hkind, if_true, iff_true]
      rwa [Client.run_call_bind, attempt_none_ok hbody rfl]
    · simp only [hkind, if_false, iff_false]
      simp [hidle (pure ()) rfl]

/-- The transactions of the indexer never touch the pause row of the headers. -/
theorem Committed.indexerPause {call : Call} (h : Committed s call s') : s'.indexerPause = s.indexerPause := by
  cases h with
  | unitRolledBack stream => cases stream <;> rfl
  | replayed row row' events s₁ s₂ gate ordered rows covered progress =>
    have hrows : s₁.indexerPause = s.indexerPause := by cases rows <;> rfl
    have hprogress : s₂.indexerPause = s₁.indexerPause := by
      cases progress with
      | block => rfl
      | unit u => cases u <;> rfl
    exact hprogress.trans hrows
  | _ => rfl

theorem commitPause_spec {held : Bool} {u : Unit} (h : commitPause held p s = .ok (u, s')) :
    s.indexerPause = none ∧ s' = { s with indexerPause := some p.toIndexerPause } := by
  simp only [commitPause, leaseVerdict, eq_ok] at h
  obtain ⟨_, _, ⟨rfl, rfl⟩, _, _, ⟨hnone, rfl⟩, _, _, ⟨-, rfl⟩, _, _, ⟨-, rfl⟩, rfl⟩ := h
  exact ⟨hnone, rfl⟩

open ScanWorld

/-- A pause row that the code has written stays: the first pause wins, and no transaction deletes
it. -/
theorem ScanWorld.pause_kept {a : ScanAction} (ha : a.KeepsPause w) {q : IndexerPause}
    (h : w.store.indexerPause = some q) : (w.next startHeight a).store.indexerPause = some q := by
  cases a with
  | other a =>
    cases a with
    | operate rows =>
      change rows.indexerPause = some q
      rw [show rows.indexerPause = w.store.indexerPause from ha, h]
    | submit call fault =>
      change (w.store.next (.submit call fault)).indexerPause = some q
      rcases w.store.next_submit call fault with hsame | ⟨s', hbody, hnew⟩
      · rw [hsame, h]
      · rw [hnew, (Call.body_committed hbody).indexerPause, h]
  | start | verify answer | fetch answer | reread => exact h
  | write held fault =>
    simp only [next]
    split
    next cp block cap _ =>
      rcases attempt_store fault (commitBlock startHeight held block cap) (fun _ => true) w.store with
        hsame | ⟨u, s', hbody, -, hnew⟩
      · rw [hsame, h]
      · obtain ⟨-, -, blocks, checkpoint, rfl, -⟩ := commitBlock_spec hbody
        rwa [hnew]
    · exact h
  | pause held fault =>
    simp only [next]
    split
    next p _ =>
      rcases attempt_store fault (commitPause held p) (fun _ => true) w.store with
        hsame | ⟨u, s', hbody, -, hnew⟩
      · rw [hsame, h]
      · exact absurd ((commitPause_spec hbody).1.symm.trans h) (by simp)
    · exact h

/-- A scanner about to pause has two different hashes in hand, unless it is a hash mismatch, whose
difference is checked under the lock. -/
def Scanner.Differs : Scanner → Prop
  | .pausing p => p.kind ≠ .hashMismatch → p.expected ≠ p.actual
  | _ => True

open Scanner

theorem Scanner.wrote_differs {cp : Option BlockCheckpoint} {w : BlockWrite} (answer : Attempt IndexerError Unit) :
    (wrote startHeight cp w answer).Differs := by
  unfold wrote
  split <;> first | trivial | exact fun h => absurd rfl h

theorem Scanner.start_differs (startHeight : Int) (s : Store) : (start startHeight s).Differs := by
  unfold start
  split
  · trivial
  · split
    · trivial
    · split <;> trivial

theorem Scanner.Differs.verify (h : scanner.Differs) (answer : Option Hash) : (scanner.verify answer).Differs := by
  cases scanner with
  | verifying cp =>
    cases answer with
    | none => trivial
    | some actual =>
      simp only [verify]
      split
      next hne => exact fun _ => hne.symm
      · trivial
  | _ => exact h

theorem Scanner.Differs.fetch (h : scanner.Differs) (startHeight : Int) (s : Store) (answer : Option (Hash × Hash)) :
    (scanner.fetch startHeight s answer).Differs := by
  cases scanner with
  | ready cp =>
    simp only [fetch]
    split
    · split
      · trivial
      · split
        next hne => exact fun _ => hne.symm
        · trivial
    · trivial
  | _ => exact h

theorem Scanner.Differs.reread (h : scanner.Differs) (s : Store) : (scanner.reread s).Differs := by
  cases scanner with
  | rereading block =>
    simp only [reread]
    split
    · trivial
    · split
      · trivial
      · split
        · exact fun hkind => absurd rfl hkind
        · trivial
  | _ => exact h

theorem ScanWorld.differs_next (h : w.scanner.Differs) (a : ScanAction) : (w.next startHeight a).scanner.Differs := by
  cases a with
  | other a => exact h
  | start => exact start_differs startHeight w.store
  | verify answer => exact h.verify answer
  | fetch answer => exact h.fetch startHeight w.store answer
  | reread => exact h.reread w.store
  | write held fault =>
    simp only [next]
    split
    · exact wrote_differs _
    · exact h
  | pause held fault =>
    simp only [next]
    split
    · trivial
    · exact h

/-- Every pause the scanner commits comes from a hash of the node that differs from the stored
one. -/
theorem ScanWorld.pause_differs (h : Reachable (ScanWorld.next startHeight) .empty w)
    (hscanner : w.scanner = .pausing p) (hstands : p.stands w.store = true) : p.expected ≠ p.actual := by
  have hdiffers : w.scanner.Differs :=
    h.invariant (I := fun w => w.scanner.Differs) trivial fun w a hw => ScanWorld.differs_next hw a
  rw [hscanner] at hdiffers
  by_cases hkind : p.kind = .hashMismatch
  · simp only [PauseInfo.stands, hkind, any_eq_true, Bool.and_eq_true, beq_iff_eq, bne_iff_ne] at hstands
    obtain ⟨stored, -, rfl, hne⟩ := hstands
    exact hne
  · exact hdiffers hkind

/-- The scanner of a reachable world has just committed the pause. -/
structure ScannerPaused (startHeight : Int) (w : ScanWorld) (q : IndexerPause) : Prop where
  committed : ∃ w₀ held fault, Reachable (next startHeight) empty w₀ ∧
    w₀.store.indexerPause = none ∧ w = w₀.next startHeight (.pause held fault)
  stored : w.store.indexerPause = some q

/-- A pause the scanner has committed leads to a recovery, and to no second one after it, exactly
when it is a hash mismatch and its row is gone by then. While only the code touches the row, that
is never the case. -/
theorem pause_recovered_once_iff {startHeight : Int} {w : ScanWorld} {q : IndexerPause}
    (hpaused : ScannerPaused startHeight w q) {e : RecoveryExecutor} {view view' : NodeView}
    (hready : Ready e view w.store) {later : List ScanAction}
    (hready' : Ready e view' (run (next startHeight) w later).store) :
    (TickEstablishes e view w.store ∧ ¬ TickEstablishes e view' (run (next startHeight) w later).store ↔
      q.kind = .hashMismatch ∧
        ∀ q', (run (next startHeight) w later).store.indexerPause = some q' → q'.kind ≠ .hashMismatch) ∧
    (Along (next startHeight) (fun w a => a.KeepsPause w) w later →
      ¬ (TickEstablishes e view w.store ∧ ¬ TickEstablishes e view' (run (next startHeight) w later).store)) := by
  rw [hready.establishes_iff, hready'.establishes_iff, hpaused.stored]
  refine ⟨by simp, fun hkeeps hboth => ?_⟩
  have hkept : (run (next startHeight) w later).store.indexerPause = some q :=
    invariant_of_along (I := fun w => w.store.indexerPause = some q) hkeeps hpaused.stored
      fun w a ha h => ScanWorld.pause_kept ha h
  rw [hkept] at hboth
  exact hboth.2 hboth.1

namespace Sample

/-- The scanner indexes blocks 100 and 101; the next header does not link to 101. -/
def unlinked : List ScanAction := [.start, .fetch (some (hash 100, hash 99)), .write true .none,
   .fetch (some (hash 101, hash 100)), .write true .none, .fetch (some (hash 202, hash 201))]

/-- The scanner has fetched block 201 for height 1 when another worker indexes 101 there, with its
logs and deposits. The commit is stale, and the state read again shows the divergence. -/
def overtaken : List ScanAction :=
  [.start, .fetch (some (hash 100, hash 99)), .write true .none, .fetch (some (hash 201, hash 100))] ++
    firstFork.tail.map .other ++ [.write true .none, .reread]

def scanned (actions : List ScanAction) : ScanWorld := run (next 0) empty actions

/-- The node's answers to an idle loop: a readable head. -/
def headView : NodeView := { node [] with head := some (2, hash 202) }

theorem scanner_paused {actions : List ScanAction} {q : IndexerPause}
    (hbefore : (scanned actions).store.indexerPause = none)
    (hafter : (scanned (actions ++ [.pause true .none])).store.indexerPause = some q) :
    ScannerPaused 0 (scanned (actions ++ [.pause true .none])) q :=
  ⟨⟨scanned actions, true, .none, ⟨actions, rfl⟩, hbefore, by unfold scanned; rw [run_append]; rfl⟩, hafter⟩

/-- The row is removed by hand while the round that replaces height 1 runs. -/
def removed : List ScanAction := .other (.operate ⟨none, false, none, .empty, .empty, .empty⟩) :: secondFork.map .other

end Sample

open Sample

/-- The hash mismatch leads to one recovery when its row is removed during the round. -/
theorem pause_recovered_once_removed :
    TickEstablishes executor headView (scanned (overtaken ++ [.pause true .none])).store ∧
      ¬ TickEstablishes executor headView (run (next 0) (scanned (overtaken ++ [.pause true .none])) removed).store :=
  (pause_recovered_once_iff (q := ⟨.hashMismatch, 1⟩)
    (scanner_paused (by decide +kernel) (by decide +kernel)) (by decide +kernel)
    (by decide +kernel)).1.mpr ⟨rfl, by
      have hgone : (run (next 0) (scanned (overtaken ++ [.pause true .none])) removed).store.indexerPause =
          none := by decide +kernel
      simp [hgone]⟩

/-- A parent that does not link is recorded as a pause no recovery is established for. A hash
mismatch starts a recovery, and starts another one as soon as the first is completed. -/
theorem pause_unrecovered_or_recovered_again :
    (ScannerPaused 0 (scanned (unlinked ++ [.pause true .none])) ⟨.parentMismatch, 2⟩ ∧
      Ready executor headView (scanned (unlinked ++ [.pause true .none])).store ∧
      ¬ TickEstablishes executor headView (scanned (unlinked ++ [.pause true .none])).store) ∧
    (ScannerPaused 0 (scanned (overtaken ++ [.pause true .none])) ⟨.hashMismatch, 1⟩ ∧
      Ready executor headView (run (next 0) (scanned (overtaken ++ [.pause true .none]))
        (secondFork.map .other)).store ∧
      TickEstablishes executor headView (run (next 0) (scanned (overtaken ++ [.pause true .none]))
        (secondFork.map .other)).store) :=
  ⟨⟨scanner_paused (by decide +kernel) (by decide +kernel), by decide +kernel, by decide +kernel⟩,
    scanner_paused (by decide +kernel) (by decide +kernel), by decide +kernel, by decide +kernel⟩

theorem pause_differs_unlinked : (scanned unlinked).scanner = .pausing ⟨⟨.parentMismatch, 2⟩, hash 101, hash 201⟩ ∧
    Sample.hash 101 ≠ Sample.hash 201 :=
  ⟨rfl, ScanWorld.pause_differs (w := scanned unlinked) ⟨unlinked, rfl⟩ rfl (by decide +kernel)⟩

end TxHarbor.Indexer
