import TxHarbor.Indexer.DepositScan

open Relational Tx

namespace TxHarbor.Indexer

/-! The authorization of a new deposit configuration: reads that plan the transition, then one
transaction that re-verifies the plan under the lock and moves the position back to where the new
configuration matches more than the old one. -/

/-- The digests the configuration identities are computed with. -/
structure Digests where
  depositIdentity : Int → List DepositEntry → List DepositEntry → Hash
  whitelistIdentity : List Address → Hash

/-- `DepositAuthRequest`, with its two snapshots as parsed lines. -/
structure DepositAuthRequest where
  requestID : String
  expectedOldSeq : Int
  operator : String
  reason : String
  newConfigHash : Hash
  newStartBlock : Nat
  newAssets : List DepositEntry
  newWatches : List DepositEntry
  expectedPause : Option PauseTarget
  upstreamHash : Option Hash
  upstreamContracts : List Address
  deriving DecidableEq

/-- `DepositAuthResult`; `released` is the pause disposition. -/
structure DepositAuthResult where
  versionSeq : Int
  replayFrom : Int
  released : Bool
  recorded : Bool
  deriving DecidableEq

/-- What the reads before the transaction fixed. `pause` is the row the disposition was decided
on, and `lo` the low end of the range that is proven again. -/
structure AuthPlan where
  progress : DepositProgress
  latest : DepositVersion
  replay : Int
  pause : Option DepositPause
  dispose : Bool
  lo : Int
  upstreamHash : Hash
  deriving DecidableEq

/-- A request is answered from the record, or planned. -/
inductive AuthOutcome where
  | recorded (result : DepositAuthResult)
  | planned (plan : AuthPlan)
  deriving DecidableEq

/-- The first line of a snapshot that does not follow its predecessor, by its index. -/
def snapshotDisorder : Nat → List DepositEntry → Option Nat
  | i, a :: b :: rest =>
    if a.precedes b && a != b then snapshotDisorder (i + 1) (b :: rest) else some (i + 1)
  | _, _ => none

/-- `parseAuthSnapshot`: the lines of a snapshot are strictly sorted, and never blank. -/
def parseAuthSnapshot (entries : List DepositEntry) (what : String) : Except AuthRefusal Unit :=
  if entries = [] then .error (.snapshotBlank what)
  else
    match snapshotDisorder 0 entries with
    | some line => .error (.snapshotUnsorted what line)
    | none => .ok ()

/-- `readAuthProgress`: the checkpoint and the latest version, which must agree. -/
def readAuthProgress (s : Store) : Except IndexerError (Option (DepositProgress × DepositVersion)) :=
  match s.depositCheckpoint, s.versions.latest (fun _ => true) (·.versionSeq) with
  | none, none => .ok none
  | some c, some v =>
    if c.startBlock = v.startBlock ∧ c.configHash = v.configHash then .ok (some (⟨c, v.versionSeq⟩, v))
    else .error .depositCorruptState
  | _, _ => .error .depositCorruptState

/-- `classifyAuthRequest`: the recorded row of a request. -/
def DepositAuthRequest.record (req : DepositAuthRequest) (s : Store) : Option DepositVersion :=
  s.versions.select fun v => v.requestID == some req.requestID

/-- The recorded intent equals the caller's. -/
def DepositAuthRequest.sameIntent (req : DepositAuthRequest) (v : DepositVersion) : Bool :=
  v.prevSeq == some req.expectedOldSeq && v.configHash == req.newConfigHash &&
    v.startBlock == req.newStartBlock && v.assets == req.newAssets && v.watches == req.newWatches &&
    v.operator == req.operator && v.reason == req.reason && v.expectedPause == req.expectedPause

/-- `recordedAuthResult`. -/
def DepositAuthRequest.recordedResult (req : DepositAuthRequest) (s : Store) (v : DepositVersion) :
    DepositAuthResult where
  versionSeq := v.versionSeq
  replayFrom := v.replayFrom
  released :=
    match req.expectedPause with
    | none => false
    | some target => s.pauseAudits.rows.any fun a => a.pauseID == target.pauseID && a.release
  recorded := true

/-- A recorded request is answered, or refused when its intent differs. -/
def DepositAuthRequest.answer (req : DepositAuthRequest) (s : Store) (v : DepositVersion) :
    Except IndexerError AuthOutcome :=
  if req.sameIntent v then .ok (.recorded (req.recordedResult s v))
  else .error (.authRejected (.otherIntent req.requestID))

/-- The combinations of the new configuration that are new, or all of them when the start is
lowered. -/
def affectedCombinations (newStart oldStart : Int) (oldAssets oldWatches newAssets newWatches : List DepositEntry) :
    List (DepositEntry × DepositEntry) :=
  (newAssets.product newWatches).filter fun c =>
    decide (newStart < oldStart) || !(oldAssets.contains c.1 && oldWatches.contains c.2)

/-- The height from which a combination matches. -/
def combinationStart (newStart : Int) (c : DepositEntry × DepositEntry) : Int :=
  max newStart (max c.1.effective c.2.effective)

/-- `depositAuthReplayFrom`: the replay position and the affected assets. -/
def depositAuthReplayFrom (newStart oldStart : Int)
    (oldAssets oldWatches newAssets newWatches : List DepositEntry) (position : Int) :
    Int × List Address :=
  let affected := affectedCombinations newStart oldStart oldAssets oldWatches newAssets newWatches
  (affected.foldl (fun replay c => min replay (combinationStart newStart c)) position,
    affected.map fun c => c.1.address)

def readAuthUpstream (s : Store) (upstreamHash : Hash) (position : Int) : Except IndexerError StreamCheckpoint :=
  match s.logCheckpoint with
  | none => .error (.authRejected .upstreamMissing)
  | some c =>
    if c.configHash ≠ upstreamHash then .error (.upstreamDrift c.configHash upstreamHash)
    else if c.nextBlock < position then .error .depositCoverageLost
    else .ok c

/-- `authPauseBasis`. -/
structure AuthPauseBasis where
  pause : Option DepositPause
  dispose : Bool
  lo : Int
  gapFrom : Option Int
  deriving DecidableEq

/-- The upper end of the re-proof, an unsigned predecessor. -/
def beforePosition (position : Int) : Int := (position - 1) % 2 ^ 64

/-- The fold over the causes of a pause: every gap must be readable and covered. -/
def foldSegments (pauseID upstreamNext : Int) : List PauseSegment → Int → Option Int →
    Except AuthRefusal (Int × Option Int)
  | [], lo, gapFrom => .ok (lo, gapFrom)
  | segment :: rest, lo, gapFrom =>
    match segment.kind, segment.gap with
    | .upstreamGap, none => .error (.gapUnreadable pauseID)
    | .upstreamGap, some (start, stop) =>
      if upstreamNext ≤ stop then .error (.gapUncovered pauseID start stop upstreamNext)
      else
        foldSegments pauseID upstreamNext rest (min lo start) (some (min (gapFrom.getD start) start))
    | _, _ => foldSegments pauseID upstreamNext rest lo gapFrom

/-- The part of `decideAuthPause` for a live pause whose evidence is in scope: every cause must be
resolved, and then the explicit target is required. -/
def disposeAuthPause (req : DepositAuthRequest) (s : Store) (pause : DepositPause)
    (position upstreamNext replay : Int) : Except AuthRefusal AuthPauseBasis :=
  match foldSegments pause.pauseID upstreamNext pause.segments replay none with
  | .error e => .error e
  | .ok (lo, gapFrom) =>
    match authReproveRange s lo (beforePosition position), req.expectedPause with
    | .error _, _ => .error (.evidenceOpen pause.pauseID)
    | .ok (), none => .error (.targetRequired pause.pauseID)
    | .ok (), some target =>
      if target = pause.toPauseTarget then .ok ⟨some pause, true, lo, gapFrom⟩
      else .error (.targetReplaced target pause.toPauseTarget)

def decideAuthPause (req : DepositAuthRequest) (s : Store) (position upstreamNext replay : Int) :
    Except AuthRefusal AuthPauseBasis :=
  if s.logPause then .error (.upstreamPaused "log_pause")
  else if s.indexerPause.isSome then .error (.upstreamPaused "indexer_pause")
  else
    match s.depositPause, req.expectedPause with
    | none, some target => .error (.targetUnmatched target)
    | none, none => .ok ⟨none, false, replay, none⟩
    | some pause, target =>
      if pause.needsRecovery then
        if target.isSome then .error (.targetNeedsRecovery pause.pauseID)
        else .ok ⟨some pause, false, replay, none⟩
      else disposeAuthPause req s pause position upstreamNext replay

/-- The checks of a new request that need no row but the version it starts from. -/
def DepositAuthRequest.screen (req : DepositAuthRequest) (digests : Digests)
    (latest : DepositVersion) (configHash : Hash) : Except IndexerError Unit := do
  (parseAuthSnapshot req.newAssets "assets").mapError .authRejected
  (parseAuthSnapshot req.newWatches "watches").mapError .authRejected
  let derived := digests.depositIdentity req.newStartBlock req.newAssets req.newWatches
  if derived ≠ req.newConfigHash then
    throw (.authRejected (.otherIdentity derived req.newConfigHash))
  (parseAuthSnapshot latest.assets "stored assets").mapError fun _ => .depositCorruptState
  (parseAuthSnapshot latest.watches "stored watches").mapError fun _ => .depositCorruptState
  if req.expectedOldSeq ≠ latest.versionSeq then
    throw (.authExpired req.expectedOldSeq (some latest.versionSeq))
  if req.newConfigHash = configHash then throw (.authRejected .emptyChange)

/-- The upstream identity a request names, recomputed from its contracts. -/
def DepositAuthRequest.upstream (req : DepositAuthRequest) (digests : Digests) : Except AuthRefusal Hash :=
  let derived := digests.whitelistIdentity req.upstreamContracts
  if req.upstreamContracts = [] then .error .emptyWhitelist
  else
    match req.upstreamHash with
    | some supplied => if derived = supplied then .ok derived else .error (.otherWhitelist derived supplied)
    | none => .ok derived

/-- The reads and verdicts of a new request up to its plan. -/
def DepositAuthRequest.plan (req : DepositAuthRequest) (digests : Digests) (s : Store)
    (progress : DepositProgress) (latest : DepositVersion) : Except IndexerError AuthPlan := do
  let position := progress.checkpoint.nextBlock
  req.screen digests latest progress.checkpoint.configHash
  let upstreamHash ← (req.upstream digests).mapError .authRejected
  let up ← readAuthUpstream s upstreamHash position
  let (replay, affected) := depositAuthReplayFrom req.newStartBlock latest.startBlock latest.assets
    latest.watches req.newAssets req.newWatches position
  if replay < up.startBlock then throw (.authRejected (.belowUpstreamStart replay up.startBlock))
  match affected.find? fun asset => !(req.upstreamContracts.contains asset) with
  | some asset => throw (.authRejected (.assetNotIndexed asset))
  | none =>
    let basis ← (decideAuthPause req s position up.nextBlock replay).mapError .authRejected
    -- A disposed gap was never consumed, so its start folds into the position.
    pure { progress := progress, latest := latest, replay := min replay (basis.gapFrom.getD replay),
           pause := basis.pause, dispose := basis.dispose, lo := basis.lo,
           upstreamHash := upstreamHash }

/-- `authorizeDepositConfig` before its transaction. -/
def DepositAuthRequest.prepare (req : DepositAuthRequest) (digests : Digests) (s : Store) :
    Except IndexerError AuthOutcome :=
  if req.requestID = "" then .error (.authRejected .emptyRequest)
  else if req.operator = "" ∨ req.reason = "" then .error (.authRejected .auditFields)
  else
    match readAuthProgress s, req.record s with
    | .error _, some v => req.answer s v
    | .error e, none => .error e
    | .ok none, _ => .error (.authRejected .noSourceVersion)
    | .ok (some _), some v => req.answer s v
    | .ok (some (progress, latest)), none =>
      (req.plan digests s progress latest).map AuthOutcome.planned

/-- The basis of a plan still stands: identity, position and version. -/
def AuthPlan.Current (plan : AuthPlan) (progress : DepositProgress) (latest : DepositVersion) : Prop :=
  progress.checkpoint.startBlock = plan.progress.checkpoint.startBlock ∧
    progress.checkpoint.configHash = plan.progress.checkpoint.configHash ∧
    progress.checkpoint.nextBlock = plan.progress.checkpoint.nextBlock ∧
    latest.versionSeq = plan.latest.versionSeq

instance (plan : AuthPlan) (progress : DepositProgress) (latest : DepositVersion) :
    Decidable (plan.Current progress latest) := by
  unfold AuthPlan.Current
  infer_instance

def reverifyAuthUnderLock (digests : Digests) (req : DepositAuthRequest) (plan : AuthPlan) : IndexerTx Unit := do
  let s ← get
  let current ← lift id (readAuthProgress s)
  let (progress, latest) ← demand .depositCorruptState current
  require (plan.Current progress latest) (.authExpired req.expectedOldSeq none)
  require (digests.depositIdentity req.newStartBlock req.newAssets req.newWatches = req.newConfigHash)
    (.authRejected .identityUnderLock)
  let _ ← lift id (readAuthUpstream s plan.upstreamHash plan.progress.checkpoint.nextBlock)
  lift (fun _ => .authRejected .proofUnderLock)
    (authReproveRange s plan.lo (beforePosition plan.progress.checkpoint.nextBlock))
  let live := s.depositPause.map (·.toPauseTarget)
  require (plan.pause.map (·.toPauseTarget) = live)
    (.authRejected (.pauseUnderLock (plan.pause.map (·.toPauseTarget)) live))
  require (s.logPause = false) (.authRejected (.upstreamPausedUnderLock "log_pause"))
  require (s.indexerPause = none) (.authRejected (.upstreamPausedUnderLock "indexer_pause"))
  require (plan.dispose = true ∨ req.expectedPause.isSome = true →
      req.expectedPause.isSome = true ∧ req.expectedPause = live)
    (.authRejected .targetUnderLock)
  require (req.newConfigHash ≠ progress.checkpoint.configHash) (.authRejected .emptyChangeUnderLock)

/-- The row `insertAuthHistorySQL` writes. -/
def DepositAuthRequest.version (req : DepositAuthRequest) (plan : AuthPlan) : DepositVersion where
  versionSeq := plan.latest.versionSeq + 1
  configHash := req.newConfigHash
  prevSeq := some plan.latest.versionSeq
  startBlock := req.newStartBlock
  assets := req.newAssets
  watches := req.newWatches
  replayFrom := plan.replay
  operator := req.operator
  reason := req.reason
  requestID := some req.requestID
  expectedPause := if plan.dispose then req.expectedPause else none

/-- The checkpoint `advanceAuthCheckpointSQL` leaves, unless its CHECK forbids it. The exact guard
on the old basis was just verified under the same lock. -/
def DepositAuthRequest.checkpoint? (req : DepositAuthRequest) (plan : AuthPlan) : Option StreamCheckpoint :=
  if h : (req.newStartBlock : Int) ≤ plan.replay then
    some ⟨req.newStartBlock, req.newConfigHash, plan.replay, h⟩
  else none

/-- `deleteAuthPause`, or the row as it is when the plan retains it. -/
def releaseAuthPause (req : DepositAuthRequest) (plan : AuthPlan) (s : Store) : Except IndexerError Store :=
  match plan.dispose, plan.pause with
  | true, some pause =>
    if s.depositPause.map (·.toPauseTarget) = some pause.toPauseTarget then
      match s.pauseAudits.insert?
          ⟨pause.toPauseTarget, true, req.operator, req.reason, plan.latest.versionSeq + 1⟩ with
      | none => .error (.message "insert auth pause audit")
      | some audits => .ok { s with depositPause := none, pauseAudits := audits }
    else .error (.authRejected (.pauseUnderDelete pause.toPauseTarget))
  | true, none => .error .nilDereference
  | false, _ => .ok s

/-- `authorizeDepositConfig` under the lock. -/
def authorizeDepositConfig (digests : Digests) (req : DepositAuthRequest) (plan : AuthPlan) :
    IndexerTx DepositAuthResult := do
  reverifyAuthUnderLock digests req plan
  let s ← get
  let versions ← demand (.authRejected (.duplicateRace req.requestID)) (s.versions.insert? (req.version plan))
  let checkpoint ← demand (.message "advance auth checkpoint") (req.checkpoint? plan)
  let s' ← lift id (releaseAuthPause req plan { s with versions := versions, depositCheckpoint := some checkpoint })
  set s'
  pure ⟨plan.latest.versionSeq + 1, plan.replay, plan.dispose, false⟩

variable {s : Store} {v : DepositVersion} {req : DepositAuthRequest} {digests : Digests} {plan : AuthPlan} {s' : Store}

theorem readAuthProgress_eq_some {p : DepositProgress} (h : readAuthProgress s = .ok (some (p, v))) :
    s.depositCheckpoint = some p.checkpoint ∧ s.versions.latest (fun _ => true) (·.versionSeq) = some v ∧
        p.checkpoint.startBlock = v.startBlock ∧ p.checkpoint.configHash = v.configHash := by
  unfold readAuthProgress at h
  split at h
  · cases h
  next c latest hc hv =>
    split at h
    next hsame =>
      cases h
      exact ⟨hc, hv, hsame⟩
    · cases h
  · cases h

theorem mem_affectedCombinations {newStart oldStart : Int}
    {oldAssets oldWatches newAssets newWatches : List DepositEntry} {a w : DepositEntry} :
    (a, w) ∈ affectedCombinations newStart oldStart oldAssets oldWatches newAssets newWatches ↔
      (a ∈ newAssets ∧ w ∈ newWatches) ∧ (newStart < oldStart ∨ ¬ (a ∈ oldAssets ∧ w ∈ oldWatches)) := by
  unfold affectedCombinations
  rw [List.mem_filter, List.pair_mem_product]
  simp [imp_iff_not_or]

open Table

/-- The replay position is at most the current one, and at most the start of every affected
combination. -/
theorem depositAuthReplayFrom_le (newStart oldStart : Int)
    (oldAssets oldWatches newAssets newWatches : List DepositEntry) (position : Int) :
    (depositAuthReplayFrom newStart oldStart oldAssets oldWatches newAssets newWatches position).1 ≤ position ∧
      ∀ c ∈ affectedCombinations newStart oldStart oldAssets oldWatches newAssets newWatches,
        (depositAuthReplayFrom newStart oldStart oldAssets oldWatches newAssets newWatches position).1 ≤
          combinationStart newStart c :=
  foldl_min_le (combinationStart newStart) _ _

/-- What a planned request knows: the version it starts from, and a position that no affected
combination reaches below. -/
structure PlanSound (req : DepositAuthRequest) (plan : AuthPlan) (s : Store) : Prop where
  latest : plan.latest ∈ s.versions.rows
  replay : plan.replay ≤ (depositAuthReplayFrom req.newStartBlock plan.latest.startBlock
    plan.latest.assets plan.latest.watches req.newAssets req.newWatches
    plan.progress.checkpoint.nextBlock).1

open DepositAuthRequest

theorem DepositAuthRequest.plan_eq_ok {progress : DepositProgress} {latest : DepositVersion}
    (h : req.plan digests s progress latest = .ok plan) :
    plan.latest = latest ∧ plan.progress = progress ∧
      plan.replay ≤ (depositAuthReplayFrom req.newStartBlock latest.startBlock latest.assets
        latest.watches req.newAssets req.newWatches progress.checkpoint.nextBlock).1 := by
  simp only [DepositAuthRequest.plan, except_eq_ok] at h
  obtain ⟨u, -, upstreamHash, -, up, -, h⟩ := h
  generalize hfrom : depositAuthReplayFrom (↑req.newStartBlock) latest.startBlock latest.assets
    latest.watches req.newAssets req.newWatches progress.checkpoint.nextBlock = found at h ⊢
  obtain ⟨replay, affected⟩ := found
  simp only at h ⊢
  iterate 2 (split at h; · cases h)
  simp only [except_eq_ok] at h
  obtain ⟨basis, -, rfl⟩ := h
  exact ⟨rfl, rfl, min_le_left _ _⟩

/-- A planned request is sound where it was planned. -/
theorem DepositAuthRequest.prepare_sound (h : req.prepare digests s = .ok (.planned plan)) : PlanSound req plan s := by
  unfold prepare at h
  have hanswer : ∀ v, req.answer s v ≠ .ok (.planned plan) := fun v hv => by
    unfold answer at hv
    split at hv <;> cases hv
  iterate 2 (split at h; · cases h)
  split at h
  · exact absurd h (hanswer _)
  · cases h
  · cases h
  · exact absurd h (hanswer _)
  next progress latest hprogress hrecord =>
    cases hplan : req.plan digests s progress latest with
    | error e => simp [hplan, Except.map] at h
    | ok plan' =>
      simp only [hplan, Except.map, Except.ok.injEq, AuthOutcome.planned.injEq] at h
      subst h
      obtain ⟨hlatest, hsame, hreplay⟩ := plan_eq_ok hplan
      obtain ⟨-, hv, -, -⟩ := readAuthProgress_eq_some hprogress
      refine ⟨?_, ?_⟩
      · rw [hlatest]
        exact (latest_eq_some hv).1
      · rwa [hlatest, hsame]

/-- Everything a committed authorization has checked and done to the stream. -/
structure Authorized (req : DepositAuthRequest) (plan : AuthPlan) (s s' : Store)
    (c : StreamCheckpoint) (v : DepositVersion) : Prop where
  checkpoint : s.depositCheckpoint = some c
  latest : s.versions.latest (fun _ => true) (·.versionSeq) = some v
  agree : c.startBlock = v.startBlock
  basis : c.nextBlock = plan.progress.checkpoint.nextBlock ∧ v.versionSeq = plan.latest.versionSeq
  covered : ∃ up, s.logCheckpoint = some up ∧ c.nextBlock ≤ up.nextBlock
  versions : s'.versions.rows = s.versions.rows ++ [req.version plan]
  moved : ∃ c', s'.depositCheckpoint = some c' ∧ c'.startBlock = req.newStartBlock ∧ c'.nextBlock = plan.replay
  frame : s'.logs = s.logs ∧ s'.logCheckpoint = s.logCheckpoint ∧ s'.observations = s.observations ∧
    s'.blocks = s.blocks ∧ s'.recovery = s.recovery ∧ s'.recoveryEvents = s.recoveryEvents

theorem releaseAuthPause_eq_ok (h : releaseAuthPause req plan s = .ok s') :
    ∃ pause audits, s' = { s with depositPause := pause, pauseAudits := audits } := by
  unfold releaseAuthPause at h
  split at h
  · split at h
    · split at h
      · cases h
      · cases h
        exact ⟨_, _, rfl⟩
    · cases h
  · cases h
  · cases h
    exact ⟨_, _, rfl⟩

theorem readAuthUpstream_eq_ok {upstreamHash : Hash} {position : Int} {up : StreamCheckpoint}
    (h : readAuthUpstream s upstreamHash position = .ok up) : s.logCheckpoint = some up ∧ position ≤ up.nextBlock := by
  unfold readAuthUpstream at h
  split at h
  · cases h
  next c hc =>
    split_ifs at h
    cases h
    exact ⟨hc, by omega⟩

theorem authorizeDepositConfig_spec {result : DepositAuthResult}
    (h : authorizeDepositConfig digests req plan s = .ok (result, s')) : ∃ c v, Authorized req plan s s' c v := by
  simp only [authorizeDepositConfig, reverifyAuthUnderLock, eq_ok, lift_eq_ok] at h
  obtain ⟨_, s₁, ⟨_, _, ⟨rfl, rfl⟩, current, _, ⟨hcurrent, rfl⟩, h₁⟩, _, _, ⟨rfl, rfl⟩, h⟩ := h
  obtain ⟨⟨progress, latest⟩, _, ⟨rfl, rfl⟩, _, _, ⟨hstands, rfl⟩, _, _, ⟨-, rfl⟩, up, _, ⟨hup, rfl⟩, _,
    _, ⟨-, rfl⟩, _, _, ⟨-, rfl⟩, _, _, ⟨-, rfl⟩, _, _, ⟨-, rfl⟩, _, _, ⟨-, rfl⟩, -, rfl⟩ := h₁
  obtain ⟨versions, _, ⟨hversions, rfl⟩, checkpoint, _, ⟨hcheckpoint, rfl⟩, s₂, _, ⟨hrelease, rfl⟩, _, _,
    rfl, -, rfl⟩ := h
  obtain ⟨hc, hv, hagree, -⟩ := readAuthProgress_eq_some hcurrent
  obtain ⟨-, -, hposition, hseq⟩ := hstands
  obtain ⟨hlog, hbelow⟩ := readAuthUpstream_eq_ok hup
  obtain ⟨-, hrows⟩ := insert?_eq_some hversions
  obtain ⟨pause, audits, rfl⟩ := releaseAuthPause_eq_ok hrelease
  refine ⟨progress.checkpoint, latest, hc, hv, hagree, ⟨hposition, hseq⟩,
    ⟨up, hlog, by rwa [hposition]⟩, hrows, ?_, rfl, rfl, rfl, rfl, rfl, rfl⟩
  unfold checkpoint? at hcheckpoint
  split at hcheckpoint
  · cases hcheckpoint
    exact ⟨_, rfl, rfl, rfl⟩
  · cases hcheckpoint

/-- The authorized version is the latest one. -/
theorem Authorized.latest_version {c : StreamCheckpoint} (h : Authorized req plan s s' c v) :
    s'.versions.latest (fun _ => true) (·.versionSeq) = some (req.version plan) := by
  obtain ⟨-, -, hmax⟩ := latest_eq_some h.latest
  refine latest_of_insert h.versions rfl fun r hr hp => ?_
  have hle := hmax r hr hp
  have hseq : (req.version plan).versionSeq = plan.latest.versionSeq + 1 := rfl
  rw [hseq, ← h.basis.2]
  omega

/-- A sound plan whose version is still the latest one was made for that version. -/
theorem Authorized.latest_eq {c : StreamCheckpoint} (h : Authorized req plan s s' c v)
    (hsound : PlanSound req plan s) : v = plan.latest :=
  s.versions.eq_of_clash (latest_eq_some h.latest).1 hsound.latest (by simp [Constrained.clash, h.basis.2])

end TxHarbor.Indexer
