import TxHarbor.Indexer.DepositAuth
import TxHarbor.Indexer.LogScan
import TxHarbor.Indexer.Outbox

open Relational Transition List Option

namespace TxHarbor.Indexer

open Outbox OutboxEvent Table DepositConfig Sample

/-! The deposit stream with everything that runs beside it: any number of scanners whose reads lie
before their commits, authorizations planned before their transactions, and the other workers. -/

/-- The ledger, the units scanners have read and the authorizations operators have planned. None
of them ever goes away, so a unit may be committed late, twice or by a worker that lost its lease. -/
structure DepositWorld where
  ledger : Ledger
  tasks : List DepositTask
  plans : List (DepositAuthRequest × AuthPlan)

def DepositWorld.empty : DepositWorld := ⟨Ledger.empty, [], []⟩

/-- The transaction of a unit, under the lease verdict it will meet. -/
def DepositTask.call (task : DepositTask) (held : Bool) : Call :=
  .commitDepositUnit task.scanner.toDepositConfig task.scanner.upstreamHash held task.batch
    task.captured task.range task.cap

inductive DepositAction where
  | other (a : Action)
  | read (scanner : DepositScanner)
  | commit (i : Nat) (held : Bool) (fault : Fault IndexerError)
  | plan (req : DepositAuthRequest)
  | authorize (i : Nat) (fault : Fault IndexerError)

/-- An authorization touches no event. -/
def Ledger.authorize (l : Ledger) (digests : Digests) (req : DepositAuthRequest) (plan : AuthPlan)
    (fault : Fault IndexerError) : Ledger :=
  ⟨(Tx.attempt fault (authorizeDepositConfig digests req plan) (fun _ => true) l.store).2, l.outbox⟩

def DepositWorld.next (digests : Digests) (w : DepositWorld) : DepositAction → DepositWorld
  | .other a => { w with ledger := w.ledger.next a }
  | .read scanner =>
    match scanner.read w.ledger.store with
    | .ok task => { w with tasks := w.tasks ++ [task] }
    | .error _ => w
  | .commit i held fault =>
    match w.tasks[i]? with
    | some task => { w with ledger := w.ledger.next (.submit (task.call held) fault) }
    | none => w
  | .plan req =>
    match req.prepare digests w.ledger.store with
    | .ok (.planned plan) => { w with plans := w.plans ++ [(req, plan)] }
    | _ => w
  | .authorize i fault =>
    match w.plans[i]? with
    | some (req, plan) => { w with ledger := w.ledger.authorize digests req plan fault }
    | none => w

/-- The latest row of the version ledger. -/
def latestVersion (s : Store) : Option DepositVersion := s.versions.latest (fun _ => true) (·.versionSeq)

/-- The configuration a stored version was written from: no two configurations share an identity. -/
def DepositConfig.Names (cfg : DepositConfig) (s : Store) : Prop :=
  ∀ v ∈ s.versions.rows, v.configHash = cfg.configHash → v.startBlock = cfg.startBlock ∧
    v.assets = depositSnapshot cfg.assets ∧ v.watches = depositSnapshot cfg.watches

instance (cfg : DepositConfig) (s : Store) : Decidable (cfg.Names s) := by
  unfold DepositConfig.Names
  infer_instance

/-- The rows of a log commit are what its scanner validated. -/
def Validated (range : HeightRange) (coverage : Int → Option Hash) (rows : List TransferLog) : Prop :=
  ∃ whitelist answer, validateLogs whitelist range.lo range.hi coverage answer = .ok rows

/-- The steps of the other workers while no recovery round runs: headers, validated log ranges,
confirmations, pauses and policies. -/
def Action.Ordinary : Action → Prop
  | .submit (.commitBlock ..) _ => True
  | .submit (.commitLogRange _ _ range _ coverage rows _) _ => Validated range coverage rows
  | .submit (.confirmDepositUnit ..) _ => True
  | .submit _ _ => False
  | .operate _ => True

def DepositAction.Ordinary : DepositAction → Prop
  | .other a => a.Ordinary
  | _ => True

/-- Every configuration that is run or requested lists each address once, and a scanner runs the
configuration that the identity it commits under was stored with. -/
def DepositAction.Sole (w : DepositWorld) : DepositAction → Prop
  | .other _ => True
  | .read scanner => SoleAddresses scanner.assets ∧ SoleAddresses scanner.watches
  | .commit i _ _ => ∀ task ∈ w.tasks[i]?, task.scanner.toDepositConfig.Names w.ledger.store
  | .plan req => SoleAddresses req.newAssets ∧ SoleAddresses req.newWatches
  | .authorize _ _ => True

instance (w : DepositWorld) (a : DepositAction) : Decidable (a.Sole w) := by
  cases a <;> unfold DepositAction.Sole <;> infer_instance

def OutboxEvent.creates (id : Identity) (e : OutboxEvent) : Bool := e.observation == id && e.fact == .created

/-- Every stored transfer below the position that is a deposit under the latest version has one
observation and one creation event. -/
def Ledger.DepositsComplete (l : Ledger) : Prop :=
  ∀ c v row, l.store.depositCheckpoint = some c → latestVersion l.store = some v →
    row ∈ l.store.logs.rows → c.startBlock ≤ row.blockNumber → row.blockNumber < c.nextBlock →
    canonicalHashAt l.store row.blockNumber = some row.blockHash → v.matchConfig.Deposits row →
    l.store.observations.rows.countP (fun o => o.toIdentity == row.toIdentity) = 1 ∧
      l.outbox.rows.countP (OutboxEvent.creates row.toIdentity) = 1

/-- A read unit holds every deposit of its range, and no log range can be committed into it any
more. -/
structure TaskSound (s : Store) (task : DepositTask) : Prop where
  sole : SoleAddresses task.scanner.assets ∧ SoleAddresses task.scanner.watches
  covered : ∃ up, s.logCheckpoint = some up ∧ task.range.hi < up.nextBlock
  matched : ∀ row ∈ s.logs.rows, task.range.lo ≤ row.blockNumber → row.blockNumber ≤ task.range.hi →
    task.scanner.matchConfig.Deposits row → row.deposit ∈ task.batch.matched

/-- The invariant of the deposit stream. -/
structure DepositInv (w : DepositWorld) : Prop where
  sole : ∀ v ∈ w.ledger.store.versions.rows, SoleAddresses v.assets ∧ SoleAddresses v.watches
  behind : ∀ c, w.ledger.store.depositCheckpoint = some c →
    ∃ up, w.ledger.store.logCheckpoint = some up ∧ c.nextBlock ≤ up.nextBlock
  covered : ∀ c v row, w.ledger.store.depositCheckpoint = some c →
    latestVersion w.ledger.store = some v → row ∈ w.ledger.store.logs.rows →
    row.blockNumber < c.nextBlock → v.matchConfig.Deposits row →
    ∃ o ∈ w.ledger.store.observations.rows, o.toIdentity = row.toIdentity
  created : ∀ o ∈ w.ledger.store.observations.rows, ∃ e ∈ w.ledger.outbox.rows, e.creates o.toIdentity = true
  tasks : ∀ task ∈ w.tasks, TaskSound w.ledger.store task
  plans : ∀ p ∈ w.plans, PlanSound p.1 p.2 w.ledger.store ∧ SoleAddresses p.1.newAssets ∧ SoleAddresses p.1.newWatches

/-- What a step of the other workers does to the tables the deposit stream reads. -/
structure Beside (l l' : Ledger) : Prop where
  versions : l'.store.versions = l.store.versions
  checkpoint : l'.store.depositCheckpoint = l.store.depositCheckpoint
  logs : ∀ row ∈ l'.store.logs.rows, row ∈ l.store.logs.rows ∨
    ∀ up, l.store.logCheckpoint = some up → up.nextBlock ≤ row.blockNumber
  watermark : ∀ up, l.store.logCheckpoint = some up →
    ∃ up', l'.store.logCheckpoint = some up' ∧ up.nextBlock ≤ up'.nextBlock
  observations : ∀ id, (∃ o ∈ l'.store.observations.rows, o.toIdentity = id) ↔
    ∃ o ∈ l.store.observations.rows, o.toIdentity = id
  events : ∀ e ∈ l.outbox.rows, e ∈ l'.outbox.rows

theorem Beside.refl (l : Ledger) : Beside l l :=
  ⟨rfl, rfl, fun _ h => .inl h, fun up h => ⟨up, h, le_refl _⟩, fun _ => Iff.rfl, fun _ h => h⟩

variable {task : DepositTask} {req : DepositAuthRequest} {plan : AuthPlan} {s s' : Store} {w : DepositWorld}
  {outbox : Outbox} {cfg : DepositConfig}

theorem TaskSound.beside {l l' : Ledger} (h : TaskSound l.store task) (hbeside : Beside l l') :
    TaskSound l'.store task := by
  obtain ⟨up, hup, hbelow⟩ := h.covered
  obtain ⟨up', hup', hle⟩ := hbeside.watermark up hup
  refine ⟨h.sole, ⟨up', hup', by omega⟩, fun row hrow hlo hhi hdeposit => ?_⟩
  rcases hbeside.logs row hrow with hold | hnew
  · exact h.matched row hold hlo hhi hdeposit
  · have := hnew up hup
    omega

theorem PlanSound.grow (h : PlanSound req plan s) (hgrow : ∀ v ∈ s.versions.rows, v ∈ s'.versions.rows) :
    PlanSound req plan s' :=
  ⟨hgrow _ h.latest, h.replay⟩

/-- Steps beside the stream keep its invariant: what they add lies above the position. -/
theorem DepositInv.beside {l' : Ledger} (h : DepositInv w) (hbeside : Beside w.ledger l') :
    DepositInv { w with ledger := l' } := by
  refine ⟨?_, ?_, ?_, ?_, fun task htask => (h.tasks task htask).beside hbeside, ?_⟩
  · intro v hv
    exact h.sole v (by rwa [← hbeside.versions])
  · intro c hc
    obtain ⟨up, hup, hle⟩ := h.behind c (by rwa [← hbeside.checkpoint])
    obtain ⟨up', hup', hle'⟩ := hbeside.watermark up hup
    exact ⟨up', hup', by omega⟩
  · intro c v row hc hv hrow hbelow hdeposit
    have hc' : w.ledger.store.depositCheckpoint = some c := by rwa [← hbeside.checkpoint]
    have hv' : latestVersion w.ledger.store = some v := by
      unfold latestVersion at hv ⊢
      rwa [← hbeside.versions]
    rcases hbeside.logs row hrow with hold | hnew
    · exact (hbeside.observations _).mpr (h.covered c v row hc' hv' hold hbelow hdeposit)
    · obtain ⟨up, hup, hle⟩ := h.behind c hc'
      have := hnew up hup
      omega
  · intro o ho
    obtain ⟨o', ho', heq⟩ := (hbeside.observations o.toIdentity).mp ⟨o, ho, rfl⟩
    obtain ⟨e, he, hcreates⟩ := h.created o' ho'
    exact ⟨e, hbeside.events e he, by rwa [← heq]⟩
  · intro p hp
    obtain ⟨hsound, hsole⟩ := h.plans p hp
    exact ⟨hsound.grow fun v hv => by rwa [hbeside.versions], hsole⟩

theorem Outbox.append_mem {outbox' : Outbox} {observation : Identity} {blockNumber : Int} {fact : DepositFact}
    (h : outbox.append observation blockNumber fact = .ok outbox') {e : OutboxEvent} (he : e ∈ outbox.rows) :
    e ∈ outbox'.rows := by
  rcases append_eq_ok h with ⟨rfl, -, -⟩ | ⟨hrows, -⟩
  · exact he
  · rw [hrows]
    exact mem_append_left _ he

/-- A committed header, log range or confirmation stays beside the deposit stream. -/
theorem Call.beside {call : Call} {fault : Fault IndexerError} {l : Ledger}
    (hordinary : (Action.submit call fault).Ordinary) (hbody : call.body l.store = .ok (true, s'))
    (hemit : call.emit l.store s' l.outbox = .ok outbox) : Beside l ⟨s', outbox⟩ := by
  cases call with
  | commitBlock startHeight held w cap =>
    have hbody := of_committing hbody
    obtain ⟨-, -, blocks, checkpoint, rfl, -, -⟩ := commitBlock_spec hbody
    cases hemit
    exact ⟨rfl, rfl, fun _ h => .inl h, fun up h => ⟨up, h, le_refl _⟩, fun _ => Iff.rfl, fun _ h => h⟩
  | commitLogRange cfg held range first coverage rows cap =>
    obtain ⟨whitelist, answer, hvalid⟩ := hordinary
    have hbody := of_committing hbody
    obtain ⟨-, -, logs, checkpoint, rfl, hadvance, added, hgrown, hadded, -⟩ := commitLogRange_spec hbody
    obtain ⟨hnext, hguard⟩ := HeightRange.advance_eq_some hadvance
    have hlo : ∀ up, l.store.logCheckpoint = some up → up.nextBlock = range.lo := fun up hup => by
      rcases hguard with ⟨hnone, -⟩ | ⟨c, hc, hlo, -⟩
      · simp [hnone] at hup
      · rwa [← some.inj (hc.symm.trans hup)]
    cases hemit
    refine ⟨rfl, rfl, fun row hrow => ?_, fun up hup => ⟨checkpoint, rfl, ?_⟩, fun _ => Iff.rfl, fun _ h => h⟩
    · rcases mem_append.mp (hgrown ▸ hrow) with hold | hnew
      · exact .inl hold
      · obtain ⟨raw, -, hraw⟩ := ((validateLogs_eq_ok hvalid).1 row).mp (hadded row hnew)
        obtain ⟨topic1, topic2, -, -, -, rfl⟩ := hraw.shaped
        refine .inr fun up hup => ?_
        rw [hlo up hup]
        exact hraw.inside.1
    · have hbefore := hlo up hup
      have hordered := range.ordered
      omega
  | confirmDepositUnit thresholdN held basis cap =>
    obtain ⟨-, ⟨hfalse, -⟩ | ⟨policies, confirmed, rfl⟩⟩ := confirmDepositUnit_spec hbody
    · cases hfalse
    · refine ⟨rfl, rfl, fun _ h => .inl h, fun up h => ⟨up, h, le_refl _⟩, fun id => ?_,
        fun e he => append_mem hemit he⟩
      constructor
      · rintro ⟨o, ho, rfl⟩
        obtain ⟨old, hold, rfl⟩ := mem_map.mp ho
        exact ⟨old, hold, by split <;> rfl⟩
      · rintro ⟨o, ho, rfl⟩
        exact ⟨_, mem_map.mpr ⟨o, ho, rfl⟩, by split <;> rfl⟩
  | _ => exact absurd hordinary id

theorem Ledger.next_beside (l : Ledger) {a : Action} (h : a.Ordinary) : Beside l (l.next a) := by
  cases a with
  | operate rows =>
    exact ⟨rfl, rfl, fun _ h => .inl h, fun up h => ⟨up, h, le_refl _⟩, fun _ => Iff.rfl, fun _ h => h⟩
  | submit call fault =>
    rcases l.submit_cases call fault with hsame | ⟨s', outbox, hbody, hemit, hnew⟩
    · rw [hsame]
      exact .refl l
    · rw [hnew]
      exact Call.beside h hbody hemit

/-- Every observation of a transaction gets its creation event, and no event is lost. -/
theorem Outbox.appendAll_created {outbox' : Outbox} {rows : List DepositObservation}
    (h : outbox.appendAll appendCreated rows = .ok outbox') :
    (∀ e ∈ outbox.rows, e ∈ outbox'.rows) ∧ ∀ o ∈ rows, ∃ e ∈ outbox'.rows, e.creates o.toIdentity = true := by
  induction rows generalizing outbox with
  | nil =>
    cases h
    simp
  | cons o rest ih =>
    simp only [appendAll] at h
    cases hone : appendCreated outbox o with
    | error e => simp [hone] at h
    | ok outbox₁ =>
      simp only [hone] at h
      obtain ⟨hkept, hrest⟩ := ih h
      refine ⟨fun e he => hkept e (append_mem hone he), fun o' ho' => ?_⟩
      rcases mem_cons.mp ho' with rfl | ho'
      · rcases append_eq_ok hone with ⟨rfl, -, e, he, hobs, hfact⟩ | ⟨hrows, -⟩
        · exact ⟨e, hkept e he, by simp [creates, hobs, hfact]⟩
        · exact ⟨_, hkept _ (by rw [hrows]; exact mem_append_right _ (mem_singleton.mpr rfl)),
            by simp [creates]⟩
      · exact hrest o' ho'

variable {observations : Table DepositObservation} {cap : RecoveryCapture}

theorem DepositMatch.consistent_identity {m : DepositMatch} (h : m.consistent cap observations = true) :
    ∃ o ∈ observations.rows, o.toIdentity = m.toIdentity := by
  unfold DepositMatch.consistent at h
  split at h
  · cases h
  next o hselect =>
    obtain ⟨hmem, hid⟩ := select_mem hselect
    exact ⟨o, hmem, by simpa using hid⟩

/-- The configuration of a scanner matches as the version that was written from it. -/
theorem DepositConfig.Names.matchConfig {v : DepositVersion} (h : cfg.Names s) (hv : v ∈ s.versions.rows)
    (hhash : v.configHash = cfg.configHash) (hassets : SoleAddresses cfg.assets)
    (hwatches : SoleAddresses cfg.watches) : v.matchConfig = cfg.matchConfig := by
  obtain ⟨hstart, ha, hw⟩ := h v hv hhash
  simp only [DepositVersion.matchConfig, DepositConfig.matchConfig, hstart, ha, hw,
    effectiveHeights_perm hassets (depositSnapshot_perm _), effectiveHeights_perm hwatches (depositSnapshot_perm _)]

theorem DepositConfig.bootstrapVersion_matchConfig (hassets : SoleAddresses cfg.assets)
    (hwatches : SoleAddresses cfg.watches) : (cfg.bootstrapVersion cfg.startBlock).matchConfig = cfg.matchConfig := by
  simp only [DepositVersion.matchConfig, matchConfig, bootstrapVersion,
    effectiveHeights_perm hassets (depositSnapshot_perm _), effectiveHeights_perm hwatches (depositSnapshot_perm _)]

/-- A committed unit leaves the latest version with the matching of its scanner, and moves the
position from the start of its range over the range. -/
theorem CommittedUnit.latest {upstreamHash : Hash} {batch : DepositBatch} {captured : Option DepositProgress}
    {range : HeightRange} {versions : Table DepositVersion} {checkpoint : StreamCheckpoint}
    (h : CommittedUnit cfg upstreamHash batch captured range cap s versions observations checkpoint)
    (hnames : cfg.Names s) (hassets : SoleAddresses cfg.assets) (hwatches : SoleAddresses cfg.watches)
    {v : DepositVersion} (hv : versions.latest (fun _ => true) (·.versionSeq) = some v) :
    v.matchConfig = cfg.matchConfig ∧ (range.lo ≤ v.startBlock ∨
        ∃ c, s.depositCheckpoint = some c ∧ c.nextBlock = range.lo ∧ latestVersion s = some v) := by
  cases h.basis with
  | first empty start opened =>
    have hmem := (latest_eq_some hv).1
    rw [opened, mem_singleton] at hmem
    subst hmem
    refine ⟨?_, .inl (le_refl _)⟩
    rw [start]
    exact bootstrapVersion_matchConfig hassets hwatches
  | next c v' hc hposition hlatest hsame hkept =>
    subst hkept
    cases hlatest.symm.trans hv
    exact ⟨hnames.matchConfig (latest_eq_some hlatest).1 hsame hassets hwatches, .inr ⟨c, hc, hposition, hlatest⟩⟩

theorem upstreamCovers_eq_true {upstreamHash : Hash} {range : HeightRange}
    (h : upstreamCovers s upstreamHash range = true) : ∃ up, s.logCheckpoint = some up ∧ range.hi < up.nextBlock := by
  unfold upstreamCovers at h
  split at h
  · cases h
  next up hup =>
    simp only [Bool.and_eq_true, decide_eq_true_eq] at h
    exact ⟨up, hup, h.2⟩

theorem insertedObservations_eq {added : List DepositObservation}
    (h : s'.observations.rows = s.observations.rows ++ added) : insertedObservations s s' = added := by
  simp [insertedObservations, h]

/-- A unit that commits keeps the invariant: its range was read after the last log range that can
reach into it. -/
theorem DepositInv.committed {held : Bool} (h : DepositInv w) (htask : task ∈ w.tasks)
    (hnames : task.scanner.toDepositConfig.Names w.ledger.store)
    (hbody : (task.call held).body w.ledger.store = .ok (true, s'))
    (hemit : (task.call held).emit w.ledger.store s' w.ledger.outbox = .ok outbox) :
    DepositInv { w with ledger := ⟨s', outbox⟩ } := by
  have hrun := of_committing hbody
  obtain ⟨-, versions, observations, checkpoint, rfl, hunit⟩ := commitDepositUnit_committed hrun
  obtain ⟨hsoleAssets, hsoleWatches⟩ := (h.tasks task htask).sole
  obtain ⟨hnext, -⟩ := HeightRange.advance_eq_some hunit.advance
  obtain ⟨added, hgrown, -⟩ := hunit.grown
  have hevents := appendAll_created hemit
  rw [insertedObservations_eq hgrown] at hevents
  refine ⟨?_, ?_, ?_, ?_, ?_, ?_⟩
  · intro v hv
    cases hunit.basis with
    | first empty start opened =>
      rw [opened, mem_singleton] at hv
      subst hv
      exact ⟨hsoleAssets.perm (depositSnapshot_perm _), hsoleWatches.perm (depositSnapshot_perm _)⟩
    | next c v' hc hposition hlatest hsame hkept => exact h.sole v (hkept ▸ hv)
  · intro c hc
    cases hc
    obtain ⟨up, hup, hbelow⟩ := upstreamCovers_eq_true hunit.covered
    exact ⟨up, hup, by omega⟩
  · intro c v row hc hv hrow hbelow hdeposit
    cases hc
    obtain ⟨hmatch, hposition⟩ := hunit.latest hnames hsoleAssets hsoleWatches hv
    have hstart : v.startBlock ≤ row.blockNumber := DepositMatchConfig.inForce_start hdeposit.inForce
    by_cases hinside : task.range.lo ≤ row.blockNumber
    · have hmem := (h.tasks task htask).matched row hrow hinside (by omega) (hmatch ▸ hdeposit)
      obtain ⟨o, ho, hid⟩ := DepositMatch.consistent_identity (hunit.stored _ hmem)
      exact ⟨o, ho, hid⟩
    · rcases hposition with hlow | ⟨c, hc, hposition, hlatest⟩
      · omega
      · obtain ⟨o, ho, hid⟩ := h.covered c v row hc hlatest hrow (by omega) hdeposit
        exact ⟨o, by rw [hgrown]; exact mem_append_left _ ho, hid⟩
  · intro o ho
    rw [hgrown, mem_append] at ho
    rcases ho with ho | ho
    · obtain ⟨e, he, hcreates⟩ := h.created o ho
      exact ⟨e, hevents.1 e he, hcreates⟩
    · exact hevents.2 o ho
  · exact fun t ht => ⟨(h.tasks t ht).sole, (h.tasks t ht).covered, (h.tasks t ht).matched⟩
  · intro p hp
    obtain ⟨hsound, hsole⟩ := h.plans p hp
    refine ⟨hsound.grow fun v hv => ?_, hsole⟩
    cases hunit.basis with
    | first empty start opened => simp [empty.2] at hv
    | next c v' hc hposition hlatest hsame hkept => exact hkept ▸ hv

/-- A row in force under the new configuration below the replay position was in force under the
old one: none of the combinations it matches is affected. -/
theorem PlanSound.inForce (h : PlanSound req plan s) (hnewAssets : SoleAddresses req.newAssets)
    (hnewWatches : SoleAddresses req.newWatches) (hassets : SoleAddresses plan.latest.assets)
    (hwatches : SoleAddresses plan.latest.watches) {row : TransferLog}
    (hforce : (req.version plan).matchConfig.inForce row = true) (hbelow : row.blockNumber < plan.replay) :
    plan.latest.matchConfig.inForce row = true ∧ row.blockNumber < plan.progress.checkpoint.nextBlock := by
  obtain ⟨a, ha, w, hw, hcontract, hrecipient, hstart, hasset, hwatch⟩ := (inForce_iff hnewAssets hnewWatches).mp hforce
  have hstart' : (req.newStartBlock : Int) ≤ row.blockNumber := hstart
  obtain ⟨hposition, haffected⟩ := depositAuthReplayFrom_le req.newStartBlock plan.latest.startBlock
    plan.latest.assets plan.latest.watches req.newAssets req.newWatches
    plan.progress.checkpoint.nextBlock
  have hreplay := h.replay
  have hkept : (a, w) ∉ affectedCombinations req.newStartBlock plan.latest.startBlock
      plan.latest.assets plan.latest.watches req.newAssets req.newWatches := fun hmem => by
    have hle := haffected _ hmem
    simp only [combinationStart] at hle
    omega
  rw [mem_affectedCombinations, not_and, not_or, not_not] at hkept
  obtain ⟨hraised, hlisted⟩ := hkept ⟨ha, hw⟩
  refine ⟨(inForce_iff hassets hwatches).mpr ⟨a, hlisted.1, w, hlisted.2, hcontract, hrecipient, ?_, hasset,
    hwatch⟩, by omega⟩
  omega

/-- A committed authorization keeps the invariant. -/
theorem DepositInv.authorized {digests : Digests} {result : DepositAuthResult} (h : DepositInv w)
    (hplan : (req, plan) ∈ w.plans)
    (hbody : authorizeDepositConfig digests req plan w.ledger.store = .ok (result, s')) :
    DepositInv { w with ledger := ⟨s', w.ledger.outbox⟩ } := by
  obtain ⟨c, v, hauth⟩ := authorizeDepositConfig_spec hbody
  obtain ⟨hsound, hnewAssets, hnewWatches⟩ : PlanSound req plan w.ledger.store ∧
    SoleAddresses req.newAssets ∧ SoleAddresses req.newWatches := h.plans _ hplan
  obtain ⟨hlogs, hlog, hobservations, -⟩ := hauth.frame
  have hv := hauth.latest_eq hsound
  obtain ⟨c', hc', -, hnext⟩ := hauth.moved
  have hreplay : plan.replay ≤ c.nextBlock := by
    have hle := (depositAuthReplayFrom_le req.newStartBlock plan.latest.startBlock plan.latest.assets
      plan.latest.watches req.newAssets req.newWatches plan.progress.checkpoint.nextBlock).1
    have hsoundReplay := hsound.replay
    have hbasis := hauth.basis.1
    omega
  refine ⟨?_, ?_, ?_, ?_, ?_, ?_⟩
  · intro u hu
    rw [hauth.versions, mem_append, mem_singleton] at hu
    rcases hu with hu | rfl
    · exact h.sole u hu
    · exact ⟨hnewAssets, hnewWatches⟩
  · intro d hd
    obtain ⟨up, hup, hle⟩ := hauth.covered
    rw [show d = c' from some.inj (hd.symm.trans hc'), hlog, hnext]
    exact ⟨up, hup, by omega⟩
  · intro d u row hd hu hrow hbelow hdeposit
    rw [show d = c' from some.inj (hd.symm.trans hc'), hnext] at hbelow
    have hu' : u = req.version plan := some.inj (hu.symm.trans hauth.latest_version)
    subst hu'
    obtain ⟨hsoleAssets, hsoleWatches⟩ := h.sole _ hsound.latest
    obtain ⟨hforce, hposition⟩ := hsound.inForce hnewAssets hnewWatches hsoleAssets hsoleWatches hdeposit.inForce hbelow
    rw [hobservations]
    refine h.covered c v row hauth.checkpoint hauth.latest (by rwa [← hlogs]) ?_ ?_
    · have hbasis := hauth.basis.1
      omega
    · rw [hv]
      exact hdeposit.transfer hforce
  · intro o ho
    exact h.created o (by rwa [← hobservations])
  · intro task htask
    have hold := h.tasks task htask
    exact ⟨hold.sole, by rw [hlog]; exact hold.covered, by rw [hlogs]; exact hold.matched⟩
  · intro p hp
    obtain ⟨hold, hsole⟩ := h.plans p hp
    exact ⟨hold.grow fun u hu => by rw [hauth.versions]; exact mem_append_left _ hu, hsole⟩

/-- A unit that was just read is sound. -/
theorem ReadTask.sound {scanner : DepositScanner} (h : ReadTask scanner s task)
    (hassets : SoleAddresses scanner.assets) (hwatches : SoleAddresses scanner.watches) : TaskSound s task := by
  obtain ⟨up, hup, -, -, hbelow⟩ := h.covered.upstream
  obtain ⟨parsed, hparsed, hbatch⟩ := h.parsed
  refine ⟨by rw [h.owner]; exact ⟨hassets, hwatches⟩, ⟨up, hup, hbelow⟩, fun row hrow hlo hhi hdeposit => ?_⟩
  rw [hbatch]
  rw [h.owner] at hdeposit
  exact ((parseDepositLogs_spec hparsed).1 row.deposit).mpr ⟨row, mem_sourceRows.mpr ⟨hrow, hlo, hhi⟩, hdeposit⟩

/-- Every step that meets the condition keeps the invariant. -/
theorem DepositInv.next {digests : Digests} {a : DepositAction} (ha : a.Sole w) (hordinary : a.Ordinary)
    (h : DepositInv w) : DepositInv (w.next digests a) := by
  cases a with
  | other a => exact h.beside (w.ledger.next_beside hordinary)
  | read scanner =>
    cases hread : scanner.read w.ledger.store with
    | error e =>
      simp only [DepositWorld.next, hread]
      exact h
    | ok task =>
      simp only [DepositWorld.next, hread]
      refine ⟨h.sole, h.behind, h.covered, h.created, fun t ht => ?_, h.plans⟩
      rcases mem_concat_cases ht with ht | rfl
      · exact h.tasks t ht
      · exact (DepositScanner.read_eq_ok hread).sound ha.1 ha.2
  | commit i held fault =>
    cases hi : w.tasks[i]? with
    | none =>
      simp only [DepositWorld.next, hi]
      exact h
    | some task =>
      rcases w.ledger.submit_cases (task.call held) fault with hsame | ⟨s', outbox, hbody, hemit, hnew⟩
      · simp only [DepositWorld.next, hi, hsame]
        exact h
      · simp only [DepositWorld.next, hi, hnew]
        exact h.committed (mem_of_getElem? hi) (ha task hi) hbody hemit
  | plan req =>
    cases hprepare : req.prepare digests w.ledger.store with
    | error e =>
      simp only [DepositWorld.next, hprepare]
      exact h
    | ok outcome =>
      cases outcome with
      | recorded result =>
        simp only [DepositWorld.next, hprepare]
        exact h
      | planned plan =>
        simp only [DepositWorld.next, hprepare]
        refine ⟨h.sole, h.behind, h.covered, h.created, h.tasks, fun p hp => ?_⟩
        rcases mem_concat_cases hp with hp | rfl
        · exact h.plans p hp
        · exact ⟨DepositAuthRequest.prepare_sound hprepare, ha⟩
  | authorize i fault =>
    cases hi : w.plans[i]? with
    | none =>
      simp only [DepositWorld.next, hi]
      exact h
    | some p =>
      obtain ⟨req, plan⟩ := p
      simp only [DepositWorld.next, hi, Ledger.authorize]
      rcases Tx.attempt_store fault (authorizeDepositConfig digests req plan) (fun _ => true)
        w.ledger.store with hsame | ⟨result, s', hbody, -, hnew⟩
      · rwa [hsame]
      · rw [hnew]
        exact h.authorized (mem_of_getElem? hi) hbody

theorem DepositInv.empty : DepositInv DepositWorld.empty where
  sole := by simp [DepositWorld.empty, Ledger.empty, Store.empty]
  behind := by simp [DepositWorld.empty, Ledger.empty, Store.empty]
  covered := by simp [DepositWorld.empty, Ledger.empty, Store.empty]
  created := by simp [DepositWorld.empty, Ledger.empty, Store.empty]
  tasks := by simp [DepositWorld.empty]
  plans := by simp [DepositWorld.empty]

/-- The invariant, read off for the rows of the canonical blocks. -/
theorem DepositInv.complete (h : DepositInv w) : w.ledger.DepositsComplete := by
  intro c v row hc hv hrow _ hbelow _ hdeposit
  obtain ⟨o, ho, hid⟩ := h.covered c v row hc hv hrow hbelow hdeposit
  obtain ⟨e, he, hcreates⟩ := h.created o ho
  constructor
  · refine affected_eq_one (fun a b ha hb => ?_) ho (by simp [hid])
    simp only [beq_iff_eq] at ha hb
    simp [Constrained.clash, ha, hb]
  · refine affected_eq_one (fun a b ha hb => ?_) he (by rwa [← hid])
    simp only [creates, Bool.and_eq_true, beq_iff_eq] at ha hb
    simp [Constrained.clash, ofLog, ha, hb]

/-- While no round runs and every configuration lists each address once, every run leaves each
deposit below the position with one observation and one creation event, whatever units compete,
fail or are committed twice and however the configuration is switched. -/
theorem deposits_complete_of_sole_addresses {digests : Digests} {actions : List DepositAction}
    (hordinary : ∀ a ∈ actions, a.Ordinary)
    (hsole : Along (DepositWorld.next digests) (fun w a => a.Sole w) DepositWorld.empty actions) :
    (run (DepositWorld.next digests) .empty actions).ledger.DepositsComplete :=
  (invariant_of_along (hsole.and_mem hordinary) DepositInv.empty fun _ _ ha h => h.next ha.1 ha.2).complete

namespace Sample

/-! One transfer of 5 units of asset 10 to the address 12, in block 101. -/

def rawTransfer (number block : Nat) : RawLog where
  address := 10
  topics := [transferSig, hash 11, hash 12]
  data := List.replicate 31 0 ++ [5]
  blockNumber := number
  blockHash := hash block
  txHash := hash 7
  index := 0
  removed := false

def paidTransfer (number block : Nat) : TransferLog :=
  (rawTransfer number block).row transferSig (hash 11) (hash 12) (hash 5)

/-- Digests that tell the sample's configurations apart by their sizes and effective heights. -/
def digests : Digests where
  depositIdentity start assets watches :=
    hash (1000 * assets.length + 100 * watches.length + 10 * (assets.map (·.effective)).sum + start.toNat)
  whitelistIdentity contracts := hash contracts.length

def watches : List DepositEntry := [⟨12, 0⟩]

/-- A scanner with the given assets. -/
def watcher (assets : List DepositEntry) : DepositScanner where
  startBlock := 0
  configHash := digests.depositIdentity 0 assets watches
  assets := assets
  watches := watches
  logContracts := [10]
  upstreamHash := hash 1
  logStartHeight := 0
  batchBlocks := 10

/-- The request that switches to the given assets. -/
def switchTo (assets : List DepositEntry) : DepositAuthRequest where
  requestID := "switch"
  expectedOldSeq := 1
  operator := "operator"
  reason := "change of assets"
  newConfigHash := digests.depositIdentity 0 assets watches
  newStartBlock := 0
  newAssets := assets
  newWatches := watches
  expectedPause := none
  upstreamHash := none
  upstreamContracts := [10]

/-- Heights 0 and 1 with their transfer, consumed under the old assets, then the switch. -/
def switched (old new : List DepositEntry) : List DepositAction :=
  [.other (header 0 0 100 99), .other (header 0 1 101 100),
   .other (logUnit 0 ⟨0, 1, Int.one_nonneg⟩ true [(0, 100), (1, 101)] [paidTransfer 1 101]),
   .read (watcher old), .commit 0 true .none, .plan (switchTo new), .authorize 0 .none]

/-- The switch followed by the replay under the new assets. -/
def replayed (old new : List DepositEntry) : List DepositAction :=
  switched old new ++ [.read (watcher new), .commit 1 true .none]

def worldAfter (actions : List DepositAction) : DepositWorld := run (DepositWorld.next digests) .empty actions

theorem ordinary_replayed (old new : List DepositEntry) : ∀ a ∈ replayed old new, a.Ordinary := by
  have hvalid : Validated ⟨0, 1, by decide⟩ (headers [(0, 100), (1, 101)]) [paidTransfer 1 101] :=
    ⟨[10], [rawTransfer 1 101], by decide +kernel⟩
  simp only [replayed, switched, cons_append, nil_append, forall_mem_cons,
    not_mem_nil, false_implies, implies_true, and_true]
  exact ⟨trivial, trivial, hvalid, trivial, trivial, trivial, trivial, trivial, trivial⟩

end Sample

/-- An asset whose effective height is lowered from 5 to 0 is replayed, and the transfer at height
1 gets its observation and its event. -/
theorem deposits_complete_lowered_height : (worldAfter (replayed [⟨10, 5⟩] [⟨10, 0⟩])).ledger.DepositsComplete ∧
      (worldAfter (replayed [⟨10, 5⟩] [⟨10, 0⟩])).ledger.store.observations.rows.length = 1 :=
  ⟨deposits_complete_of_sole_addresses (ordinary_replayed _ _) (by decide +kernel), by decide +kernel⟩

/-- The asset is listed with the heights 0 and 5, of which the scanner keeps 5. The switch drops
the entry with height 5: the remaining one is not new, so nothing is replayed, and the transfer at
height 1 stays without an observation however often the scanner of the new assets runs. -/
theorem deposit_missed_after_dropped_entry : (∀ a ∈ replayed [⟨10, 0⟩, ⟨10, 5⟩] [⟨10, 0⟩], a.Ordinary) ∧
      ¬ (worldAfter (replayed [⟨10, 0⟩, ⟨10, 5⟩] [⟨10, 0⟩])).ledger.DepositsComplete := by
  refine ⟨ordinary_replayed _ _, fun h => ?_⟩
  have hmissed : (worldAfter (replayed [⟨10, 0⟩, ⟨10, 5⟩] [⟨10, 0⟩])).ledger.store.observations.rows = [] := by
    decide +kernel
  have hone := (h ⟨0, digests.depositIdentity 0 [⟨10, 0⟩] watches, 2, by decide⟩
    ((switchTo [⟨10, 0⟩]).version ⟨⟨⟨0, 0, 2, by decide⟩, 1⟩,
      (watcher [⟨10, 0⟩, ⟨10, 5⟩]).toDepositConfig.bootstrapVersion 0, 2, none, false, 2, 0⟩)
    (paidTransfer 1 101) (by decide +kernel) (by decide +kernel) (by decide +kernel) (by decide)
    (by decide) (by decide +kernel) (by decide +kernel)).1
  rw [hmissed] at hone
  cases hone

end TxHarbor.Indexer
