import TxHarbor.Events.Outbox
import TxHarbor.Transition.Run

/-!
# The outbox publisher

`events.Publisher` claims a batch of rows in one transaction, publishes it outside of any transaction and settles every
record by owner-guarded statements. Each of these steps is an action of its own, so a crash can fall between any two.
A statement whose connection breaks may still be executed later.
-/

open Transition List Option Bool Function

namespace TxHarbor.Events

/-- `events.OutboxRecord`: one claimed row. -/
structure OutboxRecord where
  outboxID : Nat
  fact : Fact
  attemptCount : Nat
  deriving DecidableEq

/-- The JSON object that is published. -/
structure TransportEnvelope where
  eventID : String
  eventType : String
  schemaVersion : Nat
  identityKind : IdentityKind
  aggregateType : String
  aggregateID : String
  aggregateVersion : Nat
  occurredAt : Int
  chainID : Option Int
  blockNumber : Option Int
  blockHash : Option String
  txHash : Option String
  logIndex : Option Nat
  recoveryVersion : Option Int
  revisesEventID : Option String
  payload : String
  deriving DecidableEq

/-- `OutboxRecord.EnvelopeJSON`, where `valid` is `json.Valid`. -/
def Fact.envelopeJSON (valid : String → Bool) (f : Fact) : Option TransportEnvelope :=
  if valid f.payload then
    some ⟨f.eventID, f.eventType, f.schemaVersion, f.identityKind, f.aggregateType, f.aggregateID, f.aggregateVersion,
        f.occurredAt, f.chainID, f.blockNumber, f.blockHash, f.txHash, f.logIndex, f.recoveryVersion, f.revisesEventID,
        f.payload⟩
  else none

/-- `events.Publisher` with the bounds `NewPublisher` checks. `jitter` is the rounded product of the delay with the
random factor. -/
structure Publisher where
  owner : String
  batch : Nat
  leaseTTL : Int
  backoffBase : Int
  backoffMax : Int
  jitter : Int → Int
  batch_pos : 0 < batch
  leaseTTL_pos : 0 < leaseTTL
  backoffBase_pos : 0 < backoffBase
  backoffMax_le : backoffBase ≤ backoffMax

/-- The doubling loop of `RetryDelay`, with the rounds that are left. -/
def doubled (max : Int) : Nat → Int → Int
  | 0, delay => delay
  | n + 1, delay => if max ≤ delay then max else doubled max n (delay * 2)

def retryDelay (attempt : Nat) (base max : Int) (jitter : Int → Int) : Int :=
  let delay := doubled max (attempt - 1) base
  let capped := if max < delay then max else delay
  let jittered := jitter capped
  if jittered < 0 then 0 else jittered

/-- `events.PublishResult`, with the classes of the failures. -/
structure PublishResult where
  acked : List Nat
  failures : List (Nat × FailureClass)
  deriving DecidableEq

/-- `KafkaSink.Publish`: what the broker is sent, and the outcome of each record. `answer` is the class of the broker's
final error for a record, or `none` for its acknowledgement. -/
def kafkaSinkPublish (valid : String → Bool) (answer : Nat → Option FailureClass) (records : List OutboxRecord) :
    List (Nat × TransportEnvelope) × PublishResult :=
  let produced := records.filterMap fun rec => (rec.fact.envelopeJSON valid).map fun e => (rec.outboxID, e)
  let unrendered := records.filter fun rec => (rec.fact.envelopeJSON valid).isNone
  (produced, ⟨(produced.filter fun x => (answer x.1).isNone).map Prod.fst,
      unrendered.map (fun rec => (rec.outboxID, .permanent)) ++
        produced.filterMap fun x => (answer x.1).map fun c => (x.1, c)⟩)

/-- How a failed record is settled: a transient failure is released with its backoff, the others are blocked. An
unknown record is not released. -/
def Publisher.failureKind (p : Publisher) (records : List OutboxRecord) : Nat × FailureClass → Option SettleKind
  | (id, .transient) =>
    (records.find? fun rec => rec.outboxID == id).map fun rec =>
      .release (retryDelay rec.attemptCount p.backoffBase p.backoffMax p.jitter) .transient
  | (_, c) => some (.block c)

/-- The settle statements of `PublishClaimed`, in order: the acknowledged rows, one statement for each class and delay of
the failures, and the records the sink did not report. The source walks maps here, so the order of the statements of
failures is any one, and draws a jitter for each record. -/
def Publisher.settlements (p : Publisher) (records : List OutboxRecord) (result : PublishResult) : List Settle :=
  let failed := result.failures.filter fun x => !result.acked.contains x.1
  let kinds := (failed.filterMap (p.failureKind records)).dedup
  let unaccounted := (records.map (·.outboxID)).filter fun id =>
    !result.acked.contains id && !(result.failures.map Prod.fst).contains id
  (if result.acked = [] then [] else [⟨.ack, result.acked⟩]) ++
    kinds.map (fun kind => ⟨kind, (failed.filter fun x => p.failureKind records x == some kind).map Prod.fst⟩) ++
    if unaccounted = [] then [] else [⟨.releaseImmediate, unaccounted⟩]

/-- Where a publisher is in its cycle. -/
inductive Phase
  | idle
  | claimed (records : List OutboxRecord)
  | settling (rest : List Settle)
  deriving DecidableEq

/-- What becomes of a settle statement: it is answered, never runs, runs without its answer, or keeps running after its
connection broke. -/
inductive Fate
  | answered
  | failed
  | unanswered
  | stray
  deriving DecidableEq

/-- The outbox, the publishers, and what happened so far: the rows ever inserted, the claims with the latest first, the
envelopes the broker was sent and those it acknowledged. -/
structure PublishWorld where
  clock : Int
  rows : List OutboxRow
  publishers : String → Phase
  strays : List (String × Settle)
  insertions : List (Nat × Fact)
  claims : List (Nat × String)
  sent : List (Nat × TransportEnvelope)
  acks : List (Nat × TransportEnvelope)

/-- `waited` is the time since `now()` of the transaction, which is its start. -/
inductive PublishAction
  | tick (elapsed : Nat)
  | insert (id : Nat) (fact : Fact) (waited : Nat)
  | claim (p : Publisher) (locked : List Nat) (waited : Nat) (told : Bool)
  | shutdown (owner : String)
  | publish (p : Publisher) (answer : Nat → Option FailureClass)
  | settle (owner : String) (waited : Nat) (fate : Fate)
  | stray (i : Nat) (waited : Nat)
  | crash (owner : String)
  | unblock (id : Nat) (waited : Nat)
  | prune (retention : Int) (waited : Nat)

namespace PublishWorld

def initial (clock : Int) : PublishWorld := ⟨clock, [], fun _ => .idle, [], [], [], [], []⟩

def now (w : PublishWorld) (waited : Nat) : Int := w.clock - waited

/-- `ClaimPendingSQL`: rows whose lock another transaction holds are skipped. -/
def selected (w : PublishWorld) (p : Publisher) (locked : List Nat) (now : Int) : List OutboxRow :=
  ((w.rows.filter fun r => r.claimable now && !locked.contains r.id).mergeSort fun a b => a.id ≤ b.id).take p.batch

/-- The claim transaction of `ClaimBatch`. It fails when `attempt_count + 1` does not fit its column. -/
def claimBatch (w : PublishWorld) (p : Publisher) (locked : List Nat) (now : Int) :
    Option (List OutboxRecord × List OutboxRow) :=
  let chosen := w.selected p locked now
  if chosen.any fun r => decide (maxInt32 ≤ r.attemptCount) then none
  else
    some (chosen.map fun r => ⟨r.id, r.fact, r.attemptCount + 1⟩, w.rows.map fun r =>
        if (chosen.map (·.id)).contains r.id && r.publishState == .pending then r.mark p.owner now p.leaseTTL else r)

def setPhase (w : PublishWorld) (owner : String) (phase : Phase) : PublishWorld :=
  { w with publishers := fun o => if o = owner then phase else w.publishers o }

/-- One owner-guarded UPDATE. -/
def execute (w : PublishWorld) (owner : String) (st : Settle) (now : Int) : PublishWorld :=
  { w with rows := w.rows.map (OutboxRow.settled owner now st) }

def next (valid : String → Bool) (w : PublishWorld) : PublishAction → PublishWorld
  | .tick elapsed => { w with clock := w.clock + elapsed }
  | .insert id fact waited =>
    -- The identity column never hands out an id twice.
    if (w.insertions.map Prod.fst).contains id then w
    else
      { w with
        rows := w.rows ++ [OutboxRow.inserted id fact (w.now waited)], insertions := (id, fact) :: w.insertions }
  | .claim p locked waited told =>
    if w.publishers p.owner = .idle then
      match w.claimBatch p locked (w.now waited) with
      | none => w
      | some (records, rows) =>
        let claimed : PublishWorld :=
          { w with rows := rows, claims := records.map (fun rec => (rec.outboxID, p.owner)) ++ w.claims }
        claimed.setPhase p.owner (if told && !records.isEmpty then .claimed records else .idle)
    else w
  | .shutdown owner =>
    match w.publishers owner with
    | .claimed records => w.setPhase owner (.settling [⟨.releaseImmediate, records.map (·.outboxID)⟩])
    | _ => w
  | .publish p answer =>
    match w.publishers p.owner with
    | .claimed records =>
      let outcome := kafkaSinkPublish valid answer records
      let published : PublishWorld :=
        { w with
          sent := outcome.1 ++ w.sent, acks := (outcome.1.filter fun x => (answer x.1).isNone) ++ w.acks }
      published.setPhase p.owner (.settling (p.settlements records outcome.2))
    | _ => w
  | .settle owner waited fate =>
    match w.publishers owner with
    | .settling (st :: rest) =>
      match fate with
      | .answered => (w.execute owner st (w.now waited)).setPhase owner (.settling rest)
      | .failed => w.setPhase owner .idle
      | .unanswered => (w.execute owner st (w.now waited)).setPhase owner .idle
      | .stray => { w.setPhase owner .idle with strays := (owner, st) :: w.strays }
    | .settling [] => w.setPhase owner .idle
    | _ => w
  | .stray i waited =>
    match w.strays[i]? with
    | some (owner, st) => { w.execute owner st (w.now waited) with strays := w.strays.eraseIdx i }
    | none => w
  | .crash owner => w.setPhase owner .idle
  | .unblock id waited => { w with rows := w.rows.map (OutboxRow.unblocked id (w.now waited)) }
  | .prune retention waited =>
    if 0 < retention then { w with rows := w.rows.filter fun r => !r.prunable (w.now waited) retention } else w

/-- Who claimed the row last. -/
def lastClaim (w : PublishWorld) (id : Nat) : Option String := (w.claims.find? fun c => c.1 == id).map Prod.snd

/-- The settle statement an action executes, with its owner and its `now()`. -/
def executes (w : PublishWorld) : PublishAction → Option (String × Settle × Int)
  | .settle owner waited fate =>
    match w.publishers owner, fate with
    | .settling (st :: _), .answered => some (owner, st, w.now waited)
    | .settling (st :: _), .unanswered => some (owner, st, w.now waited)
    | _, _ => none
  | .stray i waited => w.strays[i]?.map fun x => (x.1, x.2, w.now waited)
  | _ => none

/-- Every row the statement of the action changes was last claimed by the owner of the statement. -/
def SettledByHolder (w : PublishWorld) (act : PublishAction) : Prop :=
  ∀ owner st now, w.executes act = some (owner, st, now) → ∀ r ∈ w.rows, r.settled owner now st ≠ r →
    w.lastClaim r.id = some owner

/-- A row that is gone after the action was published. -/
def DeletesPublished (valid : String → Bool) (w : PublishWorld) (act : PublishAction) : Prop :=
  ∀ r ∈ w.rows, (∀ r' ∈ (w.next valid act).rows, r'.id ≠ r.id) → r.publishState = .published

end PublishWorld

def Phase.records : Phase → List OutboxRecord
  | .claimed records => records
  | _ => []

def Phase.statements : Phase → List Settle
  | .settling rest => rest
  | _ => []

theorem Phase.records_settling {P : OutboxRecord → Prop} (rest : List Settle) :
    ∀ rec ∈ (Phase.settling rest).records, P rec :=
  fun _ => nofun

/-- What an acknowledging statement names was acknowledged by the broker. -/
def Settle.Due (acks : List (Nat × TransportEnvelope)) (st : Settle) : Prop :=
  st.kind = .ack → ∀ i ∈ st.ids, ∃ e, (i, e) ∈ acks

variable {acks : List (Nat × TransportEnvelope)} {st : Settle}

theorem Settle.Due.mono {acks' : List (Nat × TransportEnvelope)} (h : st.Due acks) (hsub : ∀ x ∈ acks, x ∈ acks') :
    st.Due acks' := by
  intro hkind i hi
  obtain ⟨e, he⟩ := h hkind i hi
  exact ⟨e, hsub _ he⟩

/-- Of the statements that settle a batch, only the one for the acknowledged rows acknowledges. -/
theorem Publisher.settlements_due {p : Publisher} {records : List OutboxRecord} {result : PublishResult}
    (hacked : ∀ i ∈ result.acked, ∃ e, (i, e) ∈ acks) (hst : st ∈ p.settlements records result) : st.Due acks := by
  have hfailure : ∀ x, p.failureKind records x ≠ some .ack := by
    rintro ⟨id, c⟩ h
    cases c with
    | transient =>
      simp only [failureKind, map_eq_some_iff] at h
      obtain ⟨rec, -, hkind⟩ := h
      cases hkind
    | permanent | contract => cases h
  simp only [settlements, mem_append] at hst
  rcases hst with (hst | hst) | hst
  · split at hst
    · cases hst
    · rw [mem_singleton.mp hst]
      exact fun _ => hacked
  · obtain ⟨kind, hkind, rfl⟩ := mem_map.mp hst
    intro hack
    obtain ⟨x, -, hx⟩ := mem_filterMap.mp (mem_dedup.mp hkind)
    exact absurd (hack ▸ hx) (hfailure x)
  · split at hst
    · cases hst
    · rw [mem_singleton.mp hst]
      exact fun h => SettleKind.noConfusion h

open OutboxRow

namespace PublishWorld

variable {valid : String → Bool}

/-- What holds of the outbox and its publishers after any run. -/
structure Sound (valid : String → Bool) (w : PublishWorld) : Prop where
  recorded : ∀ r ∈ w.rows, (r.id, r.fact) ∈ w.insertions
  distinct : (w.rows.map (·.id)).Nodup
  unique : (w.insertions.map Prod.fst).Nodup
  acknowledged : ∀ r ∈ w.rows, r.publishState = .published → ∃ e, (r.id, e) ∈ w.acks
  owned : ∀ r ∈ w.rows, ∀ o, r.claimOwner = some o → w.lastClaim r.id = some o
  sent : ∀ x ∈ w.sent, ∃ f, (x.1, f) ∈ w.insertions ∧ f.envelopeJSON valid = some x.2
  acks : ∀ x ∈ w.acks, x ∈ w.sent
  held : ∀ o, ∀ rec ∈ (w.publishers o).records, (rec.outboxID, rec.fact) ∈ w.insertions
  due : ∀ o, ∀ st ∈ (w.publishers o).statements, st.Due w.acks
  stray : ∀ x ∈ w.strays, x.2.Due w.acks

namespace Sound

variable {w : PublishWorld}

section

variable (h : w.Sound valid)
include h

theorem setPhase {owner : String} {phase : Phase}
    (hheld : ∀ rec ∈ phase.records, (rec.outboxID, rec.fact) ∈ w.insertions)
    (hdue : ∀ st ∈ phase.statements, st.Due w.acks) : (w.setPhase owner phase).Sound valid := by
  refine { h with held := fun o rec hrec => ?_, due := fun o st hst => ?_ }
  · simp only [PublishWorld.setPhase] at hrec
    split at hrec
    · exact hheld rec hrec
    · exact h.held o rec hrec
  · simp only [PublishWorld.setPhase] at hst
    split at hst
    · exact hdue st hst
    · exact h.due o st hst

theorem idle (owner : String) : (w.setPhase owner .idle).Sound valid := h.setPhase (fun _ => nofun) fun _ => nofun

/-- Rows may be rewritten as long as their identity stays, only acknowledged ones become published, and only the last
claimer owns one. -/
theorem mapRows {f : OutboxRow → OutboxRow} (hid : ∀ r, (f r).id = r.id) (hfact : ∀ r, (f r).fact = r.fact)
    (hpublished : ∀ r ∈ w.rows, (f r).publishState = .published → r.publishState = .published ∨ ∃ e, (r.id, e) ∈ w.acks)
    {claims : List (Nat × String)} (howned : ∀ r ∈ w.rows, ∀ o, (f r).claimOwner = some o →
      PublishWorld.lastClaim { w with claims := claims } r.id = some o) :
    Sound valid { w with rows := w.rows.map f, claims := claims } := by
  have hids : (w.rows.map f).map (·.id) = w.rows.map (·.id) := by
    simp only [List.map_map, Function.comp_def, hid]
  refine { h with recorded := ?_, distinct := hids ▸ h.distinct, acknowledged := ?_, owned := ?_ }
  · intro r hr
    obtain ⟨r₀, hr₀, rfl⟩ := mem_map.mp hr
    rw [hid, hfact]
    exact h.recorded r₀ hr₀
  · intro r hr hstate
    obtain ⟨r₀, hr₀, rfl⟩ := mem_map.mp hr
    rw [hid]
    rcases hpublished r₀ hr₀ hstate with hbefore | hacked
    · exact h.acknowledged r₀ hr₀ hbefore
    · exact hacked
  · intro r hr o ho
    obtain ⟨r₀, hr₀, rfl⟩ := mem_map.mp hr
    rw [hid]
    exact howned r₀ hr₀ o ho

theorem execute (owner : String) (hdue : st.Due w.acks) (now : Int) : (w.execute owner st now).Sound valid := by
  refine h.mapRows (settled_id owner now st) (settled_fact owner now st) ?_ ?_
  · intro r _ hstate
    exact (published_settled hstate).imp_right fun hack => hdue hack.1 r.id hack.2
  · intro r hr o ho
    exact h.owned r hr o (claimOwner_settled ho)

theorem unblock (id : Nat) (now : Int) : Sound valid { w with rows := w.rows.map (unblocked id now) } := by
  refine h.mapRows (unblocked_id id now) (unblocked_fact id now) ?_ ?_
  · exact fun r _ hstate => .inl (published_unblocked hstate)
  · exact fun r hr o ho => h.owned r hr o (claimOwner_unblocked ▸ ho)

theorem filterRows (keep : OutboxRow → Bool) : Sound valid { w with rows := w.rows.filter keep } :=
  { h with
    recorded := fun r hr => h.recorded r (mem_filter.mp hr).1
    distinct := h.distinct.sublist (filter_sublist.map _)
    acknowledged := fun r hr => h.acknowledged r (mem_filter.mp hr).1
    owned := fun r hr => h.owned r (mem_filter.mp hr).1 }

theorem insert {id : Nat} (hfresh : id ∉ w.insertions.map Prod.fst) (fact : Fact) (now : Int) : Sound valid
      { w with rows := w.rows ++ [inserted id fact now], insertions := (id, fact) :: w.insertions } := by
  have hnew : ∀ r ∈ w.rows, r.id ≠ id := by
    rintro r hr rfl
    exact hfresh (mem_map.mpr ⟨_, h.recorded r hr, rfl⟩)
  refine { h with recorded := ?_, distinct := ?_, unique := ?_, acknowledged := ?_, owned := ?_, sent := ?_, held := ?_ }
  · intro r hr
    rcases mem_concat_cases hr with hr | rfl
    · exact mem_cons_of_mem _ (h.recorded r hr)
    · exact mem_cons_self
  · simp only [map_append, map_cons, map_nil]
    refine h.distinct.append (nodup_singleton _) ?_
    intro i hi hi'
    obtain ⟨r, hr, rfl⟩ := mem_map.mp hi
    exact hnew r hr (mem_singleton.mp hi')
  · exact nodup_cons.mpr ⟨hfresh, h.unique⟩
  · intro r hr hstate
    rcases mem_concat_cases hr with hr | rfl
    · exact h.acknowledged r hr hstate
    · cases hstate
  · intro r hr o ho
    rcases mem_concat_cases hr with hr | rfl
    · exact h.owned r hr o ho
    · cases ho
  · intro x hx
    obtain ⟨f, hf, he⟩ := h.sent x hx
    exact ⟨f, mem_cons_of_mem _ hf, he⟩
  · exact fun o rec hrec => mem_cons_of_mem _ (h.held o rec hrec)

end

end Sound

variable {w : PublishWorld} {p : Publisher} {locked : List Nat} {now : Int} {r : OutboxRow}
  {records : List OutboxRecord}

theorem mem_selected (h : r ∈ w.selected p locked now) : r ∈ w.rows ∧ r.claimable now = true ∧ r.id ∉ locked := by
  have hmem := mem_mergeSort.mp (mem_of_mem_take h)
  simp only [mem_filter, and_eq_true, not_eq_true', contains_eq_mem, decide_eq_false_iff_not] at hmem
  exact hmem

/-- Ids are unique, so the claim marks the rows it selected. -/
theorem Sound.mem_selected_iff (h : w.Sound valid) (hr : r ∈ w.rows) :
    ((w.selected p locked now).map (·.id)).contains r.id = true ↔ r ∈ w.selected p locked now := by
  rw [contains_iff_mem]
  constructor
  · intro hid
    obtain ⟨r', hr', heq⟩ := mem_map.mp hid
    rwa [← inj_on_of_nodup_map h.distinct (mem_selected hr').1 hr heq]
  · exact fun hmem => mem_map_of_mem hmem

theorem lastClaim_append {w' : PublishWorld} {owner : String}
    (hclaims : w'.claims = records.map (fun rec => (rec.outboxID, owner)) ++ w.claims) (id : Nat) :
    w'.lastClaim id = if id ∈ records.map (·.outboxID) then some owner else w.lastClaim id := by
  simp only [lastClaim, hclaims]
  clear hclaims
  induction records with
  | nil => rfl
  | cons rec rest ih =>
    by_cases hid : rec.outboxID = id
    · simp [hid]
    · have hne : ¬ id = rec.outboxID := fun h => hid h.symm
      simpa [hid, hne] using ih

variable {rows : List OutboxRow} {act : PublishAction}

/-- What a successful claim does. -/
theorem claimBatch_eq_some (h : w.claimBatch p locked now = some (records, rows)) :
    records = (w.selected p locked now).map (fun r => ⟨r.id, r.fact, r.attemptCount + 1⟩) ∧ rows = w.rows.map fun r =>
        if ((w.selected p locked now).map (·.id)).contains r.id && r.publishState == .pending then
          r.mark p.owner now p.leaseTTL
        else r := by
  simp only [claimBatch, ite_none_left_eq_some, some.injEq, Prod.mk.injEq] at h
  exact ⟨h.2.1.symm, h.2.2.symm⟩

/-- A claim records its owner on every row it takes, so the relay stays sound. -/
theorem Sound.claim (h : w.Sound valid) (hclaim : w.claimBatch p locked now = some (records, rows)) : Sound valid
      { w with rows := rows, claims := records.map (fun rec => (rec.outboxID, p.owner)) ++ w.claims } := by
  obtain ⟨hrecords, rfl⟩ := claimBatch_eq_some hclaim
  have hids : records.map (·.outboxID) = (w.selected p locked now).map (·.id) := by
    simp only [hrecords, List.map_map, Function.comp_def]
  refine h.mapRows (fun r => by split <;> rfl) (fun r => by split <;> rfl) ?_ ?_
  · intro r _ hstate
    split at hstate <;> exact .inl hstate
  · intro r₀ hr₀ o ho
    rw [lastClaim_append rfl, hids]
    by_cases hchosen : r₀ ∈ w.selected p locked now
    · have hpending : r₀.publishState = .pending := by
        have hclaimable := (mem_selected hchosen).2.1
        simp only [claimable, and_eq_true, beq_iff_eq] at hclaimable
        exact hclaimable.1.1
      rw [(h.mem_selected_iff hr₀).mpr hchosen, hpending] at ho
      rwa [if_pos (by simpa using ⟨r₀, hchosen, rfl⟩)]
    · have hout : ((w.selected p locked now).map (·.id)).contains r₀.id = false := by
        rw [eq_false_iff]
        exact fun hin => hchosen ((h.mem_selected_iff hr₀).mp hin)
      rw [hout] at ho
      rw [if_neg (by simpa using hout)]
      exact h.owned r₀ hr₀ o ho

/-- A publish sends claimed rows with the facts they were inserted with. -/
theorem Sound.publish (h : w.Sound valid) (hphase : w.publishers p.owner = .claimed records)
    (answer : Nat → Option FailureClass) : (w.next valid (.publish p answer)).Sound valid := by
  have hheld : ∀ rec ∈ records, (rec.outboxID, rec.fact) ∈ w.insertions := by
    intro rec hrec
    exact h.held p.owner rec (by rwa [hphase])
  have hproduced : ∀ x ∈ (kafkaSinkPublish valid answer records).1,
      ∃ f, (x.1, f) ∈ w.insertions ∧ f.envelopeJSON valid = some x.2 := by
    intro x hx
    obtain ⟨rec, hrec, hsome⟩ := mem_filterMap.mp hx
    obtain ⟨e, he, rfl⟩ := map_eq_some_iff.mp hsome
    exact ⟨rec.fact, hheld rec hrec, he⟩
  simp only [next, hphase]
  refine Sound.setPhase ?_ (Phase.records_settling _) ?_
  · refine { h with acknowledged := ?_, sent := ?_, acks := ?_, due := ?_, stray := ?_ }
    · intro r hr hstate
      obtain ⟨e, he⟩ := h.acknowledged r hr hstate
      exact ⟨e, mem_append_right _ he⟩
    · intro x hx
      exact (mem_append.mp hx).elim (hproduced x) (h.sent x)
    · intro x hx
      rcases mem_append.mp hx with hx | hx
      · exact mem_append_left _ (mem_filter.mp hx).1
      · exact mem_append_right _ (h.acks x hx)
    · exact fun o st hst => (h.due o st hst).mono fun _ => mem_append_right _
    · exact fun x hx => (h.stray x hx).mono fun _ => mem_append_right _
  · intro st hst
    refine Publisher.settlements_due ?_ hst
    intro i hi
    obtain ⟨x, hx, rfl⟩ := mem_map.mp hi
    exact ⟨x.2, mem_append_left _ hx⟩

/-- Every action keeps the relay sound. -/
theorem Sound.next (h : w.Sound valid) (act : PublishAction) : (w.next valid act).Sound valid := by
  cases act <;> simp only [PublishWorld.next]
  case tick elapsed => exact { h with }
  case insert id fact waited =>
    split
    · exact h
    next hfresh => exact h.insert (by simpa using hfresh) fact _
  case claim p locked waited told =>
    split
    · split
      · exact h
      next records rows hclaim =>
        have hrecords := (claimBatch_eq_some hclaim).1
        refine (h.claim hclaim).setPhase ?_ ?_
        · intro rec hrec
          split at hrec
          · subst hrecords
            obtain ⟨r, hr, rfl⟩ := mem_map.mp hrec
            exact h.recorded r (mem_selected hr).1
          · exact absurd hrec not_mem_nil
        · intro st hst
          split at hst <;> exact absurd hst not_mem_nil
    · exact h
  case shutdown owner =>
    split
    · refine h.setPhase (Phase.records_settling _) ?_
      intro st hst
      rw [mem_singleton.mp hst]
      exact fun hkind => SettleKind.noConfusion hkind
    · exact h
  case publish p answer =>
    split
    next records hphase => simpa only [PublishWorld.next, hphase] using h.publish hphase answer
    · exact h
  case settle owner waited fate =>
    split
    next st rest hphase =>
      have hdue : ∀ st' ∈ st :: rest, st'.Due w.acks := by
        intro st' hst'
        exact h.due owner st' (by rwa [hphase])
      have hexecuted := h.execute owner (hdue st mem_cons_self) (w.now waited)
      cases fate with
      | answered => exact hexecuted.setPhase (Phase.records_settling _) fun st' hst' => hdue st' (mem_cons_of_mem _ hst')
      | failed => exact h.idle owner
      | unanswered => exact hexecuted.idle owner
      | stray =>
        refine { h.idle owner with stray := ?_ }
        intro x hx
        rcases mem_cons.mp hx with rfl | hx
        · exact hdue st mem_cons_self
        · exact h.stray x hx
    · exact h.idle owner
    · exact h
  case stray i waited =>
    split
    next owner st hstray =>
      have hexecuted := h.execute owner (h.stray _ (mem_of_getElem? hstray)) (w.now waited)
      exact { hexecuted with stray := fun x hx => h.stray x (mem_of_mem_eraseIdx hx) }
    · exact h
  case crash owner => exact h.idle owner
  case unblock id waited => exact h.unblock id _
  case prune retention waited =>
    split
    · exact h.filterRows _
    · exact h

theorem sound_initial (valid : String → Bool) (clock : Int) : (initial clock).Sound valid where
  recorded _ := nofun
  distinct := nodup_nil
  unique := nodup_nil
  acknowledged _ := nofun
  owned _ := nofun
  sent _ := nofun
  acks _ := nofun
  held _ _ := nofun
  due _ _ := nofun
  stray _ := nofun

/-- The row an id belongs to fixes every envelope that was sent for it. -/
theorem Sound.envelope_of_sent (h : w.Sound valid) {i : Nat} {f : Fact} (hf : (i, f) ∈ w.insertions)
    {e : TransportEnvelope} (he : (i, e) ∈ w.sent) : f.envelopeJSON valid = some e := by
  obtain ⟨f', hf', henvelope⟩ := h.sent (i, e) he
  have hsame : ((i, f) : Nat × Fact) = (i, f') := inj_on_of_nodup_map h.unique hf hf' rfl
  rwa [(Prod.mk.inj hsame).2]

theorem Sound.settledByHolder (h : w.Sound valid) (act : PublishAction) : w.SettledByHolder act :=
  fun _ _ _ _ r hr hchanged => h.owned r hr _ (claimOwner_of_settled_ne hchanged).1

/-- What holds of a row however it is settled, claimed or unblocked holds of a row after every action, unless the row
was published and can be pruned. -/
theorem row_next {P : OutboxRow → Prop} (hr : r ∈ w.rows) (hsame : P r)
    (hsettled : ∀ owner now st, P (r.settled owner now st))
    (hclaimed : ∀ p locked now claimed, w.claimBatch p locked now = some claimed →
      P (if ((w.selected p locked now).map (·.id)).contains r.id && r.publishState == .pending then
        r.mark p.owner now p.leaseTTL else r))
    (hunblocked : ∀ id now, P (r.unblocked id now)) (hstate : r.publishState ≠ .published) (act : PublishAction) :
    ∃ r' ∈ (w.next valid act).rows, P r' := by
  have hstays : ∃ r' ∈ w.rows, P r' := ⟨r, hr, hsame⟩
  have hexecuted : ∀ owner now st, ∃ r' ∈ (w.execute owner st now).rows, P r' :=
    fun owner now st => ⟨_, mem_map_of_mem hr, hsettled owner now st⟩
  cases act <;> simp only [next]
  case insert id fact waited =>
    split
    · exact hstays
    · exact ⟨r, mem_append_left _ hr, hsame⟩
  case claim p locked waited told =>
    split
    · split
      · exact hstays
      next hclaim =>
        refine ⟨_, ?_, hclaimed p locked (w.now waited) _ hclaim⟩
        rw [(claimBatch_eq_some hclaim).2]
        exact mem_map_of_mem hr
    · exact hstays
  case settle owner waited fate =>
    split
    · cases fate with
      | answered | unanswered => exact hexecuted owner _ _
      | failed | stray => exact hstays
    · exact hstays
    · exact hstays
  case stray i waited =>
    split
    · exact hexecuted _ _ _
    · exact hstays
  case unblock id waited => exact ⟨_, mem_map_of_mem hr, hunblocked id _⟩
  case prune retention waited =>
    split
    · refine ⟨r, mem_filter.mpr ⟨hr, ?_⟩, hsame⟩
      rw [not_eq_true', eq_false_iff]
      exact fun hprunable => hstate (published_of_prunable hprunable)
    · exact hstays
  case shutdown owner | publish p answer =>
    split <;> exact hstays
  case tick elapsed | crash owner => exact hstays

theorem deletesPublished (w : PublishWorld) (act : PublishAction) : w.DeletesPublished valid act := by
  intro r hr hgone
  by_contra hstate
  have hkept : ∃ r' ∈ (w.next valid act).rows, r'.id = r.id :=
    row_next (P := (·.id = r.id)) hr rfl (fun owner now st => settled_id owner now st r)
      (fun _ _ _ _ _ => by split <;> rfl) (fun id now => unblocked_id id now r) hstate act
  obtain ⟨r', hr', hid⟩ := hkept
  exact hgone r' hr' hid

/-! ### Pending rows can be claimed -/

theorem countP_map_lt {α : Type} {c : α → Bool} {f : α → α} {l : List α} (hle : ∀ a ∈ l, c (f a) = true → c a = true)
    (hlt : ∃ a ∈ l, c a = true ∧ c (f a) = false) : (l.map f).countP c < l.countP c := by
  induction l with
  | nil => obtain ⟨a, ha, -⟩ := hlt; exact absurd ha not_mem_nil
  | cons b rest ih =>
    have hrest : (rest.map f).countP c ≤ rest.countP c := by
      rw [countP_map]
      exact countP_mono_left fun a ha => hle a (mem_cons_of_mem _ ha)
    have hb := hle b mem_cons_self
    simp only [map_cons, countP_cons]
    obtain ⟨a, ha, hca, hcf⟩ := hlt
    rcases mem_cons.mp ha with rfl | ha
    · simp only [hca, hcf, false_eq_true, if_true, if_false]
      omega
    · have hstep := ih (fun a ha => hle a (mem_cons_of_mem _ ha)) ⟨a, ha, hca, hcf⟩
      cases hcb : c (f b) with
      | false =>
        simp only [false_eq_true, if_false]
        omega
      | true =>
        simp only [hb hcb, if_true]
        omega

theorem selected_ne_nil (hr : r ∈ w.rows) (hclaimable : r.claimable now = true) : w.selected p [] now ≠ [] := by
  have hmem : r ∈ w.rows.filter fun r => r.claimable now && !([] : List Nat).contains r.id := by
    simp [hr, hclaimable]
  have hlength := length_pos_of_mem hmem
  have hbatch := p.batch_pos
  intro hnil
  have hzero := congrArg List.length hnil
  simp only [selected, length_take, length_mergeSort, length_nil] at hzero
  omega

section

variable (h : w.Sound valid) (hidle : w.publishers p.owner = .idle)
  (hroom : ∀ r ∈ w.rows, r.claimable w.clock = true → r.attemptCount < maxInt32) (hr : r ∈ w.rows)
  (hclaimable : r.claimable w.clock = true)
include h hidle hroom hr hclaimable

/-- A claim either takes the row or leaves fewer rows that are ready. -/
theorem Sound.claim_progress : (∃ records, (w.next valid (.claim p [] 0 true)).publishers p.owner = .claimed records ∧
        r.id ∈ records.map (·.outboxID)) ∨
      (let w' := w.next valid (.claim p [] 0 false)
       w'.clock = w.clock ∧ w'.publishers p.owner = .idle ∧ r ∈ w'.rows ∧
         (∀ r' ∈ w'.rows, r'.claimable w.clock = true → r' ∈ w.rows) ∧
         w'.rows.countP (·.claimable w.clock) < w.rows.countP (·.claimable w.clock)) := by
  have hnow : w.now 0 = w.clock := by simp [now]
  have hfits : (w.selected p [] w.clock).any (fun r => decide (maxInt32 ≤ r.attemptCount)) = false := by
    rw [List.any_eq_false]
    intro r' hr'
    have hlt := hroom r' (mem_selected hr').1 (mem_selected hr').2.1
    simp only [decide_eq_true_eq]
    omega
  have hclaim : ∃ claimed, w.claimBatch p [] w.clock = some claimed := by
    simp [claimBatch, hfits]
  obtain ⟨⟨records, rows⟩, hclaim⟩ := hclaim
  obtain ⟨hrecords, hrows⟩ := claimBatch_eq_some hclaim
  by_cases hchosen : r ∈ w.selected p [] w.clock
  · refine .inl ⟨records, ?_, ?_⟩
    · have hsome : records.isEmpty = false := by
        rw [hrecords, isEmpty_map, isEmpty_eq_false_iff]
        exact ne_nil_of_mem hchosen
      simp [PublishWorld.next, hidle, hnow, hclaim, PublishWorld.setPhase, hsome]
    · simp only [hrecords, List.map_map, Function.comp_def]
      exact List.mem_map_of_mem hchosen
  · refine .inr ?_
    have hnext : (w.next valid (.claim p [] 0 false)).rows = rows := by
      simp [PublishWorld.next, hidle, hnow, hclaim, PublishWorld.setPhase]
    have hunchosen : ((w.selected p [] w.clock).map (·.id)).contains r.id = false := by
      rw [eq_false_iff]
      exact fun hin => hchosen ((h.mem_selected_iff hr).mp hin)
    refine ⟨by simp [PublishWorld.next, hidle, hnow, hclaim, PublishWorld.setPhase], by simp [PublishWorld.next, hidle, hnow, hclaim, PublishWorld.setPhase], ?_, ?_, ?_⟩
    · rw [hnext, hrows]
      refine mem_map.mpr ⟨r, hr, ?_⟩
      rw [hunchosen]
      rfl
    · intro r' hr' hready
      rw [hnext, hrows] at hr'
      obtain ⟨r₀, hr₀, rfl⟩ := mem_map.mp hr'
      split at hready
      · rw [claimable_mark p.leaseTTL_pos] at hready
        cases hready
      next hkept => rwa [if_neg hkept]
    · rw [hnext, hrows]
      refine countP_map_lt ?_ ?_
      · intro r₀ _ hready
        split at hready
        · rw [claimable_mark p.leaseTTL_pos] at hready
          cases hready
        · exact hready
      · obtain ⟨r₁, hr₁⟩ := exists_mem_of_ne_nil _ (selected_ne_nil (p := p) hr hclaimable)
        obtain ⟨hmem, hready, -⟩ := mem_selected hr₁
        have hpending : r₁.publishState = .pending := by
          simp only [claimable, and_eq_true, beq_iff_eq] at hready
          exact hready.1.1
        refine ⟨r₁, hmem, hready, ?_⟩
        rw [(h.mem_selected_iff hmem).mpr hr₁, hpending]
        exact claimable_mark p.leaseTTL_pos r₁

/-- Repeated claims of one publisher reach every row that is due. -/
theorem Sound.claims_reach : ∃ claims : List PublishAction, (∀ act ∈ claims, ∃ told, act = .claim p [] 0 told) ∧
      ∃ records, (run (PublishWorld.next valid) w claims).publishers p.owner = .claimed records ∧
        r.id ∈ records.map (·.outboxID) := by
  induction hready : w.rows.countP (·.claimable w.clock) using Nat.strong_induction_on generalizing w with
  | _ ready ih =>
    rcases h.claim_progress hidle hroom hr hclaimable with hnow | ⟨hclock, hidle', hr', hkept, hlt⟩
    · exact ⟨[.claim p [] 0 true], fun act hact => ⟨true, mem_singleton.mp hact⟩, hnow⟩
    · have hlater := ih _ (hready ▸ hclock.symm ▸ hlt) (h.next (.claim p [] 0 false)) hidle'
        (fun r' hr'' hc => hroom r' (hkept r' hr'' (hclock ▸ hc)) (hclock ▸ hc)) hr' (hclock.symm ▸ hclaimable) rfl
      obtain ⟨claims, hclaims, hreached⟩ := hlater
      refine ⟨.claim p [] 0 false :: claims, ?_, hreached⟩
      intro act hact
      rcases mem_cons.mp hact with rfl | hact
      · exact ⟨false, rfl⟩
      · exact hclaims act hact

end

/-- A row whose `attempt_count` cannot grow and which nobody holds is not changed by anything. -/
structure Exhausted (r : OutboxRow) : Prop where
  pending : r.publishState = .pending
  unclaimed : r.claimOwner = none
  full : r.attemptCount = maxInt32

/-- A row whose attempts are exhausted stays as it is. -/
theorem Sound.exhausted_next (h : w.Sound valid) (hexhausted : Exhausted r) (hr : r ∈ w.rows) (act : PublishAction) :
    r ∈ (w.next valid act).rows := by
  have hpending := hexhausted.pending
  have hkept : ∃ r' ∈ (w.next valid act).rows, r' = r := by
    refine row_next (P := (· = r)) hr rfl ?_ ?_ ?_ (by rw [hpending]; decide) act
    · intro owner now st
      by_contra hchanged
      have howner := (claimOwner_of_settled_ne hchanged).1
      rw [hexhausted.unclaimed] at howner
      cases howner
    · -- Had the row been selected, the mark would have failed.
      intro p locked now claimed hclaim
      have hunchosen : ((w.selected p locked now).map (·.id)).contains r.id = false := by
        rw [eq_false_iff]
        intro hin
        have hchosen := (h.mem_selected_iff hr).mp hin
        simp only [claimBatch, ite_none_left_eq_some] at hclaim
        exact hclaim.1 (any_eq_true.mpr ⟨r, hchosen, by simp [hexhausted.full]⟩)
      rw [hunchosen]
      rfl
    · intro id now
      refine if_neg ?_
      rw [hpending]
      exact fun hblocked => absurd hblocked.2 (by decide)
  obtain ⟨_, hr', rfl⟩ := hkept
  exact hr'

end PublishWorld

open PublishWorld in
/-- Rows are published at least once and never lost: published rows were acknowledged, only published rows are deleted,
all envelopes of a row agree, only the last claimer settles, and while no claim counter is exhausted every pending row
can be claimed once its lease and its backoff are over. -/
theorem published_at_least_once (valid : String → Bool) (clock : Int) (actions : List PublishAction) :
    let w := run (PublishWorld.next valid) (.initial clock) actions
    (∀ r ∈ w.rows, r.publishState = .published → ∃ e, r.fact.envelopeJSON valid = some e ∧ (r.id, e) ∈ w.acks) ∧
      Along (PublishWorld.next valid) (DeletesPublished valid) (PublishWorld.initial clock) actions ∧
      (∀ x ∈ w.sent, ∀ y ∈ w.sent, x.1 = y.1 → x.2 = y.2) ∧
      (∀ r ∈ w.rows, ∀ x ∈ w.sent, x.1 = r.id → x.2.eventID = r.fact.eventID ∧ x.2.payload = r.fact.payload) ∧
      Along (PublishWorld.next valid) SettledByHolder (PublishWorld.initial clock) actions ∧
      ((∀ r ∈ w.rows, r.attemptCount < maxInt32) → ∀ r ∈ w.rows, r.publishState = .pending → ∀ p : Publisher,
        w.publishers p.owner = .idle → ∀ elapsed : Nat, r.nextAttemptAt ≤ w.clock + elapsed →
        (∀ expires, r.claimExpiresAt = some expires → expires ≤ w.clock + elapsed) →
        ∃ claims : List PublishAction, (∀ act ∈ claims, ∃ told, act = .claim p [] 0 told) ∧
          ∃ records, (run (PublishWorld.next valid) w (.tick elapsed :: claims)).publishers p.owner =
              .claimed records ∧ r.id ∈ records.map (·.outboxID)) := by
  have hsound : (run (PublishWorld.next valid) (.initial clock) actions).Sound valid :=
    Reachable.invariant ⟨actions, rfl⟩ (sound_initial valid clock) fun _ act h => Sound.next h act
  refine ⟨?_, along_of_forall deletesPublished _ _, ?_, ?_, ?_, ?_⟩
  · intro r hr hstate
    obtain ⟨e, he⟩ := hsound.acknowledged r hr hstate
    exact ⟨e, hsound.envelope_of_sent (hsound.recorded r hr) (hsound.acks _ he), he⟩
  · intro x hx y hy hsame
    obtain ⟨f, hf, hx'⟩ := hsound.sent x hx
    have hy' := hsound.envelope_of_sent hf (e := y.2) (hsame ▸ hy)
    exact some.inj (hx'.symm.trans hy')
  · rintro r hr ⟨i, e⟩ hx hid
    subst hid
    have he := hsound.envelope_of_sent (hsound.recorded r hr) hx
    simp only [Fact.envelopeJSON, ite_none_right_eq_some, some.injEq] at he
    rw [← he.2]
    exact ⟨rfl, rfl⟩
  · exact along_of_invariant (along_of_forall (P := fun _ _ => True) (fun _ _ => trivial) _ _)
      (sound_initial valid clock) (fun _ act _ h => Sound.settledByHolder h act) fun _ act _ h => Sound.next h act
  · intro hroom r hr hpending p hidle elapsed hbackoff hlease
    refine Sound.claims_reach (hsound.next (.tick elapsed)) hidle (fun r' hr' _ => hroom r' hr') hr ?_
    simp only [claimable, hpending, beq_self_eq_true, Bool.true_and, Bool.and_eq_true, decide_eq_true_eq,
      Bool.or_eq_true, Option.all_eq_true]
    exact ⟨hbackoff, .inr hlease⟩

open PublishWorld in
/-- Nothing is invented: no id is inserted twice, a row keeps the fact it was inserted with, every envelope sent is the one
of an inserted fact, and only what was sent is acknowledged. -/
theorem sent_only_inserted (valid : String → Bool) (clock : Int) (actions : List PublishAction) :
    let w := run (PublishWorld.next valid) (.initial clock) actions
    (w.insertions.map Prod.fst).Nodup ∧ (∀ r ∈ w.rows, (r.id, r.fact) ∈ w.insertions) ∧
      (∀ x ∈ w.sent, ∃ f, (x.1, f) ∈ w.insertions ∧ f.envelopeJSON valid = some x.2) ∧ ∀ x ∈ w.acks, x ∈ w.sent := by
  have hsound : (run (PublishWorld.next valid) (.initial clock) actions).Sound valid :=
    Reachable.invariant ⟨actions, rfl⟩ (sound_initial valid clock) fun _ act h => Sound.next h act
  exact ⟨hsound.unique, hsound.recorded, hsound.sent, hsound.acks⟩

namespace Sample

def fact : Fact where
  eventID := "e-1"
  identityKind := .businessObject
  eventType := "withdrawal.received"
  schemaVersion := 1
  aggregateType := "withdrawal_request"
  aggregateID := "w-1"
  aggregateVersion := 1
  payload := "p-1"
  payloadHash := "h-1"
  occurredAt := 0
  chainID := none
  blockNumber := none
  blockHash := none
  txHash := none
  logIndex := none
  recoveryVersion := none
  revisesEventID := none
  sourceKind := some "withdrawal_request"
  sourceID := some "w-1"
  sourceVersion := some 1

def publisher : Publisher where
  owner := "p"
  batch := 10
  leaseTTL := 30
  backoffBase := 1
  backoffMax := 60
  jitter := id
  batch_pos := by decide
  leaseTTL_pos := by decide
  backoffBase_pos := by decide
  backoffMax_le := by decide

/-- The row after a number of claims that were all given back at once. -/
def row (claims : Nat) : OutboxRow := ⟨1, fact, .pending, claims, 0, none, none, none, none⟩

/-- A claim that a shutdown gives back. -/
def round : List PublishAction :=
  [.claim publisher [] 0 true, .shutdown "p", .settle "p" 0 .answered, .settle "p" 0 .answered]

/-- Rounds of a claim and its release, and nothing else. -/
def Rounds (claims : Nat) (w : PublishWorld) : Prop := w.clock = 0 ∧ w.rows = [row claims] ∧ w.publishers "p" = .idle

theorem rounds_round {valid : String → Bool} {claims : Nat} {w : PublishWorld} (hfits : claims < maxInt32)
    (h : Rounds claims w) : Rounds (claims + 1) (run (PublishWorld.next valid) w round) := by
  obtain ⟨hclock, hrows, hidle⟩ := h
  have hselected : w.selected publisher [] 0 = [row claims] := by
    simp [PublishWorld.selected, hrows, claimable, row, publisher]
  have hclaim : w.claimBatch publisher [] 0 = some ([⟨1, fact, claims + 1⟩], [(row claims).mark "p" 0 30]) := by
    have hroom : ¬ maxInt32 ≤ claims := by omega
    simp only [PublishWorld.claimBatch, hselected, hrows]
    simp [row, hroom, publisher]
  simp [Rounds, round, PublishWorld.next, PublishWorld.now, hclock, PublishWorld.setPhase, PublishWorld.execute,
    show publisher.owner = "p" from rfl, hidle, hclaim, row, mark, settled, guarded,
    settle]

theorem rounds_reachable (valid : String → Bool) (claims : Nat) (hfits : claims ≤ maxInt32) :
    ∃ actions, Rounds claims (run (PublishWorld.next valid) (.initial 0) actions) := by
  induction claims with
  | zero =>
    refine ⟨[.insert 1 fact 0], ?_⟩
    simp [Rounds, PublishWorld.next, PublishWorld.initial, PublishWorld.now, inserted, row]
  | succ claims ih =>
    obtain ⟨actions, h⟩ := ih (by omega)
    refine ⟨actions ++ round, ?_⟩
    rw [run_append]
    exact rounds_round hfits h

end Sample

open Sample

/-- After 2147483647 claims the mark of one more does not fit the column. The claim transaction fails, and the pending
row, which has neither a lease nor a backoff, stays as it is whatever is done. -/
theorem exhausted_row_never_claimed :
    ∃ actions, ∃ r ∈ (run (PublishWorld.next fun _ => true) (.initial 0) actions).rows,
      r.publishState = .pending ∧ r.claimOwner = none ∧ r.nextAttemptAt = 0 ∧
        ∀ later, r ∈ (run (PublishWorld.next fun _ => true)
          (run (PublishWorld.next fun _ => true) (.initial 0) actions) later).rows := by
  obtain ⟨actions, hclock, hrows, hidle⟩ := rounds_reachable (fun _ => true) maxInt32 le_rfl
  have hr : row maxInt32 ∈ (run (PublishWorld.next fun _ => true) (.initial 0) actions).rows :=
    hrows ▸ mem_singleton_self _
  refine ⟨actions, row maxInt32, hr, rfl, rfl, rfl, fun later => ?_⟩
  have hsound : PublishWorld.Sound (fun _ => true) (run (PublishWorld.next fun _ => true) (.initial 0) actions) :=
    Reachable.invariant ⟨actions, rfl⟩ (PublishWorld.sound_initial _ 0) fun _ act h => h.next act
  refine (Reachable.invariant
    (I := fun w => PublishWorld.Sound (fun _ => true) w ∧ row maxInt32 ∈ PublishWorld.rows w) ⟨later, rfl⟩
    ⟨hsound, hr⟩ ?_).2
  intro w act h
  exact ⟨h.1.next act, h.1.exhausted_next ⟨rfl, rfl, rfl⟩ h.2 act⟩

end TxHarbor.Events
