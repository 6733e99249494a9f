import TxHarbor.Execution.FreezeRelease
import TxHarbor.Execution.Verdicts

open Relational Transition List

namespace TxHarbor.Execution

open Store Sample Receipt

/-! What a reconcile fetches from the node, and the receipt columns and events it writes besides the states. -/

/-- A receipt of the node. `deviation` is what `FindExpectedTransfer` has against its logs. -/
structure NodeReceipt where
  blockNumber : Int
  blockHash : Nat
  status : Nat
  deviation : Option String

/-- The columns that `applyReceipt` takes from it: the status, and `receiptEffect` with the transfer detail. -/
def NodeReceipt.verdict (r : NodeReceipt) : Verdict :=
  if r.status = 0 then ⟨0, .ineffectiveStatus, ""⟩
  else match r.deviation with
    | none => ⟨r.status, .effective, ""⟩
    | some "transfer_missing" => ⟨r.status, .ineffectiveTransferMissing, "transfer_missing"⟩
    | some reason => ⟨r.status, .ineffectiveTransferMismatch, reason⟩

/-- The receipt that `probe` fetches, and what `applyReceipt` finds when it fetches once more. -/
structure NodeAnswers where
  probed : NodeReceipt
  applied : Option NodeReceipt

/-- The observation they make: the block of the first with the verdict of the second, without which nothing is
written. -/
def NodeAnswers.probe (n : NodeAnswers) : Probe :=
  match n.applied with
  | some r => .included n.probed.blockNumber n.probed.blockHash r.verdict
  | none => .unavailable

/-- The events that a transaction appended. -/
def Store.appended (s s' : Store) : List (AttemptID × AttemptEvent) := s'.attemptEvents.drop s.attemptEvents.length

variable {t : ClaimTimings} {s s' : Store} {view : ChainView} {id : AttemptID} {probe : Probe}

theorem Store.applyReceipt_kept (s : Store) (view : ChainView) (new : Receipt) :
    (s.applyReceipt view new).freeze = s.freeze ∧ (s.applyReceipt view new).sends = s.sends ∧
      (s.applyReceipt view new).attemptEvents = s.attemptEvents := by
  unfold applyReceipt reviseOrphaned
  dsimp only
  generalize receiptTransition _ _ _ _ = move
  cases move <;> split <;> split <;> exact ⟨rfl, rfl, rfl⟩

/-- The freeze that a committed reconcile leaves, and the events it appends. -/
theorem reconcileAttempt_log (h : reconcileAttempt view id probe s = .ok ((), s')) :
    s'.freeze = (if s.staleDispatch view id then some (s.freeze.getD false) else s.freeze) ∧
      s'.attemptEvents = s.attemptEvents ++ s.reconcileEvents view id probe := by
  simp only [reconcileAttempt, Tx.eq_ok] at h
  obtain ⟨_, _, ⟨rfl, rfl⟩, a, _, ⟨-, rfl⟩, _, _, ⟨-, rfl⟩, rfl⟩ := h
  have hdetect : ∀ s₁ : Store, s₁.freeze = s.freeze ∧ s₁.sends = s.sends ∧ s₁.attemptEvents = s.attemptEvents →
      (s₁.detectFreeze view id).freeze = (if s.staleDispatch view id then some (s.freeze.getD false) else s.freeze) ∧
        (s₁.detectFreeze view id).attemptEvents ++ s.reconcileEvents view id probe =
          s.attemptEvents ++ s.reconcileEvents view id probe := by
    rintro s₁ ⟨hfreeze, hsends, hevents⟩
    rw [← hfreeze, ← hevents, staleDispatch, ← hsends, detectFreeze, staleDispatch]
    split <;> exact ⟨rfl, rfl⟩
  refine hdetect _ ?_
  cases probe with
  | included number hash verdict => exact s.applyReceipt_kept view _
  | _ => cases reconcileTransition _ a.state <;> exact ⟨rfl, rfl, rfl⟩

theorem appended_of_reconcile (h : reconcileAttempt view id probe s = .ok ((), s')) :
    s.appended s' = s.reconcileEvents view id probe := by
  rw [appended, (reconcileAttempt_log h).2, drop_left]

namespace Sample

/-- A receipt in a block of height 1. -/
def receipt (hash status : Nat) : NodeReceipt := ⟨1, hash, status, none⟩

/-- A broadcast whose transaction the node does not know yet. -/
def absent : Store := run (Store.next timings) (.empty 0) (broadcast ++ [does (.reconcile (indexed 10) ⟨1⟩ .notFoundYet)])

end Sample

/-! ### The block of a verdict -/

/-- A row of a block that had none is the observed receipt itself, up to its canonicality. -/
theorem Store.Observed.inserted {new row r : Receipt} (h : s.Observed view new s' row) (hr : r ∈ s'.receipts)
    (hfresh : ∀ old ∈ s.receipts, old.sameBlock r = false) :
    r.blockNumber = new.blockNumber ∧ r.blockHash = new.blockHash ∧ r.verdict = new.verdict := by
  rw [h.receipts] at hr
  obtain ⟨r₀, hr₀, rfl⟩ := mem_map.mp hr
  have hrevise : ∀ r : Receipt, ((r.revise view new.attempt new.blockHash).verdict = r.verdict) := by
    intro r
    unfold revise
    split <;> rfl
  obtain ⟨hattempt, hnumber, hhash, -⟩ := r₀.revise_identity view new.attempt new.blockHash
  rw [hnumber, hhash, hrevise]
  have hold : ∀ old ∈ s.receipts, ¬ (old.attempt = r₀.attempt ∧ old.blockHash = r₀.blockHash) := by
    intro old hmem
    have hother := hfresh old hmem
    rwa [← Bool.not_eq_true, sameBlock_iff, hattempt, hhash] at hother
  revert hold
  refine upsertReceipt_forall (P := fun r₀ => (∀ old ∈ s.receipts, ¬ (old.attempt = r₀.attempt ∧
    old.blockHash = r₀.blockHash)) → r₀.blockNumber = new.blockNumber ∧ r₀.blockHash = new.blockHash ∧
      r₀.verdict = new.verdict) ?_ ?_ (fun _ => ⟨rfl, rfl, rfl⟩) r₀ hr₀
  · exact fun r hr hold => absurd ⟨rfl, rfl⟩ (hold r hr)
  · intro r hr _ hold
    obtain ⟨hattempt, -, hhash, -⟩ := r.refresh_identity new
    exact absurd ⟨hattempt.symm, hhash.symm⟩ (hold r hr)

/-- The columns of an inserted row are those of a receipt that the node returned for its block, exactly when the two
receipts that the reconcile fetched are of one block or agree in these columns. -/
theorem verdict_of_block (n : NodeAnswers) (h : reconcileAttempt view id n.probe s = .ok ((), s')) {row : Receipt}
    (hrow : row ∈ s'.receipts) (hfresh : ∀ old ∈ s.receipts, old.sameBlock row = false) :
    (∃ r, (n.probed = r ∨ n.applied = some r) ∧ r.blockNumber = row.blockNumber ∧ r.blockHash = row.blockHash ∧
        r.verdict = row.verdict) ↔
      ∀ r, n.applied = some r → r.blockNumber = n.probed.blockNumber ∧ r.blockHash = n.probed.blockHash ∨
        r.verdict = n.probed.verdict := by
  obtain ⟨probed, applied⟩ := n
  obtain ⟨a, -, ⟨number, hash, verdict, _, hprobe, hobs⟩ | ⟨-, -, hreceipts⟩⟩ := reconcileAttempt_spec h
  · cases applied with
    | none => cases hprobe
    | some r =>
      cases hprobe
      obtain ⟨hnumber, hhash, hverdict⟩ := hobs.inserted hrow hfresh
      simp only [seen] at hnumber hhash hverdict
      simp only [hnumber, hhash, hverdict, or_and_right, exists_or, exists_eq_left', Option.some.injEq, forall_eq',
        true_and, and_true]
      rw [or_comm, eq_comm (a := r.verdict)]
  · rw [hreceipts] at hrow
    have hself := hfresh row hrow
    rw [sameBlock, beq_self_eq_true, beq_self_eq_true] at hself
    cases hself

theorem verdict_of_block_once : ∃ r, (receipt 10 1 = r ∨ some (receipt 10 1) = some r) ∧ r.blockNumber = 1 ∧
    r.blockHash = 10 ∧ r.verdict = paid :=
  (verdict_of_block ⟨receipt 10 1, some (receipt 10 1)⟩
    (show reconcileAttempt (indexed 10) ⟨1⟩ (.included 1 10 paid) absent = .ok _ from rfl)
    (show Receipt.seen (indexed 10) ⟨1⟩ 1 10 paid ∈ _ by decide +kernel) (by decide +kernel)).mpr
      (by rintro _ ⟨⟩; exact .inr rfl)

/-- The chain is reorganised between the two calls: the row of block 10, in which the payment failed, gets the verdict of
block 11. -/
theorem verdict_of_other_block :
    let n : NodeAnswers := ⟨receipt 10 0, some (receipt 11 1)⟩
    absent.receipts = [] ∧ n.probed.verdict = failed ∧
      (absent.commit (reconcileAttempt (indexed 10) ⟨1⟩ n.probe)).receipts.map
        (fun r => (r.blockNumber, r.blockHash, r.verdict)) = [(1, 10, paid)] := by
  decide +kernel

/-! ### Cleared uncertainty -/

/-- The row of the block, if there is one, was not revised. -/
def Store.Live (s : Store) (id : AttemptID) (hash : Nat) : Prop :=
  ∀ row, s.receipts.find? (fun r => r.attempt == id && r.blockHash == hash) = some row → row.canonicality ≠ .orphaned

theorem Store.unknownCleared_mem_iff {number : Int} {hash : Nat} {verdict : Verdict} :
    (id, .unknownCleared) ∈ s.reconcileEvents view id (.included number hash verdict) ↔
      verdict.effective = true ∧ s.stateOf id = .unknown := by
  obtain ⟨status, effect, detail⟩ := verdict
  simp only [reconcileEvents, receiptEvents,
    show (seen view id number hash ⟨status, effect, detail⟩).attempt = id from rfl,
    show (seen view id number hash ⟨status, effect, detail⟩).verdict.effect = effect from rfl]
  cases effect <;> simp [mem_ite_nil_right, ReceiptEffect.text, Verdict.effective]

theorem Store.Observed.live_iff {new row : Receipt} (h : s.Observed view new s' row)
    (hcanonical : new.canonicality = .canonical) :
    row.canonicality ≠ .orphaned ↔ s.Live new.attempt new.blockHash := by
  change _ ↔ ∀ row, s.receipts.find? (fun r => r.sameBlock new) = some row → _
  rcases h.origin with ⟨rfl, hnone⟩ | ⟨r, -, -, rfl, hsome⟩
  · simp [hcanonical, hnone]
  · simp only [hsome, Option.some.injEq, forall_eq', refresh, hcanonical, true_and]
    split
    next hlive => exact iff_of_true nofun hlive
    next hlive => rfl

/-- The write of a receipt loses no other one. -/
theorem upsertReceipt_lost (receipts : List Receipt) (view : ChainView) (new : Receipt) :
    (upsertReceipt receipts new).any (Receipt.lost view new.attempt new.blockHash) =
      receipts.any (Receipt.lost view new.attempt new.blockHash) := by
  unfold upsertReceipt
  split
  · rw [any_map]
    refine congrArg receipts.any (funext fun r => ?_)
    dsimp only [Function.comp_apply]
    split
    next hsame =>
      have hhash := (sameBlock_iff.mp hsame).2
      simp [lost, hhash, (r.refresh_identity new).2.2.1]
    · rfl
  · rw [any_append]
    simp [lost]

/-- For an unknown attempt: the receipt pays exactly when its block is canonical and its row was not revised, and when it
pays no other receipt of the attempt has lost its block. -/
def Store.ClearsRightly (s : Store) (view : ChainView) (id : AttemptID) (number : Int) (hash : Nat)
    (verdict : Verdict) : Prop :=
  (verdict.effective = true ↔ view.canonical number hash = true ∧ s.Live id hash) ∧
    (verdict.effective = true → s.receipts.any (Receipt.lost view id hash) = false)

/-- The unknown_cleared event is appended exactly when the transaction resolves an unknown attempt, if and only if the
attempt is not unknown or `Store.ClearsRightly` holds of what the reconcile reads. -/
theorem unknown_cleared_iff_resolved {number : Int} {hash : Nat} {verdict : Verdict}
    (h : reconcileAttempt view id (.included number hash verdict) s = .ok ((), s')) :
    ((id, .unknownCleared) ∈ s.appended s' ↔ s.stateOf id = .unknown ∧
        s'.stateOf id ∈ [AttemptState.effective, .confirmed, .ineffective]) ↔
      (s.stateOf id = .unknown → s.ClearsRightly view id number hash verdict) := by
  rw [appended_of_reconcile h, unknownCleared_mem_iff, and_comm]
  by_cases hunknown : s.stateOf id = .unknown
  swap
  · simp [hunknown]
  obtain ⟨a, -, ⟨_, _, _, row, hprobe, hobs⟩ | ⟨hnone, -⟩⟩ := reconcileAttempt_spec h
  swap
  · exact absurd rfl (hnone _ _ _)
  cases hprobe
  have hstate := hobs.state
  rw [upsertReceipt_lost] at hstate
  simp only [show (seen view id number hash verdict).attempt = id from rfl, hunknown,
    show (seen view id number hash verdict).effective = verdict.effective from rfl,
    show (seen view id number hash verdict).blockHash = hash from rfl] at hstate
  rw [hstate]
  simp only [hunknown, true_and, forall_const, ClearsRightly]
  by_cases hcanonical : view.canonical number hash = true
  · have hseen : (seen view id number hash verdict).canonicality = .canonical := if_pos hcanonical
    have hlive := hobs.live_iff hseen
    simp only [hseen, hcanonical, true_and, ← show _ ↔ s.Live id hash from hlive]
    -- the verdict, the row and the lost receipts decide
    cases verdict.effective <;> cases s.receipts.any (Receipt.lost view id hash) <;>
      cases (seen view id number hash verdict).confirmed <;> cases row.canonicality <;> decide
  · have hseen : (seen view id number hash verdict).canonicality = .unverified := if_neg hcanonical
    simp only [hseen, hcanonical, Bool.false_eq_true, false_and, iff_false]
    cases verdict.effective <;> simp [receiptTransition, AttemptState.revised]

theorem unknown_cleared_iff_resolved_paid : (⟨1⟩, .unknownCleared) ∈
    absent.appended (absent.commit (reconcileAttempt (indexed 10) ⟨1⟩ (.included 1 10 paid))) :=
  ((unknown_cleared_iff_resolved
    (show reconcileAttempt (indexed 10) ⟨1⟩ (.included 1 10 paid) absent = .ok _ from rfl)).mpr
      fun _ => ⟨iff_of_true rfl ⟨rfl, nofun⟩, fun _ => rfl⟩).mpr (by decide +kernel)

/-- A failed payment resolves an unknown attempt without the event, and a payment in a block that is not indexed appends
the event and leaves the attempt unknown. -/
theorem unknown_cleared_misses :
    let after (hash : Nat) (verdict : Verdict) :=
      absent.commit (reconcileAttempt (indexed 10) ⟨1⟩ (.included 1 hash verdict))
    absent.stateOf ⟨1⟩ = .unknown ∧ (receipt 10 0).verdict = failed ∧ (receipt 11 1).verdict = paid ∧
      (after 10 failed).stateOf ⟨1⟩ = .ineffective ∧ (⟨1⟩, .unknownCleared) ∉ absent.appended (after 10 failed) ∧
      (after 11 paid).stateOf ⟨1⟩ = .unknown ∧ (⟨1⟩, .unknownCleared) ∈ absent.appended (after 11 paid) := by
  decide +kernel

/-! ### Freezes -/

/-- A dispatch of the attempt that `detectFreeze` finds, made after the given time. -/
def Store.staleDispatchSince (s : Store) (view : ChainView) (id : AttemptID) (release : Option Int) : Bool :=
  view.earliestPause.any fun pause => s.sends.any fun row =>
    row.attempt == id && !row.pauseObserved && decide (pause < row.dispatchedAt) &&
      release.all fun at' => decide (at' < row.dispatchedAt)

/-- The time of the last release of the run. -/
def Store.lastRelease (t : ClaimTimings) : Store → List Action → Option Int
  | _, [] => none
  | s, act :: rest => (lastRelease t (s.next t act) rest).or <| match act with
    | .submit (.releaseFreeze _) _ => if (s.next t act).freeze = s.freeze then none else some s.now
    | _ => none

/-- A committed reconcile that finds stale evidence. -/
def Action.Finds (t : ClaimTimings) (s : Store) : Action → Prop
  | .submit (.reconcile view id probe) fault => s.staleDispatch view id = true ∧
      s.appended (s.next t (.submit (.reconcile view id probe) fault)) ≠ []
  | _ => False

instance (t : ClaimTimings) (s : Store) (act : Action) : Decidable (act.Finds t s) := by
  unfold Action.Finds
  split <;> infer_instance

/-- Evidence that is newer than the last release leaves an unreleased freeze when the reconcile commits, and a frozen event
is appended only with a new row. -/
def Action.Freezes (t : ClaimTimings) (s : Store) (release : Option Int) : Action → Prop
  | .submit (.reconcile view id probe) fault =>
    let s' := s.next t (.submit (.reconcile view id probe) fault)
    (s.appended s' ≠ [] → s.staleDispatchSince view id release = true → s'.freeze = some false) ∧
      ((id, .frozen) ∈ s.appended s' → s.freeze = none ∧ s'.freeze ≠ none)
  | _ => True

theorem Store.staleDispatch_of_since {release : Option Int} (h : s.staleDispatchSince view id release = true) :
    s.staleDispatch view id = true := by
  simp only [staleDispatchSince, staleDispatch, Option.any_eq_true, any_eq_true, Bool.and_eq_true] at h ⊢
  obtain ⟨pause, hpause, row, hrow, hstale, -⟩ := h
  exact ⟨pause, hpause, row, hrow, hstale⟩

theorem Store.frozen_mem_iff : (id, .frozen) ∈ s.reconcileEvents view id probe ↔ s.staleDispatch view id = true := by
  unfold reconcileEvents
  split
  · simp only [receiptEvents]
    split <;> simp [mem_ite_nil_right]
  · simp [mem_ite_nil_right]

/-- A reconcile leaves the store alone or commits, and then it appends events. -/
theorem Store.next_reconcile (t : ClaimTimings) (s : Store) (view : ChainView) (id : AttemptID) (probe : Probe)
    (fault : Fault Refusal) : s.next t (.submit (.reconcile view id probe) fault) = s ∨
      ∃ s', reconcileAttempt view id probe s = .ok ((), s') ∧ s.appended s' ≠ [] ∧
        s.next t (.submit (.reconcile view id probe) fault) = s' := by
  rcases s.next_submit t (.reconcile view id probe) fault with hsame | ⟨s', hbody, hnew⟩
  · exact .inl hsame
  · refine .inr ⟨s', hbody, ?_, hnew⟩
    rw [appended_of_reconcile hbody]
    exact cons_ne_nil _ _

@[simp] theorem Store.appended_self (s : Store) : s.appended s = [] := drop_length

theorem Action.freezes_iff {release : Option Int} {act : Action} :
    act.Freezes t s release ↔ (act.Finds t s → s.freeze = none) := by
  unfold Action.Freezes Action.Finds
  split
  swap
  · simp
  next view id probe fault =>
    rcases s.next_reconcile t view id probe fault with hsame | ⟨s', hbody, hevents, hnew⟩
    · simp [hsame]
    simp only [hnew, hevents, ne_eq, not_false_eq_true, forall_const, and_true]
    rw [appended_of_reconcile hbody, frozen_mem_iff, (reconcileAttempt_log hbody).1]
    constructor
    · exact fun h hstale => (h.2 hstale).1
    · refine fun hfree => ⟨fun hsince => ?_, fun hstale => ⟨hfree hstale, ?_⟩⟩
      · have hstale := staleDispatch_of_since hsince
        rw [if_pos hstale, hfree hstale]
        rfl
      · rw [if_pos hstale]
        rintro ⟨⟩

/-- Besides a reconcile only a release writes the freeze row, and it needs one. -/
theorem Operation.freeze_none {op : Operation} (hop : ∀ view id probe, op ≠ .reconcile view id probe)
    (hbody : op.body t s = .ok ((), s')) : s'.freeze = none ↔ s.freeze = none := by
  by_cases hclerical : op.clerical = true
  · rw [(Operation.clerical_frame hclerical hbody).freeze]
  cases op with
  | issue req gates => obtain ⟨intent, steps, -, ⟨-, rfl⟩ | ⟨-, rfl⟩⟩ := issue_spec hbody <;> rfl
  | converge h' step res =>
    obtain ⟨-, -, -, steps, -, rfl | ⟨-, e, -, -, rfl | ⟨intent, -, -, rfl⟩⟩⟩ := converge_spec hbody <;> rfl
  | convergeOpenStep step v =>
    obtain ⟨-, steps, e, -, -, -, rfl⟩ := convergeOpenStep_spec hbody
    rfl
  | prepare => rcases prepareAttempt_spec hbody with ⟨rfl, -⟩ | ⟨attempts, -, -, rfl⟩ <;> rfl
  | sign =>
    obtain ⟨a, -, -, rfl⟩ := signAndPersist_spec hbody
    rfl
  | dispatch =>
    obtain ⟨-, a, row, -, -, -, rfl⟩ := sendRegion_spec hbody
    rfl
  | recordWriteFailure =>
    obtain ⟨a, row, -, -, rfl⟩ := recordRegionWriteFailure_spec hbody
    rfl
  | releaseFreeze permitted =>
    obtain ⟨-, hfreeze, rfl⟩ := releaseFreeze_spec hbody
    simp [hfreeze]
  | reconcile view id probe => exact absurd rfl (hop _ _ _)
  | _ => exact absurd rfl hclerical

theorem Store.next_freeze_none (t : ClaimTimings) (s : Store) (act : Action) :
    (s.next t act).freeze = none ↔ s.freeze = none ∧ ¬ act.Finds t s := by
  cases act with
  | wait ticks => exact (and_iff_left id).symm
  | submit op fault =>
    by_cases hreconcile : ∃ view id probe, op = .reconcile view id probe
    · obtain ⟨view, id, probe, rfl⟩ := hreconcile
      rcases s.next_reconcile t view id probe fault with hsame | ⟨s', hbody, hevents, hnew⟩
      · simp [Action.Finds, hsame]
      · simp only [Action.Finds, hnew, (reconcileAttempt_log hbody).1, hevents, ne_eq, not_false_eq_true, and_true]
        split <;> simp_all
    · push Not at hreconcile
      have hfinds : ¬ (Action.submit op fault).Finds t s := by
        cases op <;> first | exact absurd rfl (hreconcile _ _ _) | exact id
      rw [and_iff_left hfinds]
      rcases s.next_submit t op fault with hsame | ⟨s', hbody, hnew⟩
      · rw [hsame]
      · rw [hnew]
        exact Operation.freeze_none hreconcile hbody

theorem Store.along_finds_iff (t : ClaimTimings) (s : Store) (actions : List Action) :
    Along (next t) (fun s act => act.Finds t s → s.freeze = none) s actions ↔
      tally (next t) (fun s act => act.Finds t s) s actions ≤ if s.freeze = none then 1 else 0 := by
  induction actions generalizing s with
  | nil => simp [Along, tally]
  | cons act rest ih =>
    rw [Along, tally, ih]
    simp only [s.next_freeze_none t act]
    by_cases hfinds : act.Finds t s <;> by_cases hfree : s.freeze = none <;> simp [hfinds, hfree]

/-- In a run every reconcile freezes as it should exactly when at most one committed reconcile of the run finds stale
evidence: the row that the first one creates is never created again, whether it was released or not. -/
theorem stale_dispatch_freezes (t : ClaimTimings) (start : Int) (actions : List Action) :
    (∀ front act back, actions = front ++ act :: back → act.Freezes t (run (next t) (.empty start) front)
        (lastRelease t (.empty start) front)) ↔
      tally (next t) (fun s act => act.Finds t s) (.empty start) actions ≤ 1 := by
  simp only [Action.freezes_iff]
  exact along_iff.symm.trans (along_finds_iff t (.empty start) actions)

/-- A freeze of the first dispatch and its release. -/
def Sample.thawed : List Action := broadcast ++ [does (.reconcile paused ⟨1⟩ .foundPending), does (.releaseFreeze true)]

/-- A dispatch after the release that saw no pause either: the intent stays released, and the event is appended. -/
theorem second_freeze_dropped :
    let front := thawed ++ [.wait 1, does (.dispatch ⟨1⟩ first .replay ⟨none, false⟩ .accepted)]
    let s := run (next timings) (.empty 0) front
    let s' := s.next timings (does (.reconcile paused ⟨1⟩ .foundPending))
    s.staleDispatchSince paused ⟨1⟩ (lastRelease timings (.empty 0) front) = true ∧ s.freeze = some true ∧
      s'.freeze = some true ∧ (⟨1⟩, .frozen) ∈ s.appended s' := by
  decide +kernel

end TxHarbor.Execution
