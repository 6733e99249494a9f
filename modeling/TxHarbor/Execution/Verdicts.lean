import TxHarbor.Execution.Facts

open Relational Transition List Option Bool

namespace TxHarbor.Execution

open Store Sample

/-! The verdict of an attempt against the blocks of the chain, and against its siblings. -/

variable {t : ClaimTimings} {s s' : Store}

/-- The height of each block, and whether the receipt of an attempt there shows the expected transfer. -/
structure Ledger where
  number : Nat → Int
  effective : AttemptID → Nat → Bool

/-- The node reports a block as the chain has it. Which blocks are canonical may change at any time. -/
def Probe.Truthful (ledger : Ledger) (id : AttemptID) : Probe → Prop
  | .included number hash verdict => number = ledger.number hash ∧ verdict.effective = ledger.effective id hash
  | _ => True

instance (ledger : Ledger) (id : AttemptID) : (probe : Probe) → Decidable (probe.Truthful ledger id)
  | .included number hash verdict =>
    inferInstanceAs (Decidable (number = ledger.number hash ∧ verdict.effective = ledger.effective id hash))
  | .notFoundYet | .foundPending | .unavailable => isTrue trivial

def Receipt.Pinned (ledger : Ledger) (r : Receipt) : Prop :=
  r.blockNumber = ledger.number r.blockHash ∧ r.effective = ledger.effective r.attempt r.blockHash

/-- The states that report the payment as made. -/
def AttemptState.paid : AttemptState → Bool
  | .effective | .confirmed => true
  | _ => false

variable {state : AttemptState} {r new row : Receipt} {id : AttemptID} {view : ChainView} {probe : Probe}

/-! ### The receipt rows -/

theorem Receipt.refresh_identity (r new : Receipt) : (r.refresh new).attempt = r.attempt ∧
    (r.refresh new).blockNumber = r.blockNumber ∧ (r.refresh new).blockHash = r.blockHash ∧
    (r.refresh new).effective = r.effective := by
  unfold Receipt.refresh
  split <;> exact ⟨rfl, rfl, rfl, rfl⟩

theorem Receipt.revise_identity (view : ChainView) (id : AttemptID) (hash : Nat) (r : Receipt) :
    (r.revise view id hash).attempt = r.attempt ∧ (r.revise view id hash).blockNumber = r.blockNumber ∧
    (r.revise view id hash).blockHash = r.blockHash ∧ (r.revise view id hash).effective = r.effective := by
  unfold Receipt.revise
  split <;> exact ⟨rfl, rfl, rfl, rfl⟩

/-- The row just written is exempt from the revision. -/
theorem Receipt.revise_of_sameHash (view : ChainView) (id : AttemptID) {hash : Nat} (h : r.blockHash = hash) :
    r.revise view id hash = r := by
  simp [Receipt.revise, Receipt.lost, h]

theorem Receipt.Pinned.of_identity {ledger : Ledger} {r' : Receipt} (h : r.Pinned ledger)
    (hid : r'.attempt = r.attempt ∧ r'.blockNumber = r.blockNumber ∧ r'.blockHash = r.blockHash ∧
      r'.effective = r.effective) : r'.Pinned ledger := by
  obtain ⟨hattempt, hnumber, hhash, heffective⟩ := hid
  unfold Receipt.Pinned
  rwa [hattempt, hnumber, hhash, heffective]

theorem Receipt.sameBlock_iff : r.sameBlock new = true ↔ r.attempt = new.attempt ∧ r.blockHash = new.blockHash := by
  simp [Receipt.sameBlock]

variable {receipts : List Receipt}

/-- The rows after the write: those of other blocks, the refreshed rows of this one, and the new row. -/
theorem upsertReceipt_forall {P : Receipt → Prop} (hkept : ∀ r ∈ receipts, P r)
    (hrefresh : ∀ r ∈ receipts, r.sameBlock new = true → P (r.refresh new)) (hnew : P new) :
    ∀ r ∈ upsertReceipt receipts new, P r := by
  intro r hr
  unfold upsertReceipt at hr
  split at hr
  · obtain ⟨r₀, hr₀, rfl⟩ := List.mem_map.mp hr
    split
    · exact hrefresh r₀ hr₀ ‹_›
    · exact hkept r₀ hr₀
  · rcases mem_concat_cases hr with hr | rfl
    · exact hkept r hr
    · exact hnew

/-- The row of the observed block after the write, and the row it was before. -/
theorem upsertReceipt_find (receipts : List Receipt) (new : Receipt) :
    ∃ row, (upsertReceipt receipts new).find? (fun r => r.sameBlock new) = some row ∧
      (row = new ∧ receipts.find? (fun r => r.sameBlock new) = none ∨ ∃ r ∈ receipts, r.sameBlock new = true ∧
        row = r.refresh new ∧ receipts.find? (fun r => r.sameBlock new) = some r) := by
  have hrefresh : ∀ r : Receipt, (if r.sameBlock new then r.refresh new else r).sameBlock new = r.sameBlock new := by
    intro r
    obtain ⟨hattempt, -, hhash, -⟩ := r.refresh_identity new
    split
    · simp only [Receipt.sameBlock, hattempt, hhash]
    · rfl
  unfold upsertReceipt
  split
  next hany =>
    obtain ⟨r, hr⟩ := isSome_iff_exists.mp (find?_isSome.mpr (any_eq_true.mp hany))
    have hsame : r.sameBlock new = true := find?_some (p := fun r : Receipt => r.sameBlock new) hr
    refine ⟨r.refresh new, ?_, .inr ⟨r, mem_of_find?_eq_some hr, hsame, rfl, hr⟩⟩
    rw [find?_map, Function.comp_def]
    simp only [hrefresh, hr, map_some, if_pos hsame]
  next hnone =>
    have hfree : receipts.find? (fun r => r.sameBlock new) = none :=
      find?_eq_none.mpr fun r hr h => hnone (any_eq_true.mpr ⟨r, hr, h⟩)
    refine ⟨new, ?_, .inl ⟨rfl, hfree⟩⟩
    rw [find?_append, hfree]
    simp [Receipt.sameBlock]

theorem storedCanonicality_eq (h : receipts.find? (fun r => r.sameBlock new) = some row) :
    storedCanonicality receipts new = row.canonicality := by
  rw [storedCanonicality, h]
  rfl

/-! ### What a reconcile does to one attempt -/

theorem Store.stateOf_eq {a : TxAttempt} (h : s.attempt? a.id = some a) : s.stateOf a.id = a.state := by
  rw [stateOf, h]
  rfl

theorem Store.attempt?_moveIf (s : Store) (id : AttemptID) (state : Option AttemptState) :
    (s.moveIf id state).attempt? id = (s.attempt? id).map fun a => state.elim a fun state => a.move state := by
  cases state with
  | none => exact map_id'.symm
  | some state =>
    exact s.attempt?_moveAttempt id state

theorem Store.stateOf_moveIf (h : s.attempt? id ≠ none) (state : Option AttemptState) :
    (s.moveIf id state).attempt? id ≠ none ∧ (s.moveIf id state).stateOf id = state.getD (s.stateOf id) := by
  unfold stateOf
  rw [s.attempt?_moveIf id state]
  cases ha : s.attempt? id with
  | none => exact absurd ha h
  | some a => cases state <;> exact ⟨nofun, rfl⟩

theorem Store.moveIf_receipts (s : Store) (id : AttemptID) (state : Option AttemptState) :
    (s.moveIf id state).receipts = s.receipts := by
  cases state <;> rfl

/-- The state that `reviseOrphanedReceipts` leaves. -/
def AttemptState.revised (lost : Bool) (state : AttemptState) : AttemptState :=
  if lost = true ∧ (state = .effective ∨ state = .confirmed) then .orphaned else state

theorem Store.reviseOrphaned_eq (s : Store) (view : ChainView) (id : AttemptID) (hash : Nat) :
    (s.reviseOrphaned view id hash).receipts = s.receipts.map (Receipt.revise view id hash) ∧
      (s.attempt? id ≠ none → (s.reviseOrphaned view id hash).stateOf id =
        (s.stateOf id).revised (s.receipts.any (Receipt.lost view id hash))) := by
  unfold reviseOrphaned
  dsimp only
  split
  next hlost =>
    refine ⟨rfl, fun hsome => ?_⟩
    rw [AttemptState.revised, if_pos (show _ ∧ (s.stateOf id = _ ∨ s.stateOf id = _) from hlost)]
    exact (stateOf_moveIf (s := { s with receipts := s.receipts.map (Receipt.revise view id hash) }) hsome
      (some .orphaned)).2
  next hkept =>
    refine ⟨rfl, fun _ => ?_⟩
    rw [AttemptState.revised, if_neg (show ¬ (_ ∧ (s.stateOf id = _ ∨ s.stateOf id = _)) from hkept)]
    rfl

theorem Store.replaceSiblings_self (s : Store) (id : AttemptID) :
    (s.replaceSiblings id).attempt? id = s.attempt? id := by
  unfold attempt? replaceSiblings
  dsimp only
  rw [Table.select_update s.attempts (TxAttempt.move_keepsKeys .replaced) fun _ => rfl]
  cases hsel : s.attempts.select fun a => a.id == id with
  | none => rfl
  | some a =>
    have hid : a.id = id := beq_iff_eq.mp (Table.select_mem hsel).2
    simp [hid]

/-- The row the observation leaves and the move it decides. -/
structure Store.Observed (s : Store) (view : ChainView) (new : Receipt) (s' : Store) (row : Receipt) : Prop where
  receipts : s'.receipts = (upsertReceipt s.receipts new).map (Receipt.revise view new.attempt new.blockHash)
  written : (upsertReceipt s.receipts new).find? (fun r => r.sameBlock new) = some row
  origin : row = new ∧ s.receipts.find? (fun r => r.sameBlock new) = none ∨ ∃ r ∈ s.receipts,
    r.sameBlock new = true ∧ row = r.refresh new ∧ s.receipts.find? (fun r => r.sameBlock new) = some r
  /-- A revision may still take the state to orphaned. -/
  state : s'.stateOf new.attempt = ((receiptTransition (s.stateOf new.attempt) new.effective
      (new.canonicality == .canonical && row.canonicality != .orphaned)
      (new.confirmed && row.canonicality != .orphaned)).getD (s.stateOf new.attempt)).revised
        ((upsertReceipt s.receipts new).any (Receipt.lost view new.attempt new.blockHash))
  /-- Siblings are replaced for an effective receipt only. -/
  siblings : ∀ a' ∈ s'.attempts.rows, a'.id ≠ new.attempt → a' ∈ s.attempts.rows ∨
    a'.state = .replaced ∧ new.effective = true

theorem AttemptState.revised_cases (lost : Bool) (state : AttemptState) :
    state.revised lost = .orphaned ∨ state.revised lost = state := by
  unfold AttemptState.revised
  split <;> simp

theorem Receipt.effective_of_confirmed (h : r.confirmed = true) : r.effective = true := by
  simp only [Receipt.confirmed, and_eq_true] at h
  exact h.1.2

theorem Store.Touches.kept_of_ne {f : TxAttempt → TxAttempt} {l : List TxAttempt}
    (hf : ∀ a, (f a).id = a.id ∧ (a.id ≠ id → f a = a)) : ∀ a' ∈ l.map f, a'.id ≠ id → a' ∈ l := by
  intro a' ha' hne
  obtain ⟨a, ha, rfl⟩ := mem_map.mp ha'
  rw [(hf a).1] at hne
  rwa [(hf a).2 hne]

theorem Store.moveIf_others (s : Store) (id : AttemptID) (state : Option AttemptState) :
    ∀ a' ∈ (s.moveIf id state).attempts.rows, a'.id ≠ id → a' ∈ s.attempts.rows := by
  cases state with
  | none => exact fun _ ha _ => ha
  | some state =>
    refine Store.Touches.kept_of_ne (f := fun a => if a.id == id then a.move state else a) fun a => ?_
    split
    next hid => exact ⟨rfl, fun hne => absurd (beq_iff_eq.mp hid) hne⟩
    · exact ⟨rfl, fun _ => rfl⟩

theorem Store.reviseOrphaned_others (s : Store) (view : ChainView) (id : AttemptID) (hash : Nat) :
    ∀ a' ∈ (s.reviseOrphaned view id hash).attempts.rows, a'.id ≠ id → a' ∈ s.attempts.rows := by
  unfold reviseOrphaned
  dsimp only
  split
  · exact moveIf_others { s with receipts := s.receipts.map (Receipt.revise view id hash) } id (some .orphaned)
  · exact fun _ ha _ => ha

theorem Store.applyReceipt_observed (s : Store) (view : ChainView) (hsome : s.attempt? new.attempt ≠ none) :
    ∃ row, s.Observed view new (s.applyReceipt view new) row := by
  obtain ⟨row, hwritten, horigin⟩ := upsertReceipt_find s.receipts new
  refine ⟨row, ?_⟩
  unfold applyReceipt
  dsimp only
  rw [storedCanonicality_eq hwritten]
  generalize hmove : receiptTransition _ _ _ _ = move
  generalize hs₁ : ({ s with receipts := upsertReceipt s.receipts new } : Store) = s₁ at hmove ⊢
  have hattempts₁ : s₁.attempts = s.attempts := by rw [← hs₁]
  have hsome₁ : s₁.attempt? new.attempt ≠ none := by
    rwa [attempt?, hattempts₁]
  have hstate₁ : s₁.stateOf new.attempt = s.stateOf new.attempt := by
    rw [stateOf, attempt?, hattempts₁]
    rfl
  obtain ⟨hsome₂, hstate₂⟩ := stateOf_moveIf hsome₁ move
  obtain ⟨hreceipts₃, hstate₃⟩ := (s₁.moveIf new.attempt move).reviseOrphaned_eq view new.attempt new.blockHash
  have hothers : ∀ a' ∈ ((s₁.moveIf new.attempt move).reviseOrphaned view new.attempt new.blockHash).attempts.rows,
      a'.id ≠ new.attempt → a' ∈ s.attempts.rows := by
    intro a' ha' hne
    rw [← hattempts₁]
    exact s₁.moveIf_others _ _ a' (reviseOrphaned_others _ view _ _ a' ha' hne) hne
  have hreceipts : ((s₁.moveIf new.attempt move).reviseOrphaned view new.attempt new.blockHash).receipts =
      (upsertReceipt s.receipts new).map (Receipt.revise view new.attempt new.blockHash) := by
    rw [hreceipts₃, moveIf_receipts, ← hs₁]
  have hstate : ((s₁.moveIf new.attempt move).reviseOrphaned view new.attempt new.blockHash).stateOf new.attempt =
      (move.getD (s.stateOf new.attempt)).revised
        ((upsertReceipt s.receipts new).any (Receipt.lost view new.attempt new.blockHash)) := by
    rw [hstate₃ hsome₂, hstate₂, hstate₁, moveIf_receipts, ← hs₁]
  rw [hstate₁] at hmove
  split
  next hlive =>
    refine ⟨hreceipts, hwritten, horigin, ?_, ?_⟩
    · rwa [hmove, stateOf, replaceSiblings_self]
    · intro a' ha' hne
      obtain ⟨a, ha, rfl⟩ := mem_map.mp ha'
      split
      · exact .inr ⟨rfl, hlive.2.elim Receipt.effective_of_confirmed (fun h => h)⟩
      next hkept =>
        rw [if_neg hkept] at hne
        exact .inl (hothers a ha hne)
  · refine ⟨hreceipts, hwritten, horigin, ?_, fun a' ha' hne => .inl (hothers a' ha' hne)⟩
    rwa [hmove]

theorem Store.stateOf_congr (h : s'.attempts = s.attempts) (id : AttemptID) : s'.stateOf id = s.stateOf id := by
  rw [stateOf, attempt?, h]
  rfl

/-- A committed reconcile: an inclusion is written as a receipt, any other answer only moves the attempt. -/
theorem reconcileAttempt_spec {u : Unit} (h : reconcileAttempt view id probe s = .ok (u, s')) :
    ∃ a, s.attempt? id = some a ∧ ((∃ number hash verdict row, probe = .included number hash verdict ∧
          s.Observed view (.seen view id number hash verdict) s' row) ∨
        (∀ number hash verdict, probe ≠ .included number hash verdict) ∧
          s'.attempts = (s.moveIf id (reconcileTransition probe a.state)).attempts ∧ s'.receipts = s.receipts) := by
  simp only [reconcileAttempt, Tx.eq_ok] at h
  obtain ⟨_, _, ⟨rfl, rfl⟩, a, _, ⟨ha, rfl⟩, _, _, ⟨-, rfl⟩, rfl⟩ := h
  refine ⟨a, ha, ?_⟩
  cases probe with
  | included number hash verdict =>
    have hsome : s.attempt? (Receipt.seen view id number hash verdict).attempt ≠ none := by
      rw [show (Receipt.seen view id number hash verdict).attempt = id from rfl, ha]
      rintro ⟨⟩
    obtain ⟨row, hrow⟩ := s.applyReceipt_observed view hsome
    obtain ⟨hattempts, hreceipts⟩ :=
      (s.applyReceipt view (.seen view id number hash verdict)).detectFreeze_tables view id
    refine .inl ⟨number, hash, verdict, row, rfl, ?_⟩
    change s.Observed view _ (((s.applyReceipt view (.seen view id number hash verdict)).detectFreeze view id).appendEvents
      (s.reconcileEvents view id (.included number hash verdict))) row
    have hattempts' : (((s.applyReceipt view (.seen view id number hash verdict)).detectFreeze view id).appendEvents
        (s.reconcileEvents view id (.included number hash verdict))).attempts = _ := hattempts
    refine ⟨hreceipts.trans hrow.receipts, hrow.written, hrow.origin, ?_, ?_⟩
    · rw [stateOf_congr hattempts']
      exact hrow.state
    · rw [hattempts']
      exact hrow.siblings
  | notFoundYet | foundPending | unavailable =>
    obtain ⟨hattempts, hreceipts⟩ := (s.moveIf id (reconcileTransition _ a.state)).detectFreeze_tables view id
    exact .inr ⟨(by rintro _ _ _ ⟨⟩), hattempts, hreceipts.trans (s.moveIf_receipts id _)⟩

theorem receiptTransition_getD_paid {effective canonical confirmed : Bool}
    (h : ((receiptTransition state effective canonical confirmed).getD state).paid = true) :
    state.paid = true ∧ canonical = false ∨ effective = true ∧ canonical = true ∧
      ((receiptTransition state effective canonical confirmed).getD state = .confirmed →
        confirmed = true ∨ state = .confirmed) := by
  revert h
  cases state <;> cases effective <;> cases canonical <;> cases confirmed <;> decide

theorem receiptTransition_getD_replaced {effective canonical confirmed : Bool}
    (h : (receiptTransition state effective canonical confirmed).getD state = .replaced) : state = .replaced := by
  revert h
  cases state <;> cases effective <;> cases canonical <;> cases confirmed <;> decide

theorem reconcileTransition_getD_paid (h : ((reconcileTransition probe state).getD state).paid = true) :
    state.paid = true := by
  cases probe <;> cases state <;> exact h

theorem reconcileTransition_getD_replaced (h : (reconcileTransition probe state).getD state = .replaced) :
    state = .replaced := by
  cases probe <;> cases state <;> first | exact h | cases h

/-! ### The verdict and its block -/

/-- A paid attempt has an effective receipt in a block that is canonical now, at its recorded depth if it is
confirmed. -/
def Store.Grounded (s : Store) (view : ChainView) (id : AttemptID) : Prop :=
  (s.stateOf id).paid = true → ∃ r ∈ s.receipts, r.attempt = id ∧ r.effective = true ∧
    view.canonical r.blockNumber r.blockHash = true ∧ (s.stateOf id = .confirmed → r.threshold ≤ r.confirmations)

instance (s : Store) (view : ChainView) (id : AttemptID) : Decidable (s.Grounded view id) := by
  unfold Store.Grounded
  infer_instance

/-- The node answers for a paid attempt with a canonical block that was never revised away, and what it
shows is as deep as the thresholds on record. The block that was read as canonical still is after the COMMIT. -/
structure Store.Sustained (s : Store) (view after : ChainView) (id : AttemptID) (probe : Probe) : Prop where
  included : (s.stateOf id).paid = true → ∃ number hash verdict, probe = .included number hash verdict ∧
    view.canonical number hash = true ∧
    ∀ r ∈ s.receipts, r.sameBlock (.seen view id number hash verdict) = true → r.canonicality ≠ .orphaned
  deep : ∀ number hash verdict, probe = .included number hash verdict →
    (s.stateOf id = .confirmed → view.threshold ≤ (Receipt.seen view id number hash verdict).confirmations) ∧
    ∀ r ∈ s.receipts, r.sameBlock (.seen view id number hash verdict) = true → r.confirmedAt = true →
      r.threshold ≤ (Receipt.seen view id number hash verdict).confirmations
  stays : ∀ number hash verdict, probe = .included number hash verdict → view.canonical number hash = true →
    after.canonical number hash = true

/-- A canonical observation leaves its row, unless orphaned, with the new depth. -/
theorem Receipt.refresh_live (hcanonical : new.canonicality = .canonical)
    (hlive : (r.refresh new).canonicality ≠ .orphaned) : (r.refresh new).confirmations = new.confirmations ∧
      (r.refresh new).threshold = if r.confirmedAt then r.threshold else new.threshold := by
  unfold Receipt.refresh at hlive ⊢
  split
  · exact ⟨rfl, rfl⟩
  next hdead =>
    rw [if_neg hdead] at hlive
    exact absurd ⟨hcanonical, hlive⟩ hdead

theorem Receipt.seen_canonicality (view : ChainView) (id : AttemptID) (number : Int) (hash : Nat) (verdict : Verdict) :
    ((Receipt.seen view id number hash verdict).canonicality == .canonical) = view.canonical number hash := by
  cases h : view.canonical number hash <;> simp [Receipt.seen, h]

/-- The row of the observed block is still there after the revision. -/
theorem Store.Observed.row_mem (h : s.Observed view new s' row) :
    row ∈ s'.receipts ∧ row.attempt = new.attempt ∧ row.blockHash = new.blockHash := by
  have hsame : row.sameBlock new = true := find?_some (p := fun r : Receipt => r.sameBlock new) h.written
  obtain ⟨hattempt, hhash⟩ := Receipt.sameBlock_iff.mp hsame
  refine ⟨?_, hattempt, hhash⟩
  rw [h.receipts, ← Receipt.revise_of_sameHash view new.attempt hhash]
  exact mem_map_of_mem (mem_of_find?_eq_some h.written)

theorem Store.Observed.pinned {ledger : Ledger} (h : s.Observed view new s' row)
    (hs : ∀ r ∈ s.receipts, r.Pinned ledger) (hnew : new.Pinned ledger) : ∀ r ∈ s'.receipts, r.Pinned ledger := by
  intro r hr
  rw [h.receipts] at hr
  obtain ⟨r₀, hr₀, rfl⟩ := mem_map.mp hr
  have hr₀' := upsertReceipt_forall hs (fun r hr _ => (hs r hr).of_identity (r.refresh_identity new)) hnew r₀ hr₀
  exact hr₀'.of_identity (r₀.revise_identity view _ _)

/-- The row is as deep as its threshold if the observation is as deep as its own and the recorded one. -/
theorem Store.Observed.deep (h : s.Observed view new s' row) (hcanonical : new.canonicality = .canonical)
    (hlive : row.canonicality ≠ .orphaned) (hnew : new.threshold ≤ new.confirmations)
    (hrecorded : ∀ r ∈ s.receipts, r.sameBlock new = true → r.confirmedAt = true → r.threshold ≤ new.confirmations) :
    row.threshold ≤ row.confirmations := by
  rcases h.origin with ⟨rfl, -⟩ | ⟨r, hr, hsame, rfl, -⟩
  · exact hnew
  · obtain ⟨hconfirmations, hthreshold⟩ := Receipt.refresh_live hcanonical hlive
    rw [hconfirmations, hthreshold]
    split
    next hwas => exact hrecorded r hr hsame hwas
    · exact hnew

/-- A revision or a canonical effective observation: nothing else leaves an attempt paid. -/
theorem Store.Sustained.grounded {ledger : Ledger} {after : ChainView} {u : Unit}
    (hpinned : ∀ r ∈ s.receipts, r.Pinned ledger) (htruth : probe.Truthful ledger id) (hs : s.Sustained view after id probe)
    (h : reconcileAttempt view id probe s = .ok (u, s')) : s'.Grounded after id := by
  intro hpaid
  obtain ⟨a, ha, hcase⟩ := reconcileAttempt_spec h
  rcases hcase with ⟨number, hash, verdict, row, rfl, hobs⟩ | ⟨hother, hattempts, -⟩
  · obtain ⟨hmem, hrowid, hrowhash⟩ := hobs.row_mem
    obtain ⟨hdeep, hrecorded⟩ := hs.deep number hash verdict rfl
    have hstate : s'.stateOf id = _ := hobs.state
    rcases AttemptState.revised_cases _ _ with horphaned | hkept'
    · rw [hstate, horphaned] at hpaid
      cases hpaid
    rw [hkept'] at hstate
    rw [hstate] at hpaid
    rcases receiptTransition_getD_paid hpaid with ⟨hbefore, hdead⟩ | ⟨heffective, hlive, hconfirmed⟩
    · -- the attempt was paid before, so its block is canonical and its row was never revised
      obtain ⟨n, b, e, hprobe, hcanonical, hkept⟩ := hs.included hbefore
      cases hprobe
      rw [Receipt.seen_canonicality, hcanonical, Bool.true_and, bne_eq_false_iff_eq] at hdead
      rcases hobs.origin with ⟨rfl, -⟩ | ⟨r, hr, hsame, rfl, -⟩
      · simp [Receipt.seen, hcanonical] at hdead
      · have := hkept r hr hsame
        unfold Receipt.refresh at hdead
        split at hdead
        · cases hdead
        · exact absurd hdead this
    · rw [and_eq_true, Receipt.seen_canonicality, bne_iff_ne] at hlive
      obtain ⟨hcanonical, hrowlive⟩ := hlive
      have hrowpinned : row.Pinned ledger := hobs.pinned hpinned htruth row hmem
      have hnumber : row.blockNumber = number := by rw [hrowpinned.1, hrowhash]; exact htruth.1.symm
      have hroweffective : row.effective = true := by
        rw [hrowpinned.2, hrowhash, hrowid]
        exact htruth.2.symm.trans heffective
      refine ⟨row, hmem, hrowid, hroweffective, ?_, fun hfinal => ?_⟩
      · rw [hnumber, hrowhash]
        exact hs.stays number hash verdict rfl hcanonical
      · rw [hstate] at hfinal
        have hthreshold : view.threshold ≤ (Receipt.seen view id number hash verdict).confirmations := by
          rcases hconfirmed hfinal with hnow | hbefore
          · simp only [and_eq_true, Receipt.confirmed, decide_eq_true_eq] at hnow
            exact hnow.1.2
          · exact hdeep hbefore
        exact hobs.deep (by simp [Receipt.seen, hcanonical]) hrowlive hthreshold hrecorded
  · have hstate : s'.stateOf id = (reconcileTransition probe a.state).getD a.state := by
      rw [stateOf_congr hattempts, (stateOf_moveIf (by rw [ha]; nofun) _).2, stateOf, ha]
      rfl
    rw [hstate] at hpaid
    have hbefore := reconcileTransition_getD_paid hpaid
    obtain ⟨n, b, e, hprobe, -, -⟩ := hs.included (by rwa [stateOf, ha])
    exact absurd hprobe (hother n b e)

/-! ### Runs -/

def Action.Truthful (ledger : Ledger) : Action → Prop
  | .submit (.reconcile _ id probe) _ => probe.Truthful ledger id
  | _ => True

/-- Only a reconcile writes receipts, pays an attempt or replaces one. -/
theorem Operation.unpaid_frame {op : Operation} (hop : ∀ view id probe, op ≠ .reconcile view id probe)
    (h : op.body t s = .ok ((), s')) : s'.receipts = s.receipts ∧
      ∀ a' ∈ s'.attempts.rows, a' ∈ s.attempts.rows ∨ a'.state.paid = false ∧ a'.state ≠ .replaced := by
  have hmoved : ∀ id state, AttemptState.paid state = false → state ≠ .replaced →
      ∀ a' ∈ (s.moveAttempt id state).attempts.rows,
        a' ∈ s.attempts.rows ∨ a'.state.paid = false ∧ a'.state ≠ .replaced := by
    intro id state hunpaid hkept a' ha'
    obtain ⟨a, ha, rfl⟩ := mem_map.mp ha'
    split
    · exact .inr ⟨hunpaid, hkept⟩
    · exact .inl ha
  cases op with
  | reconcile view id probe => exact absurd rfl (hop view id probe)
  | issue req gates =>
    obtain ⟨intent, steps, -, ⟨-, rfl⟩ | ⟨-, rfl⟩⟩ := issue_spec h <;> exact ⟨rfl, fun a' ha' => .inl ha'⟩
  | converge h' step res =>
    obtain ⟨-, -, -, steps, -, rfl | ⟨-, e, -, -, rfl | ⟨intent, -, -, rfl⟩⟩⟩ := converge_spec h <;>
      exact ⟨rfl, fun a' ha' => .inl ha'⟩
  | convergeOpenStep step v =>
    obtain ⟨-, steps, e, -, -, -, rfl⟩ := convergeOpenStep_spec h
    exact ⟨rfl, fun a' ha' => .inl ha'⟩
  | prepare id signing anchor version =>
    rcases prepareAttempt_spec h with ⟨rfl, -⟩ | ⟨attempts, -, hinsert, rfl⟩
    · exact ⟨rfl, fun a' ha' => .inl ha'⟩
    · refine ⟨rfl, fun a' ha' => ?_⟩
      rw [(Table.insert?_eq_some hinsert).2] at ha'
      rcases mem_concat_cases ha' with ha' | rfl
      · exact .inl ha'
      · exact .inr ⟨rfl, nofun⟩
  | sign id =>
    obtain ⟨a, -, -, rfl⟩ := signAndPersist_spec h
    exact ⟨rfl, hmoved id .signed rfl nofun⟩
  | dispatch id h' kind gates outcome =>
    obtain ⟨-, a, row, -, -, -, rfl⟩ := sendRegion_spec h
    exact ⟨rfl, hmoved id _ (by split <;> rfl) (by split <;> nofun)⟩
  | recordWriteFailure id h' kind pauseObserved =>
    obtain ⟨a, row, -, -, rfl⟩ := recordRegionWriteFailure_spec h
    exact ⟨rfl, hmoved id _ (by split <;> rfl) (by split <;> nofun)⟩
  | releaseFreeze permitted =>
    obtain ⟨-, -, rfl⟩ := releaseFreeze_spec h
    exact ⟨rfl, fun a' ha' => .inl ha'⟩
  | _ =>
    have hlogged := Operation.clerical_frame (by rfl) h
    refine ⟨hlogged.receipts, fun a' ha' => ?_⟩
    rw [hlogged.attempts] at ha'
    exact .inl ha'

/-- A step is a committed reconcile, or writes no receipt and neither pays nor replaces an attempt. -/
theorem Store.next_cases (t : ClaimTimings) (s : Store) (act : Action) :
    (∃ view id probe fault, act = .submit (.reconcile view id probe) fault ∧
        reconcileAttempt view id probe s = .ok ((), s.next t act)) ∨
      (s.next t act).receipts = s.receipts ∧ ∀ a' ∈ (s.next t act).attempts.rows,
        a' ∈ s.attempts.rows ∨ a'.state.paid = false ∧ a'.state ≠ .replaced := by
  cases act with
  | wait ticks => exact .inr ⟨rfl, fun _ ha' => .inl ha'⟩
  | submit op fault =>
    rcases s.next_submit t op fault with hsame | ⟨s', hbody, hnew⟩
    · rw [hsame]
      exact .inr ⟨rfl, fun _ ha' => .inl ha'⟩
    rw [hnew]
    by_cases hop : ∃ view id probe, op = .reconcile view id probe
    · obtain ⟨view, id, probe, rfl⟩ := hop
      exact .inl ⟨view, id, probe, fault, rfl, hbody⟩
    · push Not at hop
      exact .inr (Operation.unpaid_frame hop hbody)

theorem Store.next_pinned {ledger : Ledger} (act : Action) (htruth : act.Truthful ledger)
    (hs : ∀ r ∈ s.receipts, r.Pinned ledger) : ∀ r ∈ (s.next t act).receipts, r.Pinned ledger := by
  rcases s.next_cases t act with ⟨view, id, probe, fault, rfl, hbody⟩ | ⟨hreceipts, -⟩
  · obtain ⟨a, -, ⟨number, hash, verdict, row, rfl, hobs⟩ | ⟨-, -, hreceipts⟩⟩ := reconcileAttempt_spec hbody
    · exact hobs.pinned hs htruth
    · rwa [hreceipts]
  · rwa [hreceipts]

theorem Store.run_pinned {ledger : Ledger} (t : ClaimTimings) (start : Int) {actions : List Action}
    (htruth : ∀ act ∈ actions, act.Truthful ledger) :
    ∀ r ∈ (run (next t) (.empty start) actions).receipts, r.Pinned ledger := by
  refine invariant_of_along (I := fun s : Store => ∀ r ∈ s.receipts, r.Pinned ledger) (along_of_mem htruth _) ?_ ?_
  · exact fun _ => nofun
  · exact fun s act htruth hs => next_pinned act htruth hs

namespace Sample

/-- An attempt signed, dispatched and accepted under a claim. -/
def broadcast : List Action := issuing ++ [does (.prepare ⟨1⟩ .request none 0), does (.sign ⟨1⟩),
    does (.dispatch ⟨1⟩ first .initial ⟨none, false⟩ .accepted)]

/-- The index has one block at height 1, and one confirmation is enough. -/
def indexed (hash : Nat) : ChainView := ⟨fun number h => number == 1 && h == hash, 1, 1, none⟩

/-- The same index one block later. -/
def grown (hash : Nat) : ChainView := ⟨fun number h => number == 1 && h == hash || number == 2, 2, 1, none⟩

/-- Blocks 10 and 11 compete for height 1; the first one holds the payment of the first attempt, the second one that of
the second. -/
def ledger : Ledger := ⟨fun _ => 1, fun id hash => (id == ⟨1⟩ && hash == 10) || (id == ⟨2⟩ && hash == 11)⟩

def confirmed : List Action := broadcast ++ [does (.reconcile (indexed 10) ⟨1⟩ (.included 1 10 paid))]

end Sample

/-- The block of a confirmed payment leaves the chain and the node no longer knows the transaction: the
reconcile commits and the attempt stays confirmed. -/
theorem verdict_outlives_block :
    let s := run (next timings) (.empty 0) confirmed
    s.stateOf ⟨1⟩ = .confirmed ∧ (reconcileAttempt (indexed 11) ⟨1⟩ .notFoundYet s).toOption.isSome = true ∧
      (s.commit (reconcileAttempt (indexed 11) ⟨1⟩ .notFoundYet)).stateOf ⟨1⟩ = .confirmed ∧
      ¬ (s.commit (reconcileAttempt (indexed 11) ⟨1⟩ .notFoundYet)).Grounded (indexed 11) ⟨1⟩ := by
  decide +kernel

/-- After a committed reconcile a paid attempt stands on a block that is canonical then, provided the node still shows
it there at the depth on record and the block stays canonical from the read to the COMMIT. -/
theorem reconcile_grounds_verdict {ledger : Ledger} {start : Int} {actions : List Action} {view after : ChainView}
    {id : AttemptID} {probe : Probe} (htruth : ∀ act ∈ actions, act.Truthful ledger)
    (hprobe : probe.Truthful ledger id)
    (hsustained : (run (Store.next t) (.empty start) actions).Sustained view after id probe)
    (h : reconcileAttempt view id probe (run (Store.next t) (.empty start) actions) = .ok ((), s')) :
    s'.Grounded after id :=
  hsustained.grounded (run_pinned t start htruth) hprobe h

theorem Sample.confirmed_truthful : ∀ act ∈ Sample.confirmed, act.Truthful Sample.ledger := by
  simp [confirmed, broadcast, issuing, claiming, does, Action.Truthful, Probe.Truthful, ledger, paid, Verdict.effective]

theorem Sample.confirmed_sustained :
    (run (next timings) (.empty 0) confirmed).Sustained (indexed 10) (grown 10) ⟨1⟩ (.included 1 10 paid) := by
  constructor
  · exact fun _ => ⟨1, 10, paid, rfl, rfl, by decide +kernel⟩
  · intro number hash verdict hprobe
    cases hprobe
    decide +kernel
  · intro number hash verdict hprobe _
    cases hprobe
    rfl

theorem reconcile_grounds_verdict_again : (run (Store.next timings) (.empty 0) (confirmed ++
      [does (.reconcile (indexed 10) ⟨1⟩ (.included 1 10 paid))])).Grounded (grown 10) ⟨1⟩ := by
  rw [run_append]
  exact reconcile_grounds_verdict (t := timings) confirmed_truthful
    (show Probe.Truthful ledger ⟨1⟩ (.included 1 10 paid) from ⟨rfl, rfl⟩) confirmed_sustained rfl

/-! ### Siblings -/

/-- The node shows an effective inclusion in canonical blocks only, and of one attempt only. -/
def Action.Settled (ledger : Ledger) (winner : AttemptID) : Action → Prop
  | .submit (.reconcile view id probe) _ => probe.Truthful ledger id ∧
    ∀ number hash verdict, probe = .included number hash verdict → verdict.effective = true →
      view.canonical number hash = true ∧ id = winner
  | _ => True

def Store.OneWinner (s : Store) : Prop :=
  ∀ a ∈ s.attempts.rows, ∀ b ∈ s.attempts.rows, a.state.paid = true → b.state.paid = true → a.id = b.id

/-- An attempt becomes replaced only for a sibling with an effective receipt in a canonical block. -/
def Action.Supersedes (t : ClaimTimings) (s : Store) (act : Action) : Prop :=
  ∀ a ∈ s.attempts.rows, a.state ≠ .replaced → ∀ a' ∈ (s.next t act).attempts.rows, a'.id = a.id →
    a'.state = .replaced → ∃ view id probe fault, act = .submit (.reconcile view id probe) fault ∧ id ≠ a.id ∧
      ∃ r ∈ (s.next t act).receipts, r.attempt = id ∧ r.effective = true ∧
        view.canonical r.blockNumber r.blockHash = true

variable {winner : AttemptID} {act : Action}

theorem Action.Settled.truthful {ledger : Ledger} (h : act.Settled ledger winner) : act.Truthful ledger := by
  unfold Action.Settled at h
  unfold Action.Truthful
  split at h
  · exact h.1
  · trivial

/-- Only the winner is paid, and the receipts are those of the chain. -/
structure Store.Decided (ledger : Ledger) (winner : AttemptID) (s : Store) : Prop where
  pinned : ∀ r ∈ s.receipts, r.Pinned ledger
  paid : ∀ a ∈ s.attempts.rows, a.state.paid = true → a.id = winner

theorem Store.mem_unique {a b : TxAttempt} (ha : a ∈ s.attempts.rows) (hb : b ∈ s.attempts.rows) (h : a.id = b.id) :
    a = b := by
  have hfound := attempt?_of_mem ha
  rw [h, attempt?_of_mem hb] at hfound
  exact (some.inj hfound).symm

/-- The state of the reconciled attempt itself. -/
theorem Store.stateOf_of_mem {a : TxAttempt} (ha : a ∈ s.attempts.rows) : s.stateOf a.id = a.state :=
  stateOf_eq (attempt?_of_mem ha)

/-- What a reconcile can do to a row that is paid or replaced after it. -/
theorem reconcileAttempt_row {u : Unit} (h : reconcileAttempt view id probe s = .ok (u, s')) {a' : TxAttempt}
    (ha' : a' ∈ s'.attempts.rows) :
    (a'.state.paid = true → (∃ a ∈ s.attempts.rows, a.id = a'.id ∧ a.state.paid = true) ∨
      a'.id = id ∧ ∃ number hash verdict, probe = .included number hash verdict ∧ verdict.effective = true ∧
        view.canonical number hash = true) ∧
    (a'.state = .replaced → (∃ a ∈ s.attempts.rows, a.id = a'.id ∧ a.state = .replaced) ∨
      a'.id ≠ id ∧ ∃ number hash verdict, probe = .included number hash verdict ∧ verdict.effective = true) := by
  obtain ⟨a, ha, hcase⟩ := reconcileAttempt_spec h
  obtain ⟨hmem, hid⟩ := Table.select_mem ha
  rw [beq_iff_eq] at hid
  have hbefore : s.stateOf id = a.state := by rw [← hid, stateOf_of_mem hmem]
  by_cases hself : a'.id = id
  · have hafter : s'.stateOf id = a'.state := by rw [← hself, stateOf_of_mem ha']
    rcases hcase with ⟨number, hash, verdict, row, rfl, hobs⟩ | ⟨hother, hattempts, -⟩
    · have hstate := hobs.state
      rw [show (Receipt.seen view id number hash verdict).attempt = id from rfl, hafter, hbefore] at hstate
      rw [hstate]
      rcases AttemptState.revised_cases _ _ with horphaned | hkept
      · rw [horphaned]
        exact ⟨nofun, nofun⟩
      · rw [hkept]
        refine ⟨fun hpaid => ?_, fun hreplaced => ?_⟩
        · rcases receiptTransition_getD_paid hpaid with ⟨hwas, -⟩ | ⟨heffective, hlive, -⟩
          · exact .inl ⟨a, hmem, hid.trans hself.symm, hwas⟩
          · rw [and_eq_true, Receipt.seen_canonicality] at hlive
            exact .inr ⟨hself, number, hash, verdict, rfl, heffective, hlive.1⟩
        · exact .inl ⟨a, hmem, hid.trans hself.symm, receiptTransition_getD_replaced hreplaced⟩
    · have hstate : a'.state = (reconcileTransition probe a.state).getD a.state := by
        rw [← hafter, stateOf_congr hattempts, (stateOf_moveIf (by rw [ha]; nofun) _).2, hbefore]
      rw [hstate]
      exact ⟨fun hpaid => .inl ⟨a, hmem, hid.trans hself.symm, reconcileTransition_getD_paid hpaid⟩,
        fun hreplaced => .inl ⟨a, hmem, hid.trans hself.symm, reconcileTransition_getD_replaced hreplaced⟩⟩
  · rcases hcase with ⟨number, hash, verdict, row, rfl, hobs⟩ | ⟨hother, hattempts, -⟩
    · rcases hobs.siblings a' ha' hself with hkept | ⟨hreplaced, heffective⟩
      · exact ⟨fun hpaid => .inl ⟨a', hkept, rfl, hpaid⟩, fun hwas => .inl ⟨a', hkept, rfl, hwas⟩⟩
      · rw [hreplaced]
        exact ⟨nofun, fun _ => .inr ⟨hself, number, hash, verdict, rfl, heffective⟩⟩
    · rw [hattempts] at ha'
      have hkept := s.moveIf_others id _ a' ha' hself
      exact ⟨fun hpaid => .inl ⟨a', hkept, rfl, hpaid⟩, fun hwas => .inl ⟨a', hkept, rfl, hwas⟩⟩

theorem Store.Decided.next {ledger : Ledger} (h : s.Decided ledger winner) (hact : act.Settled ledger winner) :
    (s.next t act).Decided ledger winner := by
  refine ⟨next_pinned act hact.truthful h.pinned, fun a' ha' hpaid => ?_⟩
  rcases s.next_cases t act with ⟨view, id, probe, fault, rfl, hbody⟩ | ⟨-, hframe⟩
  · rcases (reconcileAttempt_row hbody ha').1 hpaid with ⟨a, ha, hid, hwas⟩ | ⟨hself, number, hash, verdict, rfl, hpays, -⟩
    · rw [← hid]
      exact h.paid a ha hwas
    · rw [hself]
      exact (hact.2 number hash verdict rfl hpays).2
  · rcases hframe a' ha' with hkept | ⟨hunpaid, -⟩
    · exact h.paid a' hkept hpaid
    · cases hunpaid.symm.trans hpaid

theorem Store.Decided.supersedes {ledger : Ledger} (h : s.Decided ledger winner) (hact : act.Settled ledger winner) :
    act.Supersedes t s := by
  intro a ha hkept a' ha' hid hreplaced
  have hpinned := next_pinned (t := t) act hact.truthful h.pinned
  have hnot : ∀ b ∈ s.attempts.rows, b.id = a'.id → b.state = .replaced → False := by
    intro b hb hbid hbstate
    rw [mem_unique hb ha (hbid.trans hid)] at hbstate
    exact hkept hbstate
  rcases s.next_cases t act with ⟨view, id, probe, fault, rfl, hbody⟩ | ⟨-, hframe⟩
  · obtain ⟨htruth, hsettled⟩ := hact
    rcases (reconcileAttempt_row hbody ha').2 hreplaced with
      ⟨b, hb, hbid, hbstate⟩ | ⟨hne, number, hash, verdict, hprobe, hpays⟩
    · exact (hnot b hb hbid hbstate).elim
    obtain ⟨hcanonical, -⟩ := hsettled number hash verdict hprobe hpays
    refine ⟨view, id, probe, fault, rfl, fun hself => hne (hid.trans hself.symm), ?_⟩
    obtain ⟨_, -, hcase⟩ := reconcileAttempt_spec hbody
    rcases hcase with ⟨n, b, e, row, hseen, hobs⟩ | ⟨hother, -⟩
    · rw [hprobe] at hseen htruth
      cases hseen
      obtain ⟨hmem, hrowid, hrowhash⟩ := hobs.row_mem
      obtain ⟨hnumber, heffective⟩ := hpinned row hmem
      refine ⟨row, hmem, hrowid, ?_, ?_⟩
      · rw [heffective, hrowid, hrowhash]
        exact htruth.2.symm.trans hpays
      · rwa [hnumber, hrowhash, show (Receipt.seen view id number hash verdict).blockHash = hash from rfl, ← htruth.1]
    · exact absurd hprobe (hother number hash verdict)
  · rcases hframe a' ha' with hold | ⟨-, hnever⟩
    · exact (hnot a' hold rfl hreplaced).elim
    · exact absurd hreplaced hnever

instance (s : Store) : Decidable s.OneWinner := by
  unfold Store.OneWinner
  infer_instance

namespace Sample

/-- A second attempt of the binding, signed and dispatched. -/
def rivals : List Action := broadcast ++ [does (.prepare ⟨2⟩ (.named 1) (some ⟨1⟩) 0), does (.sign ⟨2⟩),
    does (.dispatch ⟨2⟩ first .initial ⟨none, false⟩ .accepted)]

/-- The first attempt is found in block 10; the chain moves to block 11, where the second one is found. -/
def reorganised : List Action := rivals ++ [does (.reconcile (indexed 10) ⟨1⟩ (.included 1 10 paid)),
    does (.reconcile (indexed 11) ⟨2⟩ (.included 1 11 paid))]

/-- The first attempt is found in a block the index does not have. -/
def unindexed : List Action := rivals ++ [does (.reconcile (indexed 11) ⟨1⟩ (.included 1 10 paid))]

end Sample

/-- After the reorganisation both attempts are paid, and a block that is not canonical replaces a sibling
while no receipt is in a canonical block. -/
theorem two_winners_per_binding : ¬ (run (Store.next timings) (.empty 0) reorganised).OneWinner ∧
      (let s := run (Store.next timings) (.empty 0) unindexed
       s.stateOf ⟨2⟩ = .replaced ∧ (s.receipts.all fun r => !(indexed 11).canonical r.blockNumber r.blockHash)) := by
  decide +kernel

/-- One winner, and no attempt replaced without one, in every history in which the node shows effective
inclusions in canonical blocks only and no reorganisation moves the inclusion to a sibling. -/
theorem one_winner_per_binding {ledger : Ledger} {winner : AttemptID} {start : Int} {actions : List Action}
    (h : ∀ act ∈ actions, act.Settled ledger winner) :
    (run (Store.next t) (.empty start) actions).OneWinner ∧
      Along (Store.next t) (fun s act => act.Supersedes t s) (Store.empty start) actions := by
  have hempty : (empty start).Decided ledger winner := ⟨fun _ => nofun, fun _ => nofun⟩
  have halong : Along (next t) (fun _ act => act.Settled ledger winner) (empty start) actions :=
    along_of_mem h (empty start)
  refine ⟨?_, along_of_invariant halong hempty (fun s act hact hs => hs.supersedes hact)
    fun s act hact hs => hs.next hact⟩
  have hrun := invariant_of_along halong hempty fun s act hact hs => hs.next hact
  exact fun a ha b hb hpa hpb => (hrun.paid a ha hpa).trans (hrun.paid b hb hpb).symm

/-- The first attempt wins and the second one is replaced. -/
theorem one_winner_per_binding_rivals :
    let actions := rivals ++ [does (.reconcile (indexed 10) ⟨1⟩ (.included 1 10 paid))]
    (run (next timings) (.empty 0) actions).OneWinner ∧
      Along (next timings) (fun s act => act.Supersedes timings s) (empty 0) actions := by
  apply one_winner_per_binding
  show ∀ act ∈ _, Action.Settled ledger ⟨1⟩ act
  simp [rivals, broadcast, issuing, claiming, does, Action.Settled, Probe.Truthful, ledger, indexed, paid,
    Verdict.effective]

end TxHarbor.Execution
