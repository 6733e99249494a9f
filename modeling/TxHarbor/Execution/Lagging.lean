import TxHarbor.Execution.ReceiptEvents

open Relational Transition List

namespace TxHarbor.Execution

open Receipt Store Sample

/-! Receipts of blocks that the index has not reached. -/

/-- The receipts of the attempt are of one block, and none of them was revised. -/
def Store.Unrevised (s : Store) (id : AttemptID) (hash : Nat) : Prop :=
  ∀ r ∈ s.receipts, r.attempt = id → r.blockHash = hash ∧ r.canonicality ≠ .orphaned

/-- The node reports inclusions of the attempt in the block only. -/
def Action.Reports (id : AttemptID) (hash : Nat) : Action → Prop
  | .submit (.reconcile _ id' (.included _ hash' _)) _ => id' = id → hash' = hash
  | _ => True

variable {t : ClaimTimings} {s s' : Store} {view : ChainView} {id : AttemptID} {hash : Nat} {new row : Receipt}

theorem Store.Observed.unrevised (h : s.Observed view new s' row) (hs : s.Unrevised id hash)
    (hblock : new.attempt = id → new.blockHash = hash) (hlive : new.canonicality ≠ .orphaned) :
    s'.Unrevised id hash := by
  intro r hr
  rw [h.receipts] at hr
  obtain ⟨r₀, hr₀, rfl⟩ := mem_map.mp hr
  have hr₀' := upsertReceipt_forall (P := fun r => r.attempt = id → r.blockHash = hash ∧ r.canonicality ≠ .orphaned)
    hs (fun r hr _ => by
      unfold refresh
      split
      · exact fun hid => ⟨(hs r hr hid).1, nofun⟩
      · exact hs r hr) (fun hid => ⟨hblock hid, hlive⟩) r₀ hr₀
  -- a receipt of another attempt is not looked at, and one of this attempt has the observed block
  have hkept : r₀.attempt = id → r₀.revise view new.attempt new.blockHash = r₀ := by
    intro hid
    by_cases hnew : new.attempt = id
    · exact revise_of_sameHash view _ ((hr₀' hid).1.trans (hblock hnew).symm)
    · simp [revise, lost, hid, Ne.symm hnew]
  rw [(r₀.revise_identity view new.attempt new.blockHash).1]
  intro hid
  rw [hkept hid]
  exact hr₀' hid

theorem Store.Unrevised.next {act : Action} (hact : act.Reports id hash) (hs : s.Unrevised id hash) :
    (s.next t act).Unrevised id hash := by
  rcases s.next_cases t act with ⟨view, id', probe, fault, rfl, hbody⟩ | ⟨hreceipts, -⟩
  · obtain ⟨a, -, ⟨number, hash', verdict, row, rfl, hobs⟩ | ⟨-, -, hreceipts⟩⟩ := reconcileAttempt_spec hbody
    · refine hobs.unrevised hs hact ?_
      simp only [seen]
      split <;> rintro ⟨⟩
    · rwa [Store.Unrevised, hreceipts]
  · rwa [Store.Unrevised, hreceipts]

theorem reconcileAttempt_ok (view : ChainView) (probe : Probe) (hsigned : s.stateOf id ≠ .prepared) :
    reconcileAttempt view id probe s = .ok ((), s.commit (reconcileAttempt view id probe)) := by
  cases ha : s.attempt? id with
  | none => exact absurd (by rw [stateOf, ha]; rfl) hsigned
  | some a =>
    rw [stateOf, ha] at hsigned
    have hbody : ∃ s', reconcileAttempt view id probe s = .ok ((), s') := by
      simp only [reconcileAttempt, Tx.eq_ok]
      exact ⟨_, s, s, ⟨rfl, rfl⟩, a, s, ⟨ha, rfl⟩, (), s, ⟨hsigned, rfl⟩, rfl⟩
    obtain ⟨s', hbody⟩ := hbody
    rw [commit_ok hbody, hbody]

/-- The state after an effective observation of a canonical block. -/
def AttemptState.paidAt (deep : Bool) (state : AttemptState) : AttemptState :=
  if deep = true ∨ state = .confirmed then .confirmed else .effective

/-- A canonical observation on unrevised receipts makes the row canonical and moves the attempt. -/
theorem Store.Observed.promotes (h : s.Observed view new s' row) (hs : s.Unrevised new.attempt new.blockHash)
    (hcanonical : new.canonicality = .canonical) : row.canonicality = .canonical ∧
      (new.effective = true → s'.stateOf new.attempt =
        (s.stateOf new.attempt).paidAt (decide (new.threshold ≤ new.confirmations))) := by
  have hrow : row.canonicality = .canonical := by
    rcases h.origin with ⟨rfl, -⟩ | ⟨r, hr, hsame, rfl, -⟩
    · exact hcanonical
    · rw [refresh, if_pos ⟨hcanonical, (hs r hr (sameBlock_iff.mp hsame).1).2⟩]
  have hlost : s.receipts.any (Receipt.lost view new.attempt new.blockHash) = false :=
    any_eq_false.mpr fun r hr hlost => by
      simp only [lost, Bool.and_eq_true, beq_iff_eq, bne_iff_ne] at hlost
      exact hlost.1.2 (hs r hr hlost.1.1.1).1
  refine ⟨hrow, fun heffective => ?_⟩
  have hstate := h.state
  rw [upsertReceipt_lost, hlost, hrow, hcanonical, heffective, Receipt.confirmed, hcanonical,
    heffective] at hstate
  rw [hstate]
  cases decide (new.threshold ≤ new.confirmations) <;> cases s.stateOf new.attempt <;> rfl

/-- As long as the node reports the attempt in one block only, none of its receipts is orphaned, however far behind the
index is. Once the index has the block, a reconcile that observes it makes the row canonical, and an effective receipt
confirms the attempt at the threshold depth and makes it effective below. -/
theorem lagging_index_keeps_receipt (t : ClaimTimings) (start : Int) (id : AttemptID) (hash : Nat)
    {actions : List Action} (hreports : ∀ act ∈ actions, act.Reports id hash) :
    let s := run (next t) (.empty start) actions
    s.Unrevised id hash ∧ ∀ (view : ChainView) (number : Int) (verdict : Verdict), s.stateOf id ≠ .prepared →
      view.canonical number hash = true →
        let s' := s.commit (reconcileAttempt view id (.included number hash verdict))
        (∃ r ∈ s'.receipts, r.attempt = id ∧ r.blockHash = hash ∧ r.canonicality = .canonical) ∧
          (verdict.effective = true → s'.stateOf id = (s.stateOf id).paidAt
            (decide (view.threshold ≤ if number ≤ view.head then view.head - number + 1 else 0))) := by
  have hs : (run (next t) (.empty start) actions).Unrevised id hash :=
    invariant_of_along (I := fun s : Store => s.Unrevised id hash) (along_of_mem hreports _) nofun
      fun _ _ hact hs => hs.next hact
  refine ⟨hs, fun view number verdict hsigned hcanonical => ?_⟩
  have hbody := reconcileAttempt_ok view (.included number hash verdict) hsigned
  obtain ⟨a, -, ⟨_, _, _, row, hprobe, hobs⟩ | ⟨hnone, -⟩⟩ := reconcileAttempt_spec hbody
  · cases hprobe
    obtain ⟨hrow, hstate⟩ := hobs.promotes hs (if_pos hcanonical)
    obtain ⟨hmem, hattempt, hhash⟩ := hobs.row_mem
    exact ⟨⟨row, hmem, hattempt, hhash, hrow⟩, hstate⟩
  · exact absurd rfl (hnone _ _ _)

namespace Sample

/-- The index before it reaches height 1. -/
def behind : ChainView := ⟨fun _ _ => false, 0, 1, none⟩

/-- Block 10 of the chain is reported before the index has it. -/
def reported : List Action := broadcast ++ [does (.reconcile behind ⟨1⟩ (.included 1 10 paid))]

end Sample

theorem lagging_index_keeps_receipt_reported : ((run (Store.next timings) (.empty 0) reported).commit
      (reconcileAttempt (indexed 10) ⟨1⟩ (.included 1 10 paid))).stateOf ⟨1⟩ = .confirmed := by
  refine ((lagging_index_keeps_receipt timings 0 ⟨1⟩ 10 ?_).2 (indexed 10) 1 paid (by decide +kernel) rfl).2 rfl
  simp [reported, broadcast, issuing, claiming, does, Action.Reports]

/-- The node reports block 11 once, and the index then reaches block 10: its receipt was orphaned meanwhile, and the
payment is not confirmed. -/
theorem lagging_receipt_orphaned :
    let s := run (next timings) (.empty 0) (reported ++ [does (.reconcile behind ⟨1⟩ (.included 1 11 paid))])
    (∃ r ∈ s.receipts, r.blockHash = 10 ∧ r.canonicality = .orphaned) ∧
      (s.commit (reconcileAttempt (indexed 10) ⟨1⟩ (.included 1 10 paid))).stateOf ⟨1⟩ = .sent := by
  decide +kernel

end TxHarbor.Execution
