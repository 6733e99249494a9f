import TxHarbor.Indexer.Outbox

open Relational Constrained Tx Transition

namespace TxHarbor.Indexer

open List OutboxEvent Ledger

/-! What stands behind a confirmed observation. -/

/-- The policy row with the highest sequence number. -/
def latestPolicy (s : Store) : Option ConfirmationPolicy := s.confirmationPolicies.latest (fun _ => true) (·.policySeq)

/-- The observations after a confirmation of `id`. -/
def confirmedObservations (s : Store) (id : Identity) (basis : ConfirmedBasis) : Table DepositObservation :=
  s.observations.update (DepositObservation.pendingAt id) (DepositObservation.confirm basis) (fun _ _ h => h)

theorem confirmedObservations_rows (s : Store) (id : Identity) (basis : ConfirmedBasis) :
    (confirmedObservations s id basis).rows = s.observations.rows.map fun o =>
      if o.pendingAt id then o.confirm basis else o := rfl

/-- Everything a confirmation has checked when it commits: the candidate, the tip and the policy
it was captured with are those under the lock, and nothing stands against the commit. -/
structure ConfirmedUnderLock (s s' : Store) (basis : ConfirmBasis) (o : DepositObservation)
    (tip : ChainBlock) (policy : ConfirmationPolicy) : Prop where
  candidate : o ∈ s.observations.rows ∧ o.toIdentity = basis.toIdentity ∧ o.status = .pending
  height : o.blockNumber = basis.height
  canonical : canonicalHashAt s o.blockNumber = some o.blockHash
  current : canonicalTip s = some tip
  captured : tip.number = basis.tipNumber ∧ tip.hash = basis.tipHash
  latest : latestPolicy s' = some policy
  effective : policy.policySeq = basis.policySeq ∧ policy.threshold = basis.thresholdN
  deep : policy.threshold ≤ tip.number - o.blockNumber + 1
  unpaused : s.depositPause = none ∧ s.logPause = false ∧ s.indexerPause = none
  idle : s.recovery = none
  stored : s'.observations = confirmedObservations s basis.toIdentity
    ⟨tip.number, tip.hash, policy.threshold, tip.number - o.blockNumber + 1, policy.policySeq⟩

variable {s : Store} {basis : ConfirmBasis} {s' : Store} {o : DepositObservation} {outbox outbox' : Outbox}

theorem rejectStreamPauses_eq_ok : rejectStreamPauses s = .ok () ↔
    s.depositPause = none ∧ s.logPause = false ∧ s.indexerPause = none := by
  unfold rejectStreamPauses
  cases s.depositPause <;> cases s.logPause <;> cases s.indexerPause <;> simp

theorem tipVerdict_eq_ok {u : Unit} (h : tipVerdict s basis = .ok u) :
    ∃ tip, canonicalTip s = some tip ∧ tip.number = basis.tipNumber ∧ tip.hash = basis.tipHash := by
  unfold tipVerdict at h
  cases htip : canonicalTip s with
  | none => simp [htip] at h
  | some tip =>
    simp only [htip] at h
    split at h
    · cases h
    · split at h
      next hsame => exact ⟨tip, rfl, hsame⟩
      · split at h <;> cases h

variable {policy : ConfirmationPolicy} {call : Call} {fact : DepositFact}

/-- The policy a confirmation runs under is the one of the highest sequence number, which the
first confirmation opens. -/
theorem effectivePolicy_eq_ok {policies : Table ConfirmationPolicy}
    (h : effectivePolicy s basis = .ok (policy, policies)) :
    policies.latest (fun _ => true) (·.policySeq) = some policy := by
  unfold effectivePolicy at h
  cases hlatest : s.confirmationPolicies.latest (fun _ => true) (·.policySeq) with
  | some row =>
    simp only [hlatest, Except.ok.injEq, Prod.mk.injEq] at h
    obtain ⟨rfl, rfl⟩ := h
    exact hlatest
  | none =>
    simp only [hlatest] at h
    split at h
    · cases h
    · split at h
      · cases h
      next table hinsert =>
        simp only [Except.ok.injEq, Prod.mk.injEq] at h
        obtain ⟨rfl, rfl⟩ := h
        obtain ⟨-, hrows⟩ := Table.insert?_eq_some hinsert
        have hempty : s.confirmationPolicies.rows = [] :=
          eq_nil_iff_forall_not_mem.mpr fun r hr => by simpa using Table.latest_eq_none hlatest r hr
        simp [Table.latest, hrows, hempty]

theorem confirmationReached_iff {tip h n : Nat} :
    confirmationReached tip h n = true ↔ n ≠ 0 ∧ h ≤ tip ∧ n ≤ tip - h + 1 := by
  unfold confirmationReached
  by_cases hn : n = 0
  · simp [hn]
  · simp only [hn, if_false, Bool.and_eq_true, decide_eq_true_eq, ne_eq, not_false_eq_true, true_and]
    omega

/-- A committed confirmation has checked all of its basis under the lock. -/
theorem confirmDepositUnit_committed {thresholdN : Nat} {held : Bool} {cap : RecoveryCapture}
    (h : confirmDepositUnit thresholdN held basis cap s = .ok (true, s')) :
    ∃ o tip policy, ConfirmedUnderLock s s' basis o tip policy := by
  simp only [confirmDepositUnit, leaseVerdict, eq_ok, lift_eq_ok] at h
  obtain ⟨_, _, ⟨-, rfl⟩, _, _, ⟨-, rfl⟩, _, _, ⟨-, rfl⟩, _, _, ⟨rfl, rfl⟩, _, _, ⟨-, rfl⟩, _, _,
    ⟨hpauses, rfl⟩, _, s₁, hgate, h⟩ := h
  obtain ⟨rfl, hopen⟩ := recheckRecoveryGate_nil hgate
  obtain ⟨⟨policy, policies⟩, _, ⟨hpolicy, rfl⟩, h⟩ := h
  dsimp only at h
  obtain ⟨_, _, ⟨heffective, rfl⟩, _, _, ⟨htip, rfl⟩, o, _, ⟨hselect, rfl⟩, h⟩ := h
  obtain ⟨hmem, hid⟩ := Table.select_mem hselect
  cases hstatus : o.status with
  | orphaned => simp [hstatus] at h
  | confirmed => simp [hstatus] at h
  | pending =>
    simp only [hstatus, eq_ok, lift_eq_ok] at h
    obtain ⟨_, _, ⟨hheight, rfl⟩, _, _, ⟨hcanonical, rfl⟩, _, _, ⟨hreached, rfl⟩, exact, _,
      ⟨hexact, rfl⟩, _, _, rfl, -, rfl⟩ := h
    obtain ⟨tip, hcanonicalTip, hnumber, hhash⟩ := tipVerdict_eq_ok htip
    obtain ⟨hpositive, hbelow, hdeep⟩ := confirmationReached_iff.mp hreached
    have hid' : o.toIdentity = basis.toIdentity := by simpa using hid
    have hblock : o.blockHash = basis.blockHash := congrArg Identity.blockHash hid'
    have hcount : exact = basis.tipNumber - basis.height + 1 := by
      unfold exactConfirmations at hexact
      split at hexact
      · omega
      · split at hexact
        · cases hexact
        · cases hexact
          rfl
    refine ⟨o, tip, policy, ⟨hmem, hid', hstatus⟩, hheight, by rwa [hheight, hblock],
      hcanonicalTip, ⟨hnumber, hhash⟩, effectivePolicy_eq_ok hpolicy, heffective, ?_,
      rejectStreamPauses_eq_ok.mp hpauses, hopen.idle, ?_⟩
    · rw [heffective.2, hnumber, hheight]
      omega
    · have hexactInt : ((exact : Nat) : Int) = tip.number - o.blockNumber + 1 := by
        rw [hcount, hnumber, hheight]
        omega
      rw [← hexactInt, heffective.1, heffective.2, hnumber, hhash]
      rfl

/-- In a step from `s` to `s'` the observation goes from pending to confirmed. -/
def Confirms (s s' : Store) (id : Identity) : Prop :=
  (∃ o ∈ s.observations.rows, o.toIdentity = id ∧ o.status = .pending) ∧
    ∃ o ∈ s'.observations.rows, o.toIdentity = id ∧ o.status = .confirmed

instance (s s' : Store) (id : Identity) : Decidable (Confirms s s' id) := by
  unfold Confirms
  infer_instance

/-- No transaction but a confirmation leaves a confirmed row that was not there before. -/
theorem Committed.confirmed_old (h : Committed s call s')
    (hcall : ∀ thresholdN held basis cap, call ≠ .confirmDepositUnit thresholdN held basis cap)
    (ho : o ∈ s'.observations.rows) (hconfirmed : o.status = .confirmed) : o ∈ s.observations.rows := by
  cases h with
  | confirmation => exact absurd rfl (hcall _ _ _ _)
  | deposits gate versions observations checkpoint added advance grown pending =>
    rw [grown, mem_append] at ho
    rcases ho with ho | ho
    · exact ho
    · rw [pending o ho] at hconfirmed
      cases hconfirmed
  | observationsInvalidated row a transitions added events gate ancestor grown orphaning logged =>
    rw [orphanedObservations_rows, mem_map] at ho
    obtain ⟨old, hold, rfl⟩ := ho
    split at hconfirmed
    · cases hconfirmed
    next hkept => simpa [hkept] using hold
  | revived row old transitions events gate target grown logged =>
    rw [revivedObservations_rows, mem_map] at ho
    obtain ⟨old, hold, rfl⟩ := ho
    split at hconfirmed
    · cases hconfirmed
    next hkept => simpa [hkept] using hold
  | replayed row row' events s₁ s₂ gate ordered rows covered progress =>
    have hsame : s₂.observations = s₁.observations := by
      cases progress with
      | block => rfl
      | unit u => cases u <;> rfl
    rw [hsame] at ho
    cases rows with
    | block | log => exact ho
    | deposit observations added grown pending =>
      rw [grown, mem_append] at ho
      rcases ho with ho | ho
      · exact ho
      · rw [pending o ho] at hconfirmed
        cases hconfirmed
  | unitRolledBack stream => cases stream <;> exact ho
  | _ => exact ho

theorem Confirms.not_of_old {id : Identity}
    (hold : ∀ o ∈ s'.observations.rows, o.status = .confirmed → o ∈ s.observations.rows) : ¬ Confirms s s' id := by
  rintro ⟨⟨o, ho, hid, hpending⟩, o', ho', hid', hconfirmed⟩
  have heq : o = o' := s.observations.eq_of_clash ho (hold o' ho' hconfirmed) (by simp [clash, hid, hid'])
  rw [heq, hconfirmed] at hpending
  cases hpending

/-- The events of confirmations of one observation. -/
def OutboxEvent.confirms (id : Identity) (e : OutboxEvent) : Bool := e.observation == id &&
    match e.fact with
    | .confirmed _ => true
    | _ => false

def Ledger.confirmations (l : Ledger) (id : Identity) : Nat := l.outbox.rows.countP (OutboxEvent.confirms id)

/-- The step confirms the observation, by a confirmation that has checked its whole basis. -/
def SoundConfirmation (l : Ledger) (a : Action) (id : Identity) : Prop :=
  ∃ thresholdN held basis cap fault o tip policy,
    a = .submit (.confirmDepositUnit thresholdN held basis cap) fault ∧ basis.toIdentity = id ∧
      ConfirmedUnderLock l.store (l.next a).store basis o tip policy

/-- A committed confirmation confirms its candidate and nothing else. -/
theorem ConfirmedUnderLock.confirms_iff {tip : ChainBlock} (h : ConfirmedUnderLock s s' basis o tip policy)
    (id : Identity) : Confirms s s' id ↔ basis.toIdentity = id := by
  obtain ⟨hmem, hid, hpending⟩ := h.candidate
  constructor
  · rintro ⟨⟨old, hold, holdid, holdpending⟩, new, hnew, hnewid, hconfirmed⟩
    rw [h.stored, confirmedObservations_rows, mem_map] at hnew
    obtain ⟨row, hrow, rfl⟩ := hnew
    split at hconfirmed
    next hp =>
      rw [if_pos hp] at hnewid
      simp only [DepositObservation.pendingAt, Bool.and_eq_true, beq_iff_eq] at hp
      exact hp.1.symm.trans hnewid
    next hp =>
      rw [if_neg hp] at hnewid
      have heq : old = row := s.observations.eq_of_clash hold hrow (by simp [clash, holdid, hnewid])
      rw [heq, hconfirmed] at holdpending
      cases holdpending
  · rintro rfl
    refine ⟨⟨o, hmem, hid, hpending⟩, o.confirm ⟨tip.number, tip.hash, policy.threshold,
      tip.number - o.blockNumber + 1, policy.policySeq⟩, ?_, hid, rfl⟩
    rw [h.stored, confirmedObservations_rows, mem_map]
    exact ⟨o, hmem, by simp [DepositObservation.pendingAt, hid, hpending]⟩

theorem Outbox.append_confirmations {observation : Identity} {blockNumber : Int} (id : Identity)
    (h : outbox.append observation blockNumber fact = .ok outbox') :
    outbox'.rows.countP (confirms id) = outbox.rows.countP (confirms id) +
      if (⟨observation, 0, 0, fact⟩ : OutboxEvent).confirms id then 1 else 0 := by
  rcases Outbox.append_eq_ok h with ⟨rfl, rfl, -⟩ | ⟨hrows, -⟩
  · simp [confirms]
  · rw [hrows, countP_append, countP_singleton]
    rfl

/-- Of the calls only a committed confirmation of the observation adds a confirmation event. -/
theorem Call.emit_confirmations {before after : Store} (id : Identity)
    (h : call.emit before after outbox = .ok outbox') :
    outbox'.rows.countP (confirms id) = outbox.rows.countP (confirms id) +
      if call.confirming = some id then 1 else 0 := by
  by_cases hid : call.confirming = some id
  · cases call with
    | confirmDepositUnit thresholdN held basis cap =>
      simpa [confirms, Call.confirming] using Outbox.append_confirmations id h
    | _ => cases hid
  · rw [if_neg hid, Nat.add_zero]
    refine Call.emit_induction (I := fun outbox₁ => outbox₁.rows.countP (confirms id) =
      outbox.rows.countP (confirms id)) h rfl fun _ _ id' _ fact _ hconfirmed hkept hone => ?_
    have hquiet : (⟨id', 0, 0, fact⟩ : OutboxEvent).confirms id = false := by
      cases fact with
      | confirmed seq =>
        simp only [confirms, Bool.and_true, beq_eq_false_iff_ne]
        rintro rfl
        exact hid (hconfirmed seq rfl)
      | _ => simp [confirms]
    simpa [hquiet, hkept] using Outbox.append_confirmations id hone

/-- One step: whatever it confirms was checked in full, and the confirmation events of an
observation grow by one exactly when the step confirms it. -/
theorem Ledger.next_confirmation (l : Ledger) (a : Action) (id : Identity) :
    (Confirms l.store (l.next a).store id → SoundConfirmation l a id) ∧ (l.next a).confirmations id =
        l.confirmations id + if Confirms l.store (l.next a).store id then 1 else 0 := by
  have hquiet : ∀ l' : Ledger, l'.confirmations id = l.confirmations id →
      (∀ o ∈ l'.store.observations.rows, o.status = .confirmed → o ∈ l.store.observations.rows) →
      l.next a = l' → (Confirms l.store (l.next a).store id → SoundConfirmation l a id) ∧ (l.next a).confirmations id =
          l.confirmations id + if Confirms l.store (l.next a).store id then 1 else 0 := by
    rintro l' hcount hold rfl
    have hnot : ¬ Confirms l.store (l.next a).store id := Confirms.not_of_old hold
    exact ⟨fun h => absurd h hnot, by rw [hcount, if_neg hnot]; rfl⟩
  cases a with
  | operate rows =>
    exact hquiet ⟨l.store.next (.operate rows), l.outbox⟩ rfl (fun o ho _ => ho) rfl
  | submit call fault =>
    rcases l.submit_cases call fault with hsame | ⟨s', outbox, hbody, hemit, hnew⟩
    · exact hquiet l rfl (fun o ho _ => ho) hsame
    · have hcount := Call.emit_confirmations id hemit
      by_cases hcall : ∃ thresholdN held basis cap, call = .confirmDepositUnit thresholdN held basis cap
      · obtain ⟨thresholdN, held, basis, cap, rfl⟩ := hcall
        obtain ⟨o, tip, policy, hlock⟩ := confirmDepositUnit_committed hbody
        rw [hnew]
        have hiff := hlock.confirms_iff id
        refine ⟨fun h => ⟨thresholdN, held, basis, cap, fault, o, tip, policy, rfl, hiff.mp h, ?_⟩, ?_⟩
        · rwa [hnew]
        · simpa only [confirmations, hiff, Call.confirming, Option.some.injEq] using hcount
      · have hzero : confirmations ⟨s', outbox⟩ id = l.confirmations id := by
          have hnone : call.confirming = none := by
            cases call <;> first | rfl | exact absurd ⟨_, _, _, _, rfl⟩ hcall
          simpa [confirmations, hnone] using hcount
        refine hquiet ⟨s', outbox⟩ hzero (fun o ho hconfirmed => ?_) hnew
        exact (Call.body_committed hbody).confirmed_old
          (fun thresholdN held basis cap heq => hcall ⟨thresholdN, held, basis, cap, heq⟩) ho hconfirmed

/-- In every run of the indexer an observation is confirmed only by a confirmation that has checked
its whole basis under the lock, and it receives one confirmation event for each such change. -/
theorem confirmation_sound (actions : List Action) : Along Ledger.next
        (fun l a => ∀ id, Confirms l.store (l.next a).store id → SoundConfirmation l a id)
        Ledger.empty actions ∧
      ∀ id, (run Ledger.next .empty actions).confirmations id =
        tally Ledger.next (fun l a => Confirms l.store (l.next a).store id) Ledger.empty actions := by
  refine ⟨along_of_forall (fun l a id => (l.next_confirmation a id).1) _ _, fun id => ?_⟩
  have hcount := run_measure_eq_tally (m := fun l : Ledger => l.confirmations id)
    (fun l a => (l.next_confirmation a id).2) empty actions
  have hempty : empty.confirmations id = 0 := rfl
  simpa [hempty] using hcount

end TxHarbor.Indexer
