import TxHarbor.Lifecycle.World

namespace TxHarbor.Lifecycle

open Bool

open Execution (AttemptID AttemptState Probe SendOutcome)

/-! What one statement of a `Send` call can do, and what one action of the world can do. -/

/-- An anchor that is not there ends the call. Otherwise the region begins before its first gate. -/
theorem Session.openRegion_cases {P : Session → Prop} (s : Session) (db : Database) (hdone : P (s.goto .done))
    (hgates : ∀ anchor, P { s with anchorAuthorization := anchor, phase := .gates [] Gate.order }) :
    P (s.openRegion db) := by
  unfold Session.openRegion
  split
  · exact hgates none
  · split
    · exact hdone
    · exact hgates _

/-- The statements of a call with the locks and rows each one rests on. -/
inductive Session.Moves (s : Session) (i : Nat) (now : Int) (db : Database) (others : List Session) (ans : Answer) :
    Outcome → Prop where
  | stop (hphase : s.phase.undispatched = true) : s.Moves i now db others ans ⟨s.goto .done, db, none⟩
  | load (next : Phase) (hphase : s.phase = .loading) (hnext : next = .unsigned ∨ ∃ state, next = .loaded state) :
    s.Moves i now db others ans ⟨s.goto next, db, none⟩
  | sign (a : Attempt) (hphase : s.phase = .unsigned) (hfree : others.any (fun o => o.locks s.attempt) = false)
    (ha : db.attempts s.attempt = some a) (hunsigned : db.signings s.attempt = none)
    (happroved : signerApproves db.gates s.content = true) :
    s.Moves i now db others ans ⟨s.goto .loading, db.sign s.attempt ⟨s.content, ans.signature⟩, none⟩
  | thaw (state : AttemptState) (hphase : s.phase = .loaded state) (hfrozen : db.frozen s.content.intent = false) :
    s.Moves i now db others ans ⟨s.goto (.unfrozen state), db, none⟩
  | enter (state : AttemptState) (hphase : s.phase = .unfrozen state) :
    s.Moves i now db others ans ⟨s.openRegion db, db, none⟩
  | observe (state : AttemptState) (a : Attempt) (next : Session) (hphase : s.phase = .unfrozen state)
    (hfree : ∀ id ∈ Probe.writes ans.probe s.attempt ans.verdicts, others.any (fun o => o.locks id) = false)
    (ha : db.attempts s.attempt = some a)
    (hnext : next = s.goto .done ∨ next = s.openRegion (db.reconcile s.attempt a ans.probe ans.verdicts)) :
    s.Moves i now db others ans ⟨next, db.reconcile s.attempt a ans.probe ans.verdicts, none⟩
  | pass (g : Gate) (passed rest : List Gate) (hphase : s.phase = .gates passed (g :: rest))
    (hpassed : g.refusal s.toGateInputs now db.gates = none) :
    s.Moves i now db others ans ⟨s.pass now g passed rest, db, none⟩
  | lock (passed : List Gate) (a : Attempt) (hphase : s.phase = .gates passed [])
    (hfree : others.any (fun o => o.locks s.attempt) = false) (ha : db.attempts s.attempt = some a) :
    s.Moves i now db others ans ⟨s.goto (.locked (db.nextSendSeq s.attempt)), db, none⟩
  | read (sendSeq : Nat) (raw : SignedTx) (hphase : s.phase = .locked sendSeq)
    (hraw : db.signings s.attempt = some raw) : s.Moves i now db others ans ⟨s.goto (.bytes sendSeq raw), db, none⟩
  | check (sendSeq : Nat) (raw : SignedTx) (hphase : s.phase = .bytes sendSeq raw)
    (hexpiry : (db.gates.grants s.content.authorization).all (fun g => g.unexpired now) = true) :
    s.Moves i now db others ans ⟨s.goto (.checked sendSeq raw now), db, none⟩
  | time (sendSeq : Nat) (raw : SignedTx) (checkedAt : Int) (hphase : s.phase = .checked sendSeq raw checkedAt) :
    s.Moves i now db others ans ⟨s.goto (.timed sendSeq raw checkedAt now), db, none⟩
  | dispatch (sendSeq : Nat) (raw : SignedTx) (checkedAt dispatchedAt : Int)
    (hphase : s.phase = .timed sendSeq raw checkedAt dispatchedAt) :
    s.Moves i now db others ans
      ⟨s.goto (.dispatched sendSeq dispatchedAt ans.outcome), db, some ⟨i, s.attempt, raw, checkedAt, dispatchedAt⟩⟩
  | record (sendSeq : Nat) (dispatchedAt : Int) (outcome : SendOutcome) (a : Attempt) (next : Phase)
    (hphase : s.phase = .dispatched sendSeq dispatchedAt outcome)
    (hfree : others.any (fun o => o.locks s.attempt) = false) (ha : db.attempts s.attempt = some a)
    (hnext : next = .done ∧ ans.commit = .acknowledged ∨ next = .failed ∧ ans.commit = .unacknowledged) :
    s.Moves i now db others ans ⟨s.goto next, db.record ⟨s.attempt, sendSeq, s.request.kind, outcome, dispatchedAt, i⟩
      (dispatchState outcome a.state), none⟩
  | fail (sendSeq : Nat) (dispatchedAt : Int) (outcome : SendOutcome)
    (hphase : s.phase = .dispatched sendSeq dispatchedAt outcome)
    (hfault : ans.commit = .failed ∨ db.attempts s.attempt = none) :
    s.Moves i now db others ans ⟨s.goto .failed, db, none⟩
  | recordFailure (a : Attempt) (hphase : s.phase = .failed)
    (hfree : others.any (fun o => o.locks s.attempt) = false) (ha : db.attempts s.attempt = some a) :
    s.Moves i now db others ans ⟨s.goto .done, db.record
      ⟨s.attempt, db.nextSendSeq s.attempt, s.request.kind, .unknown, now, i⟩ (dispatchState .unknown a.state), none⟩
  | giveUp (hphase : s.phase = .failed) : s.Moves i now db others ans ⟨s.goto .done, db, none⟩

theorem Session.advance_moves {s : Session} {i : Nat} {now : Int} {db : Database} {others : List Session} {ans : Answer}
    {o : Outcome} (h : s.advance i now db others ans = some o) : s.Moves i now db others ans o := by
  unfold Session.advance at h
  cases hphase : s.phase <;> have hstop := congrArg Phase.undispatched hphase <;> simp only [hphase] at h
  case loading =>
    split at h
    · cases h
      exact .stop hstop
    next a _ =>
      split_ifs at h <;> cases h
      · exact .load _ hphase (.inr ⟨a.state, rfl⟩)
      · exact .load _ hphase (.inl rfl)
      · exact .stop hstop
  case unsigned =>
    split_ifs at h with hlocked
    split at h
    · cases h
      exact .stop hstop
    next a ha =>
      split_ifs at h with hready <;> cases h
      · exact .sign a hphase (eq_false_iff.mpr hlocked) ha hready.2.1 hready.2.2
      · exact .stop hstop
  case loaded state =>
    split_ifs at h with hfrozen <;> cases h
    · exact .stop hstop
    · exact .thaw state hphase (eq_false_iff.mpr hfrozen)
  case unfrozen state =>
    split_ifs at h with hstate hlocked
    · have hfree : ∀ id ∈ Probe.writes ans.probe s.attempt ans.verdicts, others.any (fun o => o.locks id) = false :=
        fun id hid => eq_false_iff.mpr fun hheld => hlocked (List.any_eq_true.mpr ⟨id, hid, hheld⟩)
      split at h
      · cases h
        exact .stop hstop
      next a ha =>
        split at h <;> cases h
        · exact .observe state a _ hphase hfree ha (.inl rfl)
        · exact .observe state a _ hphase hfree ha (.inl rfl)
        · exact .observe state a _ hphase hfree ha (.inr rfl)
    · cases h
      exact .enter state hphase
  case gates passed todo =>
    cases todo with
    | cons g rest =>
      dsimp only at h
      split_ifs at h
      split at h <;> cases h
      · exact .stop hstop
      next hpassed => exact .pass g passed rest hphase hpassed
    | nil =>
      dsimp only at h
      split_ifs at h with hlocked
      split at h
      · cases h
        exact .stop hstop
      next a ha =>
        split_ifs at h
        · cases h
          exact .stop hstop
        · split at h <;> cases h
          · exact .stop hstop
          · exact .lock passed a hphase (eq_false_iff.mpr hlocked) ha
  case locked sendSeq =>
    split at h <;> cases h
    · exact .stop hstop
    next raw hraw => exact .read sendSeq raw hphase hraw
  case bytes sendSeq raw =>
    split_ifs at h with hexpiry <;> cases h
    · exact .check sendSeq raw hphase hexpiry
    · exact .stop hstop
  case checked sendSeq raw checkedAt =>
    cases h
    exact .time sendSeq raw checkedAt hphase
  case timed sendSeq raw checkedAt dispatchedAt =>
    cases h
    exact .dispatch sendSeq raw checkedAt dispatchedAt hphase
  case dispatched sendSeq dispatchedAt outcome =>
    split_ifs at h with hlocked
    split at h
    next hnone =>
      cases h
      exact .fail sendSeq dispatchedAt outcome hphase (.inr hnone)
    next a ha =>
      have hfree := eq_false_iff.mpr hlocked
      split at h <;> cases h
      next hcommit => exact .record sendSeq dispatchedAt outcome a .done hphase hfree ha (.inl ⟨rfl, hcommit⟩)
      next hcommit => exact .fail sendSeq dispatchedAt outcome hphase (.inl hcommit)
      next hcommit => exact .record sendSeq dispatchedAt outcome a .failed hphase hfree ha (.inr ⟨rfl, hcommit⟩)
  case failed =>
    split_ifs at h with hlocked
    · split at h <;> cases h <;> exact .giveUp hphase
    · split at h <;> cases h
      · exact .giveUp hphase
      next a ha => exact .recordFailure a hphase (eq_false_iff.mpr hlocked) ha
  case done =>
    cases h

end TxHarbor.Lifecycle
