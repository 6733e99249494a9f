import TxHarbor.Withdrawal.Grants

/-!
# Accepted withdrawals were authorised

A request is accepted under a share lock on its grant, which no supply or revoke gets past, and with a clock read under
that lock. The unique constraints of the table bind one request to a grant and to a caller's key.
-/

open Transition

namespace TxHarbor.Withdrawal

theorem Request.conflicts_comm (r s : Request) : r.conflicts s = s.conflicts r := by
  simp only [conflicts, beq_eq_decide, eq_comm]

variable {r : Request}

open Bool

theorem Request.apart {s : Request} (h : r.conflicts s = false) :
    r.requestID ≠ s.requestID ∧ ¬ (r.callerID = s.callerID ∧ r.idempotencyKey = s.idempotencyKey) ∧
      r.authorizationID ≠ s.authorizationID := by
  simp only [conflicts, or_eq_false_iff, and_eq_false_iff, beq_eq_false_iff_ne] at h
  exact ⟨h.1.1, fun hkey => h.1.2.elim (· hkey.1) (· hkey.2), h.2⟩

/-- The terms of the grant are those of the request. -/
def GrantTerms.Binds (g : GrantTerms) (r : Request) : Prop :=
  g.callerID = r.callerID ∧ g.chainID = r.chainID ∧ g.asset = r.asset ∧ g.recipient = r.recipient ∧ g.amount = r.amount

theorem Grant.of_validFor {g : Grant} {tCheck : Int} (h : g.validFor r tCheck = true) :
    g.state = .active ∧ (∀ expires, g.terms.expiresAt = some expires → tCheck < expires) ∧ g.terms.Binds r := by
  simp only [validFor, and_eq_true, beq_iff_eq, Option.all_eq_true, decide_eq_true_eq] at h
  obtain ⟨⟨⟨⟨⟨⟨hstate, hexpires⟩, hcaller⟩, hchain⟩, hasset⟩, hrecipient⟩, hamount⟩ := h
  exact ⟨hstate, hexpires, hcaller, hchain, hasset, hrecipient, hamount⟩

/-- No revoke of the grant an acceptance names was committed before it. -/
def Commit.After (newer older : Commit) : Prop :=
  ∀ row tCheck, newer = .accepted row tCheck → older ≠ .revoked row.authorizationID

open List Ledger Session Request

namespace Ledger

/-- The requests with their audit rows and events, the transactions about to add one, and the order of commits. -/
structure Recorded (w : Ledger) : Prop where
  apart : w.requests.Pairwise fun r s => r.conflicts s = false
  created : w.created = w.requests.map (·.requestID)
  received : w.received = w.requests.map (·.requestID)
  fresh : ∀ (i : Nat) (s : Session) row tCheck, w.sessions[i]? = some s → s.job = .accept row → s.stage = .inserted tCheck →
    ∀ r ∈ w.requests, r.conflicts row = false
  claimed : ∀ (i j : Nat) (s t : Session) row tCheck, w.sessions[i]? = some s → w.sessions[j]? = some t →
    s.job = .accept row → s.stage = .inserted tCheck → t.claims row = true → i = j
  accepted : ∀ r ∈ w.requests, ∃ tCheck, .accepted r tCheck ∈ w.commits
  bound : ∀ row tCheck, .accepted row tCheck ∈ w.commits → ∃ g, w.grants row.authorizationID = some g ∧
    g.terms.Binds row ∧ (∀ expires, g.terms.expiresAt = some expires → tCheck < expires) ∧
    (row.authorizationID, tCheck) ∈ w.reads
  revoked : ∀ a, .revoked a ∈ w.commits → ∃ g, w.grants a = some g ∧ g.state ≠ .active
  ordered : w.commits.Pairwise Commit.After

variable {w : Ledger} {i : Nat} {s : Session} {w' : Ledger} {row : Request} {tCheck : Int}

namespace Recorded

variable (h : w.Recorded)
include h

theorem move {stage : Stage} (hstage : ∀ tCheck, stage ≠ .inserted tCheck) : (w.move i s stage).Recorded := by
  refine { h with fresh := ?_, claimed := ?_ }
  · intro j t row tCheck ht hjob hinserted
    rcases getElem?_move ht with ⟨-, rfl⟩ | ⟨-, ht⟩
    · exact absurd hinserted (hstage tCheck)
    · exact h.fresh j t row tCheck ht hjob hinserted
  · intro j k t u row tCheck ht hu hjob hinserted hclaims
    rcases getElem?_move ht with ⟨-, rfl⟩ | ⟨-, ht⟩
    · exact absurd hinserted (hstage tCheck)
    · rcases getElem?_move hu with ⟨-, rfl⟩ | ⟨-, hu⟩
      · simp only [claims] at hclaims
        split at hclaims
        · exact absurd rfl (hstage _)
        · cases hclaims
      · exact h.claimed j k t u row tCheck ht hu hjob hinserted hclaims

/-- The commit log and the requests only depend on the terms of grants, which stay. -/
theorem kept (hkeeps : ∀ a, Keeps a w w') (hsessions : w'.sessions = w.sessions)
    (hrequests : w'.requests = w.requests) (hcreated : w'.created = w.created)
    (hreceived : w'.received = w.received) (hreads : w'.reads = w.reads) (hcommits : w'.commits = w.commits) :
    w'.Recorded where
  apart := hrequests ▸ h.apart
  created := by rw [hcreated, hrequests]; exact h.created
  received := by rw [hreceived, hrequests]; exact h.received
  fresh := by rw [hsessions, hrequests]; exact h.fresh
  claimed := by rw [hsessions]; exact h.claimed
  accepted := by rw [hrequests, hcommits]; exact h.accepted
  bound row tCheck hmem := by
    rw [hcommits] at hmem
    obtain ⟨g, hg, hbinds, hexpires, hread⟩ := h.bound row tCheck hmem
    obtain ⟨g', hg', hterms, -⟩ := (hkeeps row.authorizationID).grant g hg
    exact ⟨g', hg', hterms ▸ hbinds, hterms ▸ hexpires, hreads ▸ hread⟩
  revoked a hmem := by
    rw [hcommits] at hmem
    obtain ⟨g, hg, hinactive⟩ := h.revoked a hmem
    obtain ⟨g', hg', -, hstate⟩ := (hkeeps a).grant g hg
    exact ⟨g', hg', hstate hinactive ▸ hinactive⟩
  ordered := hcommits ▸ h.ordered

/-- A commit that keeps the grants keeps the record of the accepted requests. -/
theorem wrote {writes : Writes} (hkeeps : ∀ a, Keeps a w (w.apply s.job.authorizationID writes))
    (hrevokes : writes = .revoke → ∃ g, w.grants s.job.authorizationID = some g) :
    (w.apply s.job.authorizationID writes).Recorded := by
  cases writes with
  | audit => exact h
  | create terms scope | bump => exact h.kept hkeeps rfl rfl rfl rfl rfl rfl
  | revoke =>
    have hkept : Recorded { w.apply s.job.authorizationID .revoke with commits := w.commits } :=
      h.kept (fun a => { hkeeps a with }) rfl rfl rfl rfl rfl rfl
    obtain ⟨g, hg⟩ := hrevokes rfl
    refine { hkept with accepted := ?_, bound := ?_, revoked := ?_, ordered := ?_ }
    · intro r hr
      obtain ⟨tCheck, hmem⟩ := h.accepted r hr
      exact ⟨tCheck, mem_cons_of_mem _ hmem⟩
    · intro row tCheck hmem
      rcases mem_cons.mp hmem with heq | hmem
      · cases heq
      · exact hkept.bound row tCheck hmem
    · intro a hmem
      rcases mem_cons.mp hmem with heq | hmem
      · cases heq
        exact ⟨{ g with state := .revoked }, by simp [apply, hg], by rintro ⟨⟩⟩
      · exact hkept.revoked a hmem
    · exact pairwise_cons.mpr ⟨(fun _ _ _ _ heq => by cases heq), h.ordered⟩

/-- An inserted row is claimed by no other session and conflicts with no request. -/
theorem insert (hjob : s.job = .accept row) (halone : w.others i (·.claims row) = false)
    (hfresh : w.requests.any (·.conflicts row) = false) : (w.move i s (.inserted tCheck)).Recorded := by
  have hclaims : ∀ (j : Nat) (t : Session), j ≠ i → w.sessions[j]? = some t → t.claims row = false :=
    others_eq_false.mp halone
  refine { h with fresh := ?_, claimed := ?_ }
  · intro j t row' tCheck' ht hjob' hinserted
    rcases getElem?_move ht with ⟨-, rfl⟩ | ⟨-, ht⟩
    · have hrow : row' = row := Job.accept.inj (hjob'.symm.trans hjob)
      subst hrow
      intro r hr
      have hnone := any_eq_false.mp hfresh r hr
      exact not_eq_true _ ▸ hnone
    · exact h.fresh j t row' tCheck' ht hjob' hinserted
  · intro j k t u row' tCheck' ht hu hjob' hinserted hclaim
    rcases getElem?_move ht with ⟨hj, hst⟩ | ⟨hj, htj⟩ <;> rcases getElem?_move hu with ⟨hk, hsu⟩ | ⟨hk, huk⟩
    · exact hj.trans hk.symm
    · subst hst
      have hrow : row' = row := Job.accept.inj (hjob'.symm.trans hjob)
      rw [hrow, hclaims k u hk huk] at hclaim
      cases hclaim
    · -- The other one had inserted its row, so this insert would have waited.
      subst hsu
      have hconflict : row.conflicts row' = true := by
        simp only [claims, hjob] at hclaim
        exact hclaim
      have hnone := hclaims j t hj htj
      simp only [claims, hjob', hinserted, conflicts_comm row' row, hconflict] at hnone
      cases hnone
    · exact h.claimed j k t u row' tCheck' htj huk hjob' hinserted hclaim

/-- The commit of an acceptance adds its request under the grant it still holds. -/
theorem accept (hlocks : w.Locks) (hi : w.sessions[i]? = some s)
    (hjob : s.job = .accept row) (hstage : s.stage = .inserted tCheck) :
    ((w.move i s .ended).accepted row tCheck).Recorded := by
  have hended : (w.move i s .ended).Recorded := h.move nofun
  have hfresh := h.fresh i s row tCheck hi hjob hstage
  obtain ⟨row', g, hjob', hgrant, hvalid, hread⟩ := (hlocks.fits i s hi).valid tCheck (.inr hstage)
  have hrow : row' = row := Job.accept.inj (hjob'.symm.trans hjob)
  subst hrow
  obtain ⟨hactive, hexpires, hbinds⟩ := Grant.of_validFor hvalid
  constructor
  · refine pairwise_cons.mpr ⟨fun r hr => ?_, h.apart⟩
    rw [conflicts_comm]
    exact hfresh r hr
  · simp [Ledger.accepted, hended.created]
  · simp [Ledger.accepted, hended.received]
  · intro j t other tCheck' ht hjob'' hinserted r hr
    rcases getElem?_move ht with ⟨-, rfl⟩ | ⟨hj, htj⟩
    · cases hinserted
    · rcases mem_cons.mp hr with rfl | hr
      · -- The row that was committed stood beside this one, which would have waited for it.
        rw [eq_false_iff]
        intro hconflict
        refine hj (h.claimed j i t s other tCheck' htj hi hjob'' hinserted ?_)
        simp only [claims, hjob, hstage]
        exact hconflict
      · exact h.fresh j t other tCheck' htj hjob'' hinserted r hr
  · exact hended.claimed
  · intro r hr
    rcases mem_cons.mp hr with rfl | hr
    · exact ⟨tCheck, mem_cons_self⟩
    · obtain ⟨t, ht⟩ := h.accepted r hr
      exact ⟨t, mem_cons_of_mem _ ht⟩
  · intro other t hmem
    rcases mem_cons.mp hmem with heq | hmem
    · cases heq
      exact ⟨g, hgrant, hbinds, hexpires, hread⟩
    · exact h.bound other t hmem
  · intro a hmem
    rcases mem_cons.mp hmem with heq | hmem
    · cases heq
    · exact h.revoked a hmem
  · refine pairwise_cons.mpr ⟨?_, h.ordered⟩
    intro older holder other t heq hrevoked
    cases heq
    subst hrevoked
    obtain ⟨g', hg', hinactive⟩ := h.revoked _ holder
    cases hgrant.symm.trans hg'
    exact hinactive hactive

/-- Every step keeps the record. -/
theorem step (hlocks : w.Locks) (hstep : w.Step w') : w'.Recorded := by
  cases hstep with
  | same => exact h
  | ticked elapsed => exact { h with }
  | started job =>
    have hold : ∀ (j : Nat) (t : Session), (w.sessions ++ [⟨job, .begun⟩])[j]? = some t →
        w.sessions[j]? = some t ∨ t = ⟨job, .begun⟩ := fun _ _ h => (getElem?_append_eq_some h).imp_right And.right
    refine { h with fresh := ?_, claimed := ?_ }
    · intro j t row tCheck ht hjob hinserted
      rcases hold j t ht with ht | rfl
      · exact h.fresh j t row tCheck ht hjob hinserted
      · cases hinserted
    · intro j k t u row tCheck ht hu hjob hinserted hclaims
      rcases hold j t ht with ht | rfl
      · rcases hold k u hu with hu | rfl
        · exact h.claimed j k t u row tCheck ht hu hjob hinserted hclaims
        · simp [claims] at hclaims
      · cases hinserted
  | @freed i s stage hi hexclusive hshared =>
    refine h.move fun tCheck heq => ?_
    rw [heq] at hshared
    cases hshared
  | held | creating | bumping | revoking | sharing => exact h.move nofun
  | checked hi hjob hstage hgrant hvalid =>
    rename_i i s row g
    have hmoved : (w.move i s (.checked w.clock)).Recorded := h.move nofun
    exact
      { hmoved with
        bound := fun other t hmem => by
          obtain ⟨g, hg, hbinds, hexpires, hread⟩ := h.bound other t hmem
          exact ⟨g, hg, hbinds, hexpires, mem_cons_of_mem _ hread⟩ }
  | inserted hi hjob hstage halone hfresh => exact h.insert hjob halone hfresh
  | @wrote i s writes hi hstage =>
    have hended : (w.move i s .ended).Recorded := h.move nofun
    have hkeeps : ∀ a, Keeps a (w.move i s .ended) ((w.move i s .ended).apply s.job.authorizationID writes) := by
      intro a
      by_cases ha : a = s.job.authorizationID
      · subst ha
        have hkeeps := keeps_apply (hlocks.fits i s hi) (hlocks.paired _) hstage
        cases writes <;> exact { hkeeps with }
      · exact .of_eq (grants_apply_ne ha) (scopes_apply_ne ha)
    have hwrote := hended.wrote hkeeps fun hrevoke => by
      obtain ⟨g, hg, -⟩ := (hlocks.fits i s hi).revokes (hrevoke ▸ hstage)
      exact ⟨g, hg⟩
    exact { hwrote with }
  | accepted hi hjob hstage => exact h.accept hlocks hi hjob hstage

end Recorded

theorem recorded_initial (clock : Int) : (initial clock).Recorded where
  apart := .nil
  created := rfl
  received := rfl
  fresh := by simp [initial]
  claimed := by simp [initial]
  accepted := by simp [initial]
  bound := by simp [initial]
  revoked := by simp [initial]
  ordered := .nil

/-- Clock values are read by a transaction that shares the grant row while nobody excludes it. -/
def ReadsShared (w : Ledger) (act : Action) : Prop := ∀ x ∈ (w.next act).reads, x ∈ w.reads ∨
    x.2 = w.clock ∧ (∃ s ∈ w.sessions, s.shares x.1 = true) ∧ ∀ t ∈ w.sessions, t.excludes x.1 = false

/-- The lock discipline gives each clock reading its share of the row. -/
theorem Locks.readsShared (h : w.Locks) (act : Action) : w.ReadsShared act := by
  intro x hx
  have hstep := next_step w act
  generalize w.next act = w' at hx hstep
  cases hstep with
  | @checked i s row g hi hjob hstage hgrant hvalid =>
    rcases mem_cons.mp hx with rfl | hx
    · refine .inr ⟨rfl, ⟨s, mem_of_getElem? hi, ?_⟩, fun t ht => ?_⟩
      · simp [shares, hjob, Job.authorizationID, hstage, Stage.shared]
      · rw [eq_false_iff]
        intro hexcludes
        simp only [excludes, and_eq_true, beq_iff_eq] at hexcludes
        obtain ⟨j, hj⟩ := mem_iff_getElem?.mp ht
        have hshared : s.stage.shared = true := by rw [hstage]; rfl
        have hsame : j = i := h.alone j i t s hj hi hexcludes.2 (.inr hshared) (by rw [hexcludes.1, hjob]; rfl)
        subst hsame
        cases hi.symm.trans hj
        rw [hstage] at hexcludes
        exact absurd hexcludes.2 (by rintro ⟨⟩)
    · exact .inl hx
  | wrote =>
    refine .inl ?_
    have hx' : x ∈ (apply _ _ _).reads := hx
    rw [reads_apply] at hx'
    exact hx'
  | _ => exact .inl hx

end Ledger

open Ledger in
/-- Every accepted withdrawal was authorised when it was accepted. -/
theorem accepted_authorised (clock : Int) (actions : List Action) :
    let w := run next (.initial clock) actions
    (∀ r ∈ w.requests, ∃ g tCheck, w.grants r.authorizationID = some g ∧ g.terms.Binds r ∧
        .accepted r tCheck ∈ w.commits ∧ (r.authorizationID, tCheck) ∈ w.reads ∧
        ∀ expires, g.terms.expiresAt = some expires → tCheck < expires) ∧
      Along next ReadsShared (initial clock) actions ∧ w.commits.Pairwise Commit.After ∧
      (w.requests.Pairwise fun r s => r.authorizationID ≠ s.authorizationID ∧
        ¬ (r.callerID = s.callerID ∧ r.idempotencyKey = s.idempotencyKey)) ∧
      (∀ r ∈ w.requests, w.created.count r.requestID = 1 ∧ w.received.count r.requestID = 1) ∧
      (∀ id ∈ w.created, ∃ r ∈ w.requests, r.requestID = id) ∧ ∀ id ∈ w.received, ∃ r ∈ w.requests, r.requestID = id := by
  have hsound : (run next (.initial clock) actions).Locks ∧ (run next (.initial clock) actions).Recorded :=
    Reachable.invariant (I := fun w => Locks w ∧ Recorded w) ⟨actions, rfl⟩
      ⟨locks_initial clock, recorded_initial clock⟩
      fun w act h => ⟨h.1.step (next_step w act), h.2.step h.1 (next_step w act)⟩
  obtain ⟨-, hrecorded⟩ := hsound
  have hids : ((run next (.initial clock) actions).requests.map (·.requestID)).Nodup :=
    pairwise_map.mpr (hrecorded.apart.imp fun h => (apart h).1)
  refine ⟨?_, ?_, hrecorded.ordered, hrecorded.apart.imp fun h => ⟨(apart h).2.2, (apart h).2.1⟩, ?_, ?_, ?_⟩
  · intro r hr
    obtain ⟨tCheck, hmem⟩ := hrecorded.accepted r hr
    obtain ⟨g, hg, hbinds, hexpires, hread⟩ := hrecorded.bound r tCheck hmem
    exact ⟨g, tCheck, hg, hbinds, hmem, hread, hexpires⟩
  · exact along_of_invariant (along_of_forall (P := fun _ _ => True) (fun _ _ => trivial) _ _)
      (locks_initial clock) (fun _ act _ h => Locks.readsShared h act) fun w act _ h => Locks.step h (next_step w act)
  · intro r hr
    have hmem := mem_map_of_mem (f := (·.requestID)) hr
    rw [hrecorded.created, hrecorded.received]
    exact ⟨count_eq_one_of_mem hids hmem, count_eq_one_of_mem hids hmem⟩
  · intro id hid
    rw [hrecorded.created] at hid
    exact mem_map.mp hid
  · intro id hid
    rw [hrecorded.received] at hid
    exact mem_map.mp hid

end TxHarbor.Withdrawal
