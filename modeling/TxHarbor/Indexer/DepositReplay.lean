import TxHarbor.Indexer.DepositWorld

open Relational Constrained Tx List Option

namespace TxHarbor.Indexer

open Outbox Call DepositWorld DepositMatchConfig DepositMatch Table DepositProgress DepositScanner HeightRange DepositFact Sample

/-! When a unit that was just read goes through, also over heights that were consumed before. -/

/-- Every creation event belongs to a stored observation. -/
def Ledger.EventsOwned (l : Ledger) : Prop :=
  ∀ e ∈ l.outbox.rows, e.fact = .created → ∃ o ∈ l.store.observations.rows, o.toIdentity = e.observation

variable {outbox outbox' : Outbox} {observation : Identity} {blockNumber : Int} {fact : DepositFact} {e : OutboxEvent}
  {scanner : DepositScanner} {s : Store} {task : DepositTask}

theorem Outbox.append_created (h : outbox.append observation blockNumber fact = .ok outbox') (he : e ∈ outbox'.rows)
    (hcreated : e.fact = .created) : e ∈ outbox.rows ∨ fact = .created ∧ e.observation = observation := by
  rcases append_eq_ok h with ⟨rfl, -, -⟩ | ⟨hrows, -⟩
  · exact .inl he
  · rw [hrows, mem_append, mem_singleton] at he
    rcases he with he | rfl
    · exact .inl he
    · exact .inr ⟨hcreated, rfl⟩

variable {rows : List DepositObservation} {o : DepositObservation} {m : DepositMatch} {cap : RecoveryCapture}
  {observations : Table DepositObservation}

/-- The creation events of a call name observations it inserted. -/
theorem Call.emit_owned {call : Call} {before after : Store} (h : call.emit before after outbox = .ok outbox')
    (he : e ∈ outbox'.rows) (hcreated : e.fact = .created) :
    e ∈ outbox.rows ∨ ∃ o ∈ after.observations.rows, o.toIdentity = e.observation := by
  revert he
  refine emit_induction (I := fun outbox₁ => e ∈ outbox₁.rows →
    e ∈ outbox.rows ∨ ∃ o ∈ after.observations.rows, o.toIdentity = e.observation) h .inl ?_
  intro _ _ id number fact hstored _ hkept hone he
  rcases append_created hone he hcreated with hmem | ⟨hfact, hid⟩
  · exact hkept hmem
  · exact .inr (hid ▸ hstored hfact)

theorem Ledger.EventsOwned.next {l : Ledger} (h : l.EventsOwned) (a : Action) : (l.next a).EventsOwned := by
  cases a with
  | operate rows => exact h
  | submit call fault =>
    rcases l.submit_cases call fault with hsame | ⟨s', outbox, hbody, hemit, hnew⟩
    · rwa [hsame]
    · rw [hnew]
      obtain ⟨change, added, hrows, hidentity, -⟩ := (body_committed hbody).observations
      intro e he hcreated
      rcases emit_owned hemit he hcreated with hmem | howned
      · obtain ⟨o, ho, hid⟩ := h e hmem hcreated
        refine ⟨change o, ?_, (hidentity o).trans hid⟩
        rw [hrows]
        exact mem_append_left _ (mem_map_of_mem ho)
      · exact howned

/-- In every run, recovery rounds and switches included, creation events belong to observations. -/
theorem DepositWorld.eventsOwned {digests : Digests} {w : DepositWorld}
    (h : Transition.Reachable (next digests) empty w) : w.ledger.EventsOwned := by
  refine Transition.Reachable.invariant h (I := fun w => w.ledger.EventsOwned)
    (by simp [Ledger.EventsOwned, empty, Ledger.empty]) fun w a hw => ?_
  cases a with
  | other a => exact hw.next a
  | read scanner | plan req =>
    simp only [next]
    split <;> exact hw
  | commit i held fault =>
    simp only [next]
    split
    · exact hw.next _
    · exact hw
  | authorize i fault =>
    simp only [next]
    split
    next req plan hi =>
      simp only [Ledger.authorize]
      rcases attempt_store fault (authorizeDepositConfig digests req plan) (fun _ => true)
        w.ledger.store with hsame | ⟨result, s', hbody, -, hnew⟩
      · rwa [hsame]
      · rw [hnew]
        obtain ⟨c, v, hauth⟩ := authorizeDepositConfig_spec hbody
        obtain ⟨-, -, hobservations, -⟩ := hauth.frame
        intro e he hcreated
        rw [hobservations]
        exact hw e he hcreated
    · exact hw

/-- The stored observation has the content of the match, whatever its version and status. -/
def DepositObservation.Records (o : DepositObservation) (m : DepositMatch) : Prop :=
  o.contract = m.contract ∧ o.blockNumber = m.blockNumber ∧ o.sender = m.sender ∧
    o.recipient = m.recipient ∧ o.amount = m.amount

instance (o : DepositObservation) (m : DepositMatch) : Decidable (o.Records m) := by
  unfold DepositObservation.Records
  infer_instance

theorem sourceRows_nodup (s : Store) (lo hi : Int) : ((sourceRows s lo hi).map (·.toIdentity)).Nodup := by
  have hperm := perm_insertionSort (fun a b : TransferLog => a.blockNumber < b.blockNumber ∨
    (a.blockNumber = b.blockNumber ∧ a.logIndex ≤ b.logIndex)) (s.logs.rows.filter fun row =>
      decide (lo ≤ row.blockNumber) && decide (row.blockNumber ≤ hi))
  refine ((hperm.map _).nodup_iff).mpr (pairwise_map.mpr ((s.logs.unique.filter _).imp ?_))
  intro a b hfree heq
  simp [clash, heq] at hfree

/-- The matches of a read unit are the deposits of its rows, one for each identity. -/
structure UnitMatches (task : DepositTask) : Prop where
  positive : ∀ m ∈ task.batch.matched, 0 < m.amount
  sole : ∀ m ∈ task.batch.matched, ∀ m' ∈ task.batch.matched, m.toIdentity = m'.toIdentity → m = m'
  counted : task.batch.rows.dedup.length = task.batch.matched.length + task.batch.zero + task.batch.unmatched

theorem ReadTask.matches (h : ReadTask scanner s task) : UnitMatches task := by
  obtain ⟨parsed, hparsed, hbatch⟩ := h.parsed
  obtain ⟨hmatched, hcount⟩ := parseDepositLogs_spec hparsed
  have hnodup := sourceRows_nodup s task.range.lo task.range.hi
  refine ⟨fun m hm => ?_, fun m hm m' hm' heq => ?_, ?_⟩
  · rw [hbatch] at hm
    obtain ⟨row, -, hrow⟩ := (hmatched m).mp hm
    exact (parseLog_matched hrow).2.2
  · rw [hbatch] at hm hm'
    obtain ⟨row, hmem, hrow⟩ := (hmatched m).mp hm
    obtain ⟨row', hmem', hrow'⟩ := (hmatched m').mp hm'
    obtain ⟨rfl, -⟩ := parseLog_matched hrow
    obtain ⟨rfl, -⟩ := parseLog_matched hrow'
    rw [inj_on_of_nodup_map hnodup hmem hmem' heq]
  · rw [hbatch]
    simp only
    rw [hnodup.dedup, length_map]
    omega

theorem DepositMatch.observation_ok (h : 0 < m.amount) (versionSeq : Int) :
    ∃ o, m.observation versionSeq = .ok o ∧ o.toIdentity = m.toIdentity ∧ o.Records m ∧ o.status = .pending := by
  unfold observation
  rw [if_pos h]
  exact ⟨_, rfl, rfl, ⟨rfl, rfl, rfl, rfl, rfl⟩, rfl⟩

/-- The matches of a unit can be inserted, and afterwards each has a stored row: the one that was
there, or its own pending one. -/
theorem insertObservations_ok (h : UnitMatches task) (versionSeq : Int) (t : Table DepositObservation) :
    ∃ t' n, insertObservations t (task.batch.matched.map (·.observation versionSeq)) = .ok (t', n) ∧
      n ≤ task.batch.matched.length ∧ ∀ m ∈ task.batch.matched, ∃ o ∈ t'.rows, o.toIdentity = m.toIdentity ∧
        (o ∈ t.rows ∨ o.Records m ∧ o.status = .pending) := by
  have hok : ∀ m ∈ task.batch.matched, ∃ o, m.observation versionSeq = .ok o ∧
      o.toIdentity = m.toIdentity ∧ o.Records m ∧ o.status = .pending :=
    fun m hm => observation_ok (h.positive m hm) versionSeq
  have hcheck : ∀ i ∈ task.batch.matched.map (·.observation versionSeq), ∃ o, id i = .ok o := fun i hi => by
    obtain ⟨m, hm, rfl⟩ := mem_map.mp hi
    obtain ⟨o, ho, -⟩ := hok m hm
    exact ⟨o, ho⟩
  have hkey : ∀ a b : DepositObservation, clash b a = (a.toIdentity == b.toIdentity) :=
    fun a b => by simp [clash, Bool.beq_comm]
  obtain ⟨t', n, hbatch, hle, hall⟩ := insertBatch_ok t hcheck hkey (fun a => by simp)
  obtain ⟨added, hrows, hadded⟩ := insertObservations_spec hbatch
  refine ⟨t', n, hbatch, by simpa using hle, fun m hm => ?_⟩
  obtain ⟨own, hown, hownid, hownrecords, hownpending⟩ := hok m hm
  obtain ⟨o, ho, hsame⟩ := hall _ (mem_map_of_mem hm) own hown
  have hid : o.toIdentity = m.toIdentity := by
    rw [← hownid]
    exact (beq_iff_eq.mp hsame).symm
  refine ⟨o, ho, hid, ?_⟩
  rw [hrows, mem_append] at ho
  refine ho.imp_right fun hnew => ?_
  -- An added row is the row of a match, and the identity tells which one.
  obtain ⟨m', hm', hm'o⟩ := mem_map.mp (hadded o hnew).1
  obtain ⟨o', ho', hid', hrecords', hpending'⟩ := hok m' hm'
  have heq : o = o' := Except.ok.inj (hm'o.symm.trans ho')
  subst heq
  have : m' = m := h.sole m' hm' m hm (hid'.symm.trans hid)
  subst this
  exact ⟨hrecords', hpending'⟩

theorem DepositMatch.consistent_iff (hcap : cap.owned = none) (ho : o ∈ observations.rows)
    (hid : o.toIdentity = m.toIdentity) : m.consistent cap observations = true ↔ o.Records m ∧ o.status = .pending := by
  have hselect : (observations.select fun o => o.toIdentity == m.toIdentity) = some o :=
    select_eq_some (fun a b ha hb => by
      simp only [beq_iff_eq] at ha hb
      simp [clash, ha, hb]) ho (by simp [hid])
  simp only [consistent, hselect, exemptOwnedOrphan, hcap, isSome_none,
    Bool.false_and, Bool.or_false, Bool.and_eq_true, beq_iff_eq, DepositObservation.Records]
  tauto

section

variable (h : ReadTask scanner s task)
include h

namespace ReadTask

theorem unowned : task.cap.owned = none := by
  rw [h.cap]

/-- A captured progress that is still current passes both verdicts on it. -/
theorem verdicts : precheck task.captured scanner.toStreamConfig task.range = .ok () ∧
      verdict task.captured task.captured scanner.toStreamConfig task.range = .ok () := by
  have hstart := h.start
  have hidentity := h.identity
  cases hcaptured : task.captured with
  | none =>
    simp only [hcaptured, map_none, getD_none] at hstart
    simp [precheck, verdict, hstart]
  | some p =>
    simp only [hcaptured, map_some, getD_some] at hstart
    simp only [hcaptured, verifyProgressIdentity] at hidentity
    split at hidentity
    · cases hidentity
    next hsame => simp [precheck, verdict, hsame, hstart]

theorem ledger : ∃ versions, ledger task.captured scanner.toDepositConfig task.range s.versions = some versions := by
  have hprogress := h.progress
  cases hcaptured : task.captured with
  | some p => exact ⟨s.versions, rfl⟩
  | none =>
    rw [hcaptured] at hprogress
    obtain ⟨-, hrows⟩ := readProgress_eq_none hprogress
    cases hinsert : s.versions.insert? (scanner.bootstrapVersion task.range.lo) with
    | some versions => exact ⟨versions, hinsert⟩
    | none =>
      obtain ⟨v, hv, -⟩ := insert?_eq_none hinsert
      rw [hrows] at hv
      cases hv

theorem advances : ∃ checkpoint,
      task.range.advance scanner.toStreamConfig task.captured.isNone s.depositCheckpoint = some checkpoint := by
  have hprogress := h.progress
  have hstart := h.start
  have hidentity := h.identity
  cases hcaptured : task.captured with
  | none =>
    rw [hcaptured] at hprogress
    simp [advance, (readProgress_eq_none hprogress).1]
  | some p =>
    rw [hcaptured] at hprogress
    simp only [hcaptured, map_some, getD_some] at hstart
    simp only [hcaptured, verifyProgressIdentity] at hidentity
    split at hidentity
    · cases hidentity
    next hsame =>
      simp only [ne_eq, not_or, not_not] at hsame
      have hordered := p.checkpoint.start_le_next
      have hrange := task.range.ordered
      have hroom : p.checkpoint.startBlock ≤ task.range.hi + 1 := by omega
      refine ⟨⟨p.checkpoint.startBlock, p.checkpoint.configHash, task.range.hi + 1, hroom⟩, ?_⟩
      simp only [advance, (readProgress_eq_some hprogress).1, isNone_some, hsame,
        hstart.symm, and_self, if_true, StreamCheckpoint.moveTo?]
      rw [dif_pos (hsame.1 ▸ hroom)]

/-- A unit that was just read passes every verdict up to its inserts, so it commits when all the
stored rows it meets are pending with its content. -/
theorem commits (hstored : ∀ m ∈ task.batch.matched, ∀ o ∈ s.observations.rows, o.toIdentity = m.toIdentity →
      o.Records m ∧ o.status = .pending) :
    ∃ s', commitDepositUnit scanner.toDepositConfig scanner.upstreamHash true task.batch task.captured
      task.range task.cap s = .ok ((), s') := by
  have hmatches := h.matches
  obtain ⟨parsed, hparsed, hbatch⟩ := h.parsed
  obtain ⟨up, hup, huphash, -, hbelow⟩ := h.covered.upstream
  obtain ⟨hpre, hverdict⟩ := h.verdicts
  obtain ⟨versions, hledger⟩ := h.ledger
  obtain ⟨checkpoint, hadvance⟩ := h.advances
  obtain ⟨observations, n, hinsert, hle, hrows⟩ := insertObservations_ok hmatches
    ((task.captured.map (·.versionSeq)).getD 1) s.observations
  have hcovers : upstreamCovers s scanner.upstreamHash task.range = true := by
    simp [upstreamCovers, hup, huphash, hbelow]
  have hview : (task.range.heights.find? fun n => !((canonicalHashAt s n).isSome &&
      canonicalHashAt s n == task.batch.canonical n)) = none := by
    refine find?_eq_none.mpr fun n hn => ?_
    obtain ⟨hlo, hhi⟩ := mem_heights.mp hn
    simp [hbatch, h.covered.canonical n hlo hhi]
  have hconsistent : (task.batch.matched.find? fun m => !(m.consistent task.cap observations)) = none := by
    refine find?_eq_none.mpr fun m hm => ?_
    obtain ⟨o, ho, hid, hrow⟩ := hrows m hm
    have hpending : o.Records m ∧ o.status = .pending := hrow.elim (fun hold => hstored m hm o hold hid) id
    simp [(consistent_iff h.unowned ho hid).mpr hpending]
  have hreconciles : task.batch.reconciles n (task.batch.matched.length - n) = true := by
    have hcounted := hmatches.counted
    simp only [DepositBatch.reconciles, Bool.and_eq_true, beq_iff_eq]
    omega
  refine ⟨{ s with versions := versions, observations := observations,
                   depositCheckpoint := some checkpoint }, ?_⟩
  have hgate : recheckRecoveryGate task.cap [] s = .ok (none, s) :=
    OrdinaryGate.passes ⟨h.unowned, h.idle, by rw [h.cap]⟩
  simp only [commitDepositUnit, leaseVerdict, readjudicateRange, eq_ok, lift_eq_ok, refuse_eq_ok]
  exact ⟨(), s, ⟨hpre, rfl⟩, s, s, ⟨rfl, rfl⟩, (), s, ⟨trivial, rfl⟩, (), s, ⟨h.covered.unpaused, rfl⟩, none, s,
    hgate, task.captured, s, ⟨h.progress, rfl⟩, (), s, ⟨hverdict, rfl⟩, (), s, ⟨hcovers, rfl⟩, (), s,
    ⟨s, s, ⟨rfl, rfl⟩, hview, rfl⟩, versions, s, ⟨hledger, rfl⟩, (observations, n), s, ⟨hinsert, rfl⟩,
    (), s, ⟨hconsistent, rfl⟩, (), s, ⟨hreconciles, rfl⟩, checkpoint, s, ⟨hadvance, rfl⟩, rfl⟩

end ReadTask

end

theorem Outbox.append_valid (h : outbox.append observation blockNumber fact = .ok outbox') :
    fact.valid observation blockNumber = true := by
  unfold append at h
  split at h
  · cases h
  next hvalid => simpa using hvalid

/-- The first creation event of a log is appended when it is valid. -/
theorem Outbox.append_created_ok (hvalid : valid .created observation blockNumber = true)
    (hfirst : ∀ e ∈ outbox.rows, e.fact = .created → e.observation ≠ observation) :
    ∃ outbox', outbox.append observation blockNumber .created = .ok outbox' := by
  have hselect : (outbox.select fun e => e.observation == observation && e.fact == .created &&
      created == .created) = none := by
    refine select_eq_none.mpr fun e he => ?_
    by_cases hcreated : e.fact = .created
    · simp [hfirst e he hcreated]
    · simp [hcreated]
  cases hinsert : outbox.insert? ⟨observation, outbox.version observation + 1, blockNumber, .created⟩ with
  | some outbox' =>
    refine ⟨outbox', ?_⟩
    simp only [append, hvalid, Bool.true_eq_false, if_false, hselect, hinsert]
  | none =>
    obtain ⟨e, he, hclash⟩ := insert?_eq_none hinsert
    simp only [clash, OutboxEvent.ofLog, Bool.and_eq_true, beq_iff_eq] at hclash
    exact absurd hclash.1.1 (hfirst e he (by simpa using hclash.1.2))

/-- The creation events of new observations are appended exactly when each of them is valid. -/
theorem Outbox.appendAll_created_iff (hsole : rows.Pairwise fun a b => a.toIdentity ≠ b.toIdentity)
    (hfirst : ∀ o ∈ rows, ∀ e ∈ outbox.rows, e.fact = .created → e.observation ≠ o.toIdentity) :
    (∃ outbox', outbox.appendAll appendCreated rows = .ok outbox') ↔
      ∀ o ∈ rows, valid .created o.toIdentity o.blockNumber = true := by
  induction rows generalizing outbox with
  | nil => simp [appendAll]
  | cons o rest ih =>
    obtain ⟨hapart, hsole'⟩ := pairwise_cons.mp hsole
    simp only [appendAll, forall_mem_cons]
    cases hone : appendCreated outbox o with
    | error err =>
      simp only [reduceCtorEq, exists_false, false_iff, not_and]
      intro hvalid
      obtain ⟨outbox', hok⟩ := append_created_ok hvalid (hfirst o mem_cons_self)
      exact absurd (hone.symm.trans hok) (by simp)
    | ok outbox₁ =>
      have hvalid := append_valid hone
      simp only [hvalid, true_and]
      refine ih hsole' fun o' ho' e he hcreated heq => ?_
      rcases append_created hone he hcreated with hold | ⟨-, hnew⟩
      · exact hfirst o' (mem_cons_of_mem _ ho') e hold hcreated heq
      · exact hapart o' ho' (hnew.symm.trans heq)

/-- The observations a committed unit adds: one for each match whose identity was not stored. -/
theorem CommittedUnit.added {cfg : DepositConfig} {upstreamHash : Hash} {batch : DepositBatch}
    {captured : Option DepositProgress} {range : HeightRange} {versions : Table DepositVersion}
    {checkpoint : StreamCheckpoint}
    (h : CommittedUnit cfg upstreamHash batch captured range cap s versions observations checkpoint)
    (hsole : ∀ m ∈ batch.matched, ∀ m' ∈ batch.matched, m.toIdentity = m'.toIdentity → m = m') :
    ∃ added, observations.rows = s.observations.rows ++ added ∧
      (added.Pairwise fun a b => a.toIdentity ≠ b.toIdentity) ∧
      (∀ o ∈ added, ∀ r ∈ s.observations.rows, r.toIdentity ≠ o.toIdentity) ∧
      ((∀ o ∈ added, valid .created o.toIdentity o.blockNumber = true) ↔
        ∀ m ∈ batch.matched, (∀ r ∈ s.observations.rows, r.toIdentity ≠ m.toIdentity) →
          valid .created m.toIdentity m.blockNumber = true) := by
  obtain ⟨added, hgrown, hadded⟩ := h.grown
  refine ⟨added, hgrown, ?_, fun o ho => (hadded o ho).2.1, ?_, ?_⟩
  · have hunique := observations.unique
    rw [hgrown] at hunique
    refine (pairwise_append.mp hunique).2.1.imp fun {a b} hfree heq => ?_
    simp [clash, heq] at hfree
  · intro hvalid m hm hnew
    obtain ⟨o, ho, hid⟩ := consistent_identity (h.stored m hm)
    rw [hgrown, mem_append] at ho
    rcases ho with hold | ho
    · exact absurd hid (hnew o hold)
    · obtain ⟨-, -, m', hm', hid', hnumber⟩ := hadded o ho
      have heq : m' = m := hsole m' hm' m hm (hid'.symm.trans hid)
      rw [← heq, ← hid', ← hnumber]
      exact hvalid o ho
  · intro hvalid o ho
    obtain ⟨-, hfree, m, hm, hid, hnumber⟩ := hadded o ho
    rw [hid, hnumber]
    exact hvalid m hm (hid ▸ hfree)

/-- In every reachable state, after switches as well, a unit that was read over unchanged logs and
blocks, and whose stored observations have its content, commits and keeps them exactly when all of
them are pending and each new observation can get its creation event. -/
theorem unit_commits_iff_stored_pending {digests : Digests} {w : DepositWorld}
    (hreach : Transition.Reachable (next digests) empty w)
    {scanner : DepositScanner} {task : DepositTask} (hread : scanner.read w.ledger.store = .ok task)
    (hsame : ∀ m ∈ task.batch.matched, ∀ o ∈ w.ledger.store.observations.rows,
      o.toIdentity = m.toIdentity → o.Records m) :
    (∃ l', (task.call true).ledgerBody w.ledger = .ok (true, l') ∧
        w.ledger.store.observations.rows <+: l'.store.observations.rows) ↔
      (∀ m ∈ task.batch.matched, ∀ o ∈ w.ledger.store.observations.rows,
        o.toIdentity = m.toIdentity → o.status = .pending) ∧
      ∀ m ∈ task.batch.matched, (∀ o ∈ w.ledger.store.observations.rows, o.toIdentity ≠ m.toIdentity) →
          DepositFact.valid .created m.toIdentity m.blockNumber = true := by
  have htask := read_eq_ok hread
  have howned := DepositWorld.eventsOwned hreach
  -- The events of a committed unit go through exactly when they are valid.
  have hevents : ∀ s', (task.call true).body w.ledger.store = .ok (true, s') →
      w.ledger.store.observations.rows <+: s'.observations.rows ∧
      ((∃ outbox, (task.call true).emit w.ledger.store s' w.ledger.outbox = .ok outbox) ↔ ∀ m ∈ task.batch.matched,
          (∀ o ∈ w.ledger.store.observations.rows, o.toIdentity ≠ m.toIdentity) →
            valid .created m.toIdentity m.blockNumber = true) := by
    intro s' hbody
    have hrun := of_committing hbody
    obtain ⟨-, versions, observations, checkpoint, rfl, hunit⟩ := commitDepositUnit_committed hrun
    obtain ⟨added, hgrown, hapart, hnew, hvalid⟩ := hunit.added htask.matches.sole
    refine ⟨⟨added, hgrown.symm⟩, ?_⟩
    simp only [DepositTask.call, emit]
    rw [insertedObservations_eq hgrown, appendAll_created_iff hapart fun o ho e he hcreated heq => ?_, hvalid]
    obtain ⟨r, hr, hid⟩ := howned e he hcreated
    exact hnew o ho r hr (hid.trans heq)
  constructor
  · rintro ⟨l', hbody, -⟩
    obtain ⟨hstore, hemit⟩ := ledgerBody_eq_ok.mp hbody
    refine ⟨fun m hm o ho hid => ?_, (hevents _ hstore).2.mp ⟨_, hemit⟩⟩
    have hrun := of_committing hstore
    obtain ⟨-, versions, observations, checkpoint, heq, hunit⟩ := commitDepositUnit_committed hrun
    obtain ⟨added, hgrown, -⟩ := hunit.grown
    have hkept : o ∈ observations.rows := by
      rw [hgrown]
      exact mem_append_left _ ho
    exact ((consistent_iff htask.unowned hkept hid).mp (hunit.stored m hm)).2
  · rintro ⟨hpending, hvalid⟩
    obtain ⟨s', hrun⟩ := htask.commits fun m hm o ho hid => ⟨hsame m hm o ho hid, hpending m hm o ho hid⟩
    rw [← htask.owner] at hrun
    have hbody : (task.call true).body w.ledger.store = .ok (true, s') := committing_ok hrun
    obtain ⟨hkept, hemits⟩ := hevents s' hbody
    obtain ⟨outbox, hemit⟩ := hemits.mpr hvalid
    exact ⟨⟨s', outbox⟩, ledgerBody_eq_ok.mpr ⟨hbody, hemit⟩, hkept⟩

namespace Sample

/-- The confirmation of the transfer at height 1 under a tip of the same height. -/
def confirmTransfer : DepositAction :=
  .other (.submit (.confirmDepositUnit 1 true ⟨(paidTransfer 1 101).toIdentity, 1, 1, hash 101, 1, 1⟩ ⟨0, none⟩) .none)

/-- Heights 0 and 1 consumed with the asset effective from 1, and the authorized replay that
lowers it to 0, after some steps of other workers. -/
def loweredAfter (others : List DepositAction) : DepositWorld :=
  worldAfter ((switched [⟨10, 1⟩] [⟨10, 0⟩]).take 5 ++ others ++ (switched [⟨10, 1⟩] [⟨10, 0⟩]).drop 5)

/-- Whether the first unit of the new configuration is read and has the property. -/
def replayReads (w : DepositWorld) (p : DepositTask → Bool) : Bool :=
  match (watcher [⟨10, 0⟩]).read w.ledger.store with
  | .ok task => p task
  | .error _ => false

theorem replayReads_eq_true {w : DepositWorld} {p : DepositTask → Bool} (h : replayReads w p = true) :
    ∃ task, (watcher [⟨10, 0⟩]).read w.ledger.store = .ok task ∧ p task = true := by
  unfold replayReads at h
  split at h
  next task hread => exact ⟨task, hread, h⟩
  · cases h

/-- Whether a transaction ends with the error. -/
def refusedWith {A : Type} (result : Except IndexerError A) (err : IndexerError) : Bool :=
  match result with
  | .error e => decide (e = err)
  | .ok _ => false

theorem refusedWith_eq_true {A : Type} {result : Except IndexerError A} {err : IndexerError}
    (h : refusedWith result err = true) : result = .error err := by
  unfold refusedWith at h
  split at h
  · rw [of_decide_eq_true h]
  · cases h

theorem reachable_lowered (others : List DepositAction) :
    Transition.Reachable (next digests) empty (loweredAfter others) :=
  ⟨_, rfl⟩

end Sample

/-- The replay of a range whose deposit is still pending goes through. -/
theorem unit_commits_over_pending : ∃ task, (watcher [⟨10, 0⟩]).read (loweredAfter []).ledger.store = .ok task ∧
      ∃ l', (task.call true).ledgerBody (loweredAfter []).ledger = .ok (true, l') ∧
        (loweredAfter []).ledger.store.observations.rows <+: l'.store.observations.rows := by
  obtain ⟨task, hread, hfacts⟩ := replayReads_eq_true (w := loweredAfter [])
    (p := fun task => decide ((∀ m ∈ task.batch.matched,
      ∀ o ∈ (loweredAfter []).ledger.store.observations.rows, o.toIdentity = m.toIdentity →
        o.Records m ∧ o.status = .pending) ∧ ∀ m ∈ task.batch.matched,
          valid .created m.toIdentity m.blockNumber = true)) (by decide +kernel)
  obtain ⟨hstored, hvalid⟩ := of_decide_eq_true hfacts
  exact ⟨task, hread, (unit_commits_iff_stored_pending (reachable_lowered []) hread
    fun m hm o ho hid => (hstored m hm o ho hid).1).mpr
      ⟨fun m hm o ho hid => (hstored m hm o ho hid).2, fun m hm _ => hvalid m hm⟩⟩

/-- The deposit was confirmed before the authorization. The scanner of the new configuration reads
the unit of the replay, which matches the stored row in everything but its status, and its commit
is refused as a conflict. -/
theorem replay_refused_over_confirmed : Transition.Reachable (next digests) empty (loweredAfter [confirmTransfer]) ∧
      ∃ task, (watcher [⟨10, 0⟩]).read (loweredAfter [confirmTransfer]).ledger.store = .ok task ∧
        (∀ m ∈ task.batch.matched, ∀ o ∈ (loweredAfter [confirmTransfer]).ledger.store.observations.rows,
            o.toIdentity = m.toIdentity → o.Records m) ∧
        (task.call true).body (loweredAfter [confirmTransfer]).ledger.store =
          .error (.depositConflict (paidTransfer 1 101).toIdentity) := by
  refine ⟨reachable_lowered _, ?_⟩
  obtain ⟨task, hread, hfacts⟩ := replayReads_eq_true (w := loweredAfter [confirmTransfer])
    (p := fun task => decide (∀ m ∈ task.batch.matched,
      ∀ o ∈ (loweredAfter [confirmTransfer]).ledger.store.observations.rows,
        o.toIdentity = m.toIdentity → o.Records m) &&
      refusedWith ((task.call true).body (loweredAfter [confirmTransfer]).ledger.store)
        (.depositConflict (paidTransfer 1 101).toIdentity)) (by decide +kernel)
  obtain ⟨hsame, hrefused⟩ := Bool.and_eq_true_iff.mp hfacts
  exact ⟨task, hread, of_decide_eq_true hsame, refusedWith_eq_true hrefused⟩

end TxHarbor.Indexer
