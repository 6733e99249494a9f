import TxHarbor.Indexer.Committed

open Relational Tx

namespace TxHarbor.Indexer

/-! The outbox. The producer helpers append their events in the transaction of the business
transition, so a refused event rolls the transition back. -/

/-- The deposit facts of the event catalog. -/
inductive DepositFact where
  | created
  | statusChanged (fromState toState : ObservationStatus)
  | confirmed (policyVersion : Int)
  | reinstated
  | revisionApplied (recoveryVersion : Int) (superseded : Nat) (toState : ObservationStatus)
  deriving DecidableEq

/-- `outbox_events` of the `deposit_observation` aggregates. A `created` event has the identity of
its source log, every other one that of its aggregate and version. -/
structure OutboxEvent where
  observation : Identity
  version : Nat
  blockNumber : Int
  fact : DepositFact
  deriving DecidableEq

/-- Whether the event is identified by its source log. -/
def OutboxEvent.ofLog (e : OutboxEvent) : Bool := e.fact == .created

/-- The two partial unique indexes. -/
instance : Constrained OutboxEvent where
  clash a b := a.observation == b.observation && a.ofLog == b.ofLog && (a.ofLog || a.version == b.version)
  clash_comm a b := by
    rw [Bool.beq_comm, Bool.beq_comm (a := a.version)]
    cases a.ofLog <;> cases b.ofLog <;> simp

abbrev Outbox := Table OutboxEvent

/-- `aggregateVersionQuery`. -/
def Outbox.version (outbox : Outbox) (observation : Identity) : Nat :=
  (outbox.rows.filter fun e => e.observation == observation).foldl (fun m e => max m e.version) 0

/-- `validateEvent`: the facts that carry a chain identity need a positive height. -/
def DepositFact.valid (fact : DepositFact) (observation : Identity) (blockNumber : Int) : Bool :=
  match fact with
  | .created => decide (0 < blockNumber) && decide (0 ≤ observation.logIndex)
  | .revisionApplied .. => decide (0 < blockNumber)
  | _ => true

/-- `Append`. The same log with the same payload is a no-op, and with another one a conflict. -/
def Outbox.append (outbox : Outbox) (observation : Identity) (blockNumber : Int) (fact : DepositFact) :
    Except IndexerError Outbox :=
  if fact.valid observation blockNumber = false then .error (.message "invalid event")
  else
    match outbox.select fun e => e.observation == observation && e.fact == .created && fact == .created with
    | some e => if e.blockNumber = blockNumber then .ok outbox else .error (.outboxConflict observation)
    | none =>
      match outbox.insert? ⟨observation, outbox.version observation + 1, blockNumber, fact⟩ with
      | some outbox' => .ok outbox'
      | none => .error (.outboxConflict observation)

/-- A loop over the observations of one transaction. -/
def Outbox.appendAll (outbox : Outbox) (append : Outbox → DepositObservation → Except IndexerError Outbox) :
    List DepositObservation → Except IndexerError Outbox
  | [] => .ok outbox
  | o :: rest =>
    match append outbox o with
    | .error e => .error e
    | .ok outbox' => Outbox.appendAll outbox' append rest

/-- `appendDepositObservationCreatedEvent`. -/
def appendCreated (outbox : Outbox) (o : DepositObservation) : Except IndexerError Outbox :=
  outbox.append o.toIdentity o.blockNumber .created

/-- A fact followed by the revision of the aggregate's head event, if it has one. -/
def appendRevised (recoveryVersion : Int) (toState : ObservationStatus) (fact : DepositFact)
    (outbox : Outbox) (o : DepositObservation) : Except IndexerError Outbox :=
  match outbox.append o.toIdentity o.blockNumber fact with
  | .error e => .error e
  | .ok outbox' =>
    if outbox.version o.toIdentity = 0 then .ok outbox'
    else
      outbox'.append o.toIdentity o.blockNumber (.revisionApplied recoveryVersion (outbox.version o.toIdentity) toState)

/-- The events of an invalidation: the status change with its true source state, and the revision. -/
def appendOrphaned (recoveryVersion : Int) (outbox : Outbox) (o : DepositObservation) : Except IndexerError Outbox :=
  appendRevised recoveryVersion .orphaned (.statusChanged o.status .orphaned) outbox o

/-- The events of a revival. -/
def appendReinstated (recoveryVersion : Int) (outbox : Outbox) (o : DepositObservation) : Except IndexerError Outbox :=
  appendRevised recoveryVersion .pending .reinstated outbox o

/-- The observations a transaction inserted. -/
def insertedObservations (before after : Store) : List DepositObservation :=
  after.observations.rows.drop before.observations.rows.length

/-- The events the transaction of a call appends between its two stores. -/
def Call.emit (call : Call) (before after : Store) (outbox : Outbox) : Except IndexerError Outbox :=
  match call with
  | .commitDepositUnit .. => outbox.appendAll appendCreated (insertedObservations before after)
  | .confirmDepositUnit _ _ basis _ =>
    outbox.append basis.toIdentity basis.height (.confirmed basis.policySeq)
  | .invalidateObservations .. =>
    match before.recovery with
    | none => .ok outbox
    | some row =>
      outbox.appendAll (appendOrphaned row.seq)
        (before.observations.rows.filter (DepositObservation.effectiveFrom ((row.ancestor.map (·.number)).getD 0 + 1)))
  | .revive _ _ id =>
    match before.recovery with
    | none => .ok outbox
    | some row =>
      outbox.appendAll (appendReinstated row.seq) (before.observations.rows.filter fun o => o.toIdentity == id)
  | _ => .ok outbox

/-- The observation a call confirms. -/
def Call.confirming : Call → Option Identity
  | .confirmDepositUnit _ _ basis _ => some basis.toIdentity
  | _ => none

variable {I : Outbox → Prop} {outbox outbox' : Outbox} {fact : DepositFact} {call : Call}

/-- What every append of a loop keeps is kept by the loop. -/
theorem Outbox.appendAll_induction
    {append : Outbox → DepositObservation → Except IndexerError Outbox} {rows : List DepositObservation}
    (h : outbox.appendAll append rows = .ok outbox') (hstart : I outbox)
    (hstep : ∀ o ∈ rows, ∀ outbox outbox', I outbox → append outbox o = .ok outbox' → I outbox') : I outbox' := by
  induction rows generalizing outbox with
  | nil =>
    cases h
    exact hstart
  | cons o rest ih =>
    simp only [Outbox.appendAll] at h
    cases hone : append outbox o with
    | error e => simp [hone] at h
    | ok outbox₁ =>
      simp only [hone] at h
      exact ih h (hstep o List.mem_cons_self _ _ hstart hone) fun o' ho' => hstep o' (List.mem_cons_of_mem _ ho')

theorem appendRevised_induction {recoveryVersion : Int} {toState : ObservationStatus} {o : DepositObservation}
    (h : appendRevised recoveryVersion toState fact outbox o = .ok outbox') (hstart : I outbox)
    (hstep : ∀ fact', (fact' = fact ∨ fact' ≠ .created ∧ ∀ seq, fact' ≠ .confirmed seq) → ∀ outbox outbox', I outbox →
      outbox.append o.toIdentity o.blockNumber fact' = .ok outbox' → I outbox') : I outbox' := by
  unfold appendRevised at h
  cases hfirst : outbox.append o.toIdentity o.blockNumber fact with
  | error e => simp [hfirst] at h
  | ok outbox₁ =>
    have hone := hstep fact (.inl rfl) _ _ hstart hfirst
    simp only [hfirst] at h
    split at h
    · cases h
      exact hone
    · exact hstep _ (.inr ⟨by simp, by simp⟩) _ _ hone h

/-- What an append keeps that creates events of stored observations only, and confirms only what the call confirms, is
kept by the events of a call. -/
theorem Call.emit_induction {before after : Store} (h : call.emit before after outbox = .ok outbox') (hstart : I outbox)
    (hstep : ∀ outbox outbox' id number fact, (fact = .created → ∃ o ∈ after.observations.rows, o.toIdentity = id) →
      (∀ seq, fact = .confirmed seq → call.confirming = some id) → I outbox →
        outbox.append id number fact = .ok outbox' → I outbox') : I outbox' := by
  cases call with
  | commitDepositUnit cfg upstreamHash held batch captured range cap =>
    exact Outbox.appendAll_induction h hstart fun o ho _ _ hkept hone =>
      hstep _ _ _ _ _ (fun _ => ⟨o, List.mem_of_mem_drop ho, rfl⟩) (by simp) hkept hone
  | confirmDepositUnit thresholdN held basis cap => exact hstep _ _ _ _ _ (by simp) (fun _ _ => rfl) hstart h
  | invalidateObservations held cap | revive held cap target =>
    simp only [Call.emit] at h
    cases hrow : before.recovery with
    | none =>
      simp only [hrow, Except.ok.injEq] at h
      exact h ▸ hstart
    | some row =>
      simp only [hrow] at h
      refine Outbox.appendAll_induction h hstart fun o _ _ _ hkept hone => ?_
      refine appendRevised_induction hone hkept fun fact hfact _ _ => hstep _ _ _ _ _ ?_ ?_
      · rcases hfact with rfl | ⟨hfact, -⟩
        · nofun
        · exact fun heq => absurd heq hfact
      · rcases hfact with rfl | ⟨-, hfact⟩
        · nofun
        · exact fun seq heq => absurd heq (hfact seq)
  | _ =>
    simp only [Call.emit, Except.ok.injEq] at h
    exact h ▸ hstart

/-- The indexer tables with the outbox. -/
structure Ledger where
  store : Store
  outbox : Outbox

def Ledger.empty : Ledger := ⟨Store.empty, Table.empty⟩

/-- The transaction of a call with the events it appends. -/
def Call.ledgerBody (call : Call) : Tx Ledger IndexerError Bool := fun l =>
  match call.body l.store with
  | .error e => .error e
  | .ok (false, s') => .ok (false, ⟨s', l.outbox⟩)
  | .ok (true, s') =>
    match call.emit l.store s' l.outbox with
    | .error e => .error e
    | .ok outbox => .ok (true, ⟨s', outbox⟩)

def Ledger.next (l : Ledger) : Action → Ledger
  | .submit call fault => (attempt fault call.ledgerBody id l).2
  | .operate rows => ⟨l.store.next (.operate rows), l.outbox⟩

/-- A ledger some interleaving leads to from the empty schema. -/
abbrev Ledger.Reachable (l : Ledger) : Prop := Transition.Reachable Ledger.next .empty l

theorem Call.ledgerBody_eq_ok {l l' : Ledger} : call.ledgerBody l = .ok (true, l') ↔
      call.body l.store = .ok (true, l'.store) ∧ call.emit l.store l'.store l.outbox = .ok l'.outbox := by
  unfold Call.ledgerBody
  cases call.body l.store with
  | error e => simp
  | ok p =>
    obtain ⟨b, s'⟩ := p
    cases b with
    | false => simp
    | true =>
      simp only [Except.ok.injEq, Prod.mk.injEq, true_and]
      constructor
      · intro h
        cases hemit : call.emit l.store s' l.outbox with
        | error e => simp [hemit] at h
        | ok outbox =>
          simp only [hemit, Except.ok.injEq, Prod.mk.injEq, true_and] at h
          subst h
          exact ⟨rfl, hemit⟩
      · rintro ⟨rfl, hemit⟩
        simp [hemit]

/-- A submitted call leaves the ledger alone, or commits its store change with its events. -/
theorem Ledger.submit_cases (l : Ledger) (call : Call) (fault : Fault IndexerError) :
    l.next (.submit call fault) = l ∨ ∃ s' outbox, call.body l.store = .ok (true, s') ∧
      call.emit l.store s' l.outbox = .ok outbox ∧ l.next (.submit call fault) = ⟨s', outbox⟩ := by
  rcases attempt_store fault call.ledgerBody id l with hsame | ⟨commits, l', hbody, hkeep, hnew⟩
  · exact .inl hsame
  · have hcommits : commits = true := hkeep
    subst hcommits
    obtain ⟨hrun, hemit⟩ := Call.ledgerBody_eq_ok.mp hbody
    exact .inr ⟨l'.store, l'.outbox, hrun, hemit, hnew⟩

/-- What an append leaves: the same table for a repeated log event, or one more event. -/
theorem Outbox.append_eq_ok {observation : Identity} {blockNumber : Int}
    (h : outbox.append observation blockNumber fact = .ok outbox') :
    (outbox' = outbox ∧ fact = .created ∧ ∃ e ∈ outbox.rows, e.observation = observation ∧ e.fact = .created) ∨
      (outbox'.rows = outbox.rows ++ [⟨observation, outbox.version observation + 1, blockNumber, fact⟩] ∧
        (fact = .created → ∀ e ∈ outbox.rows, e.fact = .created → e.observation ≠ observation)) := by
  unfold Outbox.append at h
  split at h
  · cases h
  · split at h
    next e hfound =>
      obtain ⟨hmem, he⟩ := Table.select_mem hfound
      simp only [Bool.and_eq_true, beq_iff_eq] at he
      split at h
      · cases h
        exact .inl ⟨rfl, he.2, e, hmem, he.1.1, he.1.2⟩
      · cases h
    next hfree =>
      split at h
      next hinsert =>
        cases h
        obtain ⟨-, hrows⟩ := Table.insert?_eq_some hinsert
        refine .inr ⟨hrows, fun hfact e hmem hcreated heq => ?_⟩
        have := Table.select_eq_none.mp hfree e hmem
        simp [heq, hcreated, hfact] at this
      · cases h

end TxHarbor.Indexer
