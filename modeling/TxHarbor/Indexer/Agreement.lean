import TxHarbor.Indexer.OrdinaryRange
import TxHarbor.Indexer.ReplayedRange

open Relational List Option Bool

namespace TxHarbor.Indexer

open DepositWorld UnitStream Sample

/-! Ordinary indexing and replay of the same range, compared. -/

/-- The columns of an observation that replay and ordinary indexing are compared on. -/
def DepositObservation.facts (o : DepositObservation) :
    Identity × Address × Address × Address × Int × ObservationStatus :=
  (o.toIdentity, o.contract, o.sender, o.recipient, o.amount, o.status)

/-- The two ledgers hold the same log rows, observations and creation events. -/
structure SameFacts (o r : Ledger) : Prop where
  logs : ∀ row, row ∈ o.store.logs.rows ↔ row ∈ r.store.logs.rows
  observations : ∀ f, f ∈ o.store.observations.rows.map DepositObservation.facts ↔
    f ∈ r.store.observations.rows.map DepositObservation.facts
  events : ∀ e, (e ∈ o.outbox.rows ∧ e.fact = .created) ↔ (e ∈ r.outbox.rows ∧ e.fact = .created)

/-- The replay never refuses a range, however it is cut, and the replayed ledger has the facts of
the ordinary one. -/
structure ReplayAgrees (chain : List RawLog) (cap : RecoveryCapture) (lo hi : Int) (r o' : Ledger) :
    Prop where
  commits : ∀ marks l, Replayed chain cap lo hi r marks l → ∀ (u : UnitStream) (range : HeightRange),
    range.lo = marks u → range.hi ≤ hi → ∃ call l',
      replayCall cap u.stream range (assembly chain l.store u.stream range) = some call ∧
        call.ledgerBody l = .ok (true, l')
  same : ∀ marks l, Replayed chain cap lo hi r marks l → (∀ u, marks u = hi + 1) → SameFacts o' l

/-- The ordinary path starts from the same rows, with its log stream at the start of the range. -/
structure SameStart (lo : Int) (o r : Ledger) : Prop where
  blocks : o.store.blocks = r.store.blocks
  logs : o.store.logs = r.store.logs
  observations : o.store.observations = r.store.observations
  outbox : o.outbox = r.outbox
  position : ∀ c ∈ o.store.logCheckpoint, c.nextBlock = lo

/-- One configuration is in force for the replay at every height of the range: that of the
scanner. -/
def InForceThroughout (scanner : DepositScanner) (s : Store) (lo hi : Int) : Prop :=
  ∀ n, lo ≤ n → n ≤ hi → ∃ v, historicalMatch s n = some v ∧ v.matchConfig = scanner.matchConfig

/-- Every Transfer log of the range is of a listed contract or stored before. -/
def OnlyListed (scanner : DepositScanner) (chain : List RawLog) (s : Store) (lo hi : Int) : Prop :=
  ∀ x ∈ chain, TransferIn lo (hi + 1) x →
    x.address ∈ scanner.logContracts ∨ ∃ row ∈ s.logs.rows, row.toIdentity = x.identity

/-- Every deposit of the range was observed before. -/
def NothingNew (scanner : DepositScanner) (chain : List RawLog) (s : Store) (lo hi : Int) : Prop :=
  ∀ x ∈ chain, TransferIn lo (hi + 1) x → ∀ row, x.transfer? = some row →
    scanner.matchConfig.Deposits row → ∃ o ∈ s.observations.rows, o.toIdentity = x.identity

/-- The ordinary path has indexed a range of a chain without an error, and a recovery round of some
reachable state stands before the same range of the same blocks. -/
structure ComparedRange (digests : Digests) (w : DepositWorld) (scanner : DepositScanner)
    (chain : List RawLog) (cap : RecoveryCapture) (range : HeightRange) (o o' : Ledger) : Prop where
  reachable : Transition.Reachable (next digests) empty w
  truthful : TruthfulNode chain w.ledger.store range.lo range.hi
  force : InForceThroughout scanner w.ledger.store range.lo range.hi
  start : ReplayStart cap range.lo range.hi w.ledger.store
  same : SameStart range.lo o w.ledger
  indexed : Indexed scanner chain range.lo o (range.hi + 1) (range.hi + 1) o'

namespace ComparedRange

variable {digests : Digests} {w : DepositWorld} {scanner : DepositScanner} {chain : List RawLog}
  {cap : RecoveryCapture} {range : HeightRange} {o o' : Ledger}

section

variable (h : ComparedRange digests w scanner chain cap range o o')
include h

theorem facts : IndexedFacts scanner chain range.lo o (range.hi + 1) (range.hi + 1) o' :=
  h.indexed.facts h.same.position

theorem covered (n : Int) (hlow : range.lo ≤ n) (hhigh : n ≤ range.hi) : (canonicalHashAt w.ledger.store n).isSome := by
  rw [← canonicalHashAt_congr h.same.blocks]
  exact h.facts.covered n hlow (by omega)

/-- Without foreign logs every Transfer log of the range has a row that the ordinary path has
stored, and so it has a verdict. -/
theorem logged (hlisted : OnlyListed scanner chain w.ledger.store range.lo range.hi) {x : RawLog} (hx : x ∈ chain)
    (hin : TransferIn range.lo (range.hi + 1) x) :
    ∃ row ∈ o'.store.logs.rows, x.transfer? = some row ∧ ∃ verdict, scanner.matchConfig.parseLog row = .ok verdict := by
  have hrow : ∃ row ∈ o'.store.logs.rows, x.transfer? = some row := by
    rcases hlisted x hx hin with hlisted | ⟨row, hrow, hid⟩
    · exact h.facts.logged x hx hin hlisted
    · refine ⟨row, h.facts.kept row (by rwa [h.same.logs]), ?_⟩
      exact h.truthful.stored_row hx hin hrow (by rw [hid]; rfl) (by rw [hid]; rfl)
  obtain ⟨row, hmem, htransfer⟩ := hrow
  have hnumber := (RawLog.transfer?_eq_some htransfer).2.1
  have hlow := hin.low
  have hhigh := hin.high
  exact ⟨row, hmem, htransfer, h.facts.parsed row hmem (by omega) (by omega)⟩

/-- One range for each stream replays everything. -/
theorem replays (hagrees : ReplayAgrees chain cap range.lo range.hi w.ledger o') :
    ∃ marks l, ReplayedFacts chain cap range.lo range.hi w.ledger marks l ∧
      (∀ u, marks u = range.hi + 1) ∧ SameFacts o' l := by
  obtain ⟨call, l₁, hsubmit, hcommit⟩ := hagrees.commits _ _ .start .log range rfl (le_refl _)
  have hlogs := Replayed.range .log range call .start rfl (le_refl _) hsubmit hcommit
  obtain ⟨call', l₂, hsubmit', hcommit'⟩ := hagrees.commits _ l₁ hlogs .deposit range (by simp) (le_refl _)
  have hdone := Replayed.range .deposit range call' hlogs (by simp) (le_refl _) hsubmit' hcommit'
  have hmarks : ∀ u, Function.update (Function.update (fun _ => range.lo) log (range.hi + 1))
      deposit (range.hi + 1) u = range.hi + 1 := fun u => by cases u <;> simp
  exact ⟨_, l₂, hdone.facts range.ordered h.start, hmarks, hagrees.same _ l₂ hdone hmarks⟩

end

variable {marks : UnitStream → Int} {l : Ledger}

section

variable (h : ComparedRange digests w scanner chain cap range o o')
include h

section

variable (hfacts : ReplayedFacts chain cap range.lo range.hi w.ledger marks l)
include hfacts

/-- The replay stores every Transfer log, so an agreeing one has met listed or stored ones only. -/
theorem onlyListed (hmarks : ∀ u, marks u = range.hi + 1)
    (hsame : SameFacts o' l) : OnlyListed scanner chain w.ledger.store range.lo range.hi := by
  intro x hx hin
  obtain ⟨row, hrow, hid⟩ := hfacts.logged x hx (by rwa [hmarks])
  rcases h.facts.source row ((hsame.logs row).mpr hrow) with hold | ⟨y, hy, -, hylisted, htransfer⟩
  · exact .inr ⟨row, by rwa [← h.same.logs], hid⟩
  · refine .inl ?_
    rwa [h.truthful.row_of_slot hx hy htransfer (by rw [hid]; rfl) (by rw [hid]; rfl)]

/-- The replay appends no creation event, so an agreeing one has met no new deposit. -/
theorem nothingNew (hsame : SameFacts o' l) (hlisted : OnlyListed scanner chain w.ledger.store range.lo range.hi) :
    NothingNew scanner chain w.ledger.store range.lo range.hi := by
  intro x hx hin row htransfer hdeposit
  obtain ⟨row', hrow', htransfer', -⟩ := h.logged hlisted hx hin
  cases htransfer.symm.trans htransfer'
  obtain ⟨hid, hnumber, -⟩ := RawLog.transfer?_eq_some htransfer
  have hlow := hin.low
  have hhigh := hin.high
  obtain ⟨found, hfound, hfoundid⟩ := h.facts.observed row hrow' (by omega) (by omega) hdeposit
  rcases h.facts.created found hfound with hold | ⟨hfresh, e, he, hcreates⟩
  · exact ⟨found, by rwa [← h.same.observations], hfoundid.trans hid⟩
  · simp only [OutboxEvent.creates, and_eq_true, beq_iff_eq] at hcreates
    obtain ⟨hmem, hcreated⟩ := (hsame.events e).mp ⟨he, hcreates.2⟩
    rw [hfacts.round.outbox] at hmem
    obtain ⟨owner, howner, hownerid⟩ := DepositWorld.eventsOwned h.reachable e hmem hcreated
    rw [← h.same.observations] at howner
    exact absurd (hownerid.trans hcreates.1) (hfresh owner howner)

end

/-- Without a new deposit the ordinary path leaves observations and events alone. -/
theorem unchanged (hnothing : NothingNew scanner chain w.ledger.store range.lo range.hi) :
    o'.store.observations = o.store.observations ∧ o'.outbox = o.outbox := by
  refine h.facts.unchanged fun row hrow hlow hhigh hdeposit => ?_
  have hfound : ∃ x ∈ chain, x.transfer? = some row := by
    rcases h.facts.source row hrow with hold | ⟨x, hx, -, -, htransfer⟩
    · have hcanonical := h.facts.clean row hrow hlow hhigh
      rw [canonicalHashAt_congr h.same.blocks] at hcanonical
      exact h.truthful.stored row (by rwa [← h.same.logs]) _ hlow (by omega) hcanonical
    · exact ⟨x, hx, htransfer⟩
  obtain ⟨x, hx, htransfer⟩ := hfound
  obtain ⟨hid, hnumber, htransfers⟩ := RawLog.transfer?_eq_some htransfer
  have hin : TransferIn range.lo (range.hi + 1) x := ⟨htransfers hdeposit.transferSig, by omega, by omega⟩
  obtain ⟨found, hfound, hfoundid⟩ := hnothing x hx hin row htransfer hdeposit
  exact ⟨found, by rwa [h.same.observations], hfoundid.trans hid.symm⟩

section

variable (hlisted : OnlyListed scanner chain w.ledger.store range.lo range.hi)
include hlisted

/-- Without foreign logs no range of the replay is refused. -/
theorem commits
    (hreplayed : Replayed chain cap range.lo range.hi w.ledger marks l) (u : UnitStream) (unit : HeightRange)
    (position : unit.lo = marks u) (inside : unit.hi ≤ range.hi) :
    ∃ call l', replayCall cap u.stream unit (assembly chain l.store u.stream unit) = some call ∧
      call.ledgerBody l = .ok (true, l') := by
  have hfacts := hreplayed.facts range.ordered h.start
  have hbound := (hfacts.round.bounds u).1
  have hassembles : ∀ x ∈ chain, TransferIn unit.lo (unit.hi + 1) x →
      Assembles l.store x.replayLog ∧ ∃ row, x.transfer? = some row := by
    intro x hx hxin
    have hlow := hxin.low
    have hhigh := hxin.high
    have hin : TransferIn range.lo (range.hi + 1) x := ⟨hxin.transfers, by omega, by omega⟩
    obtain ⟨row, -, htransfer, verdict, hverdict⟩ := h.logged hlisted hx hin
    obtain ⟨v, hversion, hconfig⟩ := h.force x.blockNumber (by omega) (by omega)
    refine ⟨fun _ => ⟨v, row, verdict, ?_, htransfer, by rwa [hconfig]⟩, row, htransfer⟩
    rwa [historicalMatch_congr hfacts.round.versions]
  obtain ⟨logs, observations, hanswer⟩ := assembly_ok hassembles u.stream
  have hrows : ∃ n s₁, replayRows u.stream unit.lo unit.hi [] (if u.stream = .log then logs else [])
      (if u.stream = .deposit then observations else []) l.store = .ok (n, s₁) := by
    cases u with
    | log => exact hfacts.log_rows h.truthful position inside hanswer
    | deposit => exact replayRows_deposit_ok hanswer
  obtain ⟨n, s₁, hrows⟩ := hrows
  obtain ⟨s', hrun⟩ := hfacts.round.commits h.covered h.start.linked position inside hrows
  have hcommit : (Call.replayRange true cap u.stream unit.lo unit.hi []
      (if u.stream = .log then logs else []) (if u.stream = .deposit then observations else [])).ledgerBody
        l = .ok (true, ⟨s', l.outbox⟩) := Call.ledgerBody_eq_ok.mpr ⟨hrun, rfl⟩
  exact ⟨_, _, by rw [hanswer]; rfl, hcommit⟩

/-- Without foreign logs both paths leave the same log rows. -/
theorem same_logs
    (hfacts : ReplayedFacts chain cap range.lo range.hi w.ledger marks l) (hmarks : ∀ u, marks u = range.hi + 1)
    (row : TransferLog) : row ∈ o'.store.logs.rows ↔ row ∈ l.store.logs.rows := by
  constructor
  · intro hrow
    rcases h.facts.source row hrow with hold | ⟨x, hx, hin, -, htransfer⟩
    · exact hfacts.kept row (by rwa [← h.same.logs])
    · obtain ⟨found, hmem, hid⟩ := hfacts.logged x hx (by rwa [hmarks])
      have hslot : x.transfer? = some found := by
        rcases hfacts.source found hmem with hold | ⟨y, hy, -, hytransfer⟩
        · exact h.truthful.stored_row hx hin hold (by rw [hid]; rfl) (by rw [hid]; rfl)
        · rwa [h.truthful.row_of_slot hx hy hytransfer (by rw [hid]; rfl) (by rw [hid]; rfl)]
      cases htransfer.symm.trans hslot
      exact hmem
  · intro hrow
    rcases hfacts.source row hrow with hold | ⟨x, hx, hin, htransfer⟩
    · exact h.facts.kept row (by rwa [h.same.logs])
    · obtain ⟨row', hmem, htransfer', -⟩ := h.logged hlisted hx (by rw [hmarks] at hin; exact hin)
      cases htransfer.symm.trans htransfer'
      exact hmem

end

/-- Without a new deposit the replay leaves the observations alone. -/
theorem replay_unchanged (hnothing : NothingNew scanner chain w.ledger.store range.lo range.hi)
    (hfacts : ReplayedFacts chain cap range.lo range.hi w.ledger marks l) :
    l.store.observations = w.ledger.store.observations := by
  refine hfacts.unchanged fun x hx hin found hidentified => ?_
  obtain ⟨-, v, hversion, -, row, htransfer, hmatched⟩ := hidentified
  obtain ⟨v', hversion', hconfig⟩ := h.force x.blockNumber hin.low (by have := hin.high; omega)
  have hsame : v = v' := some.inj (hversion.symm.trans hversion')
  rw [hsame, hconfig] at hmatched
  obtain ⟨hdeposit, -⟩ := DepositMatchConfig.parseLog_matched hmatched
  rw [hdeposit] at hmatched
  obtain ⟨stored, hmem, hid⟩ := hnothing x hx hin row htransfer hmatched
  refine ⟨stored, hmem, hid.trans ?_⟩
  rw [hdeposit]
  exact (RawLog.transfer?_eq_some htransfer).1.symm

end

end ComparedRange

/-- A range that the ordinary path indexed without an error is replayed to the same facts, however
both cut it, exactly when every Transfer log in it is of a listed contract or stored before, and
every deposit in it was observed before. -/
theorem replay_agrees_iff {digests : Digests} {w : DepositWorld} {scanner : DepositScanner}
    {chain : List RawLog} {cap : RecoveryCapture} {range : HeightRange} {o o' : Ledger}
    (h : ComparedRange digests w scanner chain cap range o o') :
    ReplayAgrees chain cap range.lo range.hi w.ledger o' ↔ OnlyListed scanner chain w.ledger.store range.lo range.hi ∧
        NothingNew scanner chain w.ledger.store range.lo range.hi := by
  constructor
  · intro hagrees
    obtain ⟨marks, l, hfacts, hmarks, hsame⟩ := h.replays hagrees
    have hlisted := h.onlyListed hfacts hmarks hsame
    exact ⟨hlisted, h.nothingNew hfacts hsame hlisted⟩
  · rintro ⟨hlisted, hnothing⟩
    obtain ⟨hobservations, hevents⟩ := h.unchanged hnothing
    refine ⟨fun marks l hreplayed => h.commits hlisted hreplayed, fun marks l hreplayed hmarks => ?_⟩
    have hfacts := hreplayed.facts range.ordered h.start
    refine ⟨h.same_logs hlisted hfacts hmarks, fun f => ?_, fun e => ?_⟩
    · rw [hobservations, h.replay_unchanged hnothing hfacts, h.same.observations]
    · rw [hevents, hfacts.round.outbox, h.same.outbox]

namespace Sample

/-! Heights 0 and 1 without logs, and a round that has put block 201 in the place of 101. -/

def scanner : DepositScanner := watcher [⟨10, 0⟩]

def reopened : DepositWorld := worldAfter ([.other (header 0 0 100 99), .other (header 0 1 101 100),
    .other (logUnit 0 ⟨0, 1, Int.one_nonneg⟩ true [(0, 100), (1, 101)] []), .read scanner, .commit 0 true .none] ++
    (establish 1 1 101 :: rewind 1 1 0 100 ++ [replay 1 1 .block 1 1 [⟨1, hash 201, some (hash 100)⟩]]).map .other)

/-- The same rows without the round. -/
def settled : Ledger := ⟨{ reopened.ledger.store with recovery := none }, reopened.ledger.outbox⟩

def height1 : HeightRange := ⟨1, 1, by decide⟩

/-- The transfer in block 201, sent by another contract or to another address. -/
def sent (contract : Address) (recipient : Nat) : RawLog :=
  { rawTransfer 1 201 with address := contract, topics := [transferSig, hash 11, hash recipient] }

/-- The transfer of a token with four topics and no data. -/
def sentToken : RawLog :=
  { rawTransfer 1 201 with address := 20, topics := [transferSig, hash 11, hash 12, hash 1], data := [] }

/-- The ordinary path over height 1: one log range and one deposit unit. -/
def indexHeight (chain : List RawLog) : Option Ledger :=
  match validateLogs scanner.logContracts 1 1 (headers [(1, 201)])
      (filterLogs chain scanner.logContracts 1 1) with
  | .error _ => none
  | .ok rows =>
    match (Call.commitLogRange ⟨scanner.logStartHeight, scanner.upstreamHash⟩ true height1 false
        (headers [(1, 201)]) rows (ordinary 1)).ledgerBody settled with
    | .ok (true, l) =>
      match scanner.read l.store with
      | .error _ => none
      | .ok task =>
        if task.range = height1 then
          match (task.call true).ledgerBody l with
          | .ok (true, l') => some l'
          | _ => none
        else none
    | _ => none

variable {chain : List RawLog} {l' : Ledger} {x : RawLog}

theorem indexHeight_indexed (h : indexHeight chain = some l') : Indexed scanner chain 1 settled 2 2 l' := by
  unfold indexHeight at h
  split at h
  · cases h
  next rows hrows =>
    split at h
    next l hlogs =>
      split at h
      · cases h
      next task hread =>
        split at h
        next hrange =>
          split at h
          next l'' hunit =>
            cases h
            have hdone := Indexed.unit task (.logs height1 false _ rows _ .start rfl hrows hlogs) hread
              (by rw [hrange]) hunit
            rw [hrange] at hdone
            exact hdone
          · cases h
        · cases h
    · cases h

/-- One range of a stream over height 1. -/
def replayHeight (chain : List RawLog) (u : UnitStream) (l : Ledger) : Option Ledger :=
  match replayCall (owned 1 1) u.stream height1 (assembly chain l.store u.stream height1) with
  | none => none
  | some call =>
    match call.ledgerBody l with
    | .ok (true, l') => some l'
    | _ => none

theorem replayHeight_eq_some {u : UnitStream} {l : Ledger} (h : replayHeight chain u l = some l') : ∃ call,
      replayCall (owned 1 1) u.stream height1 (assembly chain l.store u.stream height1) = some call ∧
        call.ledgerBody l = .ok (true, l') := by
  unfold replayHeight at h
  split at h
  · cases h
  next call hcall =>
    split at h
    next found hfound =>
      cases h
      exact ⟨call, hcall, hfound⟩
    · cases h

/-- The replay of height 1 in both streams. -/
def replayBoth (chain : List RawLog) : Option Ledger :=
  (replayHeight chain .log reopened.ledger).bind (replayHeight chain .deposit)

theorem replayBoth_replayed (h : replayBoth chain = some l') :
    ∃ marks, Replayed chain (owned 1 1) 1 1 reopened.ledger marks l' ∧ ∀ u, marks u = 2 := by
  obtain ⟨l, hlog, hdeposit⟩ := bind_eq_some_iff.mp h
  obtain ⟨call, hcall, hcommit⟩ := replayHeight_eq_some hlog
  obtain ⟨call', hcall', hcommit'⟩ := replayHeight_eq_some hdeposit
  have hfirst := Replayed.range .log height1 call .start rfl (le_refl _) hcall hcommit
  have hboth := Replayed.range .deposit height1 call' hfirst (by simp [height1]) (le_refl _) hcall' hcommit'
  exact ⟨_, hboth, fun u => by cases u <;> simp [height1]⟩

theorem replayStart_reopened : ReplayStart (owned 1 1) 1 1 reopened.ledger.store where
  row := by
    have hrow : reopened.ledger.store.recovery.any (fun row =>
        decide (row.recoveryID = ⟨1, 1, 1⟩ ∧ row.seq = 1 ∧ row.phase = .replaying ∧
          row.ancestor = some ⟨0, hash 100⟩ ∧ row.logFrontier = none ∧ row.depositFrontier = none)) = true := by
      decide +kernel
    obtain ⟨row, hactive, hfacts⟩ := (any_eq_true _ _).mp hrow
    obtain ⟨hid, hseq, hphase, hancestor, hlog, hdeposit⟩ := of_decide_eq_true hfacts
    refine ⟨row, ⟨0, hash 100⟩, ⟨hactive, by rw [hid]; rfl, by rw [hseq]; rfl, by simp [hphase]⟩, hancestor,
      by decide +kernel, fun u f hf => ?_⟩
    cases u with
    | log => simp [stream, RecoveryRow.frontier, hlog] at hf
    | deposit => simp [stream, RecoveryRow.frontier, hdeposit] at hf
  progress := by
    intro u
    have hall : ∀ u, (reopened.ledger.store.progress u).any (fun c => c.nextBlock == 1) = true := by
      intro u
      cases u <;> decide +kernel
    obtain ⟨c, hc, hnext⟩ := (any_eq_true _ _).mp (hall u)
    exact ⟨c, hc, by simpa using hnext⟩
  linked := by decide +kernel

theorem truthful_reopened (hnumber : x.blockNumber = 1) (hhash : x.blockHash = hash 201) :
    TruthfulNode [x] reopened.ledger.store 1 1 where
  canonical := by
    intro y hy _ _
    rw [mem_singleton.mp hy, hnumber, hhash]
    decide +kernel
  slots := by
    intro y hy z hz _ _
    rw [mem_singleton.mp hy, mem_singleton.mp hz]
  stored := by
    have hnone : reopened.ledger.store.logs.rows = [] := by decide +kernel
    simp [hnone]

theorem reachable_reopened : Transition.Reachable (next digests) empty reopened := ⟨_, rfl⟩

theorem inForce_reopened : InForceThroughout scanner reopened.ledger.store 1 1 := by
  intro n hlo hhi
  have hone : n = 1 := le_antisymm hhi hlo
  have hversion : historicalMatch reopened.ledger.store 1 = some (scanner.bootstrapVersion 0) := by
    decide +kernel
  refine ⟨scanner.bootstrapVersion 0, hone ▸ hversion, ?_⟩
  have hassets : (scanner.bootstrapVersion 0).assets = scanner.assets := by decide
  have hwatches : (scanner.bootstrapVersion 0).watches = scanner.watches := by decide
  simp only [DepositVersion.matchConfig, DepositConfig.matchConfig, hassets, hwatches]
  rfl

theorem sameStart_settled : SameStart 1 settled reopened.ledger := by
  refine ⟨by simp only [settled], by simp only [settled], by simp only [settled], by simp only [settled],
    fun c hc => ?_⟩
  have hnext : reopened.ledger.store.logCheckpoint.all (fun c => c.nextBlock == 1) = true := by
    decide +kernel
  simp only [settled, mem_def] at hc
  rw [hc] at hnext
  simpa using hnext

/-- One log in block 201: the round and the ordinary path stand before the same height. -/
theorem comparedHeight (hnumber : x.blockNumber = 1) (hhash : x.blockHash = hash 201) {o' : Ledger}
    (h : indexHeight [x] = some o') : ComparedRange digests reopened scanner [x] (owned 1 1) height1 settled o' :=
  ⟨reachable_reopened, truthful_reopened hnumber hhash, inForce_reopened, replayStart_reopened,
    sameStart_settled, indexHeight_indexed h⟩

/-- Both paths over one log, with a test of the ledgers they leave. -/
def bothLeave (x : RawLog) (p : Ledger → Ledger → Bool) : Bool :=
  match indexHeight [x], replayBoth [x] with
  | some o', some l => p o' l
  | _, _ => false

theorem bothLeave_eq_true {p : Ledger → Ledger → Bool} (h : bothLeave x p = true) :
    ∃ o' l, indexHeight [x] = some o' ∧ replayBoth [x] = some l ∧ p o' l = true := by
  unfold bothLeave at h
  split at h
  next o' l hindex hreplay => exact ⟨o', l, hindex, hreplay, h⟩
  · cases h

theorem disagrees_of_facts {o' l : Ledger} (h : replayBoth [x] = some l) (hne : ¬ SameFacts o' l) :
    ¬ ReplayAgrees [x] (owned 1 1) 1 1 reopened.ledger o' := by
  intro hagrees
  obtain ⟨marks, hreplayed, hdone⟩ := replayBoth_replayed h
  exact hne (hagrees.same marks l hreplayed hdone)

end Sample

/-- A transfer of the listed contract to an address nobody watches is replayed as it was indexed. -/
theorem replay_agrees_unwatched : ∃ o',
    ComparedRange digests reopened scanner [sent 10 13] (owned 1 1) height1 settled o' ∧ o'.store.logs.rows.length = 1 ∧
      ReplayAgrees [sent 10 13] (owned 1 1) 1 1 reopened.ledger o' := by
  obtain ⟨o', l, hindex, -, hone⟩ := bothLeave_eq_true (x := sent 10 13)
    (p := fun o' _ => o'.store.logs.rows.length == 1) (by decide +kernel)
  have hcompared := comparedHeight rfl rfl hindex
  refine ⟨o', hcompared, by simpa using hone, (replay_agrees_iff hcompared).mpr ⟨?_, ?_⟩⟩
  · intro x hx _
    rw [mem_singleton.mp hx]
    exact .inl (by decide)
  · intro x hx _ row htransfer hdeposit
    rw [mem_singleton.mp hx] at htransfer
    have hnone : (sent 10 13).transfer?.all
        (fun row => !decide (scanner.matchConfig.Deposits row)) = true := by decide +kernel
    rw [htransfer] at hnone
    simp [hdeposit] at hnone

/-- The log, alone at height 1, is indexed without an error and replayed differently. -/
def Sample.Disagrees (x : RawLog) : Prop :=
  ∃ o', ComparedRange digests reopened scanner [x] (owned 1 1) height1 settled o' ∧
    ¬ ReplayAgrees [x] (owned 1 1) 1 1 reopened.ledger o'

/-- Three logs that the ordinary path indexes without an error. A deposit of the listed contract is
replayed without its creation event. A transfer of a contract outside the whitelist gets a log row
that ordinary indexing never stores. And a token transfer of such a contract, with four topics and
no data, fits no log row, so that the replay is refused. -/
theorem replay_disagrees : Disagrees (sent 10 12) ∧ Disagrees (sent 20 12) ∧ Disagrees sentToken := by
  refine ⟨?_, ?_, ?_⟩
  · obtain ⟨o', l, hindex, hreplay, hevent⟩ := bothLeave_eq_true (x := sent 10 12)
      (p := fun o' l => o'.outbox.rows.any fun e => e.fact == .created && !(l.outbox.rows.contains e))
      (by decide +kernel)
    refine ⟨o', comparedHeight rfl rfl hindex, disagrees_of_facts hreplay fun hsame => ?_⟩
    simp only [List.any_eq_true, Bool.and_eq_true, beq_iff_eq, Bool.not_eq_true',
      contains_eq_mem, decide_eq_false_iff_not] at hevent
    obtain ⟨e, he, hcreated, hmissing⟩ := hevent
    exact hmissing ((hsame.events e).mp ⟨he, hcreated⟩).1
  · obtain ⟨o', l, hindex, hreplay, hlog⟩ := bothLeave_eq_true (x := sent 20 12)
      (p := fun o' l => l.store.logs.rows.any fun row => !(o'.store.logs.rows.contains row))
      (by decide +kernel)
    refine ⟨o', comparedHeight rfl rfl hindex, disagrees_of_facts hreplay fun hsame => ?_⟩
    simp only [List.any_eq_true, Bool.not_eq_true', List.contains_eq_mem, decide_eq_false_iff_not] at hlog
    obtain ⟨row, hrow, hmissing⟩ := hlog
    exact hmissing ((hsame.logs row).mpr hrow)
  · have hindexed : (indexHeight [sentToken]).isSome = true := by decide +kernel
    obtain ⟨o', hindex⟩ := isSome_iff_exists.mp hindexed
    refine ⟨o', comparedHeight rfl rfl hindex, fun hagrees => ?_⟩
    obtain ⟨call, l', hcall, -⟩ := hagrees.commits _ _ .start .log height1 rfl (le_refl _)
    have hrefused : (replayCall (owned 1 1) .log height1
        (assembly [sentToken] reopened.ledger.store .log height1)).isNone = true := by
      decide +kernel
    have hcall : replayCall (owned 1 1) .log height1
        (assembly [sentToken] reopened.ledger.store .log height1) = some call := hcall
    simp [hcall] at hrefused

end TxHarbor.Indexer
