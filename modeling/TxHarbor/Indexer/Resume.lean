import TxHarbor.Indexer.Committed
import TxHarbor.Indexer.Executor

open Relational Tx List Option

namespace TxHarbor.Indexer

open Client Call RecoveryExecutor Sample

/-! Where a process that was stopped inside `tickInvalidate` picks up again. -/

/-- The transactions that replay: a range, a re-canonicalization, a revival. -/
def Call.isReplay : Call → Bool
  | .replayRange .. => true
  | .recanonicalize .. => true
  | .revive .. => true
  | _ => false

/-- A call `tickReplay` can submit. -/
def Call.ofTickReplay (c : Call) : Prop := c.isReplay = true ∨ ∃ held cap, c = .signalReconcile held cap

theorem signal_issues (cap : RecoveryCapture) : (signal cap).Issues ofTickReplay :=
  (issues_call (.inr ⟨true, cap, rfl⟩)).bind fun _ => trivial

theorem recanonicalizeHeight_issues (cap : RecoveryCapture) (height : Int) (oldHash : Hash) :
    (recanonicalizeHeight cap height oldHash).Issues ofTickReplay := by
  apply (issues_call (.inl rfl)).bind
  refine fun _ => issues_get_bind fun s => issues_inOrder fun c hc => ?_
  obtain ⟨id, -, rfl⟩ := mem_map.mp hc
  exact .inl rfl

theorem triageRow_issues (parent : Option Hash) (cap : RecoveryCapture) (height : Int)
    (chainHash : Hash) (stored : Option (Option Hash × Bool)) :
    (triageRow parent cap height chainHash stored).Issues ofTickReplay := by
  unfold triageRow
  split
  · split
    · trivial
    · exact (signal_issues cap).bind fun _ => trivial
  · split
    · exact (recanonicalizeHeight_issues cap height chainHash).bind fun _ => trivial
    · trivial
  · trivial

theorem triageHeights_issues (view : NodeView) (cap : RecoveryCapture) (stream : RecoveryStream)
    (heights : List Int) : (triageHeights view cap stream heights).Issues ofTickReplay := by
  induction heights with
  | nil => trivial
  | cons height rest ih =>
    have hheight : (triageHeight view cap stream height).Issues ofTickReplay := by
      unfold triageHeight
      split
      · trivial
      · exact issues_get_bind fun s => triageRow_issues _ cap height _ _
    apply hheight.bind
    intro triage
    cases triage with
    | leave => trivial
    | settled => exact ih
    | header b => exact ih.bind fun _ => trivial

section

variable (e : RecoveryExecutor) (view : NodeView) (row : RecoveryRow)
include e view row

theorem replayFrom_issues (stream : RecoveryStream)
    (liveTip resume : Int) : (replayFrom e view row stream liveTip resume).Issues ofTickReplay := by
  unfold replayFrom
  split
  · apply (triageHeights_issues view row.capture stream _).bind
    intro blocks
    cases blocks with
    | none => trivial
    | some blocks =>
      cases view.assembled stream with
      | hold | failed => trivial
      | rows logs observations => exact (issues_call (.inl rfl)).bind fun _ => trivial
  · trivial

theorem replayStream_issues (stream : RecoveryStream)
    (liveTip : Int) : (replayStream e view row stream liveTip).Issues ofTickReplay := by
  apply issues_get_bind
  intro s
  have hmissing : (replayMissing e view row stream liveTip).Issues ofTickReplay := by
    unfold replayMissing
    split
    · split
      · exact signal_issues row.capture
      · exact replayFrom_issues e view row stream liveTip _
    · trivial
  cases streamResumeFrom s stream with
  | some resume => exact replayFrom_issues e view row stream liveTip resume
  | none => exact hmissing

theorem tickReplay_issues : (tickReplay e view row).Issues ofTickReplay := by
  apply issues_get_bind
  intro s
  generalize [RecoveryStream.block, .log, .deposit] = streams
  induction streams generalizing row with
  | nil => trivial
  | cons stream rest ih =>
    apply (replayStream_issues e view row stream _).bind
    refine fun _ => issues_get_bind fun t => ?_
    split
    · trivial
    · split
      · exact ih _
      · trivial

end

/-- The header checkpoint at its rollback floor. A scan that started above it has no row. -/
def BlockCheckpoint.AtFloor (ancestor : Int) (c : BlockCheckpoint) : Prop :=
  c.startHeight ≤ ancestor + 1 ∧ c.height = ancestor

/-- A watermark at its rollback floor. -/
def StreamCheckpoint.AtFloor (ancestor : Int) (c : StreamCheckpoint) : Prop :=
  c.nextBlock = max (ancestor + 1) c.startBlock

/-- What a whole invalidation pass leaves: no pending or confirmed observation above the ancestor
is on a block that is no longer canonical, and every progress row is at its floor. -/
structure Swept (ancestor : Int) (s : Store) : Prop where
  observations : countStaleEffective s ancestor = 0
  block : ∀ c ∈ s.checkpoint, c.AtFloor ancestor
  units : ∀ u, ∀ c ∈ s.progress u, c.AtFloor ancestor

/-- The place of a stream's rollback in the invalidation pass. -/
def UnitStream.place : UnitStream → Nat
  | .log => 4
  | .deposit => 5

/-- The transactions after the first `k` of the pass have nothing to do in `s`. -/
structure NothingAfter (k : Nat) (ancestor : Int) (s : Store) : Prop where
  observations : k < 2 → countStaleEffective { s with blocks := sweptBlocks s ancestor } ancestor = 0
  block : k < 3 → ∀ c ∈ s.checkpoint, c.AtFloor ancestor
  units : ∀ u, k < u.place → ∀ c ∈ s.progress u, c.AtFloor ancestor

/-- The store after the first `k` transactions of the pass of a round. -/
structure AfterFirst (k : Nat) (row : RecoveryRow) (a : Ancestor) (s t : Store) : Prop where
  recovery : t.recovery = some (row.inPhase .invalidated)
  blocks : t.blocks = sweptBlocks s a.number
  observations : t.observations =
    if k < 2 then s.observations else orphanedObservations s a.number row.recoveryID
  block : if k < 3 then t.checkpoint = s.checkpoint else ∀ c ∈ t.checkpoint, c.AtFloor a.number
  units : ∀ u, if k < u.place then t.progress u = s.progress u
    else ∀ c ∈ t.progress u, c.AtFloor a.number

theorem countStaleEffective_orphaned (s : Store) (ancestor : Int) (id : RecoveryID) (t : Store)
    (h : t.observations = orphanedObservations s ancestor id) : countStaleEffective t ancestor = 0 := by
  unfold countStaleEffective Table.affected
  rw [countP_eq_zero, h, orphanedObservations_rows]
  intro o ho
  obtain ⟨p, -, rfl⟩ := mem_map.mp ho
  by_cases heffective : p.effectiveFrom (ancestor + 1) = true
  · simp [heffective, DepositObservation.orphan, ObservationStatus.effective]
  · rw [if_neg heffective]
    simp only [DepositObservation.effectiveFrom, Bool.and_eq_true, decide_eq_true_eq] at heffective
    simp only [Bool.and_eq_true, decide_eq_true_eq]
    exact fun h => heffective ⟨h.1.1, h.1.2⟩

theorem AfterFirst.swept_iff {k : Nat} {row : RecoveryRow} {a : Ancestor} {s t : Store}
    (h : AfterFirst k row a s t) : Swept a.number t ↔ NothingAfter k a.number s := by
  have hobservations : countStaleEffective t a.number = 0 ↔
      (k < 2 → countStaleEffective { s with blocks := sweptBlocks s a.number } a.number = 0) := by
    have hobs := h.observations
    by_cases hk : k < 2
    · rw [if_pos hk] at hobs
      have hsame : countStaleEffective t a.number =
          countStaleEffective { s with blocks := sweptBlocks s a.number } a.number := by
        simp only [countStaleEffective, canonicalBlock, hobs, h.blocks]
      rw [hsame]
      exact ⟨fun h _ => h, fun h => h hk⟩
    · rw [if_neg hk] at hobs
      exact ⟨fun _ hk' => absurd hk' hk, fun _ => countStaleEffective_orphaned s _ _ t hobs⟩
  have hblock : (∀ c ∈ t.checkpoint, c.AtFloor a.number) ↔ (k < 3 → ∀ c ∈ s.checkpoint, c.AtFloor a.number) := by
    have hcheckpoint := h.block
    by_cases hk : k < 3
    · rw [if_pos hk] at hcheckpoint
      rw [hcheckpoint]
      exact ⟨fun h _ => h, fun h => h hk⟩
    · rw [if_neg hk] at hcheckpoint
      exact ⟨fun _ hk' => absurd hk' hk, fun _ => hcheckpoint⟩
  have hunits : ∀ u, (∀ c ∈ t.progress u, c.AtFloor a.number) ↔
      (k < u.place → ∀ c ∈ s.progress u, c.AtFloor a.number) := by
    intro u
    have hprogress := h.units u
    by_cases hk : k < u.place
    · rw [if_pos hk] at hprogress
      rw [hprogress]
      exact ⟨fun h _ => h, fun h => h hk⟩
    · rw [if_neg hk] at hprogress
      exact ⟨fun _ hk' => absurd hk' hk, fun _ => hprogress⟩
  constructor
  · intro hswept
    exact ⟨hobservations.mp hswept.observations, hblock.mp hswept.block, fun u => (hunits u).mp (hswept.units u)⟩
  · intro hnothing
    exact ⟨hobservations.mpr hnothing.observations, hblock.mpr hnothing.block,
      fun u => (hunits u).mpr (hnothing.units u)⟩

section Pass

variable {row : RecoveryRow} {a : Ancestor} {s t t' : Store} {commits : Bool}

theorem afterFirst_one (hactive : s.recovery = some row) (hancestor : row.ancestor = some a)
    (h : (invalidateBlocks true row.capture).body s = .ok (commits, t')) :
    AfterFirst 1 row a s (if commits then t' else s) := by
  obtain ⟨rfl, result, hbody⟩ := committing_eq_ok h
  obtain ⟨row', a', events, hgate, ha, -, rfl⟩ := invalidateRecoveryBlocks_spec hbody
  rw [hgate.active, some.injEq] at hactive
  subst hactive
  rw [hancestor, some.injEq] at ha
  subst ha
  exact ⟨rfl, rfl, rfl, rfl, fun u => by cases u <;> rfl⟩

variable {k : Nat} {u : UnitStream}

/-- The row a later transaction of the pass finds under its gate. -/
theorem AfterFirst.gate_row {row' : RecoveryRow} {a' : Ancestor} {cap : RecoveryCapture}
    {allowed : List RecoveryPhase} (ht : AfterFirst k row a s t) (hancestor : row.ancestor = some a)
    (hgate : OwnedGate cap allowed t row') (ha : row'.ancestor = some a') :
    row' = row.inPhase .invalidated ∧ a = a' := by
  have hrow : row' = row.inPhase .invalidated := some.inj (hgate.active.symm.trans ht.recovery)
  subst hrow
  exact ⟨rfl, some.inj (hancestor.symm.trans ha)⟩

section

variable (hancestor : row.ancestor = some a)
include hancestor

theorem AfterFirst.two (ht : AfterFirst 1 row a s t)
    (h : (invalidateObservations true row.capture).body t = .ok (commits, t')) :
    AfterFirst 2 row a s (if commits then t' else t) := by
  obtain ⟨rfl, result, hbody⟩ := committing_eq_ok h
  obtain ⟨row', a', transitions, added, events, hgate, ha, -, -, -, rfl⟩ := invalidateRecoveryObservations_spec hbody
  obtain ⟨rfl, rfl⟩ := ht.gate_row hancestor hgate ha
  refine ⟨ht.recovery, ht.blocks, ?_, ht.block, fun u => ?_⟩
  · apply Table.ext
    change (orphanedObservations t a.number row.recoveryID).rows = _
    rw [orphanedObservations_rows, ht.observations]
    rfl
  · have hu := ht.units u
    cases u <;> exact hu

theorem AfterFirst.three (ht : AfterFirst 2 row a s t)
    (h : (rollback true row.capture .block).body t = .ok (commits, t')) :
    AfterFirst 3 row a s (if commits then t' else t) := by
  simp only [body, eq_ok] at h
  obtain ⟨result, t₁, hbody, rfl, rfl⟩ := h
  obtain ⟨row', a', hgate, ha, hrolled⟩ := rollbackRecoveryCheckpoint_block_spec hbody
  obtain ⟨rfl, rfl⟩ := ht.gate_row hancestor hgate ha
  have hunits : ∀ u, if 3 < UnitStream.place u then t.progress u = s.progress u
      else ∀ c ∈ t.progress u, c.AtFloor a.number := fun u => by
    have hu := ht.units u
    cases u <;> exact hu
  rcases hrolled with ⟨hnone, hcommits, rfl⟩ | ⟨hcommits, c, checkpoint, events, -, -, rfl, hfloor⟩
  · rw [ite_self]
    refine ⟨ht.recovery, ht.blocks, ht.observations, fun c hc => ?_, hunits⟩
    cases hnone.symm.trans hc
  · rw [hcommits]
    refine ⟨ht.recovery, ht.blocks, ht.observations, fun c' hc' => ?_, fun u => ?_⟩
    · rcases hfloor with ⟨-, rfl⟩ | ⟨hstart, hash, -, rfl⟩
      · cases hc'
      · cases hc'
        exact ⟨hstart, rfl⟩
    · have hu := hunits u
      cases u <;> exact hu

/-- The store after the rollback of a watermark stream: only that stream's row has moved. -/
structure RolledBack (u : UnitStream) (a : Ancestor) (t t' : Store) : Prop where
  recovery : t'.recovery = t.recovery
  blocks : t'.blocks = t.blocks
  observations : t'.observations = t.observations
  checkpoint : t'.checkpoint = t.checkpoint
  others : ∀ v, v ≠ u → t'.progress v = t.progress v
  floor : ∀ c ∈ t'.progress u, c.AtFloor a.number

theorem AfterFirst.rolledBack (ht : AfterFirst k row a s t)
    (h : (rollback true row.capture u.stream).body t = .ok (commits, t')) :
    RolledBack u a t (if commits then t' else t) := by
  simp only [body, eq_ok] at h
  obtain ⟨result, t₁, hbody, rfl, rfl⟩ := h
  obtain ⟨row', a', hgate, ha, hrolled⟩ := rollbackRecoveryCheckpoint_unit_spec hbody
  obtain ⟨rfl, rfl⟩ := ht.gate_row hancestor hgate ha
  rcases hrolled with ⟨hnone, hcommits, rfl⟩ | ⟨hcommits, c, events, -, -, rfl⟩
  · rw [ite_self]
    refine ⟨rfl, rfl, rfl, rfl, fun _ _ => rfl, fun c hc => ?_⟩
    cases hnone.symm.trans hc
  · rw [hcommits]
    cases u <;> refine ⟨rfl, rfl, rfl, rfl, fun v hv => ?_, fun c' hc' => by cases hc'; rfl⟩
    all_goals cases v <;> first | rfl | exact absurd rfl hv

end

theorem AfterFirst.unit (hk : 3 ≤ k) (hplace : u.place = k + 1) (hancestor : row.ancestor = some a)
    (ht : AfterFirst k row a s t) (h : (rollback true row.capture u.stream).body t = .ok (commits, t')) :
    AfterFirst (k + 1) row a s (if commits then t' else t) := by
  have hrolled := ht.rolledBack hancestor h
  generalize (if commits then t' else t) = t'' at hrolled ⊢
  have hobservations := ht.observations
  have hblock := ht.block
  rw [if_neg (by omega)] at hobservations hblock
  refine ⟨hrolled.recovery.trans ht.recovery, hrolled.blocks.trans ht.blocks, ?_, ?_, fun v => ?_⟩
  · rw [if_neg (by omega), hrolled.observations, hobservations]
  · rwa [if_neg (by omega), hrolled.checkpoint]
  · by_cases hv : v = u
    · subst hv
      rw [if_neg (by omega)]
      exact hrolled.floor
    · -- the other stream stays on its side: its place is not `k + 1`
      have hprogress := ht.units v
      have hiff : k + 1 < v.place ↔ k < v.place := by
        cases u <;> cases v <;> simp_all [UnitStream.place]
      rw [hrolled.others v hv]
      simp only [hiff]
      exact hprogress

/-- The first transactions of a pass, up to wherever it is stopped. -/
theorem performed_afterFirst (hk : 1 ≤ k) (hk' : k ≤ 5) (hactive : s.recovery = some row)
    (hancestor : row.ancestor = some a) (h : Client.Performed body ((invalidatePass row.capture).take k) s t) :
    AfterFirst k row a s t := by
  obtain ⟨k, rfl⟩ : ∃ j, k = j + 1 := ⟨k - 1, by omega⟩
  obtain ⟨c₁, t₁, h₁, h⟩ := h
  have hone := afterFirst_one hactive hancestor h₁
  obtain _ | k := k
  · exact h ▸ hone
  obtain ⟨c₂, t₂, h₂, h⟩ := h
  have htwo := hone.two hancestor h₂
  obtain _ | k := k
  · exact h ▸ htwo
  obtain ⟨c₃, t₃, h₃, h⟩ := h
  have hthree := htwo.three hancestor h₃
  obtain _ | k := k
  · exact h ▸ hthree
  obtain ⟨c₄, t₄, h₄, h⟩ := h
  have hfour := hthree.unit (u := .log) (by omega) rfl hancestor h₄
  obtain _ | k := k
  · exact h ▸ hfour
  obtain ⟨c₅, t₅, h₅, h⟩ := h
  have hfive := hfour.unit (u := .deposit) (by omega) rfl hancestor h₅
  obtain _ | k := k
  · exact h ▸ hfive
  omega

end Pass

/-- A replay transaction that commits. -/
def ReplayCommits (d : Client.Entry Store Call) : Prop :=
  d.call.isReplay = true ∧ d.call.body d.before = .ok (true, d.after)

/-- The loop has changed nothing since `s₁`, except that it may have given the round up. -/
def UntouchedSince (s₁ s : Store) : Prop := s = s₁ ∨ ∃ row, s.recovery = some row ∧ row.phase = .reconcileRequired

variable {s s' s₁ : Store} {row : RecoveryRow}

theorem Committed.replay_phase {call : Call} (h : Committed s call s') (hreplay : call.isReplay = true) :
    ∃ row, s.recovery = some row ∧ row.phase ∈ [RecoveryPhase.invalidated, .replaying] := by
  cases h with
  | replayed row _ _ _ _ gate
  | recanonicalized row _ _ gate | revived row _ _ _ gate => exact ⟨row, gate.active, gate.phase⟩
  | audited note =>
    obtain ⟨_, _, rfl⟩ | ⟨_, _, _, rfl⟩ := note <;> cases hreplay
  | released release =>
    obtain ⟨_, _, rfl⟩ | ⟨_, _, _, rfl⟩ := release <;> cases hreplay
  | _ => cases hreplay

theorem UntouchedSince.step {c : Call} (hc : c.ofTickReplay) (hbody : c.body s = .ok (true, s'))
    (hnot : ¬ ReplayCommits ⟨s, c, s'⟩) : UntouchedSince s₁ s' := by
  rcases hc with hreplay | ⟨held, cap, rfl⟩
  · exact absurd ⟨hreplay, hbody⟩ hnot
  · cases body_committed hbody with
    | signalled row events gate logged => exact .inr ⟨row.inPhase .reconcileRequired, rfl, rfl⟩
    | audited note => obtain ⟨_, _, hcall⟩ | ⟨_, _, _, hcall⟩ := note <;> cases hcall
    | released release => obtain ⟨_, _, hcall⟩ | ⟨_, _, _, hcall⟩ := release <;> cases hcall

theorem UntouchedSince.dispatch_issues (h : UntouchedSince s₁ s) (hactive : s₁.recovery = some row)
    (hphase : row.phase = .invalidated) (e : RecoveryExecutor) (view : NodeView) :
    (dispatch e view s.recovery).Issues ofTickReplay := by
  rcases h with rfl | ⟨held, hheld, hreconcile⟩
  · simp only [hactive, dispatch, hphase]
    exact tickReplay_issues e view row
  · simp only [hheld, dispatch, hreconcile]
    trivial

/-- Up to its first replay transaction, the resumed loop leaves the store as it found it. -/
theorem submitted_untouched {e : RecoveryExecutor} (hactive : s₁.recovery = some row)
    (hphase : row.phase = .invalidated) (hs : UntouchedSince s₁ s) {resumed : List Iteration}
    {front back : List (Client.Entry Store Call)} {d : Client.Entry Store Call}
    (hlog : e.submitted s resumed = front ++ d :: back) (hfront : ∀ d' ∈ front, ¬ ReplayCommits d') :
    UntouchedSince s₁ d.before := by
  induction resumed generalizing s front with
  | nil => simp [submitted] at hlog
  | cons it rest ih =>
    obtain ⟨hbefore, hafter⟩ := run_until body (B := ReplayCommits)
      (I := UntouchedSince s₁) (fun c s s' hc _ hbody hnot => UntouchedSince.step hc hbody hnot)
      (hs.dispatch_issues hactive hphase e it.view) hs it.script
    -- the entry is either in this iteration's part of the log or in the rest of it
    rcases append_eq_append_iff.mp hlog with ⟨front', rfl, hrest⟩ | ⟨back', hhere, hrest⟩
    · exact ih (hafter fun d' hd' => hfront d' (mem_append_left _ hd')) hrest
        fun d' hd' => hfront d' (mem_append_right _ hd')
    · cases back' with
      | nil =>
        rw [append_nil] at hhere
        have hstart : e.submitted (e.serve s it) rest = [] ++ d :: back := hrest.symm
        exact ih (hafter (hhere ▸ hfront)) hstart fun d' hd' => by cases hd'
      | cons d' back' =>
        obtain ⟨rfl, -⟩ := List.cons.inj hrest
        exact hbefore front d back' hhere hfront

/-- Stopping `tickInvalidate` anywhere and restarting the loop. The pass has performed its first
`k` transactions, and if that is any, the resumed loop replays on a swept store exactly when the
remaining ones had nothing to do. -/
theorem resumed_replay_swept_iff (e : RecoveryExecutor) {s : Store} {row : RecoveryRow} {a : Ancestor}
    (hactive : s.recovery = some row) (hphase : row.phase = .ancestorConfirmed)
    (hancestor : row.ancestor = some a) (interrupted : Iteration) :
    ∃ k ≤ 5, Client.Performed Call.body ((invalidatePass row.capture).take k) s (e.serve s interrupted) ∧
      (1 ≤ k → ∀ resumed front d back, e.submitted (e.serve s interrupted) resumed = front ++ d :: back →
        (∀ d' ∈ front, ¬ ReplayCommits d') → ReplayCommits d →
        (Swept a.number d.before ↔ NothingAfter k a.number s)) := by
  have hserve : e.serve s interrupted = ((tickInvalidate row.capture).run body interrupted.script s).1 := by
    change ((dispatch e interrupted.view s.recovery).run body interrupted.script s).1 = _
    simp only [hactive, dispatch, hphase]
  obtain ⟨k, hk, hperformed⟩ := inOrder_performed body (invalidatePass row.capture) interrupted.script s
  rw [hserve]
  refine ⟨k, hk, hperformed, fun hpos resumed front d back hlog hfront hcommits => ?_⟩
  have hfirst := performed_afterFirst hpos hk hactive hancestor hperformed
  obtain ⟨row', hrow', hreplaying⟩ := (body_committed hcommits.2).replay_phase hcommits.1
  rcases submitted_untouched hfirst.recovery rfl (.inl rfl) hlog hfront with hsame | ⟨held, hheld, hreconcile⟩
  · rw [hsame]
    exact hfirst.swept_iff
  · -- a round that has been given up replays nothing
    rw [hheld, some.injEq] at hrow'
    subst hrow'
    simp [hreconcile] at hreplaying

namespace Sample

/-- The first fork has lost height 1, and the ancestor at height 0 is confirmed. -/
def confirmed : Store := Transition.run Store.next .empty
    (firstFork ++ [establish 1 1 101, does (.confirmAncestor true (owned 1 1) ⟨0, hash 100⟩)])

end Sample

/-- A pass that is not stopped performs all five transactions. -/
theorem resumed_replay_swept_iff_whole : ∃ row, confirmed.recovery = some row ∧ ∃ k ≤ 5,
      Client.Performed Call.body ((invalidatePass row.capture).take k) confirmed
        (executor.serve confirmed (iteration [] 5)) ∧
      (1 ≤ k → ∀ resumed front d back, executor.submitted
          (executor.serve confirmed (iteration [] 5)) resumed = front ++ d :: back →
        (∀ d' ∈ front, ¬ ReplayCommits d') → ReplayCommits d →
        (Swept 0 d.before ↔ NothingAfter k 0 confirmed)) := by
  cases hrow : confirmed.recovery with
  | none =>
    have hsome : confirmed.recovery.isSome = true := by decide +kernel
    simp [hrow] at hsome
  | some row =>
    have hfacts : confirmed.recovery.map (fun row => (row.phase, row.ancestor)) =
        some (.ancestorConfirmed, some ⟨0, hash 100⟩) := by decide +kernel
    rw [hrow] at hfacts
    simp only [map_some, some.injEq, Prod.mk.injEq] at hfacts
    exact ⟨row, rfl, resumed_replay_swept_iff executor hrow hfacts.1 hfacts.2 (iteration [] 5)⟩

/-- Stopped after the header rollback, the restarted loop replays height 1 while the log watermark
still points past it. -/
theorem resumed_replay_unswept : ∃ d back, executor.submitted (executor.serve confirmed (iteration [] 3))
        [iteration [(1, 201, 100)] 1] = d :: back ∧
      ReplayCommits d ∧ ¬ Swept 0 d.before := by
  have hfacts : ((executor.submitted (executor.serve confirmed (iteration [] 3))
      [iteration [(1, 201, 100)] 1]).head?.map fun d =>
        (d.call.isReplay, decide (d.before.recoveryEvents.rows.length = d.after.recoveryEvents.rows.length),
          d.before.logCheckpoint.map fun c => (c.startBlock, c.nextBlock))) =
      some (true, false, some (0, 2)) := by decide +kernel
  cases hlog : executor.submitted (executor.serve confirmed (iteration [] 3)) [iteration [(1, 201, 100)] 1] with
  | nil =>
    rw [hlog] at hfacts
    cases hfacts
  | cons d back =>
    rw [hlog] at hfacts
    simp only [head?_cons, map_some, some.injEq, Prod.mk.injEq, decide_eq_false_iff_not] at hfacts
    obtain ⟨hreplay, hchanged, hlogs⟩ := hfacts
    refine ⟨d, back, rfl, ⟨hreplay, ?_⟩, fun hswept => ?_⟩
    · have hmem : d ∈ ((serveTick executor (node [(1, 201, 100)])).run body
          [.none] (executor.serve confirmed (iteration [] 3))).2 := by
        have hin : d ∈ d :: back := by simp
        rw [← hlog, submitted, submitted, append_nil] at hin
        exact hin
      rcases run_entry body hmem with hsame | hbody
      · exact absurd (by rw [hsame]) hchanged
      · exact hbody
    · cases hc : d.before.logCheckpoint with
      | none =>
        rw [hc] at hlogs
        cases hlogs
      | some c =>
        have hfloor : c.nextBlock = max (0 + 1) c.startBlock := hswept.units .log c hc
        rw [hc] at hlogs
        simp only [map_some, some.injEq, Prod.mk.injEq] at hlogs
        omega

end TxHarbor.Indexer
