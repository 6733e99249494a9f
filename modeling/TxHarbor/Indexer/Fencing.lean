import TxHarbor.Indexer.Committed

open Relational Transition Option

namespace TxHarbor.Indexer

/-! The recovery version. `captureRecoveryVersion` reads the active row's version, or the largest
version of the event history when no row is active. The history is append-only, so the version of
a finished round outlives its row. -/

variable {row : RecoveryRow} {s s' : Store}

theorem Logged.eventsMax (h : Logged row s.recoveryEvents s'.recoveryEvents) :
    recoveryEventsMax s' = max (recoveryEventsMax s) row.seq := by
  obtain ⟨e, hrows, hseq⟩ := h
  simp only [recoveryEventsMax, hrows, List.foldl_append, List.foldl_cons, List.foldl_nil, hseq]

/-- What a step can do to the recovery row and the version history. -/
inductive VersionStep (s s' : Store) : Prop where
  | quiet (row : s'.recovery = s.recovery) (version : recoveryEventsMax s' = recoveryEventsMax s)
  | opened (row : RecoveryRow) (idle : s.recovery = none) (active : s'.recovery = some row)
      (fresh : row.seq = recoveryEventsMax s + 1)
      (version : recoveryEventsMax s' = max (recoveryEventsMax s) row.seq)
  | audited (row : RecoveryRow) (active : s.recovery = some row)
      (round : ∀ row', s'.recovery = some row' → row'.seq = row.seq)
      (version : recoveryEventsMax s' = max (recoveryEventsMax s) row.seq)

theorem VersionStep.kept (active : s.recovery = some row) (same : s'.recovery = s.recovery)
    (logged : Logged row s.recoveryEvents s'.recoveryEvents) : VersionStep s s' := by
  refine .audited row active (fun row' hrow' => ?_) logged.eventsMax
  rw [same, active, some.injEq] at hrow'
  rw [hrow']

theorem VersionStep.moved {row' : RecoveryRow} (active : s.recovery = some row) (moved : s'.recovery = some row')
    (round : row'.seq = row.seq) (logged : Logged row s.recoveryEvents s'.recoveryEvents) : VersionStep s s' := by
  refine .audited row active (fun row'' hrow'' => ?_) logged.eventsMax
  rw [moved, some.injEq] at hrow''
  rw [← hrow'', round]

theorem Committed.versions {call : Call} (h : Committed s call s') : VersionStep s s' := by
  cases h with
  | header | logs | deposits | confirmation => exact .quiet rfl rfl
  | established idle policies row events version phase logged =>
    exact .opened row idle rfl version logged.eventsMax
  | ancestorConfirmed row confirmed events gate canonical change logged =>
    exact .moved gate.active rfl (RecoveryRow.confirmAncestor?_eq_some change).1 logged
  | blocksInvalidated row a events gate ancestor logged =>
    exact .moved gate.active rfl rfl logged
  | observationsInvalidated row a transitions added events gate _ _ _ logged =>
    exact .kept gate.active rfl logged
  | blockRolledBack row a c checkpoint events gate _ _ _ logged => exact .kept gate.active rfl logged
  | unitRolledBack stream row a c events gate _ _ logged =>
    cases stream <;> exact .kept gate.active rfl logged
  | replayed row row' events s₁ s₂ gate _ _ _ _ round _ logged =>
    exact .moved gate.active rfl round.seq logged
  | recanonicalized row blocks events gate _ _ logged
  | revived row o transitions events gate _ _ logged => exact .kept gate.active rfl logged
  | signalled row events gate logged => exact .moved gate.active rfl rfl logged
  | audited _ row events active logged => exact .kept active rfl logged
  | released _ row sweptTo events active _ _ logged =>
    exact .audited row active (fun row' hrow' => by cases hrow') logged.eventsMax

theorem Store.next_versions (s : Store) (a : Action) : VersionStep s (s.next a) := by
  cases a with
  | operate rows => exact .quiet rfl rfl
  | submit call fault =>
    rcases s.submit_cases call fault with hsame | hcommitted
    · rw [hsame]
      exact .quiet rfl rfl
    · exact hcommitted.versions

/-- The history knows the version of the active round. -/
theorem VersionStep.seq_le (h : VersionStep s s') (hs : ∀ row, s.recovery = some row → row.seq ≤ recoveryEventsMax s) :
    ∀ row, s'.recovery = some row → row.seq ≤ recoveryEventsMax s' := by
  intro row hrow
  cases h with
  | quiet same version =>
    rw [version]
    exact hs row (same ▸ hrow)
  | opened row' _ active _ version =>
    rw [active, some.injEq] at hrow
    subst hrow
    omega
  | audited row' _ round version =>
    have hseq := round row hrow
    omega

theorem Store.Reachable.seq_le (hs : s.Reachable) : ∀ row, s.recovery = some row → row.seq ≤ recoveryEventsMax s :=
  hs.invariant (I := fun s => ∀ row, s.recovery = some row → row.seq ≤ recoveryEventsMax s)
    (by intro row hrow; cases hrow) (fun s a h => (s.next_versions a).seq_le h)

theorem VersionStep.version_le (h : VersionStep s s') : recoveryEventsMax s ≤ recoveryEventsMax s' := by
  cases h with
  | quiet _ version => omega
  | opened _ _ _ _ version => omega
  | audited _ _ _ version => omega

/-- The action opens a recovery round. -/
def Establishes (s : Store) (a : Action) : Prop := s.recovery = none ∧ (s.next a).recovery ≠ none

theorem Establishes.version_lt {a : Action} (h : Establishes s a) :
    recoveryEventsMax s < recoveryEventsMax (s.next a) := by
  obtain ⟨hidle, hactive⟩ := h
  cases s.next_versions a with
  | quiet same _ =>
    rw [same] at hactive
    exact absurd hidle hactive
  | opened _ _ _ fresh version => omega
  | audited _ active _ _ =>
    rw [hidle] at active
    cases active

/-- What a batch captures is never ahead of the history. -/
theorem capture_le (hs : s.Reachable) : (captureRecoveryVersion s).1.seq ≤ recoveryEventsMax s := by
  unfold captureRecoveryVersion
  split
  · next row hrow => exact hs.seq_le row hrow
  · exact le_refl _

/-- The capture an ordinary batch carries into its commit transaction. -/
def Call.ordinaryCapture : Call → Option RecoveryCapture
  | .commitBlock _ _ _ cap => some cap
  | .commitLogRange _ _ _ _ _ _ cap => some cap
  | .commitDepositUnit _ _ _ _ _ _ cap => some cap
  | .confirmDepositUnit _ _ _ cap => some cap
  | _ => none

theorem Committed.ordinaryGate {call : Call} {cap : RecoveryCapture} (h : Committed s call s')
    (hcall : call.ordinaryCapture = some cap) : OrdinaryGate cap s := by
  cases h with
  | header gate | logs gate | deposits gate | confirmation gate =>
    cases hcall
    exact gate
  | audited note =>
    obtain ⟨_, _, rfl⟩ | ⟨_, _, _, rfl⟩ := note <;> cases hcall
  | released release =>
    obtain ⟨_, _, rfl⟩ | ⟨_, _, _, rfl⟩ := release <;> cases hcall
  | _ => cases hcall

/-- The recovery gate fences stale batches. The batch captured in `s`, `actions` is whatever the
other workers did since, and its commit meets any fault. -/
theorem ordinary_commit_fenced {s : Store} (hs : s.Reachable) (actions : List Action) {call : Call}
    {cap : RecoveryCapture} (hcall : call.ordinaryCapture = some cap) (fault : Fault IndexerError)
    (h : cap = (captureRecoveryVersion s).1 ∧ Occurs Store.next Establishes s actions ∨
      (run Store.next s actions).recovery ≠ none) :
    (run Store.next s actions).next (.submit call fault) = run Store.next s actions := by
  rcases Store.submit_cases (run Store.next s actions) call fault with hsame | hcommitted
  · exact hsame
  · have hgate := hcommitted.ordinaryGate hcall
    rcases h with ⟨rfl, hestablished⟩ | hactive
    · have hraised := (hestablished.imp fun _ _ h => h.version_lt).measure_lt
        (fun s a => (s.next_versions a).version_le)
      have hcurrent := hgate.current
      have hcapture := capture_le hs
      omega
    · exact absurd hgate.idle hactive

open Sample

/-- Height 2 of the first fork, captured before a round that has come and gone. -/
theorem ordinary_commit_fenced_released :
    let s := run Store.next .empty firstFork
    let t := run Store.next s secondFork
    let call := Call.commitBlock 0 true ⟨2, hash 102, hash 101, false⟩ (captureRecoveryVersion s).1
    (s.next (.submit call .none)).checkpoint.map (fun c => c.height) = some 2 ∧
      t.recovery = none ∧ t.next (.submit call .none) = t := by
  refine ⟨by decide +kernel, Option.isNone_iff_eq_none.mp (by decide +kernel),
    ordinary_commit_fenced ⟨firstFork, rfl⟩ secondFork rfl .none
      (.inl ⟨rfl, [], establish 1 1 101, secondFork.tail, rfl, ?_, ?_⟩)⟩
  · exact Option.isNone_iff_eq_none.mp (by decide +kernel)
  · exact Option.ne_none_iff_isSome.mpr (by decide +kernel)

end TxHarbor.Indexer
