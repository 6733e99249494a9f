import TxHarbor.Nonce.Observe

open Relational Tx

namespace TxHarbor.Nonce

open List

structure HoldEstablishment extends Scope where
  cause : HoldCause
  observationID : String
  detail : String

/-- `establishHoldTx`: an active instance of the cause converges, otherwise a new active row is
appended. A released row is never reopened. -/
def establishHoldTx (now : Int) (mint : Mint) (est : HoldEstablishment) : NonceTx ScopeHold := do
  require (est.observationID ≠ "") (.message "hold establishment requires a persisted evidence observation id")
  let s ← get
  match readActiveHoldByCauseTx s est.toScope est.cause with
  | some existing => pure existing
  | none =>
    let hex ← demand (.message "mint hold id") mint.hold
    let hold : ScopeHold :=
      { toScope := est.toScope, holdID := "nh-" ++ hex, cause := est.cause, status := .active,
        establishedAt := now, evidenceObservationID := est.observationID,
        evidenceDetail := est.detail, releasedAt := none, releasedBy := none,
        releaseOperationID := none, releaseEvidence := none, releaseObservationID := none }
    let holds ← demand (.violation .scopeHoldsPkey) (s.holds.insert? hold)
    require (readRegistryBySenderTx s est.toScope).isSome (.violation .scopeHoldsRegistryFkey)
    set { s with holds := holds }
    pure hold

/-- The columns `releaseHoldSQL` sets. -/
def ScopeHold.released (now : Int) (operator operationID evidence observationID : String) (h : ScopeHold) : ScopeHold :=
  { h with status := .released, releasedAt := some now, releasedBy := some operator,
           releaseOperationID := some operationID, releaseEvidence := some evidence,
           releaseObservationID := some observationID }

/-- The `WHERE` guard of `releaseHoldSQL`. -/
def ScopeHold.activeNamed (holdID : String) (h : ScopeHold) : Bool := h.holdID == holdID && h.status == .active

/-- `releaseHoldTx`: clears exactly the named active row. -/
def releaseHoldTx (now : Int) (holdID operator operationID evidence observationID : String) : NonceTx Bool := do
  let s ← get
  set { s with holds := s.holds.update (ScopeHold.activeNamed holdID)
                          (ScopeHold.released now operator operationID evidence observationID)
                          (fun _ _ h => h) }
  pure (s.holds.affected (ScopeHold.activeNamed holdID) == 1)

/-- The active holds of a scope with the given cause. -/
def Held (s : Store) (scope : Scope) (cause : HoldCause) : Prop :=
  ∃ h ∈ s.holds.rows, h.toScope = scope ∧ h.cause = cause ∧ h.status = .active

variable {s : Store} {scope : Scope} {now : Int} {s' : Store}

theorem mem_readActiveHoldsTx {h : ScopeHold} :
    h ∈ readActiveHoldsTx s scope ↔ h ∈ s.holds.rows ∧ h.toScope = scope ∧ h.status = .active := by
  unfold readActiveHoldsTx
  rw [mem_insertionSort, mem_filter]
  simp

theorem readActiveHoldsTx_eq_nil : readActiveHoldsTx s scope = [] ↔ ∀ cause, ¬ Held s scope cause := by
  rw [eq_nil_iff_forall_not_mem]
  constructor
  · rintro hnone cause ⟨h, hmem, hscope, -, hactive⟩
    exact hnone h (mem_readActiveHoldsTx.mpr ⟨hmem, hscope, hactive⟩)
  · intro hnone h hmem
    obtain ⟨hrow, hscope, hactive⟩ := mem_readActiveHoldsTx.mp hmem
    exact hnone h.cause ⟨h, hrow, hscope, rfl, hactive⟩

/-- Establishing a hold adds at most one active row, for its own scope and cause, and touches
no other table. -/
theorem establishHoldTx_spec {mint : Mint} {est : HoldEstablishment} {hold : ScopeHold}
    (h : establishHoldTx now mint est s = .ok (hold, s')) : ∃ holds, s' = { s with holds := holds } ∧
      ∀ scope cause, Held s' scope cause ↔ Held s scope cause ∨ (scope = est.toScope ∧ cause = est.cause) := by
  simp only [establishHoldTx, eq_ok] at h
  obtain ⟨_, _, ⟨-, rfl⟩, _, _, ⟨rfl, rfl⟩, h⟩ := h
  cases hexisting : readActiveHoldByCauseTx s est.toScope est.cause with
  | some existing =>
    simp only [hexisting, pure_eq_ok] at h
    obtain ⟨rfl, rfl⟩ := h
    refine ⟨s.holds, rfl, fun scope cause => ⟨.inl, ?_⟩⟩
    rintro (hheld | ⟨rfl, rfl⟩)
    · exact hheld
    · have hcause := find?_some hexisting
      obtain ⟨hrow, hscope, hactive⟩ := mem_readActiveHoldsTx.mp (mem_of_find?_eq_some hexisting)
      exact ⟨existing, hrow, hscope, by simpa using hcause, hactive⟩
  | none =>
    simp only [hexisting, eq_ok] at h
    obtain ⟨hex, _, ⟨-, rfl⟩, holds, _, ⟨hinsert, rfl⟩, _, _, ⟨-, rfl⟩, _, _, rfl, rfl, rfl⟩ := h
    obtain ⟨-, hrows⟩ := Table.insert?_eq_some hinsert
    refine ⟨holds, rfl, fun scope cause => ?_⟩
    simp only [Held, hrows, mem_append, mem_singleton]
    constructor
    · rintro ⟨r, hr | rfl, hscope, hcause, hactive⟩
      · exact .inl ⟨r, hr, hscope, hcause, hactive⟩
      · exact .inr ⟨hscope.symm, hcause.symm⟩
    · rintro (⟨r, hr, hscope, hcause, hactive⟩ | ⟨rfl, rfl⟩)
      · exact ⟨r, .inl hr, hscope, hcause, hactive⟩
      · exact ⟨_, .inr rfl, rfl, rfl, rfl⟩

/-- A release leaves exactly the active holds with another id. -/
theorem releaseHoldTx_spec {holdID operator operationID evidence observationID : String} {cleared : Bool}
    (h : releaseHoldTx now holdID operator operationID evidence observationID s = .ok (cleared, s')) :
    ∃ holds, s' = { s with holds := holds } ∧ ∀ scope cause, Held s' scope cause ↔ ∃ h ∈ s.holds.rows,
        h.toScope = scope ∧ h.cause = cause ∧ h.status = .active ∧ h.holdID ≠ holdID := by
  simp only [releaseHoldTx, eq_ok] at h
  obtain ⟨_, _, ⟨rfl, rfl⟩, _, _, rfl, -, rfl⟩ := h
  refine ⟨_, rfl, fun scope cause => ⟨?_, ?_⟩⟩
  · rintro ⟨r, hr, hscope, hcause, hactive⟩
    obtain ⟨r₀, hr₀, rfl⟩ := mem_map.mp hr
    by_cases hnamed : r₀.activeNamed holdID = true
    · simp only [hnamed, if_true, ScopeHold.released, reduceCtorEq] at hactive
    · simp only [hnamed, Bool.false_eq_true, if_false] at hscope hcause hactive
      refine ⟨r₀, hr₀, hscope, hcause, hactive, fun hid => hnamed ?_⟩
      simp [ScopeHold.activeNamed, hid, hactive]
  · rintro ⟨r, hr, hscope, hcause, hactive, hid⟩
    refine ⟨r, mem_map.mpr ⟨r, hr, if_neg ?_⟩, hscope, hcause, hactive⟩
    simp [ScopeHold.activeNamed, hid]

end TxHarbor.Nonce
