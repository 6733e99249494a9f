import TxHarbor.Nonce.ScopeFrontier

open Relational Tx

namespace TxHarbor.Nonce

variable {scope : Scope} {observationID : String} {s s' : Store} {u : Unit}

variable {obs : Observation} {decision : Decision} {i : ClassificationInput} {scopes : Table ScopeState}

/-- Recording the waterline moves the last pending count of its scope exactly when the view is
trusted and complete. -/
theorem recordFrontierTx_spec (h : recordFrontierTx scope obs observationID s = .ok (u, s')) :
    ∃ scopes, s' = { s with scopes := scopes } ∧ scopeFloor s' = scopeFloor s ∧ ∀ other, scopeLastPending s' other =
        if other = scope ∧ obs.trusted = true ∧ obs.latestCount.isSome ∧ obs.pendingCount.isSome
        then obs.pendingCount else scopeLastPending s other := by
  unfold recordFrontierTx at h
  cases hlatest : obs.latestCount with
  | none =>
    simp only [hlatest, pure_eq_ok] at h
    obtain ⟨-, rfl⟩ := h
    exact ⟨s.scopes, rfl, rfl, fun other => by simp⟩
  | some latest =>
    cases hpending : obs.pendingCount with
    | none =>
      simp only [hlatest, hpending, pure_eq_ok] at h
      obtain ⟨-, rfl⟩ := h
      exact ⟨s.scopes, rfl, rfl, fun other => by simp⟩
    | some pending =>
      simp only [hlatest, hpending, ite_apply_eq_ok, pure_eq_ok] at h
      rcases h with ⟨htrusted, h⟩ | ⟨huntrusted, -, rfl⟩
      · obtain ⟨-, scopes, hs', hfloor, hlast⟩ := updateScopeFrontierTx_spec h
        refine ⟨scopes, hs', hfloor, fun other => ?_⟩
        rw [hlast other]
        simp [htrusted]
      · exact ⟨s.scopes, rfl, rfl, fun other => by simp [huntrusted]⟩

theorem holdForDecisionTx_spec {now : Int} {mint : Mint}
    (h : holdForDecisionTx now mint scope decision observationID s = .ok (u, s')) :
    ∃ holds, s' = { s with holds := holds } ∧ ∀ other cause, Held s' other cause ↔
        Held s other cause ∨ (other = scope ∧ decision.holdCause = some cause) := by
  unfold holdForDecisionTx at h
  cases hcause : decision.holdCause with
  | none =>
    simp only [hcause, pure_eq_ok] at h
    obtain ⟨-, rfl⟩ := h
    exact ⟨s.holds, rfl, by simp⟩
  | some cause =>
    simp only [hcause, eq_ok] at h
    obtain ⟨hold, s₁, hestablish, -, rfl⟩ := h
    obtain ⟨holds, hs₁, hheld⟩ := establishHoldTx_spec hestablish
    refine ⟨holds, hs₁, fun other cause' => ?_⟩
    rw [hheld other cause']
    simp only [Option.some.injEq, eq_comm]

/-- The evidence row of one classified view. -/
def evidenceRow (obs : Observation) (decision : Decision) (observationID : String) : Observation :=
  { obs with classification := some decision.classification, observationID := observationID }

/-- What a classified observation leaves behind when it admits nothing: the nonces and floors
stay, the scope's last pending count follows a trusted view, and the decision's hold stands. -/
structure Observed (scope : Scope) (obs : Observation) (decision : Decision) (s s' : Store) :
    Prop where
  nonces : boundNonces s' = boundNonces s
  floor : scopeFloor s' = scopeFloor s
  pending : ∀ other, scopeLastPending s' other =
    if other = scope ∧ decision.classification ≠ .unavailable ∧ decision.classification ≠ .divergence
    then obs.pendingCount else scopeLastPending s other
  held : ∀ other cause, Held s' other cause ↔ Held s other cause ∨ (other = scope ∧ decision.holdCause = some cause)

/-- A trusted classification rests on a complete, clean view. -/
theorem Classified.cleanView {d : Decision} (h : Classified i d)
    (htrusted : d.classification ≠ .unavailable ∧ d.classification ≠ .divergence) :
    ∃ latest pending, CleanView i latest pending := by
  cases h with
  | unread | exhausted => exact absurd rfl htrusted.1
  | divergence => exact absurd rfl htrusted.2
  | first latest hview => exact ⟨latest, 0, hview⟩
  | bootstrap latest pending hview | consistent latest pending base hview
  | consumed latest pending base hview | gap latest pending base hview => exact ⟨latest, pending, hview⟩

/-- Recording a classified view: the last pending count follows exactly the trusted views. -/
theorem recordFrontierTx_classified (hclassified : Classified i decision)
    (h : recordFrontierTx scope obs observationID s = .ok (u, s')) (hlatest : i.latest = obs.latestCount)
    (hpending : i.pending = obs.pendingCount) (hclass : obs.classification = some decision.classification) :
    ∃ scopes, s' = { s with scopes := scopes } ∧ scopeFloor s' = scopeFloor s ∧ ∀ other, scopeLastPending s' other =
        if other = scope ∧ decision.classification ≠ .unavailable ∧ decision.classification ≠ .divergence
        then obs.pendingCount else scopeLastPending s other := by
  obtain ⟨scopes, hs', hfloor, hlast⟩ := recordFrontierTx_spec h
  refine ⟨scopes, hs', hfloor, fun other => ?_⟩
  rw [hlast other]
  have htrusted : obs.trusted = true ↔
      decision.classification ≠ .unavailable ∧ decision.classification ≠ .divergence := by
    simp [Observation.trusted, hclass]
  by_cases ht : decision.classification ≠ .unavailable ∧ decision.classification ≠ .divergence
  · obtain ⟨latest, pending, hview⟩ := hclassified.cleanView ht
    have hl : obs.latestCount = some latest := hlatest ▸ hview.latest_eq
    have hp : obs.pendingCount = some pending := hpending ▸ hview.pending_eq
    simp [htrusted.mpr ht, hl, hp, ht]
  · rw [if_neg (fun hall => ht (htrusted.mp hall.2.1)), if_neg (fun hall => ht hall.2)]

theorem frontier_eq {f : Frontier} (hbound : boundNonces s scope = f.bound) (hfloor : scopeFloor s scope = f.floor)
    (hpending : scopeLastPending s scope = f.lastPending) (hblocked : (frontier s scope).blocked = f.blocked) :
    frontier s scope = f := by
  cases f
  cases hbound
  cases hfloor
  cases hpending
  cases hblocked
  rfl

/-- Materialised scope rows are invisible to classification. -/
theorem classificationInput_scopes (hfloor : scopeFloor { s with scopes := scopes } = scopeFloor s)
    (hpending : scopeLastPending { s with scopes := scopes } = scopeLastPending s) (scope : Scope) (obs : Observation) :
    classificationInput { s with scopes := scopes } scope obs = classificationInput s scope obs := by
  unfold classificationInput
  rw [hfloor, hpending]
  rfl

theorem frontier_scopes (hfloor : scopeFloor { s with scopes := scopes } = scopeFloor s)
    (hpending : scopeLastPending { s with scopes := scopes } = scopeLastPending s) (scope : Scope) :
    frontier { s with scopes := scopes } scope = frontier s scope :=
  frontier_eq rfl (congrFun hfloor scope) (congrFun hpending scope) rfl

section ObservedCases

variable {scope : Scope} {obs : Observation} {decision : Decision} {s s' : Store}

private theorem Observed.frontier_idle (h : Observed scope obs decision s s') (other : Scope)
    (hpending : scopeLastPending s' other = scopeLastPending s other)
    (hheld : other = scope → decision.holdCause ≠ some .unattributedConsumption ∧
      decision.holdCause ≠ some .unexplainedGap) :
    frontier s' other = frontier s other := by
  refine frontier_eq (by rw [h.nonces]; rfl) (by rw [h.floor]; rfl) hpending ?_
  simp only [frontier, h.held, eq_iff_iff]
  by_cases hother : other = scope
  · simp [hheld hother]
  · simp [hother]

variable {pending : Int}

section

variable (h : Observed scope obs decision s s')
include h

private theorem Observed.frontier_observe (hpending : scopeLastPending s' scope = some pending)
    (hheld : decision.holdCause ≠ some .unattributedConsumption ∧ decision.holdCause ≠ some .unexplainedGap) :
    frontier s' scope = { frontier s scope with lastPending := some pending } := by
  refine frontier_eq (by rw [h.nonces]; rfl) (by rw [h.floor]; rfl) hpending ?_
  simp [frontier, h.held, hheld]

private theorem Observed.frontier_hold (hpending : scopeLastPending s' scope = some pending)
    (hheld : decision.holdCause = some .unattributedConsumption ∨ decision.holdCause = some .unexplainedGap) :
    frontier s' scope = { frontier s scope with lastPending := some pending, blocked := True } := by
  refine frontier_eq (by rw [h.nonces]; rfl) (by rw [h.floor]; rfl) hpending ?_
  rcases hheld with hcause | hcause <;> simp [frontier, h.held, hcause]

/-- An observation that admits nothing is an idle, observing or holding move of its own scope
and leaves every other scope alone. -/
theorem Observed.step (hclassified : Classified (classificationInput s scope obs) decision) (other : Scope) :
    (frontier s other).Step (frontier s' other) := by
  by_cases hother : other = scope
  · subst hother
    have hpending := h.pending other
    have hcount : ∀ {latest pending}, CleanView (classificationInput s other obs) latest pending →
        obs.pendingCount = some pending := fun hview => hview.pending_eq
    cases hclassified with
    | unread | exhausted | divergence =>
      rw [h.frontier_idle other (by simpa using hpending) (by simp)]
      exact .idle
    | first latest hview =>
      rw [h.frontier_observe (by simpa [hcount hview] using hpending) (by simp)]
      exact .observe 0 hview.advances
    | bootstrap latest pending hview | consistent latest pending base hview =>
      rw [h.frontier_observe (by simpa [hcount hview] using hpending) (by simp)]
      exact .observe pending hview.advances
    | consumed latest pending base hview hfrontier hbase hlt =>
      rw [h.frontier_hold (by simpa [hcount hview] using hpending) (by simp)]
      exact .hold pending base hview.advances (isBase_of_classifyFrontierBase hfrontier hbase)
        (hlt.trans_le hview.latest_le)
    | gap latest pending base hview hfrontier hbase hlt =>
      rw [h.frontier_hold (by simpa [hcount hview] using hpending) (by simp)]
      exact .hold pending base hview.advances (isBase_of_classifyFrontierBase hfrontier hbase) hlt
  · rw [h.frontier_idle other (by simpa [hother] using h.pending other) (fun heq => absurd heq hother)]
    exact .idle

end

end ObservedCases

end TxHarbor.Nonce
