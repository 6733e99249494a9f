import TxHarbor.Nonce.Committed

open Relational Transition

namespace TxHarbor.Nonce

/-- The exit the data model describes for a hold. Under some fresh view that contradicts neither
itself nor the scope's last pending count, a request that names the hold, with evidence, an
in-scope observation reference and a registered sender, is applied; and if that leaves the scope
free, an allocation under the same view is bound at or above the observed pending count. -/
def HasWayOut (s : Store) (hold : ScopeHold) : Prop :=
  ∃ (view : ChainView) (latest pending : Int) (env : Environment) (mint : Mint)
    (req : AdminRequest) (out : AdminTxOutcome) (s₁ : Store),
    (observe hold.toScope .reconcile view).latestCount = some latest ∧
    (observe hold.toScope .reconcile view).pendingCount = some pending ∧
    latest ≤ pending ∧
    (∀ prev, scopeLastPending s hold.toScope = some prev → prev ≤ pending) ∧
    req.action = .holdRelease ∧ req.holdID = hold.holdID ∧ req.toScope = hold.toScope ∧
    req.evidence ≠ "" ∧ readObservationScopeTx s req.observationID = some req.toScope ∧
    (readRegistryBySenderTx s req.toScope).isSome = true ∧
    holdReleaseInTx env mint req (observe req.toScope .reconcile view) s = .ok (out, s₁) ∧
    out.outcome = .applied ∧
    ((∀ cause, ¬ Held s₁ hold.toScope cause) →
      ∃ (env' : Environment) (mint' : Mint) (call : AllocationRequest) (b : Binding) (s₂ : Store),
        call.toScope = hold.toScope ∧
        allocateInTx env' mint' call (observe call.toScope .allocation view) s₁ =
          .ok (.bound b, s₂) ∧ pending ≤ b.nonce)

/-- The two causes that consumption above the frontier establishes. -/
def HoldCause.blocking (cause : HoldCause) : Prop := cause = .unattributedConsumption ∨ cause = .unexplainedGap

variable {s : Store} {scope : Scope} {cause : HoldCause} {req : AdminRequest} {obs : Observation} {s' : Store}
  {w : World}

theorem frontier_blocked (hcause : cause.blocking) (hheld : Held s scope cause) : (frontier s scope).blocked := by
  rcases hcause with rfl | rfl
  · exact .inl hheld
  · exact .inr hheld

/-- A release needs a consistent view, and a blocked scope never has one again. -/
theorem ClearEffect.not_blocked {pending : Int} (h : ClearEffect req obs pending s s')
    (hsound : (frontier s req.toScope).Sound) : ¬ (frontier s req.toScope).blocked := by
  intro hblocked
  obtain ⟨latest, hview⟩ := h.clean
  exact hsound.not_consistent_of_blocked hblocked hview.advances h.consistent

/-- No action clears a hold of a blocked scope. -/
theorem Committed.held_of_blocked {a : Action} (h : Committed s a s') (hsound : (frontier s scope).Sound)
    (hblocked : (frontier s scope).blocked) (hheld : Held s scope cause) : Held s' scope cause := by
  cases h with
  | idle => exact hheld
  | refused _ _ _ _ _ req decision observationID _ hnew heffect
  | reconciled _ _ _ _ _ decision observationID _ heffect =>
    exact (heffect.observed.held scope cause).mpr (.inl hheld)
  | admitted _ _ _ _ _ req decision pending b _ hfree hnew heffect =>
    unfold Held
    rwa [heffect.holds]
  | administered _ _ _ _ req outcome s₁ audit row heffect hrows haudited =>
    cases heffect with
    | unchanged | registry => exact hheld
    | dispose b e _ haction heffect =>
      obtain ⟨bindings, events, rfl⟩ := heffect.rest
      exact hheld
    | clear pending _ haction heffect =>
      by_cases hscope : scope = req.toScope
      · subst hscope
        exact absurd hblocked (heffect.not_blocked hsound)
      · exact (heffect.held_other hscope cause).mpr hheld

open World

/-- Over every continuation the holds of a blocked scope stay and nothing more is bound. -/
theorem World.Reachable.blocked_forever (hreach : w.Reachable) (hcause : cause.blocking)
    (hheld : Held w.store scope cause) (actions : List Action) :
    Held (run next w actions).store scope cause ∧
      boundNonces (run next w actions).store scope = boundNonces w.store scope := by
  induction actions generalizing w with
  | nil => exact ⟨hheld, rfl⟩
  | cons a rest ih =>
    have hblocked := frontier_blocked hcause hheld
    have hnext := (w.next_committed a).held_of_blocked (hreach.sound scope) hblocked hheld
    have hbound : boundNonces (w.next a).store scope = boundNonces w.store scope :=
      ((w.next_committed a).step scope).bound_of_blocked hblocked
    obtain ⟨hlater, hlaterBound⟩ := ih (hreach.step a) hnext
    exact ⟨hlater, hlaterBound.trans hbound⟩

/-- In a blocked scope no release request is applied, whatever view, evidence and hold it brings. -/
theorem holdReleaseInTx_blocked {env : Environment} {mint : Mint} {out : AdminTxOutcome}
    (hsound : (frontier s req.toScope).Sound) (hblocked : (frontier s req.toScope).blocked)
    (h : holdReleaseInTx env mint req obs s = .ok (out, s')) : out.outcome ≠ .applied := by
  rcases holdReleaseInTx_effect h with ⟨-, hne⟩ | ⟨-, pending, heffect⟩
  · exact hne
  · exact absurd hblocked (heffect.not_blocked hsound)

theorem World.Reachable.not_hasWayOut (hreach : w.Reachable) {hold : ScopeHold} (hmem : hold ∈ w.store.holds.rows)
    (hactive : hold.status = .active) (hcause : hold.cause.blocking) : ¬ HasWayOut w.store hold := by
  rintro ⟨view, latest, pending, env, mint, req, out, s₁, -, -, -, -, -, -, hscope, -, -, -, hrun, happlied, -⟩
  have hheld : Held w.store hold.toScope hold.cause := ⟨hold, hmem, rfl, rfl, hactive⟩
  have hblocked := frontier_blocked hcause hheld
  rw [← hscope] at hblocked
  exact holdReleaseInTx_blocked (hreach.sound req.toScope) hblocked hrun happlied

/-- A hold for unattributed consumption or an unexplained gap has no way out in any reachable
world: no release request of its scope is ever applied, and along every continuation the hold
stays active and the scope binds nothing. -/
theorem blocking_hold_has_no_way_out (w : World) (hreach : w.Reachable) (hold : ScopeHold)
    (hmem : hold ∈ w.store.holds.rows) (hactive : hold.status = .active)
    (hcause : hold.cause = .unattributedConsumption ∨ hold.cause = .unexplainedGap) :
    ¬ HasWayOut w.store hold ∧ ∀ actions, Held (run next w actions).store hold.toScope hold.cause ∧
        boundNonces (run next w actions).store hold.toScope = boundNonces w.store hold.toScope :=
  ⟨hreach.not_hasWayOut hmem hactive hcause, hreach.blocked_forever hcause ⟨hold, hmem, rfl, rfl, hactive⟩⟩

open Sample

/-- One binding at nonce 0, then a view in which five nonces of the wallet are already mined. -/
def Sample.consumedWorld : World :=
  after [register, allocate "intent-1" "1" "0x0" "0x0", allocate "intent-2" "2" "0x5" "0x5"]

theorem blocking_hold_has_no_way_out_consumed :
    ∃ hold ∈ consumedWorld.store.holds.rows, hold.cause = .unattributedConsumption ∧
      ∀ actions, Held (run next consumedWorld actions).store hold.toScope hold.cause := by
  have hmem := List.get_mem consumedWorld.store.holds.rows ⟨0, by decide⟩
  refine ⟨_, hmem, by decide, fun actions => ?_⟩
  exact ((blocking_hold_has_no_way_out consumedWorld (after_reachable _) _ hmem (by decide) (by decide)).2 actions).1

/-- The promised exit is missing already after three calls. -/
theorem hasWayOut_fails_consumed : consumedWorld.Reachable ∧ ∃ hold ∈ consumedWorld.store.holds.rows,
      hold.status = .active ∧ hold.cause = .unattributedConsumption ∧ ¬ HasWayOut consumedWorld.store hold := by
  have hreach : consumedWorld.Reachable := after_reachable _
  have hmem := List.get_mem consumedWorld.store.holds.rows ⟨0, by decide⟩
  exact ⟨hreach, _, hmem, by decide, by decide, hreach.not_hasWayOut hmem (by decide) (.inl (by decide))⟩

end TxHarbor.Nonce
