import TxHarbor.Nonce.AdminRun
import TxHarbor.Nonce.Observed

open Relational Tx

namespace TxHarbor.Nonce

/-- An applied hold release: the named hold is gone, the floor has risen to the pending count of
a consistent view, and no binding, event or last pending count has changed. -/
structure ClearEffect (req : AdminRequest) (obs : Observation) (pending : Int) (s s' : Store) :
    Prop where
  named : ∃ h ∈ s.holds.rows, h.holdID = req.holdID ∧ h.toScope = req.toScope ∧ h.status = .active
  clean : ∃ latest, CleanView (classificationInput s req.toScope obs) latest pending
  consistent : (frontier s req.toScope).Consistent pending
  pending_nonneg : 0 ≤ pending
  bindings : s'.bindings = s.bindings
  events : s'.events = s.events
  audit : s'.audit = s.audit
  observations : ∃ row, s'.observations.rows = s.observations.rows ++ [row] ∧ row.classification = some .consistent
  held : ∀ scope cause, Held s' scope cause ↔ ∃ h ∈ s.holds.rows,
    h.toScope = scope ∧ h.cause = cause ∧ h.status = .active ∧ h.holdID ≠ req.holdID
  last : scopeLastPending s' = scopeLastPending s
  floor : ∀ other, scopeFloor s' other =
    if other = req.toScope then some (max ((scopeFloor s req.toScope).getD 0) pending)
    else scopeFloor s other

/-- An applied binding release: one legal edge of the named binding, with its event. -/
structure DisposeEffect (req : AdminRequest) (now : Int) (b : Binding) (e : BindingEvent) (s s' : Store) : Prop where
  current : b ∈ s.bindings.rows
  named : b.bindingID = req.bindingID
  edge : canTransition b.state .released = true
  binding : e.bindingID = b.bindingID
  source : e.fromState = some b.state
  target : e.toState = .released
  operation : e.operationID = req.operationID
  bindings : s'.bindings.rows = s.bindings.rows.map (advanceRow now b.bindingID .released req.operationID b.state)
  events : s'.events.rows = s.events.rows ++ [e]
  rest : ∃ bindings events, s' = { s with bindings := bindings, events := events }

variable {s : Store} {obs : Observation} {env : Environment} {mint : Mint} {req : AdminRequest} {pending : Int}
  {s' : Store} {out : AdminTxOutcome} {now : Int} {b : Binding}

variable {scope : Scope} {e : BindingEvent}

theorem Classified.consistent_view {decision : Decision} (h : Classified (classificationInput s scope obs) decision)
    (hconsistent : decision.classification = .consistent) :
    ∃ latest pending, CleanView (classificationInput s scope obs) latest pending ∧
      (frontier s scope).Consistent pending := by
  cases h with
  | unread | divergence | exhausted | bootstrap | consumed | gap => cases hconsistent
  | first latest hview hnone =>
    obtain ⟨hbound, hfloor⟩ := not_frontierExists hnone
    exact ⟨latest, 0, hview, .inr ⟨hbound, hfloor, rfl⟩⟩
  | consistent latest pending base hview hfrontier hbase hle =>
    exact ⟨latest, pending, hview, .inl ⟨base, isBase_of_classifyFrontierBase hfrontier hbase, hle⟩⟩

theorem clearHoldInTx_effect {registry : WalletRegistry} {row : ScopeState} {hold : ScopeHold}
    (h : clearHoldInTx env mint req obs registry s = .ok (out, s'))
    (hrow : readScopeStateTx s req.toScope = some row) (hhold : hold ∈ s.holds.rows)
    (hnamed : hold.holdID = req.holdID) (hscope : hold.toScope = req.toScope) (hactive : hold.status = .active)
    (hview : ∃ latest, CleanView (classificationInput s req.toScope obs) latest pending)
    (hconsistent : (frontier s req.toScope).Consistent pending) :
    out.outcome = .applied ∧ ClearEffect req obs pending s s' := by
  simp only [clearHoldInTx, eq_ok] at h
  obtain ⟨_, _, ⟨rfl, rfl⟩, freshID, _, hobs, cleared, _, hrelease, _, _, ⟨-, rfl⟩, moved, _, hfloor, rfl, rfl⟩ := h
  have hcount : obs.pendingCount = some pending := by
    obtain ⟨latest, hclean⟩ := hview
    exact hclean.pending_eq
  obtain ⟨-, observations, rfl, hobsRows⟩ := insertObservationTx_spec hobs
  obtain ⟨holds, rfl, hheld⟩ := releaseHoldTx_spec hrelease
  rw [hcount] at hfloor
  obtain ⟨hrange, scopes, rfl, hlast, hraised⟩ := advanceScopeFloorTx_spec hfloor hrow
  exact ⟨rfl,
    { named := ⟨hold, hhold, hnamed, hscope, hactive⟩, clean := hview, consistent := hconsistent,
      pending_nonneg := hrange.1, bindings := rfl, events := rfl, audit := rfl,
      observations := ⟨_, hobsRows, rfl⟩, held := hheld, last := hlast, floor := hraised }⟩

/-- A hold release answers nop or refused without a write, or clears the named hold of its own
scope under a view that classifies as consistent. -/
theorem holdReleaseInTx_effect (h : holdReleaseInTx env mint req obs s = .ok (out, s')) :
    (s' = s ∧ out.outcome ≠ .applied) ∨ (out.outcome = .applied ∧ ∃ pending, ClearEffect req obs pending s s') := by
  simp only [holdReleaseInTx, eq_ok] at h
  obtain ⟨_, _, hlock, _, _, ⟨rfl, rfl⟩, h⟩ := h
  obtain ⟨rfl, row, hrow⟩ := lockScopeRowTx_spec hlock
  cases hhold : (readHoldByIDForUpdateTx s req.holdID).filter (·.status == .active) with
  | none =>
    simp only [hhold, pure_eq_ok] at h
    obtain ⟨rfl, rfl⟩ := h
    exact .inl ⟨rfl, by simp⟩
  | some hold =>
    simp only [hhold, ite_apply_eq_ok, pure_eq_ok] at h
    rcases h with ⟨-, rfl, rfl⟩ | ⟨hscope, ⟨-, rfl, rfl⟩ | ⟨-, ⟨-, rfl, rfl⟩ | ⟨-, h⟩⟩⟩
    · exact .inl ⟨rfl, by simp⟩
    · exact .inl ⟨rfl, by simp⟩
    · exact .inl ⟨rfl, by simp⟩
    rcases h with ⟨-, rfl, rfl⟩ | ⟨-, h⟩
    · exact .inl ⟨rfl, by simp⟩
    cases hregistry : readRegistryBySenderTx s req.toScope with
    | none =>
      simp only [hregistry, pure_eq_ok] at h
      obtain ⟨rfl, rfl⟩ := h
      exact .inl ⟨rfl, by simp⟩
    | some registry =>
      simp only [hregistry, ite_apply_eq_ok, pure_eq_ok] at h
      rcases h with ⟨-, rfl, rfl⟩ | ⟨-, ⟨-, rfl, rfl⟩ | ⟨hclass, h⟩⟩
      · exact .inl ⟨rfl, by simp⟩
      · exact .inl ⟨rfl, by simp⟩
      right
      obtain ⟨hread, hactive⟩ := Option.filter_eq_some_iff.mp hhold
      obtain ⟨hmem, hid⟩ := Table.select_mem hread
      have hclassified := classify_classified (classificationInput s req.toScope obs)
      obtain ⟨latest, pending, hview, hconsistent⟩ := hclassified.consistent_view (not_not.mp hclass)
      obtain ⟨happlied, heffect⟩ := clearHoldInTx_effect h hrow hmem (by simpa using hid)
        (not_not.mp hscope) (by simpa using hactive) ⟨latest, hview⟩ hconsistent
      exact ⟨happlied, pending, heffect⟩

theorem disposeBindingInTx_effect {latest : Int} (h : disposeBindingInTx now req b latest pending s = .ok (out, s'))
    (hb : b ∈ s.bindings.rows) (hnamed : b.bindingID = req.bindingID) :
    out.outcome = .applied ∧ ∃ e, DisposeEffect req now b e s s' := by
  simp only [disposeBindingInTx, eq_ok] at h
  obtain ⟨moved, _, hadvance, _, _, ⟨-, rfl⟩, created, _, hevent, _, _, ⟨rfl, rfl⟩, rfl, rfl⟩ := h
  obtain ⟨hedge, -, rfl⟩ := advanceBindingStateTx_spec hadvance
  rcases insertBindingEventTx_spec hevent with ⟨-, events, rfl, hevents⟩ | ⟨hfalse, -⟩
  · exact ⟨rfl, _,
      { current := hb, named := hnamed, edge := hedge, binding := rfl, source := rfl,
        target := rfl, operation := rfl, bindings := rfl, events := hevents, rest := ⟨_, _, rfl⟩ }⟩
  · cases hfalse

/-- A binding release answers nop or refused without a write, or moves the named binding. -/
theorem bindingReleaseInTx_effect (h : bindingReleaseInTx now req obs s = .ok (out, s')) :
    (s' = s ∧ out.outcome ≠ .applied) ∨
      (out.outcome = .applied ∧ ∃ b e, b.toScope = req.toScope ∧ DisposeEffect req now b e s s') := by
  simp only [bindingReleaseInTx, eq_ok] at h
  obtain ⟨_, _, hlock, _, _, ⟨rfl, rfl⟩, h⟩ := h
  obtain ⟨rfl, -⟩ := lockScopeRowTx_spec hlock
  cases hbinding : (readBindingByIDTx s req.bindingID).filter (·.state != .released) with
  | none =>
    simp only [hbinding, pure_eq_ok] at h
    obtain ⟨rfl, rfl⟩ := h
    exact .inl ⟨rfl, by simp⟩
  | some b =>
    simp only [hbinding, ite_apply_eq_ok, pure_eq_ok] at h
    rcases h with ⟨-, rfl, rfl⟩ | ⟨hscope, ⟨-, rfl, rfl⟩ | ⟨-, ⟨-, rfl, rfl⟩ | ⟨-, h⟩⟩⟩
    · exact .inl ⟨rfl, by simp⟩
    · exact .inl ⟨rfl, by simp⟩
    · exact .inl ⟨rfl, by simp⟩
    rcases h with ⟨-, rfl, rfl⟩ | ⟨-, h⟩
    · exact .inl ⟨rfl, by simp⟩
    cases hread : obs.classification == some .unavailable <;> cases hlatest : obs.latestCount <;>
      cases hpending : obs.pendingCount <;> simp only [hread, hlatest, hpending, ite_apply_eq_ok, pure_eq_ok] at h
    case false.some.some =>
      rcases h with ⟨-, rfl, rfl⟩ | ⟨-, ⟨-, rfl, rfl⟩ | ⟨-, h⟩⟩
      · exact .inl ⟨rfl, by simp⟩
      · exact .inl ⟨rfl, by simp⟩
      obtain ⟨hmem, hid⟩ := Table.select_mem (Option.filter_eq_some_iff.mp hbinding).1
      obtain ⟨happlied, e, heffect⟩ := disposeBindingInTx_effect h hmem (by simpa using hid)
      exact .inr ⟨happlied, b, e, not_not.mp hscope, heffect⟩
    -- without a full view the release is refused
    all_goals
      obtain ⟨rfl, rfl⟩ := h
      exact .inl ⟨rfl, by simp⟩

/-- The registry actions write the registry and nothing else. -/
theorem registryInTx_effect (h : registryInTx req s = .ok (out, s')) :
    ∃ registry, s' = { s with registry := registry } := by
  have hswitch : ∀ {source target applied idle}, (switchRegistryTx req.toScope source target >>= fun switched =>
        (if switched then pure applied else pure idle : NonceTx AdminTxOutcome)) s = .ok (out, s') →
      ∃ registry, s' = { s with registry := registry } := by
    intro source target applied idle hrun
    simp only [switchRegistryTx, eq_ok, ite_apply_eq_ok] at hrun
    obtain ⟨_, _, ⟨_, _, ⟨rfl, rfl⟩, _, _, rfl, -, rfl⟩, ⟨-, -, rfl⟩ | ⟨-, -, rfl⟩⟩ := hrun
    · exact ⟨_, rfl⟩
    · exact ⟨_, rfl⟩
  unfold registryInTx at h
  rw [bind_eq_ok] at h
  obtain ⟨_, _, hget, h⟩ := h
  obtain ⟨rfl, rfl⟩ := get_eq_ok.mp hget
  cases haction : req.action with
  | registryRegister =>
    simp only [haction] at h
    cases hinsert : s.registry.insert? ⟨req.toScope, .active, 1⟩ with
    | some registry =>
      simp only [hinsert, eq_ok] at h
      obtain ⟨_, _, rfl, -, rfl⟩ := h
      exact ⟨registry, rfl⟩
    | none =>
      simp only [hinsert] at h
      exact hswitch h
  | registryDisable | holdRelease | bindingRelease =>
    simp only [haction] at h
    exact hswitch h

/-- What the action of an admin request can have done before its audit row is written. -/
inductive AdminEffect (req : AdminRequest) (obs : Observation) (now : Int) (s : Store) :
    Outcome → Store → Prop where
  | unchanged (outcome : Outcome) (houtcome : outcome ≠ .applied) : AdminEffect req obs now s outcome s
  | clear (pending : Int) (s' : Store) (haction : req.action = .holdRelease)
      (heffect : ClearEffect req obs pending s s') : AdminEffect req obs now s .applied s'
  | dispose (b : Binding) (e : BindingEvent) (s' : Store) (haction : req.action = .bindingRelease)
      (heffect : DisposeEffect req now b e s s') : AdminEffect req obs now s .applied s'
  | registry (outcome : Outcome) (registry : Table WalletRegistry) :
      AdminEffect req obs now s outcome { s with registry := registry }

theorem adminInTx_effect (h : adminInTx env mint req obs s = .ok (out, s')) :
    AdminEffect req obs env.now s out.outcome s' := by
  unfold adminInTx at h
  cases haction : req.action with
  | holdRelease =>
    simp only [haction] at h
    rcases holdReleaseInTx_effect h with ⟨rfl, hne⟩ | ⟨happlied, pending, heffect⟩
    · exact .unchanged out.outcome hne
    · rw [happlied]
      exact .clear pending s' haction heffect
  | bindingRelease =>
    simp only [haction] at h
    rcases bindingReleaseInTx_effect h with ⟨rfl, hne⟩ | ⟨happlied, b, e, -, heffect⟩
    · exact .unchanged out.outcome hne
    · rw [happlied]
      exact .dispose b e s' haction heffect
  | registryRegister | registryDisable =>
    simp only [haction] at h
    obtain ⟨registry, rfl⟩ := registryInTx_effect h
    exact .registry out.outcome registry

/-- The audit row of one attempt names its operation, action, subject and outcome. -/
structure Audited (req : AdminRequest) (outcome : Outcome) (row : AdminAudit) : Prop where
  scope : row.toScope = req.toScope
  operation : row.operationID = req.operationID
  action : row.action = req.action
  subject : row.subjectID = req.subjectID
  outcome : row.outcome = outcome

/-- An admin transaction commits its action and its audit row together. -/
theorem adminAttemptInTx_effect (h : adminAttemptInTx env mint req obs s = .ok (out, s')) :
    ∃ s₁ audit row, AdminEffect req obs env.now s out.outcome s₁ ∧
      s' = { s₁ with audit := audit } ∧ audit.rows = s₁.audit.rows ++ [row] ∧ Audited req out.outcome row := by
  simp only [adminAttemptInTx, insertAuditTx, eq_ok] at h
  obtain ⟨_, s₁, hrun, _, _, ⟨_, _, ⟨rfl, rfl⟩, audit, _, ⟨hinsert, rfl⟩, rfl⟩, rfl, rfl⟩ := h
  exact ⟨s₁, audit, _, adminInTx_effect hrun, rfl, (Table.insert?_eq_some hinsert).2, ⟨rfl, rfl, rfl, rfl, rfl⟩⟩

/-- The released hold belongs to the requested scope, so the holds of every other scope stay. -/
theorem ClearEffect.held_other (h : ClearEffect req obs pending s s') (hscope : scope ≠ req.toScope)
    (cause : HoldCause) : Held s' scope cause ↔ Held s scope cause := by
  rw [h.held]
  constructor
  · rintro ⟨r, hr, hs, hc, ha, -⟩
    exact ⟨r, hr, hs, hc, ha⟩
  · rintro ⟨r, hr, hs, hc, ha⟩
    refine ⟨r, hr, hs, hc, ha, fun hid => hscope ?_⟩
    obtain ⟨named, hnamed, hnamedid, hnamedscope, -⟩ := h.named
    have hsame : r = named := s.holds.eq_of_clash hr hnamed (by simp [Constrained.clash, hid, hnamedid])
    rw [← hs, hsame, hnamedscope]

/-- A hold release raises the floor of its own scope and leaves every other scope alone. -/
theorem ClearEffect.step (h : ClearEffect req obs pending s s') (scope : Scope) :
    (frontier s scope).Step (frontier s' scope) := by
  have hbound : boundNonces s' scope = boundNonces s scope := by simp only [boundNonces, h.bindings]
  by_cases hscope : scope = req.toScope
  · subst hscope
    obtain ⟨latest, hview⟩ := h.clean
    have hafter : frontier s' req.toScope =
        { frontier s req.toScope with
          floor := some (max ((frontier s req.toScope).floor.getD 0) pending)
          blocked := (frontier s' req.toScope).blocked } :=
      frontier_eq hbound (by rw [h.floor, if_pos rfl]; rfl) (congrFun h.last _) rfl
    rw [hafter]
    refine .release pending _ hview.advances h.pending_nonneg h.consistent ?_
    rintro (hheld | hheld)
    · obtain ⟨r, hr, hs, hc, ha, -⟩ := (h.held _ _).mp hheld
      exact .inl ⟨r, hr, hs, hc, ha⟩
    · obtain ⟨r, hr, hs, hc, ha, -⟩ := (h.held _ _).mp hheld
      exact .inr ⟨r, hr, hs, hc, ha⟩
  · have hafter : frontier s' scope = frontier s scope :=
      frontier_eq hbound (by rw [h.floor, if_neg hscope]; rfl) (congrFun h.last _)
        (by simp only [frontier, h.held_other hscope])
    rw [hafter]
    exact .idle

theorem DisposeEffect.advance (h : DisposeEffect req now b e s s') : BindingsAdvance s s' :=
  ⟨_, h.bindings, advanceRow_advances h.edge⟩

theorem DisposeEffect.step (h : DisposeEffect req now b e s s') (scope : Scope) :
    (frontier s scope).Step (frontier s' scope) := by
  have hbound := boundNonces_of_advance h.advance
  obtain ⟨bindings, events, rfl⟩ := h.rest
  have hafter : frontier { s with bindings := bindings, events := events } scope =
      frontier s scope := frontier_eq (congrFun hbound scope) rfl rfl rfl
  rw [hafter]
  exact .idle

/-- Every committed admin action is a frontier move of every scope. -/
theorem AdminEffect.step {outcome : Outcome} (h : AdminEffect req obs now s outcome s') (scope : Scope) :
    (frontier s scope).Step (frontier s' scope) := by
  cases h with
  | unchanged | registry _ registry => exact .idle
  | clear pending _ haction heffect | dispose b e _ haction heffect => exact heffect.step scope

end TxHarbor.Nonce
