import TxHarbor.Nonce.Committed

open Relational Tx

namespace TxHarbor.Nonce

/-! An operation on nonces leaves the bindings of every scope alone whose row it has not locked. -/

variable {now : Int} {obs : Observation} {r : Binding} {s s' : Store}

variable {b : Binding} {u : Unit} {mint : Mint} {req : AdminRequest} {out : AdminTxOutcome}

theorem advanceRow_of_ne {bindingID operationID : String} {target source : BindingState}
    (h : b.bindingID ≠ bindingID) : advanceRow now bindingID target operationID source b = b := by
  unfold advanceRow
  rw [if_neg]
  exact fun hstands => h (Binding.standsAt_iff.mp hstands).1

theorem applyObservationTransitionTx_kept {changed : Bool}
    (h : applyObservationTransitionTx now obs b s = .ok (changed, s')) (hr : r ∈ s.bindings.rows)
    (hne : r.bindingID ≠ b.bindingID) : r ∈ s'.bindings.rows := by
  rcases applyObservationTransitionTx_cases h with rfl | ⟨e, created, s₁, -, hevent, moved, hadvance⟩
  · exact hr
  have hr₁ : r ∈ s₁.bindings.rows := by
    rcases insertBindingEventTx_spec hevent with ⟨-, events, rfl, -⟩ | ⟨-, rfl, -⟩ <;> exact hr
  obtain ⟨-, -, rfl⟩ := advanceBindingStateTx_spec hadvance
  exact List.mem_map.mpr ⟨r, hr₁, if_neg fun hstands => hne (Binding.standsAt_iff.mp hstands).1⟩

theorem applyObservationTransitionsTx_kept {bs : List Binding}
    (h : applyObservationTransitionsTx now obs bs s = .ok (u, s')) (hr : r ∈ s.bindings.rows)
    (hne : ∀ b ∈ bs, r.bindingID ≠ b.bindingID) : r ∈ s'.bindings.rows := by
  induction bs generalizing s with
  | nil =>
    obtain ⟨-, rfl⟩ := pure_eq_ok.mp h
    exact hr
  | cons b rest ih =>
    simp only [applyObservationTransitionsTx, bind_eq_ok] at h
    obtain ⟨changed, s₁, hfirst, hrest⟩ := h
    refine ih hrest ?_ fun b' hb' => hne b' (List.mem_cons_of_mem b hb')
    exact applyObservationTransitionTx_kept hfirst hr (hne b List.mem_cons_self)

/-- A reconcile tick moves the bindings of its scope only. -/
theorem reconcileScopeInTx_kept {scope : Scope} (h : reconcileScopeInTx now mint scope obs s = .ok (u, s'))
    (hr : r ∈ s.bindings.rows) (hscope : r.toScope ≠ scope) : r ∈ s'.bindings.rows := by
  obtain ⟨⟨s₁, s₂, _, _, hmoves, hbefore, hafter⟩, -⟩ := reconcileScopeInTx_spec h
  rw [hafter]
  -- the loop runs over the rows of the scope, and two rows with one id are one row
  refine applyObservationTransitionsTx_kept hmoves (hbefore ▸ hr) fun b hb hid => hscope ?_
  obtain ⟨hmem, hb'⟩ := mem_readBindingsByScopeTx.mp hb
  rwa [eq_of_bindingID (s := s) hr hmem hid]

theorem adminInTx_kept {env : Environment} (h : adminInTx env mint req obs s = .ok (out, s'))
    (hr : r ∈ s.bindings.rows) (hscope : req.action = .bindingRelease → r.toScope ≠ req.toScope) :
    r ∈ s'.bindings.rows := by
  have hrelease : req.action = .bindingRelease → s' = s ∨
      ∃ b ∈ s.bindings.rows, b.bindingID = req.bindingID ∧ b.toScope = req.toScope := by
    intro haction
    unfold adminInTx at h
    rw [haction] at h
    exact (bindingReleaseInTx_effect h).imp And.left fun ⟨_, b, e, hscope, heffect⟩ =>
      ⟨b, heffect.current, heffect.named, hscope⟩
  have heffect := adminInTx_effect h
  generalize out.outcome = outcome at heffect
  cases heffect with
  | unchanged | registry => exact hr
  | clear pending _ _ heffect =>
    rwa [heffect.bindings]
  | dispose b e _ haction heffect =>
    rcases hrelease haction with hsame | ⟨b', hb', hid', hscope'⟩
    · rwa [hsame]
    · rw [heffect.bindings]
      refine List.mem_map.mpr ⟨r, hr, advanceRow_of_ne fun hid => hscope haction ?_⟩
      rwa [eq_of_bindingID hr hb' (hid.trans (heffect.named.trans hid'.symm))]

/-- The scope row an operation locks `FOR UPDATE`. The registry actions write no scope. -/
def Action.lockedScope : Action → Option Scope
  | .allocate _ _ _ _ _ req => some req.toScope
  | .reconcile _ _ _ _ scope => some scope
  | .admin _ _ _ _ req =>
    match req.action with
    | .holdRelease | .bindingRelease => some req.toScope
    | .registryRegister | .registryDisable => none
  | .converge _ _ _ => none

/-- A binding stays as it is while no operation locks its scope. -/
theorem World.next_kept (w : World) {act : Action} (hr : r ∈ w.store.bindings.rows)
    (hfree : act.lockedScope ≠ some r.toScope) : r ∈ (w.next act).store.bindings.rows := by
  cases act with
  | allocate gate view env mint fault req =>
    -- an allocation appends a row and changes none
    have hcommitted := w.next_committed (.allocate gate view env mint fault req)
    generalize (w.next (.allocate gate view env mint fault req)).store = s' at hcommitted ⊢
    cases hcommitted with
    | idle => exact hr
    | refused _ _ _ _ _ _ _ _ _ _ heffect =>
      rwa [heffect.bindings]
    | admitted _ _ _ _ _ _ _ _ _ _ _ _ heffect =>
      rw [heffect.bindings]
      exact List.mem_append_left _ hr
  | converge index attempted fault =>
    have hcommitted := w.next_committed (.converge index attempted fault)
    generalize (w.next (.converge index attempted fault)).store = s' at hcommitted ⊢
    cases hcommitted with
    | idle => exact hr
  | reconcile view now mint fault scope =>
    change r ∈ (reconcileScope view now mint fault scope w.store).bindings.rows
    unfold reconcileScope
    rcases attempt_store fault (reconcileScopeInTx now mint scope (observe scope .reconcile view)) (fun _ => true)
      w.store with hsame | ⟨u, s', hrun, -, hs'⟩
    · rwa [hsame]
    · rw [hs']
      exact reconcileScopeInTx_kept hrun hr fun hscope => hfree (congrArg some hscope.symm)
  | admin view env mint fault req =>
    change r ∈ (adminRun view env mint fault req w.store).2.bindings.rows
    unfold adminRun
    cases req.validate with
    | error text => exact hr
    | ok u =>
      rcases attempt_store fault (adminAttemptInTx env mint req (observe req.toScope .reconcile view)) (fun _ => true)
        w.store with hsame | ⟨out, s', hrun, -, hs'⟩
      · simp only [hsame]
        exact hr
      · simp only [hs']
        simp only [adminAttemptInTx, insertAuditTx, eq_ok] at hrun
        obtain ⟨_, s₁, hadmin, _, _, ⟨_, _, ⟨rfl, rfl⟩, audit, _, ⟨-, rfl⟩, rfl⟩, rfl, rfl⟩ := hrun
        have hkept : r ∈ s₁.bindings.rows := by
          refine adminInTx_kept hadmin hr fun haction hscope => hfree ?_
          rw [Action.lockedScope, haction, hscope]
        exact hkept

end TxHarbor.Nonce
