import TxHarbor.Nonce.Observed
import TxHarbor.Nonce.Reconcile

open Relational Tx

namespace TxHarbor.Nonce

open List

/-- An event that one trusted observation produced for one of the given bindings. -/
structure ObservedEvent (obs : Observation) (b : Binding) (e : BindingEvent) : Prop where
  trusted : obs.trusted = true
  binding : e.bindingID = b.bindingID
  source : e.fromState = some b.state
  edge : canAutoTransition b.state e.toState = true
  evidence : e.observationID = obs.observationID
  consumed : e.toState = .consumed → ∃ latest, obs.latestCount = some latest ∧ b.nonce < latest

variable {now : Int} {obs : Observation} {b : Binding} {s s' : Store} {changed : Bool} {u : Unit}

/-- One transition either writes nothing, or inserts its event and advances its binding. -/
theorem applyObservationTransitionTx_cases (h : applyObservationTransitionTx now obs b s = .ok (changed, s')) :
    s' = s ∨ ∃ e created s₁, ObservedEvent obs b e ∧ insertBindingEventTx e s = .ok (created, s₁) ∧
      ∃ moved, advanceBindingStateTx now b.bindingID e.toState "" b.state s₁ = .ok (moved, s') := by
  unfold applyObservationTransitionTx at h
  rw [ite_apply_eq_ok] at h
  rcases h with ⟨htrusted, h⟩ | ⟨-, h⟩
  · cases htarget : observeTransitionTarget b obs.latestCount obs.pendingCount with
    | none =>
      simp only [htarget, pure_eq_ok] at h
      exact .inl h.2.symm
    | some target =>
      simp only [htarget, ite_apply_eq_ok, eq_ok] at h
      rcases h with ⟨hedge, created, s₁, hevent, moved, s₂, hadvance, -, rfl⟩ | ⟨-, -, rfl⟩
      · refine .inr ⟨_, created, s₁, ?_, hevent, moved, hadvance⟩
        refine ⟨htrusted, rfl, rfl, hedge, rfl, fun hconsumed => ?_⟩
        obtain rfl : target = .consumed := hconsumed
        unfold observeTransitionTarget at htarget
        split at htarget
        next latest pending hlatest hpending =>
          split at htarget
          · cases htarget
          · split at htarget
            next hlt => exact ⟨latest, hlatest, hlt⟩
            · split at htarget <;> cases htarget
        · cases htarget
      · exact .inl rfl
  · exact .inl (pure_eq_ok.mp h).2.symm

theorem canTransition_of_auto {source target : BindingState}
    (h : canAutoTransition source target = true) : canTransition source target = true := by
  simp only [canAutoTransition, Bool.and_eq_true] at h
  exact h.1

/-- A transition touches the bindings and their events only, and only advances bindings. -/
theorem applyObservationTransitionTx_frame (h : applyObservationTransitionTx now obs b s = .ok (changed, s')) :
    (∃ bindings events, s' = { s with bindings := bindings, events := events }) ∧ BindingsAdvance s s' := by
  rcases applyObservationTransitionTx_cases h with
    rfl | ⟨e, created, s₁, hobserved, hevent, moved, hadvance⟩
  · exact ⟨⟨_, _, rfl⟩, .of_eq rfl⟩
  · obtain ⟨-, -, rfl⟩ := advanceBindingStateTx_spec hadvance
    have hedge := canTransition_of_auto hobserved.edge
    rcases insertBindingEventTx_spec hevent with ⟨-, events, rfl, -⟩ | ⟨-, rfl, -⟩
    · exact ⟨⟨_, _, rfl⟩, advanceRow now b.bindingID e.toState "" b.state, rfl, advanceRow_advances hedge⟩
    · exact ⟨⟨_, _, rfl⟩, advanceRow now b.bindingID e.toState "" b.state, rfl, advanceRow_advances hedge⟩

/-- On an agreeing log, a transition of a current binding writes its event and its state
together or not at all. -/
theorem applyObservationTransitionTx_spec (hhistories : Histories s) (hb : b ∈ s.bindings.rows)
    (h : applyObservationTransitionTx now obs b s = .ok (changed, s')) :
    s' = s ∨ ∃ e, ObservedEvent obs b e ∧ s'.events.rows = s.events.rows ++ [e] ∧
      s'.bindings.rows = s.bindings.rows.map (advanceRow now b.bindingID e.toState "" b.state) := by
  rcases applyObservationTransitionTx_cases h with
    rfl | ⟨e, created, s₁, hobserved, hevent, moved, hadvance⟩
  · exact .inl rfl
  · obtain ⟨-, -, rfl⟩ := advanceBindingStateTx_spec hadvance
    rcases insertBindingEventTx_spec hevent with
      ⟨-, events, rfl, hrows⟩ | ⟨-, -, e', he', hid, hstate⟩
    · exact .inr ⟨e, hobserved, hrows, rfl⟩
    · have hmem : e' ∈ eventsOf s b.bindingID := by
        simp [eventsOf, he', hid, hobserved.binding]
      exact absurd hstate ((hhistories.lifecycle b hb).not_visited (canTransition_of_auto hobserved.edge) e' hmem)

theorem applyObservationTransitionsTx_frame {bs : List Binding}
    (h : applyObservationTransitionsTx now obs bs s = .ok (u, s')) :
    (∃ bindings events, s' = { s with bindings := bindings, events := events }) ∧ BindingsAdvance s s' := by
  induction bs generalizing s with
  | nil =>
    obtain ⟨-, rfl⟩ := pure_eq_ok.mp h
    exact ⟨⟨_, _, rfl⟩, .of_eq rfl⟩
  | cons b rest ih =>
    simp only [applyObservationTransitionsTx, bind_eq_ok] at h
    obtain ⟨changed, s₁, hfirst, hrest⟩ := h
    obtain ⟨⟨bindings, events, rfl⟩, hadvance⟩ := applyObservationTransitionTx_frame hfirst
    obtain ⟨⟨bindings', events', rfl⟩, hadvance'⟩ := ih hrest
    exact ⟨⟨_, _, rfl⟩, hadvance.trans hadvance'⟩

/-- The transition loop keeps the log and the states in agreement, and every event it adds is
the event of one of the bindings it was given. -/
theorem applyObservationTransitionsTx_spec {bs : List Binding}
    (h : applyObservationTransitionsTx now obs bs s = .ok (u, s')) (hhistories : Histories s)
    (hcurrent : ∀ b ∈ bs, b ∈ s.bindings.rows) (hdistinct : (bs.map (·.bindingID)).Nodup) :
    Histories s' ∧ ∀ e ∈ s'.events.rows, e ∈ s.events.rows ∨ ∃ b ∈ bs, ObservedEvent obs b e := by
  induction bs generalizing s with
  | nil =>
    obtain ⟨-, rfl⟩ := pure_eq_ok.mp h
    exact ⟨hhistories, fun e he => .inl he⟩
  | cons b rest ih =>
    simp only [applyObservationTransitionsTx, bind_eq_ok] at h
    obtain ⟨changed, s₁, hfirst, hrest⟩ := h
    rw [map_cons, nodup_cons] at hdistinct
    have hb : b ∈ s.bindings.rows := hcurrent b (by simp)
    have hcurrent' : ∀ r ∈ rest, r ∈ s.bindings.rows := fun r hr => hcurrent r (by simp [hr])
    rcases applyObservationTransitionTx_spec hhistories hb hfirst with
      rfl | ⟨e, hobserved, hevents, hbindings⟩
    · obtain ⟨hnext, horigin⟩ := ih hrest hhistories hcurrent' hdistinct.2
      refine ⟨hnext, fun e he => ?_⟩
      rcases horigin e he with hold | ⟨r, hr, hobserved⟩
      · exact .inl hold
      · exact .inr ⟨r, by simp [hr], hobserved⟩
    · have hedge := canTransition_of_auto hobserved.edge
      have hhistories₁ : Histories s₁ := hhistories.move hb hedge hobserved.binding hobserved.source hbindings hevents
      have hcurrent₁ : ∀ r ∈ rest, r ∈ s₁.bindings.rows := by
        intro r hr
        have hne : r.bindingID ≠ b.bindingID := fun heq => hdistinct.1 (heq ▸ mem_map_of_mem hr)
        rw [hbindings]
        refine mem_map.mpr ⟨r, hcurrent' r hr, ?_⟩
        rw [advanceRow, if_neg (fun hall => hne (Binding.standsAt_iff.mp hall).1)]
      obtain ⟨hnext, horigin⟩ := ih hrest hhistories₁ hcurrent₁ hdistinct.2
      refine ⟨hnext, fun e' he' => ?_⟩
      rcases horigin e' he' with hold | ⟨r, hr, hobserved'⟩
      · rw [hevents] at hold
        rcases mem_append.mp hold with hold | hnew
        · exact .inl hold
        · exact .inr ⟨b, by simp, mem_singleton.mp hnew ▸ hobserved⟩
      · exact .inr ⟨r, by simp [hr], hobserved'⟩

/-- Everything a successful reconcile tick has done to its store. -/
structure ReconcileEffect (scope : Scope) (obs : Observation) (decision : Decision)
    (observationID : String) (s s' : Store) : Prop where
  classified : Classified (classificationInput s scope obs) decision
  observed : Observed scope obs decision s s'
  advance : BindingsAdvance s s'
  audit : s'.audit = s.audit
  observations : s'.observations.rows = s.observations.rows ++ [evidenceRow obs decision observationID]
  histories : Histories s → Histories s' ∧ ∀ e ∈ s'.events.rows, e ∈ s.events.rows ∨
    ∃ b ∈ s.bindings.rows, ObservedEvent (evidenceRow obs decision observationID) b e

theorem readBindingsByScopeTx_nodup (s : Store) (scope : Scope) :
    ((readBindingsByScopeTx s scope).map (·.bindingID)).Nodup := by
  have hrows : (s.bindings.rows.map (·.bindingID)).Nodup := by
    rw [List.Nodup, pairwise_map]
    refine s.bindings.unique.imp ?_
    intro a b hfree heq
    simp [Constrained.clash, heq] at hfree
  unfold readBindingsByScopeTx
  refine ((perm_insertionSort _ _).map _).nodup_iff.mpr ?_
  exact hrows.sublist (filter_sublist.map _)

/-- A tick moves the bindings it read for its scope, and has the effect of its decision. -/
theorem reconcileScopeInTx_spec {mint : Mint} {scope : Scope}
    (h : reconcileScopeInTx now mint scope obs s = .ok (u, s')) :
    (∃ s₁ s₂ o v, applyObservationTransitionsTx now o (readBindingsByScopeTx s scope) s₁ = .ok (v, s₂) ∧
      s₁.bindings = s.bindings ∧ s'.bindings = s₂.bindings) ∧
      ∃ decision observationID, ReconcileEffect scope obs decision observationID s s' := by
  simp only [reconcileScopeInTx, eq_ok] at h
  obtain ⟨_, s₁, hensure, _, _, hlock, _, _, ⟨rfl, rfl⟩, observationID, s₂, hobs, _, s₃, hmoves,
    _, s₄, hhold, hfrontier⟩ := h
  obtain ⟨scopes, rfl, hfloor₀, hpending₀⟩ := ensureScopeRowTx_spec hensure
  obtain ⟨rfl, -⟩ := lockScopeRowTx_spec hlock
  have hinput := classificationInput_scopes hfloor₀ hpending₀ scope obs
  have hclassified := classify_classified (classificationInput { s with scopes := scopes } scope obs)
  generalize classify (classificationInput { s with scopes := scopes } scope obs) = decision at *
  rw [hinput] at hclassified
  obtain ⟨-, observations, rfl, hobsRows⟩ := insertObservationTx_spec hobs
  obtain ⟨⟨bindings, events, hs₃⟩, hadvance⟩ := applyObservationTransitionsTx_frame hmoves
  subst hs₃
  obtain ⟨holds, rfl, hheld⟩ := holdForDecisionTx_spec hhold
  obtain ⟨scopes', rfl, hfloor, hlast⟩ := recordFrontierTx_classified hclassified hfrontier rfl rfl rfl
  refine ⟨⟨_, _, _, _, hmoves, rfl, rfl⟩, decision, observationID,
    { classified := hclassified, advance := hadvance, audit := rfl, observations := hobsRows,
      observed :=
        { nonces := boundNonces_of_advance hadvance, floor := hfloor.trans hfloor₀,
          pending := fun other => ?_, held := hheld },
      histories := fun hhistories => ?_ }⟩
  · refine (hlast other).trans ?_
    change (if _ then _ else scopeLastPending { s with scopes := scopes } other) = _
    rw [hpending₀]
  · have hcurrent : ∀ b ∈ readBindingsByScopeTx { s with scopes := scopes } scope,
        b ∈ s.bindings.rows := fun b hb => (mem_readBindingsByScopeTx.mp hb).1
    obtain ⟨hnext, horigin⟩ := applyObservationTransitionsTx_spec hmoves
      (hhistories.of_eq rfl rfl) hcurrent (readBindingsByScopeTx_nodup _ scope)
    refine ⟨hnext.of_eq rfl rfl, fun e he => ?_⟩
    rcases horigin e he with hold | ⟨b, hb, hobserved⟩
    · exact .inl hold
    · exact .inr ⟨b, hcurrent b hb, hobserved⟩

end TxHarbor.Nonce
