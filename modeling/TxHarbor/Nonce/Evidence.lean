import TxHarbor.Nonce.Committed

open Relational

namespace TxHarbor.Nonce

open List Sample

/-- The stored evidence behind one event: an applied and audited operator operation for a release,
a recorded trusted observation past the nonce for a consumption. -/
structure Explained (s : Store) (e : BindingEvent) : Prop where
  released : e.toState = .released → ∃ row ∈ s.audit.rows, row.operationID = e.operationID ∧
    row.action = .bindingRelease ∧ row.subjectID = e.bindingID ∧ row.outcome = .applied
  consumed : e.toState = .consumed → ∃ o ∈ s.observations.rows, o.observationID = e.observationID ∧
    (∃ c, o.classification = some c ∧ c ≠ .unavailable ∧ c ≠ .divergence) ∧
    ∃ b ∈ s.bindings.rows, b.bindingID = e.bindingID ∧ ∃ latest, o.latestCount = some latest ∧ b.nonce < latest

variable {s s' : Store} {e : BindingEvent} {b : Binding}

theorem Explained.grows (h : Explained s e) (hgrows : Grows s s') : Explained s' e := by
  constructor
  · intro hreleased
    obtain ⟨row, hrow, hfacts⟩ := h.released hreleased
    exact ⟨row, hgrows.audit hrow, hfacts⟩
  · intro hconsumed
    obtain ⟨o, ho, hid, hclass, b, hb, hbid, latest, hlatest, hlt⟩ := h.consumed hconsumed
    obtain ⟨b', hb', hadvance⟩ := hgrows.bindings b hb
    exact ⟨o, hgrows.observations ho, hid, hclass, b', hb', hadvance.bindingID.trans hbid, latest,
      hlatest, hadvance.nonce ▸ hlt⟩

/-- The event log agrees with the binding states, and every event has its evidence. -/
structure Evidenced (s : Store) : Prop where
  histories : Histories s
  explained : ∀ e ∈ s.events.rows, Explained s e

theorem Evidenced.of_eq (h : Evidenced s) (hgrows : Grows s s') (hbindings : s'.bindings = s.bindings)
    (hevents : s'.events = s.events) : Evidenced s' :=
  ⟨h.histories.of_eq hbindings hevents, fun e he => (h.explained e (hevents ▸ he)).grows hgrows⟩

theorem Evidenced.explained_append (h : Evidenced s) (hgrows : Grows s s')
    (hevents : s'.events.rows = s.events.rows ++ [e]) (hnew : Explained s' e) :
    ∀ e ∈ s'.events.rows, Explained s' e := by
  intro e' he'
  rw [hevents] at he'
  rcases Transition.mem_concat_cases he' with hold | rfl
  · exact (h.explained e' hold).grows hgrows
  · exact hnew

theorem canAutoTransition_released (source : BindingState) : canAutoTransition source .released = false := by
  cases source <;> rfl

/-- An automatic event is explained by the observation recorded in the same transaction. -/
theorem ObservedEvent.explained {obs : Observation} (h : ObservedEvent obs b e) (hobs : obs ∈ s'.observations.rows)
    (hclass : ∃ c, obs.classification = some c) (hb : ∃ b' ∈ s'.bindings.rows, b.Advances b') : Explained s' e := by
  constructor
  · intro hreleased
    have hedge := h.edge
    rw [hreleased, canAutoTransition_released] at hedge
    cases hedge
  · intro hconsumed
    obtain ⟨latest, hlatest, hlt⟩ := h.consumed hconsumed
    obtain ⟨b', hb', hadvance⟩ := hb
    obtain ⟨c, hc⟩ := hclass
    have htrusted := h.trusted
    refine ⟨obs, hobs, h.evidence.symm, ⟨c, hc, ?_⟩, b', hb', ?_, latest, hlatest, ?_⟩
    · simpa [Observation.trusted, hc] using htrusted
    · rw [hadvance.bindingID, h.binding]
    · rwa [hadvance.nonce]

variable {req : AdminRequest} {now : Int}

theorem DisposeEffect.explained {s₁ : Store} {row : AdminAudit} (h : DisposeEffect req now b e s s₁)
    (haction : req.action = .bindingRelease) (hrow : row ∈ s'.audit.rows) (haudited : Audited req .applied row) :
    Explained s' e := by
  constructor
  · intro _
    refine ⟨row, hrow, ?_, ?_, ?_, haudited.outcome⟩
    · rw [haudited.operation, h.operation]
    · rw [haudited.action, haction]
    · rw [haudited.subject, AdminRequest.subjectID, haction, h.binding, h.named]
  · intro hconsumed
    rw [h.target] at hconsumed
    cases hconsumed

theorem DisposeEffect.histories (h : DisposeEffect req now b e s s') (hhistories : Histories s) : Histories s' := by
  have hedge : canTransition b.state e.toState = true := by
    rw [h.target]
    exact h.edge
  have hbindings := h.bindings
  rw [← h.target] at hbindings
  exact hhistories.move h.current hedge h.binding h.source hbindings h.events

theorem Committed.evidenced {a : Action} (hcommitted : Committed s a s') (h : Evidenced s) : Evidenced s' := by
  have hgrows := hcommitted.grows
  cases hcommitted with
  | idle => exact h
  | refused _ _ _ _ _ req decision observationID _ hnew heffect =>
    exact h.of_eq hgrows heffect.bindings heffect.events
  | admitted _ _ _ _ _ req decision pending b _ hfree hnew heffect =>
    refine ⟨h.histories.create ?_ heffect.allocated rfl rfl rfl heffect.bindings heffect.events,
      h.explained_append hgrows heffect.events ⟨?_, ?_⟩⟩
    · intro r hr hid
      have hclash := heffect.fresh r hr
      simp [Constrained.clash, hid] at hclash
    · intro hreleased
      cases hreleased
    · intro hconsumed
      cases hconsumed
  | reconciled _ _ _ _ _ decision observationID _ heffect =>
    obtain ⟨hhistories, horigin⟩ := heffect.histories h.histories
    refine ⟨hhistories, fun e he => ?_⟩
    rcases horigin e he with hold | ⟨b, hb, hobserved⟩
    · exact (h.explained e hold).grows hgrows
    · refine hobserved.explained ?_ ⟨_, rfl⟩ (hgrows.bindings b hb)
      rw [heffect.observations]
      exact mem_append_right _ (mem_singleton.mpr rfl)
  | administered _ _ _ _ req outcome s₁ audit row heffect hrows haudited =>
    cases heffect with
    | unchanged | registry => exact h.of_eq hgrows rfl rfl
    | clear pending _ haction heffect => exact h.of_eq hgrows heffect.bindings heffect.events
    | dispose b e _ haction heffect =>
      refine ⟨(heffect.histories h.histories).of_eq rfl rfl,
        h.explained_append hgrows heffect.events (heffect.explained haction ?_ haudited)⟩
      rw [hrows]
      exact mem_append_right _ (mem_singleton.mpr rfl)

theorem World.Reachable.evidenced {w : World} (hreach : w.Reachable) : Evidenced w.store := by
  refine Transition.Reachable.invariant (I := fun w : World => Evidenced w.store) hreach ?_ ?_
  · refine ⟨⟨?_, ?_⟩, ?_⟩ <;> intro x hx <;> cases hx
  · exact fun w a h => (w.next_committed a).evidenced h

/-- The event log is a faithful and legal history in every reachable world. The events of a
binding start with its creation, follow each other along edges of `canTransition`, visit no state
twice and end in the binding's state; a release is backed by an applied audited operation, a
consumption by a recorded trusted observation past the nonce; and along every continuation a
terminal row stays as it is. -/
theorem binding_events_faithful (w : World) (hreach : w.Reachable) : (∀ b ∈ w.store.bindings.rows,
      (∃ e rest, eventsOf w.store b.bindingID = e :: rest ∧ e.fromState = none ∧ e.toState = .allocated) ∧
      (eventsOf w.store b.bindingID).IsChain (fun previous e =>
        e.fromState = some previous.toState ∧ canTransition previous.toState e.toState = true) ∧
      ((eventsOf w.store b.bindingID).map (·.toState)).Nodup ∧
      (eventsOf w.store b.bindingID).getLast?.map (·.toState) = some b.state) ∧
    (∀ e ∈ w.store.events.rows, e.toState = .released → ∃ row ∈ w.store.audit.rows, row.operationID = e.operationID ∧
        row.action = .bindingRelease ∧ row.subjectID = e.bindingID ∧ row.outcome = .applied) ∧
    (∀ e ∈ w.store.events.rows, e.toState = .consumed →
      ∃ o ∈ w.store.observations.rows, o.observationID = e.observationID ∧
        (∃ c, o.classification = some c ∧ c ≠ .unavailable ∧ c ≠ .divergence) ∧
        ∃ b ∈ w.store.bindings.rows, b.bindingID = e.bindingID ∧
          ∃ latest, o.latestCount = some latest ∧ b.nonce < latest) ∧
    (∀ actions, ∀ b ∈ w.store.bindings.rows, b.state = .consumed ∨ b.state = .released →
      ∀ b' ∈ (Transition.run World.next w actions).store.bindings.rows, b'.bindingID = b.bindingID → b' = b) := by
  have hevidenced := hreach.evidenced
  refine ⟨?_, ?_, ?_, ?_⟩
  · intro b hb
    have hlife := hevidenced.histories.lifecycle b hb
    exact ⟨hlife.head, hlife.chain, hlife.nodup, hlife.last⟩
  · intro e he
    exact (hevidenced.explained e he).released
  · intro e he
    exact (hevidenced.explained e he).consumed
  · intro actions b hb hterminal b' hb' hid
    obtain ⟨later, hlater, hadvance⟩ := (w.run_grows actions).bindings b hb
    have hfinal : later = b := by
      apply hadvance.final
      rcases hterminal with hstate | hstate <;> rw [hstate] <;> rfl
    subst hfinal
    exact eq_of_bindingID hb' hlater hid

/-- One wallet with two bindings: the first is mined, the second is released by an operator. -/
def Sample.settledWorld : World := after [register, allocate "intent-1" "1" "0x0" "0x0",
    allocate "intent-2" "2" "0x0" "0x0", reconcile "3" "0x0" "0x1",
    reconcile "4" "0x1" "0x1",
    admin .bindingRelease "op-1" "nb-2" "no-4" "5" "0x1" "0x1"]

theorem binding_events_faithful_settled : (∃ b ∈ settledWorld.store.bindings.rows, b.state = .consumed ∧
      ((eventsOf settledWorld.store b.bindingID).map (·.toState)).Nodup ∧
      ∀ b' ∈ (Transition.run World.next settledWorld [reconcile "6" "0x2" "0x2"]).store.bindings.rows,
        b'.bindingID = b.bindingID → b' = b) ∧
    (∃ e ∈ settledWorld.store.events.rows, e.toState = .released ∧
      ∃ row ∈ settledWorld.store.audit.rows, row.operationID = e.operationID ∧ row.outcome = .applied) ∧
    ∃ e ∈ settledWorld.store.events.rows, e.toState = .consumed ∧
      ∃ o ∈ settledWorld.store.observations.rows, o.observationID = e.observationID := by
  obtain ⟨hlife, hreleased, hconsumed, hfinal⟩ := binding_events_faithful settledWorld (after_reachable _)
  have hstates : settledWorld.store.bindings.rows.map (·.state) = [.consumed, .released] := by
    decide +kernel
  have htargets : settledWorld.store.events.rows.map (·.toState) =
      [.allocated, .allocated, .inFlight, .consumed, .released] := by
    decide +kernel
  obtain ⟨b, hb, hconsumedState⟩ : ∃ b ∈ settledWorld.store.bindings.rows,
      b.state = .consumed := mem_map.mp (by rw [hstates]; decide)
  obtain ⟨mined, hmined, hminedTo⟩ : ∃ e ∈ settledWorld.store.events.rows,
      e.toState = .consumed := mem_map.mp (by rw [htargets]; decide)
  obtain ⟨freed, hfreed, hfreedTo⟩ : ∃ e ∈ settledWorld.store.events.rows,
      e.toState = .released := mem_map.mp (by rw [htargets]; decide)
  obtain ⟨row, hrow, hoperation, -, -, houtcome⟩ := hreleased freed hfreed hfreedTo
  obtain ⟨o, ho, hid, -⟩ := hconsumed mined hmined hminedTo
  exact ⟨⟨b, hb, hconsumedState, (hlife b hb).2.2.1, hfinal _ b hb (.inl hconsumedState)⟩,
    ⟨freed, hfreed, hfreedTo, row, hrow, hoperation, houtcome⟩, mined, hmined, hminedTo, o, ho, hid⟩

end TxHarbor.Nonce
