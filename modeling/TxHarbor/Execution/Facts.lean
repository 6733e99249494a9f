import TxHarbor.Execution.Effect
import TxHarbor.Execution.Worker

open Relational List Option Bool

namespace TxHarbor.Execution

open Store LifecycleFacts

/-! What the lifecycle facts say about the attempts. -/

variable {s s' : Store}

variable {a : TxAttempt} {id : AttemptID}

namespace Store

theorem currentAttempt_mem (h : s.currentAttempt = some a) : a ∈ s.attempts.rows := mem_of_getLast? h

/-- An attempt is found by its identity. -/
theorem attempt?_of_mem (h : a ∈ s.attempts.rows) : s.attempt? a.id = some a := by
  refine Table.select_eq_some (fun b c hb hc => ?_) h (beq_self_eq_true a.id)
  rw [beq_iff_eq] at hb hc
  simp only [Constrained.clash, hb, hc, beq_self_eq_true, Bool.true_or]

theorem facts_currentState_none (h : s.currentAttempt = none) : s.facts.currentState = none := by
  simp only [currentState, facts, h]
  rfl

theorem freeze_of_untreated (h : s.treatedFrozen = false) : s.freeze ≠ some false := by
  intro hfreeze
  rw [treatedFrozen, or_eq_false_iff] at h
  simp only [frozen, facts, if_pos hfreeze, any_some] at h
  cases h.1

theorem facts_unknown_none (hfrozen : s.treatedFrozen = false) (h : ∀ a ∈ s.attempts.rows, a.state ≠ .unknown) :
    s.facts.unknown = none := by
  have hnone : (s.attempts.rows.filter fun a => a.state == .unknown) = [] := by
    rw [filter_eq_nil_iff]
    intro a ha
    simpa using h a ha
  simp only [facts, if_neg (freeze_of_untreated hfrozen), hnone]
  rfl

end Store

/-- The attempts keep their identities. -/
def Store.SameIDs (s s' : Store) : Prop := s'.attempts.rows.map TxAttempt.id = s.attempts.rows.map TxAttempt.id

theorem Store.SameIDs.refl (s : Store) : s.SameIDs s := rfl

/-- Row by row: the attempt `id` may change, any other one stays or is replaced. -/
def Store.Touches (id : AttemptID) (s s' : Store) : Prop :=
  ∃ f : TxAttempt → TxAttempt, s'.attempts.rows = s.attempts.rows.map f ∧
    ∀ a, (f a).id = a.id ∧ (f a).signingRequest = a.signingRequest ∧ (a.id ≠ id → f a = a ∨ (f a).state = .replaced)

namespace Store

theorem Touches.of_eq (h : s'.attempts = s.attempts) : s.Touches id s' :=
  ⟨fun a => a, by rw [h, List.map_id'], fun _ => ⟨rfl, rfl, fun _ => .inl rfl⟩⟩

theorem Touches.trans {s₁ s₂ s₃ : Store} (h : s₁.Touches id s₂) (h' : s₂.Touches id s₃) : s₁.Touches id s₃ := by
  obtain ⟨f, hrows, hf⟩ := h
  obtain ⟨g, hrows', hg⟩ := h'
  refine ⟨g ∘ f, by rw [hrows', hrows, List.map_map], ?_⟩
  intro a
  refine ⟨(hg (f a)).1.trans (hf a).1, (hg (f a)).2.1.trans (hf a).2.1, fun hne => ?_⟩
  rcases (hg (f a)).2.2 (by rwa [(hf a).1]) with hsame | hreplaced
  · rw [Function.comp, hsame]
    exact (hf a).2.2 hne
  · exact .inr hreplaced

theorem Touches.sameIDs (h : s.Touches id s') : s.SameIDs s' := by
  obtain ⟨f, hrows, hf⟩ := h
  rw [Store.SameIDs, hrows, List.map_map]
  exact map_congr_left fun a _ => (hf a).1

theorem moveAttempt_touches (s : Store) (id : AttemptID) (state : AttemptState) :
    s.Touches id (s.moveAttempt id state) := by
  refine ⟨fun a => if a.id == id then a.move state else a, rfl, fun a => ?_⟩
  dsimp only
  split
  next hid => exact ⟨rfl, rfl, fun hne => absurd (beq_iff_eq.mp hid) hne⟩
  · exact ⟨rfl, rfl, fun _ => .inl rfl⟩

theorem replaceSiblings_touches (s : Store) (id : AttemptID) : s.Touches id (s.replaceSiblings id) := by
  refine ⟨fun a => if a.id != id && !a.state.settled then a.move .replaced else a, rfl, fun a => ?_⟩
  dsimp only
  split
  · exact ⟨rfl, rfl, fun _ => .inr rfl⟩
  · exact ⟨rfl, rfl, fun _ => .inl rfl⟩

theorem Writes.touches {s₁ s₂ : Store} (h : s₁.Writes id s₂) (hs : s.Touches id s₁) : s.Touches id s₂ := by
  refine hs.trans ?_
  cases h with
  | move state => exact s₁.moveAttempt_touches id state
  | replace => exact s₁.replaceSiblings_touches id
  | receipts | freeze | events => exact .of_eq rfl

end Store

/-- A reconcile of one attempt. -/
theorem reconcileAttempt_touches {view : ChainView} {probe : Probe} {u : Unit}
    (h : reconcileAttempt view id probe s = .ok (u, s')) : s.Touches id s' :=
  reconcileAttempt_induction (fun _ _ => Store.Writes.touches) h (.of_eq rfl)

/-- The operations of the attempt lifecycle after the prepare. -/
def Operation.observes : Operation → Bool
  | .sign _ | .dispatch _ _ _ _ _ | .recordWriteFailure _ _ _ _ | .reconcile _ _ _ | .releaseFreeze _ => true
  | _ => false

/-- They leave the execution tables and the identities of the attempts alone. -/
theorem Operation.observes_frame {t : ClaimTimings} {op : Operation} (hop : op.observes = true)
    (h : op.body t s = .ok ((), s')) : s.SameIDs s' ∧ s.Lifecycle s' := by
  cases op with
  | sign id =>
    obtain ⟨a, -, -, rfl⟩ := signAndPersist_spec h
    exact ⟨(s.moveAttempt_touches id .signed).sameIDs, rfl⟩
  | dispatch id h' kind gates outcome =>
    obtain ⟨-, a, row, -, -, -, rfl⟩ := sendRegion_spec h
    exact ⟨(s.moveAttempt_touches id _).sameIDs, rfl⟩
  | recordWriteFailure id h' kind pauseObserved =>
    obtain ⟨a, row, -, -, rfl⟩ := recordRegionWriteFailure_spec h
    exact ⟨(s.moveAttempt_touches id _).sameIDs, rfl⟩
  | reconcile view id probe => exact ⟨(reconcileAttempt_touches h).sameIDs, reconcileAttempt_lifecycle h⟩
  | releaseFreeze permitted =>
    obtain ⟨-, -, rfl⟩ := releaseFreeze_spec h
    exact ⟨.refl s, rfl⟩
  | _ => cases hop

theorem Store.detectFreeze_tables (s : Store) (view : ChainView) (id : AttemptID) :
    (s.detectFreeze view id).attempts = s.attempts ∧ (s.detectFreeze view id).receipts = s.receipts := by
  unfold detectFreeze
  split <;> exact ⟨rfl, rfl⟩

theorem Store.attempt?_moveAttempt (s : Store) (id : AttemptID) (state : AttemptState) :
    (s.moveAttempt id state).attempt? id = (s.attempt? id).map (TxAttempt.move state) := by
  unfold attempt? moveAttempt
  dsimp only
  rw [Table.select_update s.attempts (TxAttempt.move_keepsKeys state) fun _ => rfl]
  cases hsel : s.attempts.select fun a => a.id == id with
  | none => rfl
  | some a => rw [map_some, map_some, if_pos (Table.select_mem hsel).2]

end TxHarbor.Execution
