import TxHarbor.Nonce.Committed

open Relational

namespace TxHarbor.Nonce

open List Sample

/-- A binding of the next store is a stored one, or the one this action has admitted. -/
theorem Committed.binding_cases {s s' : Store} {a : Action} (h : Committed s a s') {b : Binding}
    (hb : b ∈ s'.bindings.rows) :
    (∃ r ∈ s.bindings.rows, r.bindingID = b.bindingID) ∨
      ∃ req view decision pending, AdmittedEffect req (observe req.toScope .allocation view)
        decision pending b s s' := by
  have hadvance : BindingsAdvance s s' → ∃ r ∈ s.bindings.rows, r.bindingID = b.bindingID := by
    rintro ⟨f, hrows, hadvance⟩
    rw [hrows] at hb
    obtain ⟨r, hr, rfl⟩ := mem_map.mp hb
    exact ⟨r, hr, (hadvance r).bindingID.symm⟩
  cases h with
  | idle => exact .inl ⟨b, hb, rfl⟩
  | refused _ _ _ _ _ req decision observationID _ hnew heffect =>
    exact .inl (hadvance (.of_eq heffect.bindings))
  | admitted _ view _ _ _ req decision pending c _ hfree hnew heffect =>
    rw [heffect.bindings] at hb
    rcases Transition.mem_concat_cases hb with hold | rfl
    · exact .inl ⟨b, hold, rfl⟩
    · exact .inr ⟨req, view, decision, pending, heffect⟩
  | reconciled _ _ _ _ _ decision observationID _ heffect => exact .inl (hadvance heffect.advance)
  | administered _ _ _ _ req outcome s₁ audit row heffect hrows haudited =>
    left
    cases heffect with
    | unchanged | registry => exact ⟨b, hb, rfl⟩
    | clear pending _ haction heffect => exact hadvance (.of_eq heffect.bindings)
    | dispose c e _ haction heffect => exact hadvance heffect.advance

/-- The nonces ever bound in a scope form one interval after every run, and each admission
continues it: above everything bound before, not below the pending count of the observation
recorded for it, and within the range of an account nonce. -/
theorem bound_nonces_contiguous (w : World) (hreach : w.Reachable) :
    (∀ scope, ∀ low ∈ boundNonces w.store scope, ∀ high ∈ boundNonces w.store scope,
      ∀ n, low ≤ n → n ≤ high → n ∈ boundNonces w.store scope) ∧
    (∀ a, ∀ b ∈ (w.next a).store.bindings.rows, (∀ r ∈ w.store.bindings.rows, r.bindingID ≠ b.bindingID) →
        (∀ r ∈ w.store.bindings.rows, r.toScope = b.toScope → r.nonce < b.nonce) ∧
        (∃ o ∈ (w.next a).store.observations.rows, o.observationID = b.allocationObservationID ∧
          o.toScope = b.toScope ∧ ∃ pending, o.pendingCount = some pending ∧ pending ≤ b.nonce) ∧
        b.nonce ≤ 2 ^ 64 - 1) := by
  refine ⟨?_, ?_⟩
  · intro scope low hlow high hhigh n hle hge
    exact (hreach.sound scope).connected.out hlow hhigh ⟨hle, hge⟩
  · intro a b hb hnew
    rcases (w.next_committed a).binding_cases hb with
      ⟨r, hr, hid⟩ | ⟨req, view, decision, pending, h⟩
    · exact absurd hid (hnew r hr)
    obtain ⟨habove, hpending⟩ := (hreach.sound req.toScope).admits_above h.admits
    refine ⟨?_, ?_, h.range.2⟩
    · intro r hr hscope
      exact habove r.nonce ⟨r, hr, hscope.trans h.scope, rfl⟩
    · obtain ⟨latest, hview⟩ := h.clean
      have hcount : (observe req.toScope .allocation view).pendingCount = some pending := hview.pending_eq
      refine ⟨evidenceRow _ decision b.allocationObservationID, ?_, rfl, ?_, pending, hcount, hpending⟩
      · rw [h.observations]
        exact mem_append_right _ (mem_singleton.mpr rfl)
      · exact (observe_toScope req.toScope .allocation view).trans h.scope.symm

/-- A wallet whose first transactions were sent elsewhere, with two bindings of its own. -/
def Sample.bootstrappedWorld : World :=
  Sample.after [Sample.register, Sample.allocate "intent-1" "1" "0x5" "0x7", Sample.allocate "intent-2" "2" "0x5" "0x7"]

theorem bound_nonces_contiguous_bootstrapped : (8 : Int) ∈ boundNonces Sample.bootstrappedWorld.store Sample.scope ∧
      ∃ b ∈ (Sample.bootstrappedWorld.next (Sample.allocate "intent-3" "3" "0x6" "0x8")).store.bindings.rows,
        b.intentID = "intent-3" ∧
        (∀ r ∈ Sample.bootstrappedWorld.store.bindings.rows,
          r.toScope = b.toScope → r.nonce < b.nonce) ∧ b.nonce ≤ 2 ^ 64 - 1 := by
  obtain ⟨hinterval, hadmission⟩ := bound_nonces_contiguous bootstrappedWorld (after_reachable _)
  have hlow : (7 : Int) ∈ boundNonces bootstrappedWorld.store scope := by
    exact ⟨_, get_mem _ ⟨0, by decide⟩, by decide, by decide⟩
  have hhigh : (8 : Int) ∈ boundNonces bootstrappedWorld.store scope := by
    exact ⟨_, get_mem _ ⟨1, by decide⟩, by decide, by decide⟩
  have hb := get_mem (bootstrappedWorld.next
    (Sample.allocate "intent-3" "3" "0x6" "0x8")).store.bindings.rows ⟨2, by decide⟩
  obtain ⟨habove, -, hrange⟩ := hadmission _ _ hb (by decide)
  exact ⟨hinterval _ 7 hlow 8 hhigh 8 (by decide) (by decide), _, hb, by decide, habove, hrange⟩

end TxHarbor.Nonce
