import TxHarbor.Nonce.Scope

open Relational Constrained Tx

namespace TxHarbor.Nonce

/-- The unique carrier an insert of `b` trips over, in index order. -/
def bindingClash (s : Store) (b : Binding) : Constraint :=
  if s.bindings.rows.any (·.bindingID == b.bindingID) then .bindingsPkey
  else if s.bindings.rows.any (·.intentID == b.intentID) then .bindingsIntentUniq
  else .bindingsScopeNonceUniq

def insertBindingTx (b : Binding) : NonceTx Unit := do
  let s ← get
  require (0 ≤ b.nonce ∧ b.nonce ≤ maxNonceBig) (.violation .bindingsNonceRange)
  let bindings ← demand (.violation (bindingClash s b)) (s.bindings.insert? b)
  require (readRegistryBySenderTx s b.toScope).isSome (.violation .bindingsRegistryFkey)
  set { s with bindings := bindings }

/-- `insertBindingEventTx`: a repeated `(binding_id, to_state)` converges without a row. -/
def insertBindingEventTx (ev : BindingEvent) : NonceTx Bool := do
  let s ← get
  match s.events.insert? ev with
  | some events =>
    set { s with events := events }
    pure true
  | none => pure false

/-- The columns `advanceBindingStateSQL` sets. -/
def Binding.moved (target : BindingState) (operationID : String) (now : Int) (b : Binding) : Binding :=
  { b with
    state := target
    consumedAt := if target = .consumed then some now else b.consumedAt
    releasedAt := if target = .released then some now else b.releasedAt
    releaseOperationID :=
      if target = .released then (if operationID = "" then none else some operationID)
      else b.releaseOperationID }

/-- The `WHERE` guard of `advanceBindingStateSQL`. -/
def Binding.standsAt (bindingID : String) (source : BindingState) (b : Binding) : Bool :=
  b.bindingID == bindingID && b.state == source

/-- `advanceBindingStateTx`: one legal edge, guarded by the expected current state. -/
def advanceBindingStateTx (now : Int) (bindingID : String) (target : BindingState)
    (operationID : String) (source : BindingState) : NonceTx Bool := do
  require (canTransition source target = true)
    (.message ("illegal binding transition " ++ source.text ++ " -> " ++ target.text))
  let s ← get
  require (∀ b ∈ s.bindings.rows, b.standsAt bindingID source = true →
      (b.moved target operationID now).terminalConsistent = true)
    (.violation .bindingsTerminalConsistency)
  set { s with bindings := s.bindings.update (Binding.standsAt bindingID source)
                             (Binding.moved target operationID now) (fun _ _ h => h) }
  pure (s.bindings.affected (Binding.standsAt bindingID source) == 1)

variable {s s' : Store}

theorem insertBindingTx_spec {b : Binding} {u : Unit} (h : insertBindingTx b s = .ok (u, s')) :
    (0 ≤ b.nonce ∧ b.nonce ≤ maxNonceBig) ∧ (∀ r ∈ s.bindings.rows, clash r b = false) ∧
      ∃ bindings, s' = { s with bindings := bindings } ∧ bindings.rows = s.bindings.rows ++ [b] := by
  simp only [insertBindingTx, eq_ok] at h
  obtain ⟨_, _, ⟨rfl, rfl⟩, _, _, ⟨hrange, rfl⟩, bindings, _, ⟨hinsert, rfl⟩, _, _, ⟨-, rfl⟩, rfl⟩ := h
  obtain ⟨hfree, hrows⟩ := Table.insert?_eq_some hinsert
  exact ⟨hrange, hfree, bindings, rfl, hrows⟩

/-- An event insert either appends its row or finds the same transition already recorded. -/
theorem insertBindingEventTx_spec {ev : BindingEvent} {created : Bool}
    (h : insertBindingEventTx ev s = .ok (created, s')) : (created = true ∧ ∃ events, s' = { s with events := events } ∧
        events.rows = s.events.rows ++ [ev]) ∨
      (created = false ∧ s' = s ∧ ∃ e ∈ s.events.rows, e.bindingID = ev.bindingID ∧ e.toState = ev.toState) := by
  simp only [insertBindingEventTx, eq_ok] at h
  obtain ⟨_, _, ⟨rfl, rfl⟩, h⟩ := h
  cases hinsert : s.events.insert? ev with
  | some events =>
    simp only [hinsert, eq_ok] at h
    obtain ⟨_, _, rfl, rfl, rfl⟩ := h
    exact .inl ⟨rfl, events, rfl, (Table.insert?_eq_some hinsert).2⟩
  | none =>
    simp only [hinsert, pure_eq_ok] at h
    obtain ⟨rfl, rfl⟩ := h
    obtain ⟨e, he, hclash⟩ := Table.insert?_eq_none hinsert
    refine .inr ⟨rfl, rfl, e, he, ?_⟩
    simpa [clash] using hclash

theorem advanceBindingStateTx_spec {now : Int} {bindingID operationID : String} {target source : BindingState}
    {moved : Bool} (h : advanceBindingStateTx now bindingID target operationID source s = .ok (moved, s')) :
    canTransition source target = true ∧ moved = (s.bindings.affected (Binding.standsAt bindingID source) == 1) ∧
      s' = { s with bindings := s.bindings.update (Binding.standsAt bindingID source)
                                  (Binding.moved target operationID now) (fun _ _ h => h) } := by
  simp only [advanceBindingStateTx, eq_ok] at h
  obtain ⟨_, _, ⟨hedge, rfl⟩, _, _, ⟨rfl, rfl⟩, _, _, ⟨-, rfl⟩, _, _, rfl, rfl, rfl⟩ := h
  exact ⟨hedge, rfl, rfl⟩

end TxHarbor.Nonce
