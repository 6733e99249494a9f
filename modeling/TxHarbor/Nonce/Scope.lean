import TxHarbor.Nonce.Numeric
import TxHarbor.Nonce.Read

open Relational Tx

namespace TxHarbor.Nonce

open Table Option ScopeState

/-- `ensureScopeRowTx`: `ON CONFLICT DO NOTHING`, under the registry foreign key. -/
def ensureScopeRowTx (scope : Scope) : NonceTx Unit := do
  let s ← get
  match s.scopes.insert? ⟨scope, none, none, none, none⟩ with
  | none => pure ()
  | some scopes =>
    require (readRegistryBySenderTx s scope).isSome (.violation .scopeStateRegistryFkey)
    set { s with scopes := scopes }

/-- `lockScopeRowTx`: the row has to exist. -/
def lockScopeRowTx (scope : Scope) : NonceTx Unit := do
  let s ← get
  require (readScopeStateTx s scope).isSome (.message "lock scope row: no rows")

/-- A range check whose failure carries the name of the column. -/
def checkRange (context : String) (n : Option Int) : NonceTx Unit :=
  lift (fun e => .message (context ++ ": " ++ e)) (validateNonceRange n)

/-- The columns `updateScopeFrontierSQL` sets. -/
def ScopeState.observed (latest pending : Int) (observationID : String) (r : ScopeState) : ScopeState :=
  { r with lastLatest := some latest, lastPending := some pending,
           lastObservationID := some observationID }

/-- `updateScopeFrontierTx`: the last observed counts. The floor never moves here. -/
def updateScopeFrontierTx (scope : Scope) (latest pending : Int) (observationID : String) : NonceTx Unit := do
  checkRange "scope last_latest" (some latest)
  checkRange "scope last_pending" (some pending)
  require (observationID ≠ "") (.message "scope frontier update requires an observation id")
  let s ← get
  require (s.scopes.affected (·.toScope == scope) = 1) (.message "scope row missing for frontier update")
  set { s with scopes := s.scopes.update (·.toScope == scope)
                           (ScopeState.observed latest pending observationID) (fun _ _ h => h) }

/-- The column `advanceScopeFloorSQL` sets. -/
def ScopeState.raised (floor : Int) (r : ScopeState) : ScopeState :=
  { r with reconciledFloor := some (max (r.reconciledFloor.getD 0) floor) }

/-- The `WHERE` guard of `advanceScopeFloorSQL` beyond the scope. -/
def ScopeState.floorBelow (floor : Int) (r : ScopeState) : Bool :=
  match r.reconciledFloor with
  | none => true
  | some f => decide (f < floor)

/-- `advanceScopeFloorTx`: the monotone floor update; reports whether the floor moved. -/
def advanceScopeFloorTx (scope : Scope) (floor : Option Int) : NonceTx Bool := do
  checkRange "scope reconciled floor" floor
  let target := floor.getD 0
  let s ← get
  let below : ScopeState → Bool := fun r => r.toScope == scope && r.floorBelow target
  set { s with scopes := s.scopes.update below (ScopeState.raised target) (fun _ _ h => h) }
  pure (s.scopes.affected below == 1)

/-- `scopeFloor`, read through the scope's row. -/
def scopeFloor (s : Store) (scope : Scope) : Option Int := (readScopeStateTx s scope).bind (·.reconciledFloor)

/-- `scopeLastPending`, read through the scope's row. -/
def scopeLastPending (s : Store) (scope : Scope) : Option Int := (readScopeStateTx s scope).bind (·.lastPending)

variable {scope : Scope} {s s' : Store} {u : Unit}

/-- Materialising a scope row changes no floor and no last pending count of any scope. -/
theorem ensureScopeRowTx_spec (h : ensureScopeRowTx scope s = .ok (u, s')) :
    ∃ scopes, s' = { s with scopes := scopes } ∧
      scopeFloor s' = scopeFloor s ∧ scopeLastPending s' = scopeLastPending s := by
  simp only [ensureScopeRowTx, eq_ok] at h
  obtain ⟨_, _, ⟨rfl, rfl⟩, h⟩ := h
  cases hinsert : s.scopes.insert? ⟨scope, none, none, none, none⟩ with
  | none =>
    simp only [hinsert, pure_eq_ok] at h
    obtain ⟨-, rfl⟩ := h
    exact ⟨s.scopes, rfl, rfl, rfl⟩
  | some scopes =>
    simp only [hinsert, eq_ok] at h
    obtain ⟨_, _, ⟨-, rfl⟩, rfl⟩ := h
    obtain ⟨-, hrows⟩ := insert?_eq_some hinsert
    have hread : ∀ other, readScopeStateTx { s with scopes := scopes } other = (readScopeStateTx s other).or
          (if scope == other then some ⟨scope, none, none, none, none⟩ else none) :=
      fun other => select_of_insert hrows
    refine ⟨scopes, rfl, ?_, ?_⟩
    · funext other
      unfold scopeFloor
      rw [hread other]
      cases readScopeStateTx s other with
      | some r => rfl
      | none => by_cases hscope : scope = other <;> simp [hscope]
    · funext other
      unfold scopeLastPending
      rw [hread other]
      cases readScopeStateTx s other with
      | some r => rfl
      | none => by_cases hscope : scope = other <;> simp [hscope]

theorem lockScopeRowTx_spec (h : lockScopeRowTx scope s = .ok (u, s')) :
    s = s' ∧ ∃ r, readScopeStateTx s scope = some r := by
  simp only [lockScopeRowTx, eq_ok] at h
  obtain ⟨_, _, ⟨rfl, rfl⟩, hrow, rfl⟩ := h
  exact ⟨rfl, isSome_iff_exists.mp hrow⟩

/-- A scope lookup after an update of scope rows sees the updated row. -/
private theorem readScopeStateTx_update (s : Store) (q : ScopeState → Bool)
    (f : ScopeState → ScopeState) (hf : KeepsKeys f) (hscope : ∀ r, (f r).toScope = r.toScope) (other : Scope) :
    readScopeStateTx { s with scopes := s.scopes.update q f hf } other =
      (readScopeStateTx s other).map fun r => if q r then f r else r :=
  select_update s.scopes hf fun r => by rw [hscope r]

theorem readScopeStateTx_toScope {r : ScopeState} (h : readScopeStateTx s scope = some r) : r.toScope = scope := by
  simpa using (select_mem h).2

/-- A frontier update replaces the last pending count of its own scope and nothing else that
classification reads. -/
theorem updateScopeFrontierTx_spec {observationID : String} {latest pending : Int}
    (h : updateScopeFrontierTx scope latest pending observationID s = .ok (u, s')) :
    (0 ≤ pending ∧ pending ≤ maxNonceBig) ∧ ∃ scopes, s' = { s with scopes := scopes } ∧ scopeFloor s' = scopeFloor s ∧
        ∀ other, scopeLastPending s' other = if other = scope then some pending else scopeLastPending s other := by
  simp only [updateScopeFrontierTx, checkRange, eq_ok, lift_eq_ok] at h
  obtain ⟨_, _, ⟨-, rfl⟩, _, _, ⟨hrange, rfl⟩, _, _, ⟨-, rfl⟩, _, _, ⟨rfl, rfl⟩, _, _, ⟨hone, rfl⟩, rfl⟩ := h
  have hread := readScopeStateTx_update s (·.toScope == scope)
    (observed latest pending observationID) (fun _ _ h => h) (fun _ => rfl)
  refine ⟨validateNonceRange_eq_ok.mp hrange, _, rfl, ?_, ?_⟩
  · funext other
    unfold scopeFloor
    rw [hread other]
    cases readScopeStateTx s other with
    | none => rfl
    | some r => by_cases hr : r.toScope = scope <;> simp [hr, observed]
  · intro other
    unfold scopeLastPending
    rw [hread other]
    cases hold : readScopeStateTx s other with
    | none =>
      by_cases hother : other = scope
      · subst hother
        obtain ⟨r, hr, hp⟩ := List.countP_pos_iff.mp (hone ▸ Nat.one_pos)
        rw [select_eq_none.mp hold r hr] at hp
        cases hp
      · simp [hother]
    | some r =>
      have hr := readScopeStateTx_toScope hold
      by_cases hother : other = scope <;> simp [hr, hother, observed]

/-- The floor update raises the floor of its own scope to at least the given value. -/
theorem advanceScopeFloorTx_spec {floor : Int} {moved : Bool} {row : ScopeState}
    (h : advanceScopeFloorTx scope (some floor) s = .ok (moved, s')) (hrow : readScopeStateTx s scope = some row) :
    (0 ≤ floor ∧ floor ≤ maxNonceBig) ∧ ∃ scopes, s' = { s with scopes := scopes } ∧
        scopeLastPending s' = scopeLastPending s ∧ ∀ other, scopeFloor s' other =
          if other = scope then some (max ((scopeFloor s scope).getD 0) floor)
          else scopeFloor s other := by
  simp only [advanceScopeFloorTx, checkRange, eq_ok, lift_eq_ok] at h
  obtain ⟨_, _, ⟨hrange, rfl⟩, _, _, ⟨rfl, rfl⟩, _, _, rfl, -, rfl⟩ := h
  have hread := readScopeStateTx_update s (fun r => r.toScope == scope && r.floorBelow floor)
    (raised floor) (fun _ _ h => h) (fun _ => rfl)
  refine ⟨validateNonceRange_eq_ok.mp hrange, _, rfl, ?_, ?_⟩
  · funext other
    unfold scopeLastPending
    rw [getD_some, hread other]
    cases readScopeStateTx s other with
    | none => rfl
    | some r =>
      by_cases hr : (r.toScope == scope && r.floorBelow floor) = true <;>
        simp only [hr, if_true, if_false, map_some, bind_some, raised, Bool.false_eq_true]
  · intro other
    unfold scopeFloor
    rw [getD_some, hread other]
    by_cases hother : other = scope
    · subst hother
      have hr := readScopeStateTx_toScope hrow
      simp only [hrow, hr, beq_self_eq_true, Bool.true_and, map_some, bind_some, if_true]
      cases hfloor : row.reconciledFloor with
      | none => simp [floorBelow, raised, hfloor]
      | some f =>
        by_cases hlt : f < floor
        · simp [floorBelow, raised, hfloor, hlt]
        · simp [floorBelow, hfloor, hlt]
          omega
    · rw [if_neg hother]
      cases hold : readScopeStateTx s other with
      | none => rfl
      | some r =>
        have hr := readScopeStateTx_toScope hold
        simp [hr, hother]

end TxHarbor.Nonce
