import TxHarbor.Nonce.AdminEffect
import TxHarbor.Nonce.AllocateEffect
import TxHarbor.Nonce.ReconcileEffect
import TxHarbor.Nonce.World

open Relational Tx

namespace TxHarbor.Nonce

open World BindingsAdvance

/-- Everything one action can have done to the store: nothing, or exactly one committed
transaction that classified the view its caller had sampled. -/
inductive Committed (s : Store) : Action → Store → Prop where
  | idle (a : Action) : Committed s a s
  | refused (gate : RebuildGate) (view : ChainView) (env : Environment) (mint : Mint)
      (fault : Fault TxError) (req : AllocationRequest) (decision : Decision)
      (observationID : String) (s' : Store) (hnew : readBindingByIntentTx s req.intentID = none)
      (heffect : RefusedEffect req (observe req.toScope .allocation view) decision observationID
        s s') : Committed s (.allocate gate view env mint fault req) s'
  | admitted (gate : RebuildGate) (view : ChainView) (env : Environment) (mint : Mint)
      (fault : Fault TxError) (req : AllocationRequest) (decision : Decision) (pending : Int)
      (b : Binding) (s' : Store) (hfree : ∀ cause, ¬ Held s req.toScope cause)
      (hnew : readBindingByIntentTx s req.intentID = none)
      (heffect : AdmittedEffect req (observe req.toScope .allocation view) decision pending b
        s s') : Committed s (.allocate gate view env mint fault req) s'
  | reconciled (view : ChainView) (now : Int) (mint : Mint) (fault : Fault TxError)
      (scope : Scope) (decision : Decision) (observationID : String) (s' : Store)
      (heffect : ReconcileEffect scope (observe scope .reconcile view) decision observationID
        s s') : Committed s (.reconcile view now mint fault scope) s'
  | administered (view : ChainView) (env : Environment) (mint : Mint) (fault : Fault TxError)
      (req : AdminRequest) (outcome : Outcome) (s₁ : Store) (audit : Table AdminAudit)
      (row : AdminAudit)
      (heffect : AdminEffect req (observe req.toScope .reconcile view) env.now s outcome s₁)
      (hrows : audit.rows = s₁.audit.rows ++ [row]) (haudited : Audited req outcome row) :
      Committed s (.admin view env mint fault req) { s₁ with audit := audit }

theorem allocate_committed (gate : RebuildGate) (view : ChainView) (env : Environment)
    (mint : Mint) (fault : Fault TxError) (req : AllocationRequest) (s : Store) :
    Committed s (.allocate gate view env mint fault req) (allocate gate view env mint fault req s).2 := by
  rcases allocate_cases gate view env mint fault req s with
    ⟨result, hreturned, -⟩ | ⟨done, rfl, hsettled⟩
  · rw [hreturned]
    exact .idle _
  rw [hsettled]
  rcases attempt_store fault (allocateInTx env mint req (observe req.toScope .allocation view))
    AllocationTxResult.keep s with hsame | ⟨result, s', hrun, hkeep, hs'⟩
  · rw [hsame]
    exact .idle _
  · rw [hs']
    cases allocateInTx_effect hrun with
    | refused | replay => cases hkeep
    | classified err _ decision observationID hnew heffect =>
      exact .refused gate view env mint fault req decision observationID s' hnew heffect
    | bound b _ decision pending hfree hnew heffect =>
      exact .admitted gate view env mint fault req decision pending b s' hfree hnew heffect

theorem adminRun_committed (view : ChainView) (env : Environment) (mint : Mint)
    (fault : Fault TxError) (req : AdminRequest) (s : Store) :
    Committed s (.admin view env mint fault req) (adminRun view env mint fault req s).2 := by
  unfold adminRun
  cases req.validate with
  | error text => exact .idle _
  | ok u =>
    rcases attempt_store fault (adminAttemptInTx env mint req
      (observe req.toScope .reconcile view)) (fun _ => true) s with
      hsame | ⟨out, s', hrun, -, hs'⟩
    · simp only [hsame]
      exact .idle _
    · simp only [hs']
      obtain ⟨s₁, audit, row, heffect, rfl, hrows, haudited⟩ := adminAttemptInTx_effect hrun
      exact .administered view env mint fault req out.outcome s₁ audit row heffect hrows haudited

theorem reconcileScope_committed (view : ChainView) (now : Int) (mint : Mint)
    (fault : Fault TxError) (scope : Scope) (s : Store) :
    Committed s (.reconcile view now mint fault scope) (reconcileScope view now mint fault scope s) := by
  unfold reconcileScope
  rcases attempt_store fault (reconcileScopeInTx now mint scope
    (observe scope .reconcile view)) (fun _ => true) s with hsame | ⟨u, s', hrun, -, hs'⟩
  · rw [hsame]
    exact .idle _
  · rw [hs']
    obtain ⟨decision, observationID, heffect⟩ := (reconcileScopeInTx_spec hrun).2
    exact .reconciled view now mint fault scope decision observationID s' heffect

@[simp] theorem World.record_store (w : World) (req : AllocationRequest)
    (progress : AllocateProgress) : (w.record req progress).store = w.store := by
  cases progress with
  | returned result => cases result <;> rfl
  | raced | crashed => rfl

/-- One action of any interleaving commits at most one transaction. -/
theorem World.next_committed (w : World) (a : Action) : Committed w.store a (w.next a).store := by
  cases a with
  | allocate gate view env mint fault req =>
    simp only [next, record_store]
    exact allocate_committed gate view env mint fault req w.store
  | converge index attempted fault =>
    simp only [next]
    cases w.races[index]? with
    | none => exact .idle _
    | some req =>
      simp only [record_store]
      exact .idle _
  | reconcile view now mint fault scope =>
    exact reconcileScope_committed view now mint fault scope w.store
  | admin view env mint fault req => exact adminRun_committed view env mint fault req w.store

variable {s s' : Store} {a : Action}

/-- The code's transactions simulate the abstract frontier moves, scope by scope. -/
theorem Committed.step (h : Committed s a s') (scope : Scope) : (frontier s scope).Step (frontier s' scope) := by
  cases h with
  | idle => exact .idle
  | refused _ _ _ _ _ req decision observationID _ hnew heffect
  | reconciled _ _ _ _ _ decision observationID _ heffect =>
    exact heffect.observed.step heffect.classified scope
  | admitted _ _ _ _ _ req decision pending b _ hfree hnew heffect =>
    exact heffect.step hfree scope
  | administered _ _ _ _ req outcome s₁ audit row heffect hrows haudited => exact heffect.step scope

/-- What no transaction takes back: evidence and audit rows stay, and every binding stays as an
advance of itself. -/
structure Grows (s s' : Store) : Prop where
  bindings : ∀ b ∈ s.bindings.rows, ∃ b' ∈ s'.bindings.rows, b.Advances b'
  observations : s.observations.rows ⊆ s'.observations.rows
  audit : s.audit.rows ⊆ s'.audit.rows

theorem Grows.refl (s : Store) : Grows s s := ⟨fun b hb => ⟨b, hb, .refl b⟩, List.Subset.refl _, List.Subset.refl _⟩

theorem Grows.trans {s₁ s₂ s₃ : Store} (h₁₂ : Grows s₁ s₂) (h₂₃ : Grows s₂ s₃) : Grows s₁ s₃ := by
  refine ⟨fun b hb => ?_, List.Subset.trans h₁₂.observations h₂₃.observations, List.Subset.trans h₁₂.audit h₂₃.audit⟩
  obtain ⟨b₂, hb₂, hadvance₂⟩ := h₁₂.bindings b hb
  obtain ⟨b₃, hb₃, hadvance₃⟩ := h₂₃.bindings b₂ hb₂
  exact ⟨b₃, hb₃, hadvance₂.trans hadvance₃⟩

theorem BindingsAdvance.persist (h : BindingsAdvance s s') :
    ∀ b ∈ s.bindings.rows, ∃ b' ∈ s'.bindings.rows, b.Advances b' := by
  obtain ⟨f, hrows, hadvance⟩ := h
  exact fun b hb => ⟨f b, hrows ▸ List.mem_map_of_mem hb, hadvance b⟩

theorem Grows.appended {row : Observation} (hbindings : ∀ b ∈ s.bindings.rows, ∃ b' ∈ s'.bindings.rows, b.Advances b')
    (hrows : s'.observations.rows = s.observations.rows ++ [row]) (haudit : s'.audit = s.audit) : Grows s s' :=
  ⟨hbindings, hrows ▸ List.subset_append_left _ _, haudit ▸ List.Subset.refl _⟩

theorem AdminEffect.grows {req : AdminRequest} {obs : Observation} {now : Int} {outcome : Outcome}
    (h : AdminEffect req obs now s outcome s') : Grows s s' := by
  cases h with
  | unchanged => exact .refl s
  | registry =>
    exact ⟨(of_eq rfl).persist, List.Subset.refl _, List.Subset.refl _⟩
  | clear pending _ haction heffect =>
    obtain ⟨row, hrows, -⟩ := heffect.observations
    exact .appended (of_eq heffect.bindings).persist hrows heffect.audit
  | dispose b e _ haction heffect =>
    have hpersist := heffect.advance.persist
    obtain ⟨bindings, events, rfl⟩ := heffect.rest
    exact ⟨hpersist, List.Subset.refl _, List.Subset.refl _⟩

theorem Committed.grows (h : Committed s a s') : Grows s s' := by
  cases h with
  | idle => exact .refl s
  | refused _ _ _ _ _ req decision observationID _ hnew heffect =>
    exact .appended (of_eq heffect.bindings).persist heffect.observations heffect.audit
  | admitted _ _ _ _ _ req decision pending b _ hfree hnew heffect =>
    refine .appended (fun r hr => ⟨r, ?_, .refl r⟩) heffect.observations heffect.audit
    rw [heffect.bindings]
    exact List.mem_append_left _ hr
  | reconciled _ _ _ _ _ decision observationID _ heffect =>
    exact .appended heffect.advance.persist heffect.observations heffect.audit
  | administered _ _ _ _ req outcome s₁ audit row heffect hrows haudited =>
    refine heffect.grows.trans ⟨(of_eq rfl).persist, List.Subset.refl _, ?_⟩
    change s₁.audit.rows ⊆ audit.rows
    rw [hrows]
    exact List.subset_append_left _ _

/-- Along every run the store only grows. -/
theorem World.run_grows (w : World) (actions : List Action) : Grows w.store (Transition.run next w actions).store :=
  Transition.run_related (R := fun v w : World => Grows v.store w.store) (fun w => .refl w.store) (fun _ _ _ h₁ h₂ => h₁.trans h₂)
    (fun w a => (w.next_committed a).grows) w actions

/-- Every scope of every reachable world is sound. -/
theorem World.Reachable.sound {w : World} (h : w.Reachable) (scope : Scope) : (frontier w.store scope).Sound := by
  refine Transition.Reachable.invariant (I := fun w => (frontier w.store scope).Sound) h ?_ ?_
  · have hstart : frontier start.store scope = Frontier.start :=
      frontier_eq (by simp [boundNonces, start, Store.empty, Frontier.start]) rfl rfl
        (by simp [frontier, Held, start, Store.empty, Frontier.start])
    rw [hstart]
    exact Frontier.start_sound
  · exact fun w a hsound => hsound.step ((w.next_committed a).step scope)

end TxHarbor.Nonce
