import TxHarbor.Nonce.Committed

open Relational Constrained Tx Option

namespace TxHarbor.Nonce

open List World Sample

/-- A successful return stands on the stored row of its intent, however far that row has
advanced since. -/
def Grant.Backed (s : Store) (g : Grant) : Prop :=
  g.binding.intentID = g.request.intentID ∧ ∃ b ∈ s.bindings.rows, g.binding.Advances b

variable {s : Store} {b : Binding} {outcome : Outcome} {fault : Fault TxError} {req : AllocationRequest} {w : World}

variable {g : Grant}

theorem Grant.Backed.grows {s' : Store} (h : g.Backed s) (hgrows : Grows s s') : g.Backed s' := by
  obtain ⟨hintent, b, hb, hadvance⟩ := h
  obtain ⟨b', hb', hadvance'⟩ := hgrows.bindings b hb
  exact ⟨hintent, b', hb', hadvance.trans hadvance'⟩

theorem readBindingByIntentTx_mem {intentID : String} (h : readBindingByIntentTx s intentID = some b) :
    b ∈ s.bindings.rows ∧ b.intentID = intentID := by
  obtain ⟨hmem, hid⟩ := Table.select_mem h
  exact ⟨hmem, by simpa using hid⟩

/-- The intent column is unique, so the read finds the row whenever there is one. -/
theorem readBindingByIntentTx_eq (hb : b ∈ s.bindings.rows) : readBindingByIntentTx s b.intentID = some b := by
  refine Table.select_eq_some ?_ hb (by simp)
  intro a c ha hc
  have heq : a.intentID = c.intentID := by
    rw [beq_iff_eq] at ha hc
    rw [ha, hc]
  simp [clash, heq]

/-- The settled outcomes that carry a binding: an acknowledged admission, or a replay read in a
transaction that was rolled back. -/
theorem settleAllocation_eq_bound {attempt : Attempt TxError AllocationTxResult}
    (h : settleAllocation attempt = .returned (.bound b outcome)) :
    attempt = .committed (.bound b) ∨ attempt = .rolledBack (.replay b) := by
  cases attempt with
  | notOpened | crashed => cases h
  | failed err =>
    simp only [settleAllocation] at h
    split at h <;> cases h
  | committed result =>
    cases result <;> cases h
    exact .inl rfl
  | rolledBack result =>
    cases result <;> cases h
    exact .inr rfl
  | commitUnknown result => cases result <;> cases h

/-- A call that returns a binding returns the stored row of its own intent. -/
theorem allocate_bound {gate : RebuildGate} {view : ChainView} {env : Environment} {mint : Mint}
    (h : (allocate gate view env mint fault req s).1 = .returned (.bound b outcome)) :
    b.intentID = req.intentID ∧ b ∈ (allocate gate view env mint fault req s).2.bindings.rows := by
  rcases allocate_cases gate view env mint fault req s with
    ⟨result, hreturned, hnot⟩ | ⟨done, rfl, hsettled⟩
  · rw [hreturned, AllocateProgress.returned.injEq] at h
    exact absurd h (hnot b outcome)
  rw [hsettled] at h ⊢
  rcases settleAllocation_eq_bound h with hcommitted | hrolled
  · obtain ⟨hrun, -⟩ := attempt_committed hcommitted
    cases allocateInTx_effect hrun with
    | bound _ _ decision pending hfree hnew heffect =>
      refine ⟨heffect.intent, ?_⟩
      rw [heffect.bindings]
      exact mem_append_right _ (mem_singleton.mpr rfl)
  · obtain ⟨⟨s', hrun⟩, -, hsame⟩ := attempt_rolledBack hrolled
    cases allocateInTx_effect hrun with
    | replay _ _ hread hmatch =>
      obtain ⟨hmem, hintent⟩ := readBindingByIntentTx_mem hread
      refine ⟨hintent, ?_⟩
      rwa [hsame]

theorem convergeAfterRace_bound {attempted : Option Int}
    (h : convergeAfterRace fault req attempted s = .returned (.bound b outcome)) :
    readBindingByIntentTx s req.intentID = some b ∧ bindingMatchesInput b req = true := by
  have hresolved : resolveAdmissionRace s req attempted = .ok b := by
    cases hresolve : resolveAdmissionRace s req attempted with
    | error err => cases fault <;> simp [convergeAfterRace, hresolve] at h
    | ok winner =>
      cases fault <;> simp [convergeAfterRace, hresolve] at h <;> rw [h.1]
  unfold resolveAdmissionRace at hresolved
  cases hread : readBindingByIntentTx s req.intentID with
  | none =>
    simp only [hread] at hresolved
    cases attempted with
    | none => cases hresolved
    | some nonce =>
      cases hcarrier : readBindingByScopeNonceTx s req.toScope nonce with
      | none | some c => simp [hcarrier] at hresolved
  | some winner =>
    simp only [hread] at hresolved
    split at hresolved
    next hmatch =>
      cases hresolved
      exact ⟨rfl, hmatch⟩
    · cases hresolved

variable {progress : AllocateProgress}

theorem World.mem_record {w : World} {req : AllocationRequest} (hg : g ∈ (w.record req progress).grants) :
    g ∈ w.grants ∨ ∃ b outcome, progress = .returned (.bound b outcome) ∧ g = ⟨req, b, outcome⟩ := by
  unfold record at hg
  split at hg
  next b outcome =>
    rcases mem_append.mp hg with hold | hnew
    · exact .inl hold
    · exact .inr ⟨b, outcome, rfl, mem_singleton.mp hnew⟩
  all_goals exact .inl hg

/-- The grants of the next world are the old ones and at most one new one, backed by the store
that step leaves. -/
theorem World.next_grants (w : World) (a : Action) (hg : g ∈ (w.next a).grants) :
    g ∈ w.grants ∨ g.Backed (w.next a).store := by
  cases a with
  | reconcile | admin => exact .inl hg
  | allocate gate view env mint fault req =>
    simp only [next, record_store] at hg ⊢
    refine (mem_record hg).imp_right ?_
    rintro ⟨b, outcome, hprogress, hnew⟩
    obtain ⟨hintent, hmem⟩ := allocate_bound hprogress
    exact hnew ▸ ⟨hintent, b, hmem, .refl b⟩
  | converge index attempted fault =>
    simp only [next] at hg ⊢
    cases hrace : w.races[index]? with
    | none =>
      simp only [hrace] at hg
      exact .inl hg
    | some req =>
      simp only [hrace, record_store] at hg ⊢
      refine (mem_record hg).imp_right ?_
      rintro ⟨b, outcome, hprogress, hnew⟩
      obtain ⟨hmem, hintent⟩ := readBindingByIntentTx_mem (convergeAfterRace_bound hprogress).1
      exact hnew ▸ ⟨hintent, b, hmem, .refl b⟩

/-- Every successful return of every run is backed. -/
theorem World.Reachable.backed (h : w.Reachable) : ∀ g ∈ w.grants, g.Backed w.store := by
  refine Transition.Reachable.invariant (I := fun w : World => ∀ g ∈ w.grants, g.Backed w.store) h ?_ ?_
  · intro g hg
    cases hg
  · intro w a hbacked g hg
    rcases w.next_grants a hg with hold | hnew
    · exact (hbacked g hold).grows (w.next_committed a).grows
    · exact hnew

theorem not_bindingMatchesInput (h : b.toScope ≠ req.toScope ∨ b.authorizationID ≠ req.authorizationID) :
    bindingMatchesInput b req ≠ true := by
  intro hmatch
  simp only [bindingMatchesInput, Bool.and_eq_true, beq_iff_eq] at hmatch
  rcases h with hscope | hauth
  · exact hscope (by rw [Scope.mk.injEq]; exact hmatch.1)
  · exact hauth hmatch.2

/-- A call whose intent is already bound to another input set commits nothing and hands back no
binding. -/
theorem allocate_conflict (gate : RebuildGate) (view : ChainView) (env : Environment) (mint : Mint) (fault : Fault TxError)
    (hread : readBindingByIntentTx s req.intentID = some b) (hconflict : bindingMatchesInput b req ≠ true) :
    (allocate gate view env mint fault req s).2 = s ∧
      ∀ c outcome, (allocate gate view env mint fault req s).1 ≠ .returned (.bound c outcome) := by
  rcases allocate_cases gate view env mint fault req s with
    ⟨result, hreturned, hnot⟩ | ⟨done, hdone, hsettled⟩
  · rw [hreturned]
    exact ⟨rfl, fun c outcome heq => hnot c outcome (AllocateProgress.returned.inj heq)⟩
  rw [hsettled]
  have hbody : ∀ result s', allocateInTx env mint req (observe req.toScope .allocation view) s =
      .ok (result, s') → ∃ err, result = .refused err := by
    intro result s' hrun
    cases allocateInTx_effect hrun with
    | refused err => exact ⟨err, rfl⟩
    | replay c _ hread' hmatch =>
      rw [hread, some.injEq] at hread'
      exact absurd (hread' ▸ hmatch) hconflict
    | classified _ _ _ _ hnew | bound _ _ _ _ _ hnew =>
      cases hread.symm.trans hnew
  constructor
  · rw [hdone]
    rcases attempt_store fault (allocateInTx env mint req
      (observe req.toScope .allocation view)) AllocationTxResult.keep s with
      hsame | ⟨result, s', hrun, hkeep, -⟩
    · exact hsame
    · obtain ⟨err, rfl⟩ := hbody result s' hrun
      cases hkeep
  · intro c outcome hbound
    rcases settleAllocation_eq_bound hbound with hcommitted | hrolled
    · rw [hdone] at hcommitted
      obtain ⟨err, herr⟩ := hbody _ _ (attempt_committed hcommitted).1
      cases herr
    · rw [hdone] at hrolled
      obtain ⟨⟨s', hrun⟩, -⟩ := attempt_rolledBack hrolled
      obtain ⟨err, herr⟩ := hbody _ _ hrun
      cases herr

/-- The allocation call an action carries on: a fresh one, or one on its way out of a race. -/
def World.callOf (w : World) : Action → Option AllocationRequest
  | .allocate _ _ _ _ _ req => some req
  | .converge index _ _ => w.races[index]?
  | .reconcile .. | .admin .. => none

theorem World.record_grants (h : ∀ b outcome, progress ≠ .returned (.bound b outcome)) :
    (w.record req progress).grants = w.grants := by
  cases progress with
  | raced | crashed => rfl
  | returned result =>
    cases result with
    | refused | invalid => rfl
    | bound b outcome => exact absurd rfl (h b outcome)

theorem World.next_conflict {a : Action} (hcall : w.callOf a = some req) (hb : b ∈ w.store.bindings.rows)
    (hintent : b.intentID = req.intentID) (hconflict : bindingMatchesInput b req ≠ true) :
    (w.next a).store = w.store ∧ (w.next a).grants = w.grants := by
  have hread : readBindingByIntentTx w.store req.intentID = some b := hintent ▸ readBindingByIntentTx_eq hb
  cases a with
  | reconcile | admin => cases hcall
  | allocate gate view env mint fault call =>
    obtain rfl : call = req := some.inj hcall
    have hcalled := allocate_conflict gate view env mint fault hread hconflict
    refine ⟨?_, record_grants hcalled.2⟩
    rw [next, record_store]
    exact hcalled.1
  | converge index attempted fault =>
    have hrace : w.races[index]? = some req := hcall
    simp only [next, hrace, record_store, true_and]
    refine record_grants ?_
    intro c outcome hbound
    obtain ⟨hread', hmatch⟩ := convergeAfterRace_bound hbound
    rw [hread, some.injEq] at hread'
    exact hconflict (hread' ▸ hmatch)

/-- One binding for each intent and one intent for each nonce, over every interleaving of
allocations, race classifications, reconcile ticks and admin operations: successful returns of
one intent carry one binding id and one nonce, returns of different intents never share a nonce
of a scope, and a call that differs from the stored binding of its intent neither succeeds nor
writes. -/
theorem allocate_intent_nonce_unique (w : World) (hreach : w.Reachable) :
    (∀ g₁ ∈ w.grants, ∀ g₂ ∈ w.grants, g₁.request.intentID = g₂.request.intentID →
      g₁.binding.bindingID = g₂.binding.bindingID ∧ g₁.binding.nonce = g₂.binding.nonce) ∧
    (∀ g₁ ∈ w.grants, ∀ g₂ ∈ w.grants, g₁.request.intentID ≠ g₂.request.intentID →
      ¬ (g₁.binding.toScope = g₂.binding.toScope ∧ g₁.binding.nonce = g₂.binding.nonce)) ∧
    (∀ (a : Action) (req : AllocationRequest), w.callOf a = some req →
      ∀ b ∈ w.store.bindings.rows, b.intentID = req.intentID →
        (b.toScope ≠ req.toScope ∨ b.authorizationID ≠ req.authorizationID) →
          (w.next a).store = w.store ∧ (w.next a).grants = w.grants) := by
  have hbacked := hreach.backed
  refine ⟨?_, ?_, ?_⟩
  · intro g₁ hg₁ g₂ hg₂ hintent
    obtain ⟨hintent₁, b₁, hb₁, hadvance₁⟩ := hbacked g₁ hg₁
    obtain ⟨hintent₂, b₂, hb₂, hadvance₂⟩ := hbacked g₂ hg₂
    have hsame : b₁ = b₂ := by
      apply eq_of_intentID hb₁ hb₂
      rw [hadvance₁.intentID, hadvance₂.intentID, hintent₁, hintent₂, hintent]
    subst hsame
    exact ⟨hadvance₁.bindingID.symm.trans hadvance₂.bindingID, hadvance₁.nonce.symm.trans hadvance₂.nonce⟩
  · rintro g₁ hg₁ g₂ hg₂ hintent ⟨hscope, hnonce⟩
    obtain ⟨hintent₁, b₁, hb₁, hadvance₁⟩ := hbacked g₁ hg₁
    obtain ⟨hintent₂, b₂, hb₂, hadvance₂⟩ := hbacked g₂ hg₂
    have hsame : b₁ = b₂ := by
      apply w.store.bindings.eq_of_clash hb₁ hb₂
      simp [clash, hadvance₁.toScope, hadvance₂.toScope, hadvance₁.nonce, hadvance₂.nonce, hscope, hnonce]
    apply hintent
    rw [← hintent₁, ← hintent₂, ← hadvance₁.intentID, ← hadvance₂.intentID, hsame]
  · intro a req hcall b hb hintent hdiffers
    exact next_conflict hcall hb hintent (not_bindingMatchesInput hdiffers)

/-- Whatever happens later, evidence and audit rows stay, and so does every binding: its facts never change, a terminal
row not at all, and no other row ever has its intent or its nonce in the scope. -/
theorem bound_nonce_kept (w : World) (actions : List Action) :
    let s := (Transition.run next w actions).store
    w.store.observations.rows ⊆ s.observations.rows ∧ w.store.audit.rows ⊆ s.audit.rows ∧
      ∀ b ∈ w.store.bindings.rows, ∃ b' ∈ s.bindings.rows, b.Advances b' ∧ ∀ r ∈ s.bindings.rows,
        r.intentID = b.intentID ∨ r.toScope = b.toScope ∧ r.nonce = b.nonce → r = b' := by
  have hgrows := w.run_grows actions
  refine ⟨hgrows.observations, hgrows.audit, fun b hb => ?_⟩
  obtain ⟨b', hb', hadvance⟩ := hgrows.bindings b hb
  refine ⟨b', hb', hadvance, fun r hr hsame => Table.eq_of_clash _ hr hb' ?_⟩
  rw [← hadvance.intentID, ← hadvance.toScope, ← hadvance.nonce] at hsame
  rcases hsame with hintent | ⟨hscope, hnonce⟩
  · simp [clash, hintent]
  · simp [clash, hscope, hnonce]

/-- Two intents of one wallet. The second call of the first intent trips over the intent's unique
key and reaches its binding through the race classify. -/
def Sample.racedWorld : World := after [register, allocate "intent-1" "1" "0x0" "0x0",
    .allocate ⟨true, ""⟩ (view "0x0" "0x0") env (mint "2")
      (.statementFails (.violation .bindingsIntentUniq)) (request "intent-1"),
    .converge 0 (some 0) .none, allocate "intent-2" "3" "0x0" "0x0"]

/-- A call of the first intent under an authorization its binding does not carry. -/
def Sample.conflictingCall : Action :=
  .allocate ⟨true, ""⟩ (view "0x0" "0x0") env (mint "4") .none ⟨scope, "intent-1", "auth-2"⟩

theorem allocate_intent_nonce_unique_raced : ∃ g₁ ∈ racedWorld.grants, ∃ g₂ ∈ racedWorld.grants,
      ∃ g₃ ∈ racedWorld.grants, g₁.outcome = .allocated ∧ g₂.outcome = .replayed ∧
        g₁.binding.bindingID = g₂.binding.bindingID ∧ g₁.binding.nonce = g₂.binding.nonce ∧
        ¬ (g₁.binding.toScope = g₃.binding.toScope ∧ g₁.binding.nonce = g₃.binding.nonce) ∧
        (racedWorld.next conflictingCall).grants = racedWorld.grants := by
  obtain ⟨hsame, hother, hconflict⟩ := allocate_intent_nonce_unique racedWorld (after_reachable _)
  have h₁ := get_mem racedWorld.grants ⟨0, by decide⟩
  have h₂ := get_mem racedWorld.grants ⟨1, by decide⟩
  have h₃ := get_mem racedWorld.grants ⟨2, by decide⟩
  have hb := get_mem racedWorld.store.bindings.rows ⟨0, by decide⟩
  obtain ⟨hid, hnonce⟩ := hsame _ h₁ _ h₂ (by decide)
  exact ⟨_, h₁, _, h₂, _, h₃, by decide, by decide, hid, hnonce, hother _ h₁ _ h₃ (by decide),
    (hconflict conflictingCall _ rfl _ hb (by decide) (.inr (by decide))).2⟩

end TxHarbor.Nonce
