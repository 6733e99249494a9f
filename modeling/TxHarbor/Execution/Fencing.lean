import TxHarbor.Execution.Effect

open Relational Tx Transition Option

namespace TxHarbor.Execution

open Operation Store Claim

/-! The claim row over whole interleavings. -/

variable {t : ClaimTimings} {s s' : Store}

/-- The version is over: a later one was acquired, or it was released or revoked. -/
def Store.Ended (s : Store) (version : Nat) : Prop :=
  ∃ c, s.claim = some c ∧ (version < c.leaseVersion ∨ c.leaseVersion = version ∧ c.state ≠ .active)

/-- The version a committed operation ends: a takeover or a new claim the one before it, a release and
a revocation their own. -/
def Operation.ends (s : Store) : Operation → Option Nat
  | .claim _ _ | .acquire _ => s.claim.map Claim.leaseVersion
  | .release h => some h.leaseVersion
  | .revoke version => some version
  | _ => none

/-- The qualification an operation is performed under. -/
def Operation.fence : Operation → Option Holder
  | .renew h | .advanceProgress h | .converge h _ _ | .dispatch _ h _ _ _ => some h
  | .issue req _ => some req.holder
  | _ => none

/-- Whether an operation acquires the claim. -/
def Operation.acquires : Operation → Bool
  | .claim _ _ | .acquire _ => true
  | _ => false

/-- The row keeps its holder and its state; only a renewal moves the expiry. -/
structure Claim.Lives (t : ClaimTimings) (now : Int) (c c' : Claim) : Prop where
  owner : c'.owner = c.owner
  version : c'.leaseVersion = c.leaseVersion
  state : c'.state = c.state
  expiry : c'.expiresAt = c.expiresAt ∨ c'.expiresAt = now + t.ttl

/-- What a committed operation does to the claim row. -/
structure ClaimEffect (t : ClaimTimings) (s : Store) (op : Operation) (s' : Store) : Prop where
  now : s'.now = s.now
  acquired : op.acquires = true → ∃ c, s'.claim = some c ∧
    c.leaseVersion = (s.claim.map Claim.leaseVersion).getD 0 + 1 ∧ c.state = .active
  kept : op.acquires = false → s'.claim = s.claim ∨ ∃ c c', s.claim = some c ∧ s'.claim = some c' ∧
    c'.owner = c.owner ∧ c'.leaseVersion = c.leaseVersion ∧ (c.state ≠ .active → c'.state = c.state)
  lives : op.acquires = false → op.ends s = none → ∀ c, s.claim = some c → ∃ c', s'.claim = some c' ∧ c.Lives t s.now c'
  ended : ∀ version, op.ends s = some version → s'.Ended version
  fenced : ∀ h, op.fence = some h → s.holds h = true

variable {op : Operation} {h : Holder} {version : Nat} {c : Claim}

section

variable (hnow : s'.now = s.now)
include hnow

/-- An operation that neither acquires nor ends nor needs a claim. -/
theorem ClaimEffect.frame (hclaim : s'.claim = s.claim) (hacquires : op.acquires = false)
    (hends : op.ends s = none) (hfence : op.fence = none) :
    ClaimEffect t s op s' where
  now := hnow
  acquired h := by
    cases hacquires.symm.trans h
  kept _ := .inl hclaim
  lives _ _ c hc := ⟨c, hclaim.trans hc, rfl, rfl, rfl, .inl rfl⟩
  ended version h := by
    cases hends.symm.trans h
  fenced h hh := by
    cases hfence.symm.trans hh

/-- An operation under a qualification that leaves the owner, the version and the state alone. -/
theorem ClaimEffect.fencedBy (hholds : s.holds h = true)
    (hclaim : ∀ c, s.claim = some c → ∃ c', s'.claim = some c' ∧ c.Lives t s.now c') (hacquires : op.acquires = false)
    (hends : op.ends s = none) (hfence : op.fence = some h) :
    ClaimEffect t s op s' where
  now := hnow
  acquired hop := by
    cases hacquires.symm.trans hop
  kept _ := by
    obtain ⟨c, hc, -⟩ := holds_eq_true.mp hholds
    obtain ⟨c', hc', hlives⟩ := hclaim c hc
    exact .inr ⟨c, c', hc, hc', hlives.owner, hlives.version, fun _ => hlives.state⟩
  lives _ _ := hclaim
  ended version hop := by
    cases hends.symm.trans hop
  fenced h' hh := by
    rw [hfence, some.injEq] at hh
    exact hh ▸ hholds

theorem ClaimEffect.acquisition {owner : Owner} (hversion : version = (s.claim.map leaseVersion).getD 0 + 1)
    (hclaim : s'.claim = some (Execution.acquired t owner version s.now)) (hacquires : op.acquires = true)
    (hends : op.ends s = s.claim.map leaseVersion) (hfence : op.fence = none) : ClaimEffect t s op s' where
  now := hnow
  acquired _ := ⟨_, hclaim, hversion, rfl⟩
  kept hop := by
    cases hacquires.symm.trans hop
  lives hop := by
    cases hacquires.symm.trans hop
  ended ended hop := by
    rw [hends] at hop
    refine ⟨_, hclaim, .inl ?_⟩
    change ended < version
    rw [hversion, hop, getD_some]
    omega
  fenced h hh := by
    cases hfence.symm.trans hh

/-- The end of an active version by a release or a revocation. -/
theorem ClaimEffect.ending {c' : Claim} (hc : s.claim = some c) (hc' : s'.claim = some c')
    (howner : c'.owner = c.owner) (hversion : c'.leaseVersion = c.leaseVersion) (hactive : c.state = .active)
    (hdone : c'.state ≠ .active) (hacquires : op.acquires = false) (hends : op.ends s = some c.leaseVersion)
    (hfence : op.fence = none) : ClaimEffect t s op s' where
  now := hnow
  acquired hop := by
    cases hacquires.symm.trans hop
  kept _ := .inr ⟨c, c', hc, hc', howner, hversion, fun h => absurd hactive h⟩
  lives _ hop := by
    cases hends.symm.trans hop
  ended version hop := by
    rw [hends, some.injEq] at hop
    exact ⟨c', hc', .inr ⟨hversion.trans hop, hdone⟩⟩
  fenced h hh := by
    cases hfence.symm.trans hh

end

theorem Store.progressed_kept (c : Claim) (hc : s.claim = some c) :
    ∃ c', s.progressed = some c' ∧ c.Lives t s.now c' := by
  refine ⟨{ c with lastProgressAt := s.now }, ?_, rfl, rfl, rfl, .inl rfl⟩
  rw [progressed, hc]
  rfl

theorem Store.Lifecycle.claim (h : s.Lifecycle s') : s'.now = s.now ∧ s'.claim = s.claim := by
  rw [h]
  exact ⟨rfl, rfl⟩

/-- What each operation does to the claim, case by case. -/
theorem Operation.claim_effect (h : op.body t s = .ok ((), s')) : ClaimEffect t s op s' := by
  cases op with
  | admitIntent =>
    obtain ⟨-, rfl⟩ := admitIntent_spec h
    exact .frame rfl rfl rfl rfl rfl
  | claim owner onlyStall =>
    simp only [Operation.body, eq_ok] at h
    obtain ⟨version, s₁, hclaim, -, rfl⟩ := h
    obtain ⟨e, -, hs, -, hversion, hnew⟩ := claimTx_spec hclaim
    exact .acquisition (by rw [hs]) hversion hnew rfl rfl rfl
  | acquire owner =>
    simp only [Operation.body, eq_ok] at h
    obtain ⟨version, s₁, hclaim, -, rfl⟩ := h
    obtain ⟨hs, -, hversion, hnew⟩ := acquire_spec hclaim
    exact .acquisition (by rw [hs]) hversion hnew rfl rfl rfl
  | renew h' =>
    obtain ⟨hholds, rfl⟩ := fencedUpdate_spec (h := h') (f := fun c now => { c with expiresAt := now + t.ttl }) h
    refine .fencedBy rfl hholds (fun c hc => ⟨{ c with expiresAt := s.now + t.ttl }, ?_, rfl, rfl, rfl, .inr rfl⟩) rfl rfl
      rfl
    rw [hc]
    rfl
  | advanceProgress h' =>
    obtain ⟨hholds, rfl⟩ := fencedUpdate_spec (h := h') (f := fun c now => { c with lastProgressAt := now }) h
    exact .fencedBy rfl hholds (fun c hc => progressed_kept c hc) rfl rfl rfl
  | release h' =>
    obtain ⟨c, hc, hversion, hactive, rfl⟩ := release_spec h
    exact .ending rfl hc rfl rfl rfl hactive (by rintro ⟨⟩) rfl (congrArg some hversion.symm) rfl
  | revoke version =>
    obtain ⟨c, hc, hversion, hactive, rfl⟩ := revokeClaim_spec h
    exact .ending rfl hc rfl rfl rfl hactive (by rintro ⟨⟩) rfl (congrArg some hversion.symm) rfl
  | sweepStalls =>
    rcases sweepStalls_spec h with rfl | ⟨c, hc, rfl⟩
    · exact .frame rfl rfl rfl rfl rfl
    · refine ⟨rfl, (by rintro ⟨⟩), fun _ => .inr ⟨c, _, hc, rfl, rfl, rfl, fun _ => rfl⟩, fun _ _ c' hc' => ?_,
        (by rintro _ ⟨⟩), (by rintro _ ⟨⟩)⟩
      obtain rfl := some.inj (hc.symm.trans hc')
      exact ⟨_, rfl, rfl, rfl, rfl, .inl rfl⟩
  | toClaimed h' =>
    rcases transitionFrom_spec h with rfl | ⟨intent, -, -, -, rfl⟩ <;> exact .frame rfl rfl rfl rfl rfl
  | issue req gates =>
    obtain ⟨intent, steps, hissuable, ⟨-, rfl⟩ | ⟨-, rfl⟩⟩ := issue_spec h <;>
      exact .fencedBy rfl hissuable.holds (fun c hc => progressed_kept c hc) rfl rfl rfl
  | converge h' step res =>
    obtain ⟨hholds, -, -, steps, -, rfl | ⟨-, e, -, -, rfl | ⟨intent, -, -, rfl⟩⟩⟩ := converge_spec h <;>
      exact .fencedBy rfl hholds (fun c hc => progressed_kept c hc) rfl rfl rfl
  | convergeOpenStep step v =>
    obtain ⟨-, steps, e, -, -, -, rfl⟩ := convergeOpenStep_spec h
    exact .frame rfl rfl rfl rfl rfl
  | recordObservation step facts =>
    obtain rfl := recordObservation_spec h
    exact .frame rfl rfl rfl rfl rfl
  | recordFreeze facts =>
    rcases recordFreeze_spec h with ⟨rfl, -⟩ | ⟨-, rfl⟩ <;> exact .frame rfl rfl rfl rfl rfl
  | ensureReconciling read h' | toExecuting read h' | completeIntent read h' =>
    rcases guardedTransition_spec h with rfl | ⟨-, -, -, rfl⟩ <;> exact .frame rfl rfl rfl rfl rfl
  | applyRevision read fact chained =>
    obtain ⟨-, -, published, -, rfl⟩ := applyRevision_spec h
    exact .frame rfl rfl rfl rfl rfl
  | consumeProjection fact =>
    obtain ⟨p, p', e, -, -, -, rfl⟩ := consumeProjectionVersion_spec h
    exact .frame rfl rfl rfl rfl rfl
  | refreshProjection readable =>
    obtain ⟨f, e, -, rfl⟩ := refreshProjection_spec h
    exact .frame rfl rfl rfl rfl rfl
  | dispatch id h' kind gates outcome =>
    obtain ⟨hholds, a, row, -, -, -, rfl⟩ := sendRegion_spec h
    exact .fencedBy rfl hholds (fun c hc => ⟨c, hc, rfl, rfl, rfl, .inl rfl⟩) rfl rfl rfl
  | prepare | sign | recordWriteFailure | reconcile | releaseFreeze =>
    obtain ⟨hnow, hclaim⟩ := (Operation.lifecycle rfl h).claim
    exact .frame hnow hclaim rfl rfl rfl

/-- What every later state says about an earlier claim row. -/
def Claim.Succeeds (c c' : Claim) : Prop := c.leaseVersion ≤ c'.leaseVersion ∧ (c'.leaseVersion = c.leaseVersion →
    c'.owner = c.owner ∧ (c.state ≠ .active → c'.state ≠ .active))

theorem Claim.Succeeds.refl (c : Claim) : c.Succeeds c := ⟨le_refl _, fun _ => ⟨rfl, id⟩⟩

theorem Claim.Succeeds.trans {a b : Claim} (h : a.Succeeds b) (h' : b.Succeeds c) : a.Succeeds c := by
  refine ⟨h.1.trans h'.1, fun heq => ?_⟩
  have hab : b.leaseVersion = a.leaseVersion := le_antisymm (heq ▸ h'.1) h.1
  have hbc : c.leaseVersion = b.leaseVersion := heq.trans hab.symm
  exact ⟨(h'.2 hbc).1.trans (h.2 hab).1, fun hdone => (h'.2 hbc).2 ((h.2 hab).2 hdone)⟩

/-- The lease version never falls; under one version the owner stays and an ended claim stays ended. -/
theorem Store.next_claim (t : ClaimTimings) (s : Store) (a : Action) (hc : s.claim = some c) :
    ∃ c', (s.next t a).claim = some c' ∧ c.Succeeds c' := by
  cases a with
  | wait ticks => exact ⟨c, hc, .refl c⟩
  | submit op fault =>
    rcases s.next_submit t op fault with hsame | ⟨s', hbody, hnew⟩
    · rw [hsame]
      exact ⟨c, hc, .refl c⟩
    · rw [hnew]
      have heffect := claim_effect hbody
      cases hop : op.acquires with
      | true =>
        obtain ⟨c', hc', hversion, -⟩ := heffect.acquired hop
        rw [hc, map_some, getD_some] at hversion
        exact ⟨c', hc', by omega, fun heq => by omega⟩
      | false =>
        rcases heffect.kept hop with hsame | ⟨d, d', hd, hd', howner, hversion, hdone⟩
        · exact ⟨c, hsame.trans hc, .refl c⟩
        · rw [hc, some.injEq] at hd
          subst hd
          exact ⟨d', hd', hversion.ge, fun _ => ⟨howner, fun hne => (hdone hne).symm ▸ hne⟩⟩

/-- Over a whole run. -/
theorem claim_succeeds (t : ClaimTimings) (actions : List Action) (hc : s.claim = some c) :
    ∃ c', (run (next t) s actions).claim = some c' ∧ c.Succeeds c' := by
  induction actions generalizing s c with
  | nil => exact ⟨c, hc, .refl c⟩
  | cons a rest ih =>
    obtain ⟨c₁, hc₁, hstep⟩ := s.next_claim t a hc
    obtain ⟨c₂, hc₂, hrest⟩ := ih hc₁
    exact ⟨c₂, hc₂, hstep.trans hrest⟩

/-- An ended lease version stays ended. -/
theorem Store.Ended.run (t : ClaimTimings) (h : s.Ended version) (actions : List Action) :
    (run (next t) s actions).Ended version := by
  obtain ⟨c, hc, hover⟩ := h
  obtain ⟨c', hc', hle, hsame⟩ := claim_succeeds t actions hc
  refine ⟨c', hc', ?_⟩
  rcases hover with hlt | ⟨heq, hdone⟩
  · exact .inl (by omega)
  · rcases hle.lt_or_eq with hlt | hversion
    · exact .inl (by omega)
    · exact .inr ⟨by omega, (hsame hversion.symm).2 hdone⟩

theorem Store.Ended.not_holds (hended : s.Ended h.leaseVersion) : s.holds h = false := by
  rw [Bool.eq_false_iff]
  intro hholds
  obtain ⟨c, hc, -, hversion, hactive, -⟩ := holds_eq_true.mp hholds
  obtain ⟨d, hd, hover⟩ := hended
  rw [hc, some.injEq] at hd
  subst hd
  rcases hover with hlt | ⟨-, hdone⟩
  · omega
  · exact hdone hactive

/-- Claim fencing over every interleaving: versions never go back, one owner holds a version, an
acquisition takes the next version, and what was ended is never acted under again. -/
theorem execution_claim_fencing (t : ClaimTimings) (start : Int) (front back : List Action) :
    let s := run (next t) (.empty start) front
    let later := run (next t) s back
    (∀ c, s.claim = some c → ∃ c', later.claim = some c' ∧ c.leaseVersion ≤ c'.leaseVersion ∧
      (c'.leaseVersion = c.leaseVersion → c'.owner = c.owner)) ∧
    (∀ (op : Operation) (s' : Store), op.body t s = .ok ((), s') →
      (op.acquires = true → ∃ c', s'.claim = some c' ∧ c'.leaseVersion = (s.claim.map leaseVersion).getD 0 + 1) ∧
      (op.acquires = false → s'.claim.map leaseVersion = s.claim.map leaseVersion) ∧
      ∀ version, op.ends s = some version → ∀ (op' : Operation) (h : Holder), op'.fence = some h → h.leaseVersion = version →
        ∀ s'', op'.body t (run (next t) s' back) ≠ .ok ((), s'')) := by
  refine ⟨fun c hc => ?_, fun op s' hbody => ⟨fun hop => ?_, fun hop => ?_, ?_⟩⟩
  · obtain ⟨c', hc', hle, hsame⟩ := claim_succeeds t back hc
    exact ⟨c', hc', hle, fun heq => (hsame heq).1⟩
  · obtain ⟨c', hc', hversion, -⟩ := (claim_effect hbody).acquired hop
    exact ⟨c', hc', hversion⟩
  · rcases (claim_effect hbody).kept hop with hsame | ⟨c, c', hc, hc', -, hversion, -⟩
    · rw [hsame]
    · rw [hc, hc', map_some, map_some, hversion]
  · intro version hends op' h hfence hversion s'' hlate
    have hended := ((claim_effect hbody).ended version hends).run t back
    have hholds := (claim_effect hlate).fenced h hfence
    subst hversion
    rw [hended.not_holds] at hholds
    cases hholds

end TxHarbor.Execution
