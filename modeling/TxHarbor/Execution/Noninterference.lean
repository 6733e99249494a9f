import TxHarbor.Execution.Facts
import TxHarbor.Relational.Coupling

open Relational Transition Option

namespace TxHarbor.Execution

open Store Projection Sample

/-! What the display projection decides: two runs that differ in it. -/

variable {s s' : Store}

def Store.reproject (s : Store) (p : Option Projection) : Store := { s with projection := p }

/-- The stores differ in their projection only, and there not in the lifecycle version. -/
def Store.Agree (s s' : Store) : Prop :=
  ∃ p, s' = s.reproject p ∧ p.map Projection.lifecycleVersion = s.projection.map Projection.lifecycleVersion

/-- Both runs of the body agree. -/
abbrev Blind {A : Type} (x : ExecutionTx A) : Prop := Tx.Coupled Store.Agree (· = ·) x x

namespace Store.Agree

theorem commit {A : Type} {x : ExecutionTx A} (hx : Blind x) (h : s.Agree s') : (s.commit x).Agree (s'.commit x) := by
  rcases hx s s' h with ⟨e, hs, hs'⟩ | ⟨a, b, s₁, s₁', hs, hs', -, hagree⟩
  · rwa [commit_error hs, commit_error hs']
  · rwa [commit_ok hs, commit_ok hs']

/-- A projection write whose new version depends on the old one only. -/
theorem project {f : Projection → Projection} (g : Nat → Nat)
    (hf : ∀ p, (f p).lifecycleVersion = g p.lifecycleVersion) (h : s.Agree s') : (s.project f).Agree (s'.project f) := by
  obtain ⟨p, rfl, hp⟩ := h
  refine ⟨p.map f, rfl, ?_⟩
  have hversion : ∀ q : Option Projection, (q.map f).map lifecycleVersion = (q.map lifecycleVersion).map g := by
    intro q
    cases q with
    | none => rfl
    | some q => exact congrArg some (hf q)
  change _ = (s.projection.map f).map _
  rw [hversion, hversion, hp]

/-- A write that neither reads nor changes the projection. -/
theorem map {f : Store → Store} (h : s.Agree s') (hf : ∀ s p, f (s.reproject p) = (f s).reproject p) :
    (f s).Agree (f s') := by
  obtain ⟨p, rfl, hp⟩ := h
  have hkept : (f s).projection = s.projection := by
    have hsame : f s = (f s).reproject s.projection := hf s s.projection
    rw [hsame]
    rfl
  refine ⟨p, hf s p, ?_⟩
  rwa [hkept]

theorem log (h : s.Agree s') (e : Event) : (s.log e).Agree (s'.log e) := h.map (f := fun s => s.log e) fun _ _ => rfl

theorem projection_cases (h : s.Agree s') : s.projection = none ∧ s'.projection = none ∨
      ∃ q q', s.projection = some q ∧ s'.projection = some q' ∧ q.lifecycleVersion = q'.lifecycleVersion := by
  obtain ⟨p, rfl, hp⟩ := h
  change s.projection = none ∧ p = none ∨ ∃ q q', s.projection = some q ∧ p = some q' ∧ _
  cases hs : s.projection with
  | none =>
    rw [hs] at hp
    exact .inl ⟨rfl, map_eq_none_iff.mp hp⟩
  | some q =>
    rw [hs] at hp
    obtain ⟨q', hq', hversion⟩ := map_eq_some_iff.mp hp
    exact .inr ⟨q, q', rfl, hq', hversion.symm⟩

end Store.Agree

theorem Projection.applyState_version (state : IntentState) (version : Nat) (p : Projection) :
    (p.applyState state version).lifecycleVersion = p.lifecycleVersion := by
  unfold applyState
  split <;> rfl

theorem Projection.applyLifecycle_version (attempt : Option AttemptID) (version : Nat) (p : Projection) :
    (p.applyLifecycle attempt version).lifecycleVersion =
      if p.lifecycleVersion < version then version else p.lifecycleVersion := by
  unfold applyLifecycle
  by_cases hlt : p.lifecycleVersion < version
  · rw [if_pos hlt, if_pos hlt]
  · rw [if_neg hlt, if_neg hlt]
    split <;> rfl

theorem Store.Agree.applyState (h : s.Agree s') (state : IntentState) (version : Nat) :
    (s.project fun p => p.applyState state version).Agree (s'.project fun p => p.applyState state version) :=
  h.project id (applyState_version state version)

theorem Store.Agree.applyLifecycle (h : s.Agree s') (attempt : Option AttemptID) (version : Nat) :
    (s.project fun p => p.applyLifecycle attempt version).Agree (s'.project fun p => p.applyLifecycle attempt version) :=
  h.project (fun v => if v < version then version else v) (applyLifecycle_version attempt version)

/-! The transactions. A body is run on both stores in step: after each read the second store is
rewritten to the first with another projection, and every check then reads the same columns. -/

theorem Blind.read {A : Type} {f : Store → ExecutionTx A}
    (h : ∀ s p, p.map lifecycleVersion = s.projection.map lifecycleVersion →
      Tx.Coupled Store.Agree (· = ·) (f s) (f (s.reproject p))) : Blind (get >>= f) := by
  refine .bind .get fun s _ hs => ?_
  obtain ⟨p, rfl, hp⟩ := hs
  exact h s p hp

theorem fencedUpdate_blind (h : Holder) (f : Claim → Int → Claim) : Blind (fencedUpdate h f) := by
  refine .read fun s p hp => ?_
  exact .seq .require fun _ => .set ⟨p, rfl, hp⟩

theorem renew_blind (t : ClaimTimings) (h : Holder) : Blind (renew t h) := fencedUpdate_blind h _

theorem advanceProgress_blind (h : Holder) : Blind (advanceProgress h) := fencedUpdate_blind h _

theorem claimTx_blind (t : ClaimTimings) (owner : Owner) (onlyStall : Bool) : Blind (claimTx t owner onlyStall) := by
  refine .read fun s p hp => ?_
  refine .seq .require fun _ => ?_
  rw [show (s.reproject p).claim = s.claim from rfl]
  cases hc : s.claim with
  | none | some c =>
    exact .seq .require fun _ => .bind (.set ⟨p, rfl, hp⟩) fun _ _ _ => .pure rfl

theorem release_blind (h : Holder) : Blind (release h) := by
  refine .read fun s p hp => ?_
  refine .seq .demand fun c => ?_
  exact .seq .require fun _ => .set ⟨p, rfl, hp⟩

theorem revokeClaim_blind (version : Nat) : Blind (revokeClaim version) := by
  refine .read fun s p hp => ?_
  refine .seq .demand fun c => ?_
  exact .seq .require fun _ => .set ⟨p, rfl, hp⟩

theorem sweepStalls_blind (t : ClaimTimings) : Blind (sweepStalls t) := by
  refine .read fun s p hp => ?_
  rw [show (s.reproject p).claim = s.claim from rfl]
  cases hc : s.claim with
  | none => exact .pure rfl
  | some c => exact .ite (.set ⟨p, rfl, hp⟩) (.pure rfl)

theorem transitionIntent_blind (read : Intent) (target : IntentState) (lease : Nat) :
    Blind (transitionIntent read target lease) := by
  refine .seq .require fun _ => .bind .get fun s _ hs => ?_
  obtain ⟨p, rfl, hp⟩ := hs
  exact .seq .require fun _ => .set ⟨p, rfl, hp⟩

theorem transitionFrom_blind (source target : IntentState) (lease : Nat) : Blind (transitionFrom source target lease) := by
  refine .read fun s p hp => ?_
  rw [show (s.reproject p).intent = s.intent from rfl]
  cases hi : s.intent with
  | none => exact .pure rfl
  | some intent => exact .ite (transitionIntent_blind intent target lease) (.pure rfl)

theorem issue_blind (req : StepRequest) (g : IssueGates) : Blind (issue req g) := by
  refine .read fun s p hp => ?_
  refine .seq .require fun _ => .seq .demand fun intent => ?_
  refine .seq .require fun _ => .seq .refuse fun _ => .seq .refuse fun _ => .seq .refuse fun _ =>
    .seq .refuse fun _ => .seq .require fun _ => .seq .require fun _ => .seq .refuse fun _ =>
    .seq .demand fun steps => ?_
  refine .bind (.set ⟨p, rfl, hp⟩) fun _ _ _ => .seq (advanceProgress_blind _) fun _ =>
    .bind .get fun s₁ _ hs₁ => ?_
  obtain ⟨p₁, rfl, hp₁⟩ := hs₁
  exact .bind (.set ⟨p₁, rfl, hp₁⟩) fun _ _ _ => .ite (transitionIntent_blind _ _ _) (.pure rfl)

theorem prepareAttempt_blind (id : AttemptID) (signing : SigningRequestID) (anchor : Option AttemptID)
    (recoveryVersion : Nat) : Blind (prepareAttempt id signing anchor recoveryVersion) := by
  refine .read fun s p hp => ?_
  rw [show (s.reproject p).attempt? id = s.attempt? id from rfl]
  cases ha : s.attempt? id with
  | some a => exact .require
  | none =>
    refine .seq .demand fun attempts => ?_
    exact .set ⟨p, rfl, hp⟩

theorem signAndPersist_blind (id : AttemptID) : Blind (signAndPersist id) := by
  refine .read fun s p hp => ?_
  refine .seq .demand fun a => ?_
  exact .seq .require fun _ => .set ⟨p, rfl, hp⟩

theorem sendRegion_blind (id : AttemptID) (h : Holder) (kind : SendKind) (gates : RegionGates) (outcome : SendOutcome) :
    Blind (sendRegion id h kind gates outcome) := by
  refine .read fun s p hp => ?_
  refine .seq .require fun _ => .seq .refuse fun _ => .seq .demand fun a => ?_
  exact .seq .refuse fun _ => .set ⟨p, rfl, hp⟩

theorem Store.moveIf_reproject (s : Store) (p : Option Projection) (id : AttemptID) (state : Option AttemptState) :
    (s.reproject p).moveIf id state = (s.moveIf id state).reproject p := by
  cases state <;> rfl

theorem Store.reviseOrphaned_reproject (s : Store) (p : Option Projection) (view : ChainView) (id : AttemptID) (hash : Nat) :
    (s.reproject p).reviseOrphaned view id hash = (s.reviseOrphaned view id hash).reproject p := by
  symm
  unfold Store.reviseOrphaned
  dsimp only
  rw [apply_ite fun s : Store => s.reproject p]
  rfl

theorem Store.applyReceipt_reproject (s : Store) (p : Option Projection) (view : ChainView) (new : Receipt) :
    (s.reproject p).applyReceipt view new = (s.applyReceipt view new).reproject p := by
  have hrevised : ∀ (s : Store) (state : Option AttemptState),
      ((s.reproject p).moveIf new.attempt state).reviseOrphaned view new.attempt new.blockHash =
        ((s.moveIf new.attempt state).reviseOrphaned view new.attempt new.blockHash).reproject p := by
    intro s state
    rw [moveIf_reproject, reviseOrphaned_reproject]
  symm
  unfold Store.applyReceipt
  dsimp only
  rw [apply_ite fun s : Store => s.reproject p, ← hrevised]
  refine ite_congr rfl (fun _ => ?_) fun _ => rfl
  exact congrArg (fun s : Store => s.replaceSiblings new.attempt) (hrevised _ _).symm

theorem Store.detectFreeze_reproject (s : Store) (p : Option Projection) (view : ChainView) (id : AttemptID) :
    (s.reproject p).detectFreeze view id = (s.detectFreeze view id).reproject p := by
  symm
  unfold Store.detectFreeze
  rw [apply_ite fun s : Store => s.reproject p]
  rfl

theorem reconcileAttempt_blind (view : ChainView) (id : AttemptID) (probe : Probe) :
    Blind (reconcileAttempt view id probe) := by
  refine .bind .get fun s s' hs => ?_
  have hmoved := fun state => hs.map (f := fun s => s.moveIf id state) fun s p => s.moveIf_reproject p id state
  obtain ⟨p, rfl, hp⟩ := hs
  refine .seq .demand fun a => ?_
  -- the events are computed from columns that both stores have
  have hevents : (s.reproject p).reconcileEvents view id probe = s.reconcileEvents view id probe := by
    cases probe <;> rfl
  rw [hevents]
  refine .seq .require fun _ => .set (Store.Agree.map
    (f := fun s₁ => (s₁.detectFreeze view id).appendEvents (s.reconcileEvents view id probe)) ?_
    fun s p => congrArg (Store.appendEvents · _) (s.detectFreeze_reproject p view id))
  cases probe with
  | included number hash verdict =>
    exact (hmoved _).map (f := fun s => s.applyReceipt view (.seen view id number hash verdict))
      fun s p => s.applyReceipt_reproject p view _
  | _ => exact hmoved _

theorem factTransition_blind (read : Intent) (target : IntentState) (lease : Nat) :
    Blind (factTransition read target lease) :=
  .seq (transitionIntent_blind read target lease) fun _ => .bind .get fun _ _ hs => .set (hs.applyState _ _)

theorem ensureReconciling_blind (read : Intent) (lease : Nat) : Blind (ensureReconciling read lease) :=
  .ite (factTransition_blind _ _ _) (.pure rfl)

theorem toExecuting_blind (read : Intent) (lease : Nat) : Blind (toExecuting read lease) :=
  .ite (factTransition_blind _ _ _) (.pure rfl)

theorem completeIntent_blind (read : Intent) (lease : Nat) : Blind (completeIntent read lease) :=
  .ite (factTransition_blind _ _ _) (.pure rfl)

theorem converge_blind (h : Holder) (step : StepID) (res : AdvanceResult) : Blind (converge h step res) := by
  refine .read fun s p hp => ?_
  refine .seq .require fun _ => .seq .require fun _ => .seq .require fun _ =>
    .seq .demand fun steps => ?_
  refine .bind (.set ⟨p, rfl, hp⟩) fun _ _ _ => .seq (advanceProgress_blind _) fun _ =>
    .bind .get fun s₁ _ hs₁ => ?_
  refine .bind (.set (hs₁.log _)) fun _ _ _ => .ite ?_ (.pure rfl)
  exact .seq (transitionFrom_blind _ _ _) fun _ => .bind .get fun s₂ _ hs₂ => .set (hs₂.log _)

theorem convergeOpenStep_blind (step : StepID) (v : StepVerdict) : Blind (convergeOpenStep step v) := by
  refine .read fun s p hp => ?_
  exact .seq .require fun _ => .set ⟨p, rfl, hp⟩

theorem recordObservation_blind (step : StepID) (facts : LifecycleFacts) : Blind (recordObservation step facts) :=
  .bind .get fun _ _ hs => .set (hs.log _)

theorem recordFreeze_blind (facts : LifecycleFacts) : Blind (recordFreeze facts) := by
  refine .bind .get fun s _ hs => ?_
  have hlogged := fun e => hs.log e
  obtain ⟨p, rfl, hp⟩ := hs
  exact .ite (.pure rfl) (.set (hlogged _))

theorem applyRevision_blind (read : Intent) (fact : RevisionFact) (chained : Bool) :
    Blind (applyRevision read fact chained) := by
  refine .read fun s p hp => ?_
  refine .seq (transitionIntent_blind _ _ _) fun _ => .bind .get fun s₁ _ hs₁ => .set ?_
  have hpublished := fun applied published => hs₁.map
    (f := fun s => { s with events := s.events ++ applied, published := s.published ++ published }) fun _ _ => rfl
  exact (hpublished _ _).applyLifecycle _ _

theorem consumeProjectionVersion_blind (fact : RevisionFact) : Blind (consumeProjectionVersion fact) := by
  refine .bind .get fun s _ hs => ?_
  refine .bind (.demand_of hs.projection_cases) fun q q' hq => ?_
  refine .bind (Q := fun p p' : Projection => p.lifecycleVersion = p'.lifecycleVersion) (.demand_of ?_) fun r r' hr => ?_
  · unfold advanceLifecycle
    rw [hq]
    split
    · exact .inr ⟨_, _, rfl, rfl, rfl⟩
    · exact .inl ⟨rfl, rfl⟩
  · obtain ⟨p, rfl, hp⟩ := hs
    exact .set ⟨some r', rfl, congrArg some hr.symm⟩

theorem refreshProjection_blind (readable : Bool) : Blind (refreshProjection readable) := by
  refine .bind .get fun s _ hs => ?_
  have hagree := hs
  obtain ⟨p, rfl, hp⟩ := hs
  refine .seq .require fun _ => .ite (.set ?_) (.set ?_)
  · exact (hagree.applyLifecycle _ _).log _
  · exact (hagree.project (f := fun p => { p with fresh := false }) id fun _ => rfl).log _

theorem Operation.tends_blind (t : ClaimTimings) {op : Operation} (hop : op.tends = true) : Blind (op.body t) := by
  cases op with
  | renew h => exact renew_blind t h
  | advanceProgress h => exact advanceProgress_blind h
  | release h => exact release_blind h
  | revoke version => exact revokeClaim_blind version
  | sweepStalls => exact sweepStalls_blind t
  | _ => exact absurd hop Bool.false_ne_true

/-! The passes of a worker. -/

/-- Two results with the same answer over agreeing stores. -/
def Alike {B : Type} (x y : Store × B) : Prop := x.1.Agree y.1 ∧ x.2 = y.2

namespace Store.Agree

variable (hs : s.Agree s')

include hs

/-- What does not look at the projection reads the same in both stores. -/
theorem reads {A : Type} (f : Store → A) (hf : ∀ s p, f (s.reproject p) = f s) : f s' = f s := by
  obtain ⟨p, rfl, -⟩ := hs
  exact hf s p

theorem attempt? (id : AttemptID) : s'.attempt? id = s.attempt? id := hs.reads (fun s => s.attempt? id) fun _ _ => rfl

theorem intent : s'.intent = s.intent := hs.reads Store.intent fun _ _ => rfl

theorem openStep : s'.openStep = s.openStep := hs.reads Store.openStep fun _ _ => rfl

theorem facts : s'.facts = s.facts := hs.reads Store.facts fun _ _ => rfl

theorem trackedAttempt : s'.trackedAttempt = s.trackedAttempt := hs.reads Store.trackedAttempt fun _ _ => rfl

theorem sendObserved (h : Holder) (id : AttemptID) (kind : SendKind) (ans : Answer) :
    Alike (s.sendObserved h id kind ans) (s'.sendObserved h id kind ans) := by
  unfold Store.sendObserved
  rcases sendRegion_blind id h kind ans.region ans.outcome s s' hs with ⟨e, hx, hy⟩ | ⟨_, _, s₁, s₁', hx, hy, -, hagree⟩
  · rw [hx, hy]
    exact ⟨hs, rfl⟩
  · rw [hx, hy]
    exact ⟨hagree, rfl⟩

theorem sendSigned (h : Holder) (id : AttemptID) (kind : SendKind) (ans : Answer) :
    Alike (s.sendSigned h id kind ans) (s'.sendSigned h id kind ans) := by
  have hfreeze : s'.freeze = s.freeze := hs.reads Store.freeze fun _ _ => rfl
  have hstate : s'.stateOf id = s.stateOf id := hs.reads (fun s => s.stateOf id) fun _ _ => rfl
  have hobserved := fun probe => hs.commit (reconcileAttempt_blind ans.view id probe)
  unfold Store.sendSigned
  rw [hfreeze, hstate]
  split
  · exact ⟨hs, rfl⟩
  · split
    · cases ans.probe with
      | unavailable | included number hash effective => exact ⟨hobserved _, rfl⟩
      | notFoundYet | foundPending => exact (hobserved _).sendObserved h id kind ans
    · exact hs.sendObserved h id kind ans

theorem signFirst (a : TxAttempt) (kind : SendKind) (ans : Answer) :
    (∃ e, s.signFirst a kind ans = .error e ∧ s'.signFirst a kind ans = .error e) ∨
      ∃ s₁ s₁', s.signFirst a kind ans = .ok s₁ ∧ s'.signFirst a kind ans = .ok s₁' ∧ s₁.Agree s₁' := by
  unfold Store.signFirst
  split
  · split
    · cases ans.signer with
      | some failure => exact .inl ⟨_, rfl, rfl⟩
      | none => exact .inr ⟨_, _, rfl, rfl, hs.commit (signAndPersist_blind a.id)⟩
    · exact .inl ⟨_, rfl, rfl⟩
  · exact .inr ⟨_, _, rfl, rfl, hs⟩

theorem send (h : Holder) (id : AttemptID) (kind : SendKind) (ans : Answer) :
    Alike (s.send h id kind ans) (s'.send h id kind ans) := by
  unfold Store.send
  rw [hs.attempt?]
  cases s.attempt? id with
  | none => exact ⟨hs, rfl⟩
  | some a =>
    dsimp only
    rcases hs.signFirst a kind ans with ⟨e, hx, hy⟩ | ⟨s₁, s₁', hx, hy, hagree⟩
    · rw [hx, hy]
      exact ⟨hs, rfl⟩
    · rw [hx, hy]
      exact hagree.sendSigned h id kind ans

theorem refusalOutcome (id : AttemptID) (failure : SendFailure) :
    s.refusalOutcome id failure = s'.refusalOutcome id failure :=
  (hs.reads (fun s => s.refusalOutcome id failure) fun _ _ => rfl).symm

theorem dispatch (h : Holder) (id : AttemptID) (kind : SendKind) (ans : Answer) :
    Alike (s.dispatch h id kind ans) (s'.dispatch h id kind ans) := by
  have hsend := hs.send h id kind ans
  unfold Store.dispatch
  generalize s.send h id kind ans = x at hsend ⊢
  generalize s'.send h id kind ans = y at hsend ⊢
  obtain ⟨s₁, result⟩ := x
  obtain ⟨s₁', result'⟩ := y
  obtain ⟨hagree, hresult⟩ := hsend
  dsimp only at hagree hresult
  subst hresult
  cases result with
  | ok outcome =>
    refine ⟨hagree, ?_⟩
    dsimp only
    rw [hagree.attempt?]
  | error failure => exact ⟨hagree, hagree.refusalOutcome id failure⟩

theorem firstBroadcast (h : Holder) (step : StepID) (recoveryVersion : Nat) (ans : Answer) :
    Alike (s.firstBroadcast h step recoveryVersion ans) (s'.firstBroadcast h step recoveryVersion ans) := by
  unfold Store.firstBroadcast
  dsimp only
  rw [hs.attempt?]
  cases s.attempt? ⟨step⟩ with
  | some a =>
    dsimp only
    split
    · exact hs.dispatch h _ _ ans
    · exact ⟨hs, rfl⟩
  | none =>
    cases ans.construct with
    | some refusal => exact ⟨hs, hs.refusalOutcome _ (.refusal _)⟩
    | none =>
      dsimp only
      rcases prepareAttempt_blind ⟨step⟩ .request none recoveryVersion s s' hs with
        ⟨e, hx, hy⟩ | ⟨_, _, s₁, s₁', hx, hy, -, hagree⟩
      · rw [hx, hy]
        exact ⟨hs, hs.refusalOutcome _ (.refusal _)⟩
      · rw [hx, hy]
        exact hagree.dispatch h _ _ ans

omit hs in
theorem advanceLoop (h : Holder) (step : StepID) (recoveryVersion : Nat) (answers : List Answer) :
    ∀ {s s' : Store}, s.Agree s' →
      (s.advanceLoop h step recoveryVersion answers).Agree (s'.advanceLoop h step recoveryVersion answers) := by
  induction answers with
  | nil => exact id
  | cons ans rest ih =>
    intro s s' hs
    have hfirst := hs.firstBroadcast h step recoveryVersion ans
    unfold Store.advanceLoop
    generalize s.firstBroadcast h step recoveryVersion ans = x at hfirst ⊢
    generalize s'.firstBroadcast h step recoveryVersion ans = y at hfirst ⊢
    obtain ⟨s₁, result⟩ := x
    obtain ⟨s₁', result'⟩ := y
    obtain ⟨hagree, hresult⟩ := hfirst
    dsimp only at hagree hresult
    subst hresult
    match result with
    | none => exact ih hagree
    | some (outcome, attempt, revision) =>
      cases outcome with
      | unavailable => exact ih hagree
      | _ => exact hagree.commit (converge_blind _ _ _)

theorem issueAndAdvance (h : Holder) (step : StepID) (gates : IssueGates)
    (answers : List Answer) : (s.issueAndAdvance h step gates answers).Agree (s'.issueAndAdvance h step gates answers) := by
  unfold Store.issueAndAdvance
  rcases issue_blind ⟨h, step, .firstBroadcast⟩ gates s s' hs with ⟨e, hx, hy⟩ | ⟨_, _, s₁, s₁', hx, hy, -, hagree⟩
  · rwa [hx, hy]
  · rw [hx, hy]
    exact advanceLoop _ _ _ _ hagree

theorem confirmAttempt (view : ChainView) (probe : AttemptID → Probe) :
    (s.confirmAttempt view probe).Agree (s'.confirmAttempt view probe) := by
  unfold Store.confirmAttempt
  rw [hs.reads Store.currentAttempt fun _ _ => rfl]
  cases s.currentAttempt with
  | none => exact hs
  | some a =>
    dsimp only
    split
    · exact hs
    · exact hs.commit (reconcileAttempt_blind _ _ _)

theorem toExecuting (intent : Intent) (h : Option Holder) :
    (s.toExecuting intent h).Agree (s'.toExecuting intent h) := by
  cases h with
  | none => exact hs
  | some h => exact hs.commit (toExecuting_blind _ _)

theorem reconcileFrozen (intent : Intent) (facts : LifecycleFacts) (h : Option Holder) :
    (s.reconcileFrozen intent facts h).Agree (s'.reconcileFrozen intent facts h) := by
  unfold Store.reconcileFrozen
  rw [hs.openStep]
  cases s.openStep with
  | none => exact hs
  | some step => exact (hs.commit (convergeOpenStep_blind _ _)).commit (ensureReconciling_blind _ _)

theorem reconcileWithoutOpenStep (intent : Intent) (facts : LifecycleFacts) (h : Option Holder) :
    (s.reconcileWithoutOpenStep intent facts h).Agree (s'.reconcileWithoutOpenStep intent facts h) := by
  unfold Store.reconcileWithoutOpenStep
  split
  · exact hs.commit (completeIntent_blind _ _)
  · split
    · exact hs.toExecuting intent h
    · exact hs

theorem reconcileOpenStep (intent : Intent) (step : Step) (facts : LifecycleFacts)
    (h : Option Holder) : (s.reconcileOpenStep intent step facts h).Agree (s'.reconcileOpenStep intent step facts h) := by
  unfold Store.reconcileOpenStep
  match facts.unknown with
  | some (attempt, condition) => exact (hs.commit (convergeOpenStep_blind _ _)).commit (ensureReconciling_blind _ _)
  | none =>
    dsimp only
    split
    · exact (hs.commit (convergeOpenStep_blind _ _)).toExecuting intent h
    · split
      · exact (hs.commit (convergeOpenStep_blind _ _)).commit (completeIntent_blind _ _)
      · exact hs.commit (recordObservation_blind _ _)

theorem reconcileIntent (h : Option Holder) : (s.reconcileIntent h).Agree (s'.reconcileIntent h) := by
  have hfrozen : s'.treatedFrozen = s.treatedFrozen := hs.reads Store.treatedFrozen fun _ _ => rfl
  unfold Store.reconcileIntent
  rw [hs.intent, hs.facts, hs.openStep, hfrozen]
  cases s.intent with
  | none => exact hs
  | some intent =>
    dsimp only
    have hrefreshed := hs.applyLifecycle s.facts.current s.facts.revisionVersion
    split
    · exact (hrefreshed.commit (recordFreeze_blind _)).reconcileFrozen intent _ h
    · cases s.openStep with
      | none => exact hrefreshed.reconcileWithoutOpenStep intent _ h
      | some step => exact hrefreshed.reconcileOpenStep intent step _ h

theorem consumeRevision (intent : Intent) (chained : Bool) :
    (s.consumeRevision intent chained).Agree (s'.consumeRevision intent chained) := by
  unfold Store.consumeRevision Store.applyRevisionFact Store.observeRevision
  dsimp only
  rw [hs.facts, hs.reads Store.appliedRevision fun _ _ => rfl]
  split
  · split
    · exact hs
    · split
      · exact hs.commit (consumeProjectionVersion_blind _)
      · split
        · exact hs.commit (applyRevision_blind _ _ _)
        · exact hs
  · split
    · exact hs
    · exact hs.commit (consumeProjectionVersion_blind _)

/-- The guard compares with the one column on which the projections agree. -/
theorem syncAuthorityRevision (chained : Bool) :
    (s.syncAuthorityRevision chained).Agree (s'.syncAuthorityRevision chained) := by
  unfold Store.syncAuthorityRevision
  rw [hs.intent, hs.trackedAttempt, hs.facts]
  cases s.intent with
  | none => exact hs
  | some intent =>
    cases s.trackedAttempt with
    | none => exact hs
    | some a =>
      rcases hs.projection_cases with ⟨hp, hp'⟩ | ⟨q, q', hp, hp', hq⟩
      · rwa [hp, hp']
      · rw [hp, hp']
        dsimp only
        rw [hq]
        split
        · split
          · exact hs
          · exact hs.consumeRevision intent chained
        · exact hs

theorem refreshState : s.refreshState.Agree s'.refreshState := by
  unfold Store.refreshState
  rw [hs.intent]
  cases s.intent with
  | none => exact hs
  | some intent => exact hs.applyState _ _

theorem driveStep (h : Holder) (step : StepID) (env : Environment) :
    (s.driveStep h step env).Agree (s'.driveStep h step env) := by
  unfold Store.driveStep
  rw [hs.openStep, hs.intent]
  cases s.openStep with
  | some open_ => exact hs
  | none =>
    cases s.intent with
    | none => exact hs
    | some intent =>
      dsimp only
      split
      · exact hs.issueAndAdvance h step _ _
      · exact hs

theorem execIntentCycle (h : Holder) (step : StepID) (env : Environment) :
    (s.execIntentCycle h step env).Agree (s'.execIntentCycle h step env) := by
  have hscanned := hs.confirmAttempt env.view env.probe
  unfold Store.execIntentCycle
  rw [hs.intent]
  cases s.intent with
  | none => exact hs
  | some intent =>
    dsimp only
    have hsynced := hscanned.syncAuthorityRevision env.chained
    by_cases hskip : env.admitted = false ∨ intent.state = .failed
    · rwa [if_pos hskip, if_pos hskip]
    · rw [if_neg hskip, if_neg hskip]
      by_cases hsettled : intent.state = .completed ∨ intent.state = .revised
      · rw [if_pos hsettled, if_pos hsettled]
        split
        · exact hsynced
        · exact (hsynced.reconcileIntent _).refreshState.driveStep h step env
      · rw [if_neg hsettled, if_neg hsettled]
        split
        · exact hscanned
        · exact (hscanned.reconcileIntent _).refreshState.driveStep h step env

/-- The scan joins the projection, and reads the same column of it. -/
theorem trackable (view : ChainView) : s'.trackable view = s.trackable view := by
  have hjoined : ∀ a : TxAttempt, (s'.projection.any fun p => decide (p.lifecycleVersion < a.revision)) =
      s.projection.any fun p => decide (p.lifecycleVersion < a.revision) := by
    intro a
    rcases hs.projection_cases with ⟨hp, hp'⟩ | ⟨q, q', hp, hp', hq⟩
    · rw [hp, hp']
    · rw [hp, hp', any_some, any_some, hq]
  have hreceipts : s'.receipts = s.receipts := hs.reads Store.receipts fun _ _ => rfl
  unfold Store.trackable
  rw [hs.intent, hs.trackedAttempt, hreceipts]
  cases s.intent with
  | none => rfl
  | some intent =>
    cases s.trackedAttempt with
    | none => rfl
    | some a =>
      dsimp only
      rw [hjoined a]

theorem trackingPass (env : Environment) : (s.trackingPass env).Agree (s'.trackingPass env) := by
  unfold Store.trackingPass
  rw [hs.trackable]
  split
  · exact (hs.confirmAttempt _ _).syncAuthorityRevision _
  · exact hs

theorem startupCatchUp (env : Environment) : (s.startupCatchUp env).Agree (s'.startupCatchUp env) := by
  have htracked := hs.trackingPass env
  unfold Store.startupCatchUp
  dsimp only
  rw [htracked.openStep]
  split
  · refine Store.Agree.refreshState ?_
    cases (s.trackingPass env).openStep with
    | none => exact htracked
    | some step => exact htracked.reconcileIntent none
  · exact hs

theorem serveIntent (t : ClaimTimings) (owner : Owner) (env : Environment) :
    (s.serveIntent t owner env).Agree (s'.serveIntent t owner env) := by
  unfold Store.serveIntent
  split
  · rcases claimTx_blind t owner false s s' hs with ⟨e, hx, hy⟩ | ⟨version, _, s₁, s₁', hx, hy, rfl, hagree⟩
    · rwa [hx, hy]
    · rw [hx, hy]
      exact hagree.commit (transitionFrom_blind _ _ _)
  · exact hs

theorem works (t : ClaimTimings) (action : WorkerAction) : (s.works t action).Agree (s'.works t action) := by
  cases action with
  | serve owner env => exact hs.serveIntent t owner env
  | cycle h step env => exact hs.execIntentCycle h step env
  | track env => exact hs.trackingPass env
  | catchUp env => exact hs.startupCatchUp env
  | tend op tends => exact hs.commit (op.tends_blind t tends)
  | refresh readable => exact hs.commit (refreshProjection_blind readable)
  | wait ticks =>
    obtain ⟨p, rfl, hp⟩ := hs
    exact ⟨p, rfl, hp⟩

end Store.Agree

/-- Two stores that differ in the projection but not in its lifecycle version go through the same
passes to stores that differ in the projection only. -/
theorem projection_noninterference (t : ClaimTimings) (s : Store) (p : Option Projection) (actions : List WorkerAction)
    (hversion : p.map Projection.lifecycleVersion = s.projection.map Projection.lifecycleVersion) :
    ∃ p', run (Store.works t) { s with projection := p } actions =
      { run (Store.works t) s actions with projection := p' } := by
  have hrun : ∀ {s s' : Store}, s.Agree s' →
      (run (Store.works t) s actions).Agree (run (Store.works t) s' actions) := by
    induction actions with
    | nil => exact id
    | cons action rest ih => exact fun hs => ih (hs.works t action)
  obtain ⟨p', hp', -⟩ := hrun ⟨p, rfl, hversion⟩
  exact ⟨p', hp'⟩

namespace Sample

/-- All blocks are canonical and the head is 20. -/
def settled : ChainView := ⟨fun _ _ => true, 20, 30, none⟩

/-- A completed intent whose transaction turned out to have no effect. -/
def invalidated : List Action :=
  [does .admitIntent, does (.claim 1 false), does (.toClaimed first),
   does (.issue ⟨first, 1, .firstBroadcast⟩ permitting), does (.prepare ⟨1⟩ .request none 0), does (.sign ⟨1⟩),
   does (.dispatch ⟨1⟩ first .initial ⟨none, false⟩ .accepted), does (.converge first 1 (.outcome .sent (some ⟨1⟩) 3)),
   does (.completeIntent ⟨.executing, 3⟩ (some first)),
   does (.reconcile settled ⟨1⟩ (.included 5 55 failed))]

def tracking : Environment :=
  { admitted := true
    busy := false
    bound := true
    gates := permitting
    probe := fun _ => .included 5 55 failed
    view := settled
    chained := true
    answers := [] }

end Sample

/-- A stale projection in an older state changes nothing for the tracking pass. -/
theorem projection_noninterference_stale :
    let s := run (Store.next timings) (.empty 0) invalidated
    ∃ p', run (Store.works timings) { s with projection := some ⟨.claimed, 2, none, 0, false⟩ } [.track tracking] =
      { run (Store.works timings) s [.track tracking] with projection := p' } :=
  projection_noninterference _ _ _ _ (by decide +kernel)

/-- A projection that is already at the version of the attempt keeps the pass from revising. -/
theorem projection_decides_revision :
    let s := run (Store.next timings) (.empty 0) invalidated
    s.projection = some ⟨.completed, 4, none, 0, true⟩ ∧
      (run (Store.works timings) s [.track tracking]).intent = some ⟨.revised, 5⟩ ∧
      (run (Store.works timings) { s with projection := some ⟨.completed, 4, some ⟨1⟩, 4, true⟩ }
        [.track tracking]).intent = some ⟨.completed, 4⟩ := by
  decide +kernel

end TxHarbor.Execution
