import TxHarbor.Execution.Stranded

open Relational Constrained Tx Transition List Option

namespace TxHarbor.Execution

open Store Sample

/-! A first broadcast that persisted its attempt and was not dispatched. -/

variable {t : ClaimTimings} {s s' : Store}

/-- The attempts and the sends stay, and no step is forgotten. -/
structure Store.Grown (s s' : Store) : Prop where
  attempts : s'.attempts = s.attempts
  sends : s'.sends = s.sends
  ids : ∀ id ∈ s.steps.rows.map Step.id, id ∈ s'.steps.rows.map Step.id

theorem Store.Kept.grown (h : s.Kept s') : s.Grown s' := ⟨h.attempts, h.sends, fun id hid => by rwa [h.ids]⟩

theorem Store.Grown.refl (s : Store) : s.Grown s := ⟨rfl, rfl, fun _ h => h⟩

theorem Store.Grown.trans {s₁ s₂ s₃ : Store} (h : s₁.Grown s₂) (h' : s₂.Grown s₃) : s₁.Grown s₃ :=
  ⟨h'.attempts.trans h.attempts, h'.sends.trans h.sends, fun id hid => h'.ids id (h.ids id hid)⟩

/-- Nothing was ever dispatched: every attempt is prepared or signed, each belongs to a stored step, and
one of them has the signing identity of the request. -/
structure Store.Parked (s : Store) : Prop where
  sends : s.sends = []
  unsent : ∀ a ∈ s.attempts.rows, a.state = .prepared ∨ a.state = .signed
  known : ∀ a ∈ s.attempts.rows, a.id.step ∈ s.steps.rows.map Step.id
  taken : ∃ a ∈ s.attempts.rows, a.signingRequest = .request

theorem Store.Parked.of_grown (hs : s.Parked) (h : s.Grown s') : s'.Parked where
  sends := h.sends.trans hs.sends
  unsent := by
    rw [h.attempts]
    exact hs.unsent
  known := by
    rw [h.attempts]
    exact fun a ha => h.ids _ (hs.known a ha)
  taken := by
    rw [h.attempts]
    exact hs.taken

/-- A step without an attempt, while another attempt has the signing identity of the request. -/
structure Store.Blocked (s : Store) (step : StepID) : Prop where
  absent : s.attempt? ⟨step⟩ = none
  taken : ∃ a ∈ s.attempts.rows, a.signingRequest = .request

variable {step : StepID} {a : TxAttempt} {ans : Answer} {h : Holder}

/-- The first broadcast of such a step persists nothing. -/
theorem Store.Blocked.firstBroadcast (hs : s.Blocked step) (h : Holder) (recoveryVersion : Nat) (ans : Answer) :
    (s.firstBroadcast h step recoveryVersion ans).1 = s := by
  unfold Store.firstBroadcast
  dsimp only
  rw [hs.absent]
  dsimp only
  split
  · rfl
  · split
    · rfl
    next s' hprepared =>
      exfalso
      rcases prepareAttempt_spec hprepared with ⟨-, hfound⟩ | ⟨attempts, -, hinserted, -⟩
      · exact hfound hs.absent
      · obtain ⟨a, ha, htaken⟩ := hs.taken
        have hfree := (Table.insert?_eq_some hinserted).1 a ha
        simp only [clash, htaken, beq_self_eq_true, Bool.or_true] at hfree
        cases hfree

theorem Store.Blocked.advanceLoop (hs : s.Blocked step) (t : ClaimTimings) (h : Holder) (recoveryVersion : Nat)
    (answers : List Answer) : s.Kept (s.advanceLoop h step recoveryVersion answers) := by
  induction answers with
  | nil => exact .refl s
  | cons ans rest ih =>
    have hsame := hs.firstBroadcast h recoveryVersion ans
    unfold Store.advanceLoop
    split
    next s' hout =>
      rw [hout] at hsame
      subst hsame
      exact ih
    next s' _ _ hout =>
      rw [hout] at hsame
      subst hsame
      exact ih
    next s' _ _ _ _ hout =>
      rw [hout] at hsame
      subst hsame
      exact commit_kept _ t (.converge h step _) rfl

/-- A step issue appends one row under a new identity. -/
theorem issue_steps {req : StepRequest} {gates : IssueGates} (h : issue req gates s = .ok ((), s')) :
    s'.attempts = s.attempts ∧ s'.sends = s.sends ∧
      s'.steps.rows.map Step.id = s.steps.rows.map Step.id ++ [req.step] ∧ req.step ∉ s.steps.rows.map Step.id := by
  obtain ⟨intent, steps, hissuable, hs'⟩ := issue_spec h
  obtain ⟨hfree, hrows⟩ := Table.insert?_eq_some hissuable.inserted
  have hids : steps.rows.map Step.id = s.steps.rows.map Step.id ++ [req.step] := by
    rw [hrows, map_append]
    rfl
  have hnew : req.step ∉ s.steps.rows.map Step.id := by
    intro hmem
    obtain ⟨row, hrow, hid⟩ := mem_map.mp hmem
    have hclash := hfree row hrow
    simp only [clash, Bool.or_eq_false_iff, beq_eq_false_iff_ne] at hclash
    exact hclash.1 hid
  rcases hs' with ⟨-, rfl⟩ | ⟨-, rfl⟩ <;> exact ⟨rfl, rfl, hids, hnew⟩

/-- With the signing identity taken, a new step persists no attempt. -/
theorem Store.issueAndAdvance_grown (hknown : ∀ a ∈ s.attempts.rows, a.id.step ∈ s.steps.rows.map Step.id)
    (htaken : ∃ a ∈ s.attempts.rows, a.signingRequest = .request) (t : ClaimTimings) (h : Holder) (step : StepID)
    (gates : IssueGates) (answers : List Answer) : s.Grown (s.issueAndAdvance h step gates answers) := by
  unfold issueAndAdvance
  split
  · exact .refl s
  next s' hissue =>
    obtain ⟨hattempts, hsends, hids, hnew⟩ := issue_steps hissue
    have hgrown : s.Grown s' := ⟨hattempts, hsends, fun id hid => by rw [hids]; exact mem_append_left _ hid⟩
    have hblocked : s'.Blocked step := by
      refine ⟨?_, hattempts ▸ htaken⟩
      rw [attempt?, hattempts, Table.select_eq_none]
      intro a ha
      rw [beq_eq_false_iff_ne]
      intro hid
      have hstep := hknown a ha
      rw [hid] at hstep
      exact hnew hstep
    exact hgrown.trans (hblocked.advanceLoop t h _ _).grown

section

variable (hs : s.Parked)
include hs

namespace Store.Parked

theorem driveStep (t : ClaimTimings) (h : Holder) (step : StepID) (env : Environment) :
    s.Grown (s.driveStep h step env) := by
  unfold Store.driveStep
  split
  · split
    · exact issueAndAdvance_grown hs.known hs.taken t h step _ _
    · exact .refl s
  · exact .refl s

theorem confirmAttempt (view : ChainView) (probe : AttemptID → Probe) : s.confirmAttempt view probe = s := by
  unfold Store.confirmAttempt
  split
  · rfl
  next a hcurrent => exact if_pos (hs.unsent a (currentAttempt_mem hcurrent))

theorem trackedAttempt : s.trackedAttempt = none := by
  have hnone : (s.attempts.rows.filter fun a => a.state != .prepared && a.state != .signed) = [] := by
    rw [filter_eq_nil_iff]
    intro a ha
    rcases hs.unsent a ha with h | h <;> rw [h] <;> decide
  rw [Store.trackedAttempt, hnone]
  rfl

theorem syncAuthorityRevision (chained : Bool) : s.syncAuthorityRevision chained = s := by
  unfold Store.syncAuthorityRevision
  rw [hs.trackedAttempt]
  split
  · contradiction
  · rfl

theorem trackingPass (env : Environment) : s.trackingPass env = s := by
  unfold Store.trackingPass
  split
  · rw [hs.confirmAttempt, hs.syncAuthorityRevision]
  · rfl

theorem cycle (t : ClaimTimings) (h : Holder) (step : StepID) (env : Environment) :
    s.Grown (s.execIntentCycle h step env) := by
  unfold execIntentCycle
  split
  · exact .refl s
  · dsimp only
    rw [hs.confirmAttempt, hs.syncAuthorityRevision, ite_self]
    split
    · exact .refl s
    · split
      · exact .refl s
      · have hkept := (s.reconcileIntent_kept t (some h)).trans (refreshState_kept _)
        exact hkept.grown.trans ((hs.of_grown hkept.grown).driveStep t h step env)

theorem works (t : ClaimTimings) (a : WorkerAction) : s.Grown (s.works t a) := by
  cases a with
  | serve owner env => exact (s.serveIntent_kept t owner env).grown
  | cycle h step env => exact hs.cycle t h step env
  | track env =>
    rw [Store.works, hs.trackingPass]
    exact .refl s
  | catchUp env =>
    unfold Store.works Store.startupCatchUp
    dsimp only
    split
    · rw [hs.trackingPass]
      split
      · exact s.refreshState_kept.grown
      · exact ((s.reconcileIntent_kept t none).trans (refreshState_kept _)).grown
    · exact .refl s
  | tend op htends => exact (s.commit_kept t op (Operation.tends_converges htends)).grown
  | refresh readable => exact (s.commit_kept t (.refreshProjection readable) rfl).grown
  | wait ticks => exact ⟨rfl, rfl, fun _ h => h⟩

/-- No pass of any worker dispatches a parked attempt. -/
theorem run (t : ClaimTimings) (later : List WorkerAction) : (run (Store.works t) s later).Parked := by
  induction later generalizing s with
  | nil => exact hs
  | cons a rest ih => exact ih (hs.of_grown (hs.works t a))

end Store.Parked

end

/-- A call that meets no refusal. The transaction was never dispatched, so the node has not seen it. -/
structure Answer.Permits (ans : Answer) : Prop where
  signer : ans.signer = none
  probe : ans.probe = .notFoundYet
  region : ans.region.refusal = none

theorem signAndPersist_ok (ha : s.attempt? a.id = some a) (hstate : a.state = .prepared) :
    signAndPersist a.id s = .ok ((), s.moveAttempt a.id .signed) := by
  simp only [signAndPersist, eq_ok]
  exact ⟨s, s, ⟨rfl, rfl⟩, a, s, ⟨ha, rfl⟩, (), s, ⟨hstate, rfl⟩, rfl⟩

/-- The signing half gives a signed attempt and changes nothing else. -/
theorem Store.signFirst_permitted (hpermits : ans.Permits) (ha : s.attempt? a.id = some a)
    (hstate : a.state = .prepared ∨ a.state = .signed) :
    ∃ s' a', s.signFirst a .initial ans = .ok s' ∧ s'.attempt? a.id = some a' ∧ a'.state = .signed ∧
      s'.sends = s.sends ∧ s'.freeze = s.freeze ∧ s'.claim = s.claim ∧ s'.now = s.now := by
  unfold signFirst
  by_cases hprepared : a.state = .prepared
  · rw [if_pos hprepared, if_pos rfl, hpermits.signer]
    refine ⟨_, a.move .signed, rfl, ?_, rfl, ?_⟩
    · rw [commit_ok (signAndPersist_ok ha hprepared), attempt?_moveAttempt, ha]
      rfl
    · rw [commit_ok (signAndPersist_ok ha hprepared)]
      exact ⟨rfl, rfl, rfl, rfl⟩
  · rw [if_neg hprepared]
    exact ⟨s, a, rfl, ha, hstate.resolve_left hprepared, rfl, rfl, rfl, rfl⟩

/-- Before any dispatch the observation of a transaction the node has not seen is only recorded. -/
theorem reconcileAttempt_unseen {id : AttemptID} (view : ChainView) (ha : s.attempt? id = some a)
    (hstate : a.state = .signed) (hsends : s.sends = []) :
    reconcileAttempt view id .notFoundYet s = .ok ((), s.appendEvents (s.reconcileEvents view id .notFoundYet)) := by
  have hdetect : s.detectFreeze view id = s := by
    unfold detectFreeze staleDispatch
    rw [hsends]
    cases view.earliestPause <;> rfl
  simp only [reconcileAttempt, eq_ok]
  refine ⟨s, s, ⟨rfl, rfl⟩, a, s, ⟨ha, rfl⟩, (), s, ⟨by rw [hstate]; decide, rfl⟩, ?_⟩
  rw [hstate]
  exact congrArg (Store.appendEvents · _) hdetect

theorem sendRegion_permitted {id : AttemptID} {gates : RegionGates} (outcome : SendOutcome)
    (hholds : s.holds h = true) (hgates : gates.refusal = none) (ha : s.attempt? id = some a)
    (hstate : a.state = .signed) : ∃ s', sendRegion id h .initial gates outcome s = .ok ((), s') ∧ s'.sends ≠ [] := by
  obtain ⟨s', hbody⟩ : ∃ s', sendRegion id h .initial gates outcome s = .ok ((), s') := by
    simp only [sendRegion, eq_ok, refuse_eq_ok]
    exact ⟨_, s, s, ⟨rfl, rfl⟩, (), s, ⟨hholds, rfl⟩, (), s, ⟨hgates, rfl⟩, a, s, ⟨ha, rfl⟩, (), s,
      ⟨by rw [hstate]; rfl, rfl⟩, rfl⟩
  refine ⟨s', hbody, ?_⟩
  obtain ⟨-, a', row, -, -, -, rfl⟩ := sendRegion_spec hbody
  exact append_ne_nil_of_right_ne_nil _ (cons_ne_nil _ _)

/-- A permitted call on a parked attempt dispatches it. -/
theorem Store.send_permitted (hpermits : ans.Permits) (ha : s.attempt? a.id = some a)
    (hstate : a.state = .prepared ∨ a.state = .signed) (hsends : s.sends = []) (hfreeze : s.freeze ≠ some false)
    (hholds : s.holds h = true) : ∃ s', s.send h a.id .initial ans = (s', .ok ans.outcome) ∧ s'.sends ≠ [] := by
  obtain ⟨s₁, a₁, hsign, ha₁, hsigned, hsends₁, hfreeze₁, hclaim₁, hnow₁⟩ := signFirst_permitted hpermits ha hstate
  have hholds₁ : s₁.holds h = true := by
    rwa [holds, hclaim₁, hnow₁]
  obtain ⟨s₂, hregion, hdispatched⟩ := sendRegion_permitted
    (s := s₁.appendEvents (s₁.reconcileEvents ans.view a.id .notFoundYet)) ans.outcome hholds₁ hpermits.region ha₁ hsigned
  refine ⟨s₂, ?_, hdispatched⟩
  have hstateOf : s₁.stateOf a.id = .signed := by rw [stateOf, ha₁, map_some, hsigned]; rfl
  have hobserved := reconcileAttempt_unseen ans.view ha₁ hsigned (hsends₁.trans hsends)
  unfold send
  rw [ha]
  dsimp only
  rw [hsign]
  dsimp only
  unfold sendSigned
  rw [if_neg (by rwa [hfreeze₁]), if_pos (.inl hstateOf)]
  dsimp only
  rw [hpermits.probe, commit_ok hobserved]
  dsimp only
  unfold sendObserved
  rw [hregion]

theorem Store.advanceLoop_permitted (t : ClaimTimings) (recoveryVersion : Nat) (rest : List Answer) (hs : s.Parked)
    (ha : a ∈ s.attempts.rows) (hid : a.id = ⟨step⟩) (hpermits : ans.Permits) (hfreeze : s.freeze ≠ some false)
    (hholds : s.holds h = true) : (s.advanceLoop h step recoveryVersion (ans :: rest)).sends ≠ [] := by
  have hfound := attempt?_of_mem ha
  have hstate := hs.unsent a ha
  obtain ⟨s', hsend, hdispatched⟩ := send_permitted hpermits hfound hstate hs.sends hfreeze hholds
  have hfirst : s.firstBroadcast h step recoveryVersion ans =
      (s', some (ans.outcome.advanceClass, some a.id, ((s'.attempt? a.id).map TxAttempt.revision).getD 0)) := by
    unfold firstBroadcast
    dsimp only
    rw [← hid, hfound]
    dsimp only
    rw [if_pos hstate, dispatch, hsend]
  have hconverged : ∀ res, ((s'.commit (converge h step res)).sends) ≠ [] := by
    intro res hnone
    exact hdispatched ((commit_kept s' t (.converge h step res) rfl).sends.symm.trans hnone)
  unfold advanceLoop
  rw [hfirst]
  cases ans.outcome <;> exact hconverged _

/-- A prepared or signed attempt that was never dispatched: while its own call has tries left and the
cause is gone, the next try dispatches it; after that no sequence of worker passes does. -/
theorem parked_attempt_dispatched_iff (t : ClaimTimings) (s : Store) (h : Holder) (step : StepID) (a : TxAttempt)
    (recoveryVersion : Nat) (tries : List Answer) (hs : s.Parked) (ha : a ∈ s.attempts.rows) (hid : a.id = ⟨step⟩)
    (hpermits : ∀ ans ∈ tries, ans.Permits) (hfreeze : s.freeze ≠ some false) (hholds : s.holds h = true) :
    (∃ later : List WorkerAction,
      (run (Store.works t) (s.advanceLoop h step recoveryVersion tries) later).sends ≠ []) ↔ tries ≠ [] := by
  cases tries with
  | nil =>
    refine iff_of_false ?_ fun hne => hne rfl
    rintro ⟨later, hsent⟩
    exact hsent (hs.run t later).sends
  | cons ans rest =>
    refine iff_of_true ⟨[], ?_⟩ (cons_ne_nil _ _)
    exact advanceLoop_permitted t recoveryVersion rest hs ha hid (hpermits ans mem_cons_self) hfreeze hholds

namespace Sample

/-- The first broadcast persisted its attempt. -/
def prepared : List Action := issuing ++ [does (.prepare ⟨1⟩ .request none 0)]

theorem parked : (run (next timings) (.empty 0) prepared).Parked where
  sends := by decide +kernel
  unsent := by decide +kernel
  known := by decide +kernel
  taken := by decide +kernel

theorem granted_permits : granted.Permits := ⟨rfl, rfl, rfl⟩

end Sample

theorem prepared_attempt_dispatched_by_next_try : ∃ later : List WorkerAction, (run (Store.works timings)
      ((run (Store.next timings) (.empty 0) prepared).advanceLoop first 1 0 [granted]) later).sends ≠ [] := by
  refine (parked_attempt_dispatched_iff timings _ first 1 ⟨⟨1⟩, .request, none, 0, .prepared, 1⟩ 0
    [granted] parked (by decide +kernel) rfl ?_ (by decide +kernel) (by decide +kernel)).mpr
    (cons_ne_nil _ _)
  intro ans hans
  rw [mem_singleton.mp hans]
  exact granted_permits

/-- The process died after the prepare: no later passes dispatch anything. -/
theorem prepared_attempt_never_dispatched :
    let s := run (next timings) (.empty 0) prepared
    s.attempts.rows.map TxAttempt.state = [.prepared] ∧ s.holds first = true ∧ s.treatedFrozen = false ∧
      ¬ ∃ later : List WorkerAction, (run (works timings) s later).sends ≠ [] := by
  intro s
  refine ⟨by decide +kernel, by decide +kernel, by decide +kernel, ?_⟩
  rintro ⟨later, hsent⟩
  exact hsent (parked.run timings later).sends

end TxHarbor.Execution
