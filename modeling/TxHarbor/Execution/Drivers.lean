import TxHarbor.Execution.Parked

open Relational Transition List

namespace TxHarbor.Execution

open Operation

/-! Step drivers in flight: what a process does between committing its step and converging it, while
reconcilers of other processes close steps. -/

variable {t : ClaimTimings} {s s' : Store}

/-- The tables and the steps whose driver is still between issue and converge. -/
structure Fleet where
  store : Store
  inFlight : List StepID

def Fleet.empty (start : Int) : Fleet := ⟨Store.empty start, []⟩

/-- What a driver does for its step. A replay sends the attempt of another step. -/
inductive DriverMove where
  | prepare (signing : SigningRequestID) (anchor : Option AttemptID) (recoveryVersion : Nat)
  | sign (id : AttemptID)
  | dispatch (id : AttemptID) (h : Holder) (kind : SendKind) (gates : RegionGates) (outcome : SendOutcome)
  | recordWriteFailure (id : AttemptID) (h : Holder) (kind : SendKind) (pauseObserved : Bool)

def DriverMove.operation (step : StepID) : DriverMove → Operation
  | .prepare signing anchor recoveryVersion => .prepare ⟨step⟩ signing anchor recoveryVersion
  | .sign id => .sign id
  | .dispatch id h kind gates outcome => .dispatch id h kind gates outcome
  | .recordWriteFailure id h kind pauseObserved => .recordWriteFailure id h kind pauseObserved

def DriverMove.dispatches : DriverMove → Bool
  | .dispatch _ _ _ _ _ => true
  | _ => false

/-- The operations no driver runs. -/
def Operation.undriven : Operation → Bool
  | .issue _ _ | .converge _ _ _ | .prepare _ _ _ _ | .sign _ | .dispatch _ _ _ _ _ | .recordWriteFailure _ _ _ _ => false
  | _ => true

/-- A step of the interleaving. A transaction that rolls back is no step, and a process that dies or
gives up leaves its step with `leave`. -/
inductive FleetAction where
  | issue (req : StepRequest) (gates : IssueGates)
  | drive (step : StepID) (move : DriverMove)
  | converge (h : Holder) (step : StepID) (res : AdvanceResult)
  | leave (step : StepID)
  | other (op : Operation) (undriven : op.undriven = true)
  | wait (ticks : Nat)

def Fleet.next (t : ClaimTimings) (w : Fleet) : FleetAction → Fleet
  | .issue req gates =>
    match issue req gates w.store with
    | .ok (_, s') => ⟨s', req.step :: w.inFlight⟩
    | .error _ => w
  | .drive step move =>
    if step ∈ w.inFlight then { w with store := w.store.commit ((move.operation step).body t) } else w
  | .converge h step res =>
    if step ∈ w.inFlight then
      ⟨w.store.commit (Execution.converge h step res), w.inFlight.filter fun other => other != step⟩
    else w
  | .leave step => { w with inFlight := w.inFlight.filter fun other => other != step }
  | .other op _ => { w with store := w.store.commit (op.body t) }
  | .wait ticks => { w with store := { w.store with now := w.store.now + ticks } }

/-- A step closed because no attempt was persisted for it. -/
def Step.closedForLack (row : Step) : Prop := row.state = .refused ∧ row.evidence = .noAttemptPersisted

instance (row : Step) : Decidable row.closedForLack := inferInstanceAs (Decidable (_ ∧ _))

def Store.stepIssued (s : Store) (step : StepID) : Prop := ∃ row ∈ s.steps.rows, row.id = step ∧ row.state = .issued

instance (s : Store) (step : StepID) : Decidable (s.stepIssued step) := inferInstanceAs (Decidable (∃ _ ∈ _, _))

/-- A reconciler closes a step only when no driver is in flight for it, and for lack of an attempt only
while there is none. -/
def FleetAction.Undisturbed (w : Fleet) : FleetAction → Prop
  | .other (.convergeOpenStep step v) _ =>
    step ∉ w.inFlight ∧ (v.evidence = .noAttemptPersisted → ⟨step⟩ ∉ w.store.attempts.rows.map TxAttempt.id)
  | _ => True

instance (w : Fleet) (a : FleetAction) : Decidable (a.Undisturbed w) := by
  unfold FleetAction.Undisturbed
  split <;> infer_instance

/-- A dispatch belongs to a step that is issued at that moment. -/
def FleetAction.Covered (w : Fleet) : FleetAction → Prop
  | .drive step move => step ∈ w.inFlight → move.dispatches = true → w.store.stepIssued step
  | _ => True

structure Fleet.Sound (w : Fleet) : Prop where
  issued : ∀ step ∈ w.inFlight, w.store.stepIssued step
  lacking : ∀ row ∈ w.store.steps.rows, row.closedForLack → ⟨row.id⟩ ∉ w.store.attempts.rows.map TxAttempt.id

/-- Closed rows are never written again. -/
def Store.KeepsClosed (s s' : Store) : Prop := ∀ row ∈ s.steps.rows, row.state ≠ .issued → row ∈ s'.steps.rows

theorem Store.KeepsClosed.of_eq (h : s'.steps = s.steps) : s.KeepsClosed s' := fun row hrow _ => by rwa [h]

/-- The operations that leave the steps and the identities of the attempts alone. -/
theorem Operation.undriven_frame {op : Operation} (hop : op.undriven = true)
    (hopen : ∀ step v, op ≠ .convergeOpenStep step v) (h : op.body t s = .ok ((), s')) :
    s'.steps = s.steps ∧ s.SameIDs s' := by
  by_cases hobserves : op.observes = true
  · obtain ⟨hids, hlifecycle⟩ := observes_frame hobserves h
    exact ⟨by rw [hlifecycle], hids⟩
  by_cases hclerical : op.clerical = true
  · obtain ⟨hsteps, hattempts, -, -⟩ := clerical_frame hclerical h
    exact ⟨hsteps, by rw [Store.SameIDs, hattempts]⟩
  cases op with
  | issue | converge | prepare | sign | dispatch | recordWriteFailure => cases hop
  | convergeOpenStep step v => exact absurd rfl (hopen step v)
  | reconcile | releaseFreeze => exact absurd rfl hobserves
  | _ => exact absurd rfl hclerical

variable {w : Fleet} {step : StepID}

/-- The same tables of steps and the same attempts. -/
theorem Fleet.Sound.of_frame {w' : Fleet} (hw : w.Sound) (hsteps : w'.store.steps = w.store.steps)
    (hids : w.store.SameIDs w'.store) (hflight : ∀ step ∈ w'.inFlight, step ∈ w.inFlight) : w'.Sound where
  issued step hstep := by
    rw [Store.stepIssued, hsteps]
    exact hw.issued step (hflight step hstep)
  lacking := by
    rw [hsteps, hids]
    exact hw.lacking

/-- Rows of one step are one row. -/
theorem step_unique {a b : Step} (ha : a ∈ s.steps.rows) (hb : b ∈ s.steps.rows) (hid : a.id = b.id) : a = b :=
  s.steps.eq_of_clash ha hb (by simp only [Constrained.clash, hid, beq_self_eq_true, Bool.true_or])

theorem Fleet.Sound.issue (hw : w.Sound) {req : StepRequest} {gates : IssueGates}
    (h : Execution.issue req gates w.store = .ok ((), s')) :
    Fleet.Sound ⟨s', req.step :: w.inFlight⟩ ∧ w.store.KeepsClosed s' := by
  obtain ⟨hattempts, -, -, -⟩ := issue_steps h
  obtain ⟨intent, steps, hissuable, hs'⟩ := issue_spec h
  obtain ⟨-, hrows⟩ := Table.insert?_eq_some hissuable.inserted
  have hsteps : s'.steps.rows = w.store.steps.rows ++ [req.row gates.recoveryVersion] := by
    rcases hs' with ⟨-, rfl⟩ | ⟨-, rfl⟩ <;> exact hrows
  refine ⟨⟨?_, ?_⟩, fun row hrow _ => by rw [hsteps]; exact mem_append_left _ hrow⟩
  · intro step hstep
    rw [Store.stepIssued, hsteps]
    rcases mem_cons.mp hstep with rfl | hold
    · exact ⟨_, mem_append_right _ (mem_singleton.mpr rfl), rfl, rfl⟩
    · obtain ⟨row, hrow, hid, hissued⟩ := hw.issued step hold
      exact ⟨row, mem_append_left _ hrow, hid, hissued⟩
  · intro row hrow hlack
    change _ ∉ s'.attempts.rows.map TxAttempt.id
    rw [hattempts]
    rw [hsteps] at hrow
    rcases mem_concat_cases hrow with hold | rfl
    · exact hw.lacking row hold hlack
    · cases hlack.1

/-- A step closed among the issued ones: every other in-flight step stays issued, and closed rows
stay. -/
theorem Fleet.Sound.close (hw : w.Sound) {inFlight : List StepID} {p : Step → Bool} {f : Step → Step} (step : StepID)
    (hp : ∀ row, p row = true → row.id = step ∧ row.state = .issued) (hf : ∀ row, (f row).id = row.id)
    (hrows : s'.steps.rows = w.store.steps.rows.map fun row => if p row then f row else row)
    (hattempts : s'.attempts = w.store.attempts) (hflight : ∀ other ∈ inFlight, other ∈ w.inFlight ∧ other ≠ step)
    (hlack : ∀ row, p row = true → (f row).closedForLack → ⟨step⟩ ∉ w.store.attempts.rows.map TxAttempt.id) :
    Fleet.Sound ⟨s', inFlight⟩ ∧ w.store.KeepsClosed s' := by
  refine ⟨⟨?_, ?_⟩, ?_⟩
  · intro other hother
    obtain ⟨hold, hne⟩ := hflight other hother
    obtain ⟨row, hrow, hid, hissued⟩ := hw.issued other hold
    refine ⟨row, ?_, hid, hissued⟩
    change row ∈ s'.steps.rows
    rw [hrows]
    exact mem_map.mpr ⟨row, hrow, if_neg fun h => hne (hid.symm.trans (hp row h).1)⟩
  · intro row' hrow' hclosed
    change _ ∉ s'.attempts.rows.map TxAttempt.id
    rw [hattempts]
    change row' ∈ s'.steps.rows at hrow'
    rw [hrows] at hrow'
    obtain ⟨row, hrow, rfl⟩ := mem_map.mp hrow'
    split at hclosed
    next hmatch =>
      rw [if_pos hmatch, hf, (hp row hmatch).1]
      exact hlack row hmatch hclosed
    next hmatch =>
      rw [if_neg hmatch]
      exact hw.lacking row hrow hclosed
  · intro row hrow hclosed
    rw [hrows]
    exact mem_map.mpr ⟨row, hrow, if_neg fun h => hclosed (hp row h).2⟩

theorem Fleet.Sound.prepare (hw : w.Sound) (hstep : step ∈ w.inFlight) {signing : SigningRequestID}
    {anchor : Option AttemptID} {recoveryVersion : Nat}
    (h : prepareAttempt ⟨step⟩ signing anchor recoveryVersion w.store = .ok ((), s')) :
    Fleet.Sound { w with store := s' } ∧ w.store.KeepsClosed s' := by
  rcases prepareAttempt_spec h with ⟨rfl, -⟩ | ⟨attempts, -, hinserted, rfl⟩
  · exact ⟨hw, .of_eq rfl⟩
  · refine ⟨⟨hw.issued, ?_⟩, .of_eq rfl⟩
    intro row hrow hlack
    change ⟨row.id⟩ ∉ attempts.rows.map TxAttempt.id
    rw [(Table.insert?_eq_some hinserted).2, map_append, mem_append, not_or]
    refine ⟨hw.lacking row hrow hlack, ?_⟩
    intro hnew
    obtain ⟨issued, hissued, hid, hstate⟩ := hw.issued step hstep
    have hsame : row.id = step := congrArg AttemptID.step (mem_singleton.mp hnew)
    rw [step_unique hrow hissued (hsame.trans hid.symm), Step.closedForLack, hstate] at hlack
    cases hlack.1

theorem AdvanceResult.close_not_lacking (res : AdvanceResult) (row : Step) : ¬ (res.close row).closedForLack := by
  rintro ⟨-, hevidence⟩
  cases res <;> cases hevidence

open Fleet

namespace Fleet.Sound

theorem converge (hw : w.Sound) {h : Holder} {res : AdvanceResult} {u : Unit}
    (hbody : Execution.converge h step res w.store = .ok (u, s')) :
    Fleet.Sound ⟨s', w.inFlight.filter fun other => other != step⟩ ∧ w.store.KeepsClosed s' := by
  obtain ⟨-, -, -, steps, hsteps, hs'⟩ := converge_spec hbody
  have hattempts : s'.attempts = w.store.attempts := by
    rcases hs' with rfl | ⟨-, e, -, -, rfl | ⟨intent, -, -, rfl⟩⟩ <;> rfl
  have hrows : s'.steps.rows = w.store.steps.rows.map fun row =>
      if row.id == step && row.state == .issued && row.holder == h then res.close row else row := by
    rcases hs' with rfl | ⟨-, e, -, -, rfl | ⟨intent, -, -, rfl⟩⟩ <;> exact Table.update?_eq_some hsteps
  refine hw.close step ?_ res.close_id hrows hattempts ?_
    fun row _ hclosed => absurd hclosed (res.close_not_lacking row)
  · intro row hrow
    simp only [Bool.and_eq_true, beq_iff_eq] at hrow
    exact hrow.1
  · intro other hother
    obtain ⟨hmem, hne⟩ := mem_filter.mp hother
    exact ⟨hmem, by simpa using hne⟩

theorem convergeOpenStep (hw : w.Sound) {v : StepVerdict} {u : Unit} (hflight : step ∉ w.inFlight)
    (hlack : v.evidence = .noAttemptPersisted → ⟨step⟩ ∉ w.store.attempts.rows.map TxAttempt.id)
    (hbody : Execution.convergeOpenStep step v w.store = .ok (u, s')) :
    Fleet.Sound { w with store := s' } ∧ w.store.KeepsClosed s' := by
  obtain ⟨-, steps, e, hrows, -, -, rfl⟩ := convergeOpenStep_spec hbody
  refine hw.close (f := v.close) step ?_ (fun _ => rfl) hrows rfl ?_ fun row _ hclosed => hlack hclosed.2
  · intro row hrow
    simpa only [Bool.and_eq_true, beq_iff_eq] using hrow
  · exact fun other hother => ⟨hother, fun heq => hflight (heq ▸ hother)⟩

/-- One step keeps the invariant and the closed rows, and a dispatch finds its step issued. -/
theorem next (hw : w.Sound) (a : FleetAction) (ha : a.Undisturbed w) :
    (w.next t a).Sound ∧ w.store.KeepsClosed (w.next t a).store := by
  cases a <;> unfold Fleet.next
  case issue req gates =>
    dsimp only
    split
    next s' hissue => exact hw.issue hissue
    · exact ⟨hw, .of_eq rfl⟩
  case drive step move =>
    dsimp only
    split
    next hstep =>
      rcases w.store.commit_cases ((move.operation step).body t) with hsame | ⟨u, s', hbody, hnew⟩
      · rw [hsame]
        exact ⟨hw, .of_eq rfl⟩
      · rw [hnew]
        cases move with
        | prepare signing anchor recoveryVersion => exact hw.prepare hstep hbody
        | sign | dispatch | recordWriteFailure =>
          obtain ⟨hids, hlifecycle⟩ := observes_frame rfl hbody
          have hsteps : s'.steps = w.store.steps := by rw [hlifecycle]
          exact ⟨hw.of_frame hsteps hids fun _ h => h, .of_eq hsteps⟩
    · exact ⟨hw, .of_eq rfl⟩
  case converge h step res =>
    dsimp only
    split
    · rcases w.store.commit_cases (Execution.converge h step res) with hsame | ⟨u, s', hbody, hnew⟩
      · rw [hsame]
        exact ⟨hw.of_frame rfl rfl fun other hother => (mem_filter.mp hother).1, .of_eq rfl⟩
      · rw [hnew]
        exact hw.converge hbody
    · exact ⟨hw, .of_eq rfl⟩
  case leave step =>
    exact ⟨hw.of_frame rfl rfl fun other hother => (mem_filter.mp hother).1, .of_eq rfl⟩
  case other op hop =>
    dsimp only
    rcases w.store.commit_cases (op.body t) with hsame | ⟨u, s', hbody, hnew⟩
    · rw [hsame]
      exact ⟨hw, .of_eq rfl⟩
    · rw [hnew]
      by_cases hopen : ∃ step v, op = .convergeOpenStep step v
      · obtain ⟨step, v, rfl⟩ := hopen
        exact hw.convergeOpenStep ha.1 ha.2 hbody
      · obtain ⟨hsteps, hids⟩ := undriven_frame hop (fun step v heq => hopen ⟨step, v, heq⟩) hbody
        exact ⟨hw.of_frame hsteps hids fun _ h => h, .of_eq hsteps⟩
  case wait ticks => exact ⟨⟨hw.issued, hw.lacking⟩, .of_eq rfl⟩

theorem covered (hw : w.Sound) (a : FleetAction) : a.Covered w := by
  cases a with
  | drive step move => exact fun hstep _ => hw.issued step hstep
  | _ => trivial

theorem run (hw : w.Sound) (actions : List FleetAction)
    (h : Along (Fleet.next t) (fun w a => a.Undisturbed w) w actions) :
    (run (Fleet.next t) w actions).Sound ∧ w.store.KeepsClosed (run (Fleet.next t) w actions).store ∧
      Along (Fleet.next t) (fun w a => a.Covered w) w actions := by
  induction actions generalizing w with
  | nil => exact ⟨hw, fun _ h _ => h, trivial⟩
  | cons a rest ih =>
    obtain ⟨hsound, hkeeps⟩ := hw.next a h.1
    obtain ⟨hfinal, hrest, halong⟩ := ih hsound h.2
    exact ⟨hfinal, fun row hrow hclosed => hrest row (hkeeps row hrow hclosed) hclosed, hw.covered a, halong⟩

end Fleet.Sound

/-- While no reconciler closes the step of a driver in flight, a step closed for lack of an attempt never
gets one, and every dispatch belongs to a step that is issued. -/
theorem closed_step_never_sends (t : ClaimTimings) (start : Int) (front back : List FleetAction)
    (h : Along (Fleet.next t) (fun w a => a.Undisturbed w) (Fleet.empty start) (front ++ back)) :
    let w := run (next t) (.empty start) front
    let later := run (next t) w back
    (∀ row ∈ w.store.steps.rows, row.closedForLack → later.store.attempt? ⟨row.id⟩ = none) ∧
      Along (next t) (fun w a => a.Covered w) (empty start) (front ++ back) := by
  intro w later
  obtain ⟨hfront, hback⟩ := along_append.mp h
  have hempty : (Fleet.empty start).Sound := ⟨fun _ => nofun, fun _ => nofun⟩
  obtain ⟨hw, -, -⟩ := hempty.run front hfront
  obtain ⟨hlater, hkeeps, -⟩ := hw.run back hback
  refine ⟨?_, (hempty.run (front ++ back) h).2.2⟩
  intro row hrow hlack
  have hclosed : row.state ≠ .issued := by rw [hlack.1]; decide
  rw [Store.attempt?, Table.select_eq_none]
  intro a ha
  rw [beq_eq_false_iff_ne]
  intro hid
  exact hlater.lacking row (hkeeps row hrow hclosed) hlack (hid ▸ mem_map_of_mem ha)

namespace Sample

/-- The driver of step 1 is in flight. -/
def underway : List FleetAction := [.other .admitIntent rfl, .other (.claim 1 false) rfl, .other (.toClaimed first) rfl,
   .issue ⟨first, 1, .firstBroadcast⟩ permitting]

theorem refused_terminal : StepState.refused ≠ .issued := by decide

/-- How a starting process closes an open step without attempts. -/
def lacking : StepVerdict := ⟨.refused, none, none, 0, .noAttemptPersisted, refused_terminal⟩

def sending : List FleetAction := [.drive 1 (.prepare .request none 0), .drive 1 (.sign ⟨1⟩),
   .drive 1 (.dispatch ⟨1⟩ first .initial ⟨none, false⟩ .accepted)]

end Sample

open Sample

/-- The driver dies first, and the reconciler closes its step then. -/
theorem closed_step_never_sends_after_leave :
    let w := run (next timings) (.empty 0) (underway ++ [.leave 1, .other (.convergeOpenStep 1 lacking) rfl])
    let later := run (next timings) w sending
    (∀ row ∈ w.store.steps.rows, row.closedForLack → later.store.attempt? ⟨row.id⟩ = none) ∧
      Along (next timings) (fun w a => a.Covered w) (empty 0)
        ((underway ++ [.leave 1, .other (.convergeOpenStep 1 lacking) rfl]) ++ sending) :=
  closed_step_never_sends timings 0 _ _ (by decide +kernel)

/-- A starting process closes the step between its issue and its prepare: the attempt is created and
dispatched all the same. -/
theorem closed_step_sends_in_flight :
    let w := run (next timings) (.empty 0) underway
    let closed := w.next timings (.other (.convergeOpenStep 1 lacking) rfl)
    let later := run (next timings) closed sending
    (w.store.startupCatchUp granting).steps.rows.map Step.evidence = [.noAttemptPersisted] ∧
      (∃ row ∈ closed.store.steps.rows, row.closedForLack ∧ later.store.attempt? ⟨row.id⟩ ≠ none) ∧
      later.store.sends.map SendRow.attempt = [⟨1⟩] ∧ ¬ later.store.stepIssued 1 := by
  decide +kernel

end TxHarbor.Execution
