import TxHarbor.Execution.Fencing

open Relational Tx Transition List Option

namespace TxHarbor.Execution

open Store Operation Sample

/-! The state of the intent against its history and its published events. -/

variable {t : ClaimTimings} {s s' : Store}

abbrev Edge := IntentState × IntentState

/-- The `state_changed` rows of `execution_events`. -/
def Store.changes (s : Store) : List Event := s.events.filter fun e => e.kind == .stateChanged

def Published.edge : Published → Option Edge
  | .stateChanged source target => some (source, target)
  | .revised _ _ _ => none

/-- The `withdrawal.execution.state_changed` outbox rows. -/
def Store.announced (s : Store) : List Edge := s.published.filterMap Published.edge

/-- Consecutive edges that `classifyTransition` accepts. -/
def Path : IntentState → List Edge → IntentState → Prop
  | source, [], target => source = target
  | source, edge :: rest, target =>
    edge.1 = source ∧ classifyTransition edge.1 edge.2 ≠ .none ∧ Path edge.2 rest target

variable {source target : IntentState} {path : List Edge} {op : Operation} {read : Intent}

theorem Path.snoc {middle : IntentState} (h : Path source path middle)
    (hedge : classifyTransition middle target ≠ .none) : Path source (path ++ [(middle, target)]) target := by
  induction path generalizing source with
  | nil =>
    obtain rfl : source = middle := h
    exact ⟨rfl, hedge, rfl⟩
  | cons edge rest ih => exact ⟨h.1, h.2.1, ih h.2.2⟩

theorem Path.accepted (h : Path source path target) : ∀ edge ∈ path, classifyTransition edge.1 edge.2 ≠ .none := by
  induction path generalizing source with
  | nil => nofun
  | cons edge rest ih =>
    intro edge' hedge
    rcases mem_cons.mp hedge with rfl | hrest
    · exact h.2.1
    · exact ih h.2.2 edge' hrest

/-- Completed and failed are left only to revised. -/
theorem revised_of_terminal (h : classifyTransition source target ≠ .none)
    (hsource : source = .completed ∨ source = .failed) : target = .revised := by
  rcases hsource with rfl | rfl <;> revert h <;> cases target <;> decide

/-- The worker that applies a send-enabling edge. -/
def Operation.mover : Operation → Option Holder
  | .toClaimed h | .toExecuting _ h => some h
  | .issue req _ => some req.holder
  | _ => none

/-- The caller of the two moves whose transaction does not read the claim. -/
def Operation.unfenced : Operation → Option Holder
  | .toClaimed h | .toExecuting _ h => some h
  | _ => none

/-- What a committed operation does to the intent and its trail. -/
inductive IntentEffect (s : Store) (op : Operation) (s' : Store) : Prop where
  | still (intent : s'.intent = s.intent) (changes : s'.changes = s.changes) (announced : s'.announced = s.announced)
  | admitted (fresh : s.intent = none) (intent : s'.intent = some ⟨.admitted, 1⟩)
      (changes : s'.changes = s.changes) (announced : s'.announced = s.announced)
  | moved (read : Intent) (target : IntentState) (current : s.intent = some read)
      (accepted : classifyTransition read.state target ≠ .none)
      (fenced : classifyTransition read.state target = .sendEnabling →
        ∃ h, op.mover = some h ∧ (op.unfenced = none → s.holds h = true))
      (intent : s'.intent = some ⟨target, read.stateVersion + 1⟩)
      (changes : s'.changes.map Event.edge = s.changes.map Event.edge ++ [some (read.state, target)])
      (announced : s'.announced = s.announced ++ [(read.state, target)])

theorem Store.changes_append {events : List Event} (h : s'.events = s.events ++ events)
    (hkind : ∀ e ∈ events, e.kind ≠ .stateChanged) : s'.changes = s.changes := by
  have hnone : events.filter (fun e => e.kind == .stateChanged) = [] := by
    rw [filter_eq_nil_iff]
    intro e he
    simpa using hkind e he
  rw [changes, h, filter_append, hnone, append_nil, changes]

/-- An operation that adds other events only. -/
theorem IntentEffect.quiet {l : List Event} (hintent : s'.intent = s.intent) (hevents : s'.events = s.events ++ l)
    (hkind : ∀ e ∈ l, e.kind ≠ .stateChanged) (hpublished : s'.published = s.published) : IntentEffect s op s' :=
  .still hintent (changes_append hevents hkind) (by rw [announced, hpublished, announced])

theorem kind_nil : ∀ e ∈ ([] : List Event), e.kind ≠ .stateChanged := fun _ => nofun

theorem IntentEffect.frame (hintent : s'.intent = s.intent) (hevents : s'.events = s.events)
    (hpublished : s'.published = s.published) : IntentEffect s op s' :=
  .quiet (l := []) hintent (by rw [hevents, append_nil]) kind_nil hpublished

/-- One transition, with other events before and after it. -/
theorem IntentEffect.transition {lease : Nat} {f b : List Event} {l : List Published} (hread : s.intent = some read)
    (haccepted : classifyTransition read.state target ≠ .none)
    (hfenced : classifyTransition read.state target = .sendEnabling →
      ∃ h, op.mover = some h ∧ (op.unfenced = none → s.holds h = true))
    (hintent : s'.intent = some ⟨target, read.stateVersion + 1⟩) (hevents : s'.events = s.events ++ (f ++
      { Event.of .stateChanged with edge := some (read.state, target), leaseVersion := lease } :: b))
    (hkind : ∀ e ∈ f ++ b, e.kind ≠ .stateChanged)
    (hpublished : s'.published = s.published ++ Published.stateChanged read.state target :: l)
    (hother : ∀ p ∈ l, p.edge = none) : IntentEffect s op s' := by
  have hnone : ∀ events : List Event, (∀ e ∈ events, e.kind ≠ .stateChanged) →
      events.filter (fun e => e.kind == .stateChanged) = [] := by
    intro events h
    rw [filter_eq_nil_iff]
    intro e he
    simpa using h e he
  refine .moved read target hread haccepted hfenced hintent ?_ ?_
  · have hfront := hnone f fun e he => hkind e (mem_append_left _ he)
    have hback := hnone b fun e he => hkind e (mem_append_right _ he)
    simp only [changes, hevents, filter_append, hfront, nil_append]
    rw [filter_cons_of_pos (by rfl), hback, map_append]
    rfl
  · have hrest : l.filterMap Published.edge = [] := filterMap_eq_nil_iff.mpr hother
    rw [announced, hpublished, filterMap_append, filterMap_cons_some (by rfl), hrest, announced]

theorem IntentEffect.lifecycle (h : s.Lifecycle s') : IntentEffect s op s' := by
  rw [h]
  exact .frame rfl rfl rfl

theorem kind_singleton {e : Event} (h : e.kind ≠ .stateChanged) : ∀ e' ∈ [e], e'.kind ≠ .stateChanged := by
  intro e' he'
  rwa [mem_singleton.mp he']

theorem StepState.event_ne (state : StepState) : state.event ≠ .stateChanged := by
  cases state <;> decide

/-- A transition with its projection write and nothing else. -/
theorem IntentEffect.single {lease : Nat} (f : Projection → Projection) (hread : s.intent = some read)
    (haccepted : classifyTransition read.state target ≠ .none)
    (hfenced : classifyTransition read.state target = .sendEnabling →
      ∃ h, op.mover = some h ∧ (op.unfenced = none → s.holds h = true)) :
    IntentEffect s op ((s.moved read target lease).project f) :=
  .transition (f := []) (b := []) (l := []) hread haccepted hfenced rfl rfl kind_nil rfl nofun

theorem issue_intent_effect {req : StepRequest} {gates : IssueGates} (h : issue req gates s = .ok ((), s')) :
    IntentEffect s (.issue req gates) s' := by
  obtain ⟨intent, steps, hissuable, ⟨hstate, rfl⟩ | ⟨-, rfl⟩⟩ := issue_spec h
  · refine .transition (b := []) (l := []) hissuable.read ?_ (fun _ => ⟨_, rfl, fun _ => hissuable.holds⟩)
      rfl (by simp only [moved, issued, append_assoc]; rfl) ?_ rfl (by rintro _ ⟨⟩)
    · rcases hstate with hstate | hstate <;> rw [hstate] <;> decide
    · exact kind_singleton (by rintro ⟨⟩)
  · exact .quiet rfl rfl (kind_singleton (by rintro ⟨⟩)) rfl

theorem converge_intent_effect {h : Holder} {step : StepID} {res : AdvanceResult}
    (hbody : converge h step res s = .ok ((), s')) : IntentEffect s (.converge h step res) s' := by
  obtain ⟨-, -, -, steps, -, rfl | ⟨-, e, hkind, -, rfl | ⟨intent, hintent, hstate, rfl⟩⟩⟩ := converge_spec hbody
  · exact .quiet rfl rfl (kind_singleton res.state.event_ne) rfl
  · refine .quiet rfl (by simp only [log, closed, append_assoc]; rfl) ?_ rfl
    intro e' he'
    rcases mem_cons.mp he' with rfl | he'
    · exact res.state.event_ne
    · rw [mem_singleton.mp he', hkind]
      decide
  · refine .transition (l := []) hintent (by rw [hstate]; decide) (by rw [hstate]; nofun) rfl
      (by simp only [log, moved, closed, append_assoc]; rfl) ?_ rfl nofun
    intro e' he'
    rcases mem_concat_cases he' with he' | rfl
    · rw [mem_singleton.mp he']
      exact res.state.event_ne
    · rw [hkind]
      decide

theorem applyRevision_intent_effect {fact : RevisionFact} {chained : Bool}
    (h : applyRevision read fact chained s = .ok ((), s')) : IntentEffect s (.applyRevision read fact chained) s' := by
  obtain ⟨haccepted, hread, published, hrevised, rfl⟩ := applyRevision_spec h
  refine .transition (f := []) (l := published) hread haccepted ?_ rfl
    (by simp only [project, moved, append_assoc]; rfl) ?_
    (by simp only [project, moved, append_assoc]; rfl) ?_
  · intro hsend
    exfalso
    revert hsend
    cases read.state <;> decide
  · exact kind_singleton (by rintro ⟨⟩)
  · intro p hp
    obtain ⟨r, rfl⟩ := hrevised p hp
    rfl

/-- What each operation does to the intent, case by case. -/
theorem Operation.intent_effect (h : op.body t s = .ok ((), s')) : IntentEffect s op s' := by
  cases op with
  | admitIntent =>
    obtain ⟨hnone, rfl⟩ := admitIntent_spec h
    exact .admitted hnone rfl (changes_append rfl (kind_singleton (by rintro ⟨⟩))) rfl
  | claim owner onlyStall =>
    simp only [body, eq_ok] at h
    obtain ⟨version, s₁, hclaim, -, rfl⟩ := h
    obtain ⟨e, hkind, hs, -⟩ := claimTx_spec hclaim
    rw [hs]
    refine .quiet rfl rfl (kind_singleton ?_) rfl
    rcases hkind with hkind | hkind <;> rw [hkind] <;> decide
  | acquire owner =>
    simp only [body, eq_ok] at h
    obtain ⟨version, s₁, hclaim, -, rfl⟩ := h
    obtain ⟨hs, -⟩ := acquire_spec hclaim
    rw [hs]
    exact .frame rfl rfl rfl
  | renew h' | advanceProgress h' =>
    simp only [body, Execution.renew, Execution.advanceProgress] at h
    obtain ⟨-, rfl⟩ := fencedUpdate_spec h
    exact .frame rfl rfl rfl
  | release h' =>
    obtain ⟨c, -, -, -, rfl⟩ := release_spec h
    exact .frame rfl rfl rfl
  | revoke version =>
    obtain ⟨c, -, -, -, rfl⟩ := revokeClaim_spec h
    exact .quiet rfl rfl (kind_singleton (by rintro ⟨⟩)) rfl
  | sweepStalls =>
    rcases sweepStalls_spec h with rfl | ⟨c, -, rfl⟩
    · exact .frame rfl rfl rfl
    · exact .quiet rfl rfl (kind_singleton (by rintro ⟨⟩)) rfl
  | toClaimed h' =>
    rcases transitionFrom_spec h with rfl | ⟨intent, hintent, hstate, haccepted, rfl⟩
    · exact .frame rfl rfl rfl
    · exact .transition (f := []) (b := []) (l := []) hintent (hstate ▸ haccepted) (fun _ => ⟨h', rfl, by rintro ⟨⟩⟩)
        rfl rfl kind_nil rfl (by rintro _ ⟨⟩)
  | issue req gates => exact issue_intent_effect h
  | converge h' step res => exact converge_intent_effect h
  | convergeOpenStep step v =>
    obtain ⟨-, steps, e, -, hkind, -, rfl⟩ := convergeOpenStep_spec h
    exact .quiet rfl rfl (kind_singleton (hkind ▸ v.state.event_ne)) rfl
  | recordObservation step facts =>
    obtain rfl := recordObservation_spec h
    exact .quiet rfl rfl (kind_singleton (by rintro ⟨⟩)) rfl
  | recordFreeze facts =>
    rcases recordFreeze_spec h with ⟨rfl, -⟩ | ⟨-, rfl⟩
    · exact .frame rfl rfl rfl
    · exact .quiet rfl rfl (kind_singleton (by rintro ⟨⟩)) rfl
  | ensureReconciling read h' =>
    rcases guardedTransition_spec h with rfl | ⟨hstate, haccepted, hread, rfl⟩
    · exact .frame rfl rfl rfl
    · refine .single _ hread haccepted ?_
      rcases hstate with hstate | hstate <;> rw [hstate] <;> rintro ⟨⟩
  | toExecuting read h' =>
    rcases guardedTransition_spec h with rfl | ⟨-, haccepted, hread, rfl⟩
    · exact .frame rfl rfl rfl
    · exact .single _ hread haccepted fun _ => ⟨h', rfl, by rintro ⟨⟩⟩
  | completeIntent read h' =>
    rcases guardedTransition_spec h with rfl | ⟨hstate, haccepted, hread, rfl⟩
    · exact .frame rfl rfl rfl
    · refine .single _ hread haccepted ?_
      rw [hstate.2]
      rintro ⟨⟩
  | applyRevision read fact chained => exact applyRevision_intent_effect h
  | consumeProjection fact =>
    obtain ⟨p, p', e, -, -, hkind, rfl⟩ := consumeProjectionVersion_spec h
    exact .quiet rfl rfl (kind_singleton (by rw [hkind]; decide)) rfl
  | refreshProjection readable =>
    obtain ⟨f, e, hkind, rfl⟩ := refreshProjection_spec h
    refine .quiet rfl rfl (kind_singleton ?_) rfl
    rcases hkind with hkind | hkind <;> rw [hkind] <;> decide
  | prepare | sign | dispatch | recordWriteFailure | reconcile | releaseFreeze =>
    exact .lifecycle (lifecycle rfl h)

/-- The trail of the intent is one path, recorded and published edge by edge. -/
structure History (s : Store) (path : List Edge) : Prop where
  changes : s.changes.map Event.edge = path.map some
  announced : s.announced = path
  absent : s.intent = none → path = []
  current : ∀ intent, s.intent = some intent → Path .admitted path intent.state ∧ path.length + 1 = intent.stateVersion

/-- Each effect extends the path by the edge it records, or keeps it. -/
theorem History.effect (hist : History s path) (h : IntentEffect s op s') : ∃ path', History s' path' := by
  cases h with
  | still intent changes announced =>
    refine ⟨path, changes ▸ hist.changes, announced.trans hist.announced, ?_, ?_⟩
    · rw [intent]
      exact hist.absent
    · rw [intent]
      exact hist.current
  | admitted fresh intent changes announced =>
    obtain rfl := hist.absent fresh
    refine ⟨[], changes ▸ hist.changes, announced.trans hist.announced, fun _ => rfl, ?_⟩
    rw [intent]
    rintro _ ⟨⟩
    exact ⟨rfl, rfl⟩
  | moved read target current accepted fenced intent changes announced =>
    obtain ⟨hpath, hlength⟩ := hist.current read current
    refine ⟨path ++ [(read.state, target)], ?_, ?_, ?_, ?_⟩
    · rw [changes, hist.changes, map_append]
      rfl
    · rw [announced, hist.announced]
    · rw [intent]
      nofun
    · rw [intent]
      rintro _ ⟨⟩
      refine ⟨hpath.snoc accepted, ?_⟩
      rw [length_append, length_singleton, hlength]

theorem History.next (hist : History s path) (a : Action) : ∃ path', History (s.next t a) path' := by
  cases a with
  | wait ticks => exact ⟨path, hist.changes, hist.announced, hist.absent, hist.current⟩
  | submit op fault =>
    rcases s.next_submit t op fault with hsame | ⟨s', hbody, hnew⟩
    · exact ⟨path, hsame.symm ▸ hist⟩
    · rw [hnew]
      exact hist.effect (intent_effect hbody)

/-- In every reachable state the intent, its `state_changed` events and the published rows agree. -/
theorem intent_history_agrees (t : ClaimTimings) (start : Int) (actions : List Action) :
    let s := run (next t) (.empty start) actions
    ∃ path : List Edge, s.changes.map Event.edge = path.map some ∧ s.announced = path ∧ (s.intent = none → path = []) ∧
      (∀ edge ∈ path, edge.1 = .completed ∨ edge.1 = .failed → edge.2 = .revised) ∧ ∀ intent, s.intent = some intent →
        Path .admitted path intent.state ∧ path.length = intent.stateVersion - 1 ∧ 1 ≤ intent.stateVersion := by
  intro s
  have hreach : Reachable (next t) (.empty start) s := ⟨actions, rfl⟩
  obtain ⟨path, hist⟩ : ∃ path, History s path :=
    hreach.invariant (I := fun s => ∃ path, History s path) ⟨[], rfl, rfl, fun _ => rfl, nofun⟩
      fun s a ⟨_, hist⟩ => hist.next a
  refine ⟨path, hist.changes, hist.announced, hist.absent, ?_, ?_⟩
  · intro edge hedge
    cases hintent : s.intent with
    | none =>
      rw [hist.absent hintent] at hedge
      cases hedge
    | some intent => exact revised_of_terminal ((hist.current intent hintent).1.accepted edge hedge)
  · intro intent hintent
    obtain ⟨hpath, hlength⟩ := hist.current intent hintent
    exact ⟨hpath, by omega, by omega⟩

/-- A step that applies a send-enabling edge is the transaction of a worker whose claim is current. -/
def Action.Fenced (t : ClaimTimings) (s : Store) (a : Action) : Prop :=
  ∀ read intent, s.intent = some read → (s.next t a).intent = some intent →
    classifyTransition read.state intent.state = .sendEnabling →
    ∃ op fault h, a = .submit op fault ∧ op.mover = some h ∧ s.holds h = true

theorem classifyTransition_self (state : IntentState) : classifyTransition state state = .none := by
  cases state <;> rfl

theorem Action.fenced_of_holds {a : Action}
    (hholds : ∀ op fault h, a = .submit op fault → op.unfenced = some h → s.holds h = true) : a.Fenced t s := by
  intro read intent hread hintent hsend
  have hstill : (s.next t a).intent ≠ s.intent := by
    intro hsame
    rw [hsame, hread, some.injEq] at hintent
    rw [hintent, classifyTransition_self] at hsend
    cases hsend
  cases a with
  | wait ticks => exact absurd rfl hstill
  | submit op fault =>
    rcases s.next_submit t op fault with hsame | ⟨s', hbody, hnew⟩
    · exact absurd (congrArg Store.intent hsame) hstill
    · rw [hnew] at hintent hstill
      cases intent_effect hbody with
      | still same changes announced => exact absurd same hstill
      | admitted fresh =>
        rw [fresh] at hread
        cases hread
      | moved before target current accepted fenced moved changes announced =>
        rw [hread, some.injEq] at current
        rw [moved, some.injEq] at hintent
        subst current hintent
        obtain ⟨h, hmover, hfence⟩ := fenced hsend
        refine ⟨op, fault, h, rfl, hmover, ?_⟩
        cases hunfenced : op.unfenced with
        | none => exact hfence hunfenced
        | some h' =>
          have hsame : h' = h := by
            have hunfenced' : op.unfenced = op.mover := by cases op <;> first | rfl | cases hunfenced
            exact some.inj (hunfenced.symm.trans (hunfenced'.trans hmover))
          exact hsame ▸ hholds op fault h' rfl hunfenced

/-! ### The schedule of the claim -/

/-- What a transaction answers its caller. -/
def answer {A : Type} : Except Refusal (A × Store) → Option A
  | .ok (a, _) => some a
  | .error _ => none

theorem answer_eq_some {A : Type} {a : A} {result : Except Refusal (A × Store)} (h : answer result = some a) :
    ∃ s', result = .ok (a, s') := by
  obtain _ | ⟨b, s'⟩ := result
  · cases h
  · exact ⟨s', by rw [some.inj h]⟩

/-- The transaction answers its caller with the qualification: a claim with its version, or a renewal of it. -/
def Operation.Grants (t : ClaimTimings) (s : Store) (h : Holder) : Operation → Prop
  | .claim owner onlyStall => owner = h.owner ∧ answer (claimTx t owner onlyStall s) = some h.leaseVersion
  | .acquire owner => owner = h.owner ∧ answer (Execution.acquire t owner s) = some h.leaseVersion
  | .renew h' => h' = h ∧ answer (Execution.renew t h' s) = some ()
  | _ => False

/-- Claims, takeovers, releases and revocations. -/
def Action.disturbs : Action → Bool
  | .submit (.claim _ _) _ | .submit (.acquire _) _ | .submit (.release _) _ | .submit (.revoke _) _ => true
  | _ => false

/-- The time that passes in a schedule. -/
def elapsed : List Action → Nat
  | [] => 0
  | .wait ticks :: rest => ticks + elapsed rest
  | .submit _ _ :: rest => elapsed rest

/-- The caller acquired or renewed its claim, and since then nobody claims, takes over, releases or revokes and the TTL
does not pass. -/
def Undisturbed (t : ClaimTimings) (start : Int) (front : List Action) (h : Holder) : Prop :=
  ∃ before op between, front = before ++ .submit op .none :: between ∧
    op.Grants t (run (next t) (.empty start) before) h ∧ (∀ a ∈ between, a.disturbs = false) ∧ elapsed between < t.ttl

/-- The claim of `h` lasts at least until the deadline. -/
structure Store.Lasts (s : Store) (h : Holder) (deadline : Int) (c : Claim) : Prop where
  row : s.claim = some c
  owner : c.owner = h.owner
  version : c.leaseVersion = h.leaseVersion
  active : c.state = .active
  expiry : deadline ≤ c.expiresAt

variable {h : Holder} {deadline : Int} {c : Claim}

/-- A grant of the lease lasts its whole time to live. -/
theorem Operation.Grants.lasts (hgrants : op.Grants t s h) :
    ∃ c, (s.next t (.submit op .none)).Lasts h (s.now + t.ttl) c ∧ (s.next t (.submit op .none)).now = s.now := by
  have hnext : ∀ s', op.body t s = .ok ((), s') → s.next t (.submit op .none) = s' := by
    intro s' hbody
    simp [Store.next, attempt, hbody]
  cases op with
  | claim owner onlyStall =>
    obtain ⟨rfl, hanswer⟩ := hgrants
    obtain ⟨s', hclaim⟩ := answer_eq_some hanswer
    obtain ⟨e, -, hs, -, -, hrow⟩ := claimTx_spec hclaim
    rw [hnext s' (by simp only [body, eq_ok]; exact ⟨_, _, hclaim, trivial, rfl⟩)]
    exact ⟨_, ⟨hrow, rfl, rfl, rfl, le_refl _⟩, by rw [hs]⟩
  | acquire owner =>
    obtain ⟨rfl, hanswer⟩ := hgrants
    obtain ⟨s', hclaim⟩ := answer_eq_some hanswer
    obtain ⟨hs, -, -, hrow⟩ := acquire_spec hclaim
    rw [hnext s' (by simp only [body, eq_ok]; exact ⟨_, _, hclaim, trivial, rfl⟩)]
    exact ⟨_, ⟨hrow, rfl, rfl, rfl, le_refl _⟩, by rw [hs]⟩
  | renew h' =>
    obtain ⟨rfl, hanswer⟩ := hgrants
    obtain ⟨s', hrenew⟩ := answer_eq_some hanswer
    rw [hnext s' hrenew]
    obtain ⟨hholds, rfl⟩ := fencedUpdate_spec hrenew
    obtain ⟨c, hc, howner, hversion, hactive, -⟩ := holds_eq_true.mp hholds
    exact ⟨_, ⟨congrArg (Option.map _) hc, howner, hversion, hactive, le_refl _⟩, rfl⟩
  | _ => cases hgrants

/-- One undisturbed step. -/
theorem Store.Lasts.next (hs : s.Lasts h deadline c) (hdeadline : deadline ≤ s.now + t.ttl) {a : Action}
    (ha : a.disturbs = false) :
    ∃ c', (s.next t a).Lasts h deadline c' ∧ (s.next t a).now = s.now + elapsed [a] := by
  cases a with
  | wait ticks => exact ⟨c, ⟨hs.row, hs.owner, hs.version, hs.active, hs.expiry⟩, by simp [Store.next, elapsed]⟩
  | submit op fault =>
    rcases s.next_submit t op fault with hsame | ⟨s', hbody, hnew⟩
    · rw [hsame]
      exact ⟨c, hs, by simp [elapsed]⟩
    · rw [hnew]
      have heffect := claim_effect hbody
      obtain ⟨c', hc', hlives⟩ := heffect.lives (by cases op <;> first | rfl | cases ha)
        (by cases op <;> first | rfl | cases ha) c hs.row
      refine ⟨c', ⟨hc', hlives.owner.trans hs.owner, hlives.version.trans hs.version, hlives.state.trans hs.active, ?_⟩,
        by simp [elapsed, heffect.now]⟩
      rcases hlives.expiry with hkept | hrenewed
      · exact hkept ▸ hs.expiry
      · exact hrenewed ▸ hdeadline

/-- Operations that do not disturb the claim leave it in force until the deadline. -/
theorem Store.Lasts.run {actions : List Action} (hs : s.Lasts h deadline c) (hdeadline : deadline ≤ s.now + t.ttl)
    (hactions : ∀ a ∈ actions, a.disturbs = false) :
    ∃ c', (Transition.run (Store.next t) s actions).Lasts h deadline c' ∧
      (Transition.run (Store.next t) s actions).now = s.now + elapsed actions := by
  induction actions generalizing s c with
  | nil => exact ⟨c, hs, by simp [elapsed]⟩
  | cons a rest ih =>
    obtain ⟨c₁, hc₁, hnow⟩ := hs.next hdeadline (hactions a mem_cons_self)
    obtain ⟨c₂, hc₂, hlater⟩ := ih hc₁ (by omega) fun b hb => hactions b (mem_cons_of_mem _ hb)
    refine ⟨c₂, hc₂, ?_⟩
    rw [run_cons, hlater, hnow]
    cases a <;> simp [elapsed, add_assoc]

theorem Undisturbed.holds {start : Int} {front : List Action} (hfront : Undisturbed t start front h) :
    (run (next t) (.empty start) front).holds h = true := by
  obtain ⟨before, op, between, rfl, hgrants, hbetween, helapsed⟩ := hfront
  rw [run_append, run_cons]
  obtain ⟨c, hlasts, hnow⟩ := hgrants.lasts
  obtain ⟨c', hc', hlater⟩ := hlasts.run (t := t) (by omega) hbetween
  refine holds_eq_true.mpr ⟨c', hc'.row, hc'.owner, hc'.version, hc'.active, ?_⟩
  have hexpiry := hc'.expiry
  omega

/-- While every caller of `advanceIntentToClaimed` and `toExecuting` runs it undisturbed after its claim or renewal,
every send-enabling edge is applied by the holder of the claim. -/
theorem send_enabling_edges_fenced (t : ClaimTimings) (start : Int) (actions : List Action)
    (hschedule : ∀ front op fault back h, actions = front ++ .submit op fault :: back → op.unfenced = some h →
      Undisturbed t start front h) :
    Along (Store.next t) (fun s a => a.Fenced t s) (Store.empty start) actions :=
  along_iff.mpr fun front _ back heq => Action.fenced_of_holds fun op fault h ha hop =>
    (hschedule front op fault back h (ha ▸ heq) hop).holds

namespace Sample

/-- The second worker takes the claim over from the first one, which expired. -/
def takenOver : List Action := [does .admitIntent, does (.claim 1 false), .wait 10, does (.claim 2 false)]

end Sample

theorem Sample.claim_undisturbed : Undisturbed timings 0 [does .admitIntent, does (.claim 1 false)] first := by
  have hanswer : answer (claimTx timings 1 false (run (next timings) (.empty 0) [does .admitIntent])) = some 1 := by
    decide +kernel
  exact ⟨[does .admitIntent], .claim 1 false, [], rfl, ⟨rfl, hanswer⟩, (by simp), (by decide)⟩

theorem send_enabling_edges_fenced_while_issuing :
    Along (Store.next timings) (fun s a => a.Fenced timings s) (Store.empty 0) issuing := by
  refine send_enabling_edges_fenced timings 0 issuing fun front op fault back h heq hop => ?_
  -- the move to claimed is the third step, right after the claim
  rcases front with _ | ⟨_, _ | ⟨_, _ | ⟨_, _ | ⟨_, front⟩⟩⟩⟩
  all_goals
    simp only [issuing, claiming, does, cons_append, nil_append, cons.injEq, Action.submit.injEq] at heq
  · obtain ⟨⟨rfl, -⟩, -⟩ := heq
    cases hop
  · obtain ⟨-, ⟨rfl, -⟩, -⟩ := heq
    cases hop
  · obtain ⟨rfl, rfl, ⟨rfl, -⟩, -⟩ := heq
    cases hop
    exact Sample.claim_undisturbed
  · obtain ⟨-, -, -, ⟨rfl, -⟩, -⟩ := heq
    cases hop
  · simp at heq

/-- The first worker still moves the intent to claimed after the second one took its claim over. -/
theorem stale_worker_moves_to_claimed :
    ¬ ∀ actions, Along (Store.next timings) (fun s a => a.Fenced timings s) (Store.empty 0)
        actions := by
  intro hall
  have hlast := (along_append.mp (hall (takenOver ++ [does (.toClaimed first)]))).2.1
  obtain ⟨op, fault, h, haction, hmover, hholds⟩ :=
    hlast ⟨.admitted, 1⟩ ⟨.claimed, 2⟩ (by decide +kernel) (by decide +kernel) rfl
  obtain ⟨rfl, rfl⟩ := Action.submit.inj haction
  obtain rfl := some.inj hmover
  revert hholds
  decide +kernel

end TxHarbor.Execution
