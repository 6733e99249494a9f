import TxHarbor.Nonce.Committed

open Relational

namespace TxHarbor.Nonce

open List Observation Sample

/-- The transaction counts of every sender as the chain really has them over time. Neither count
falls, and the pending count covers the mined transactions. -/
structure ChainHistory where
  latest : Scope → Nat → Int
  pending : Scope → Nat → Int
  latest_mono : ∀ scope, Monotone (latest scope)
  pending_mono : ∀ scope, Monotone (pending scope)
  latest_le : ∀ scope t, latest scope t ≤ pending scope t

/-- The view an action brings to the lock. A race classify and the registry actions bring none. -/
def Action.sample : Action → Option (Scope × ObservationKind × ChainView)
  | .allocate _ view _ _ _ req => some (req.toScope, .allocation, view)
  | .reconcile view _ _ _ scope => some (scope, .reconcile, view)
  | .admin view _ _ _ req =>
    match req.action with
    | .holdRelease | .bindingRelease => some (req.toScope, .reconcile, view)
    | .registryRegister | .registryDisable => none
  | .converge .. => none

/-- An action with the instants of its two count reads, in the order of `Observer.Observe`, and
of the lock it takes afterwards. -/
structure TimedAction where
  action : Action
  latestAt : Nat
  pendingAt : Nat
  lockAt : Nat
  reads : latestAt ≤ pendingAt
  locks : pendingAt ≤ lockAt

/-- The action samples the counts of the scope. -/
def TimedAction.Samples (t : TimedAction) (scope : Scope) : Prop :=
  ∃ kind view, t.action.sample = some (scope, kind, view)

/-- Every count the action reads is the true one at the instant of the read. -/
def TimedAction.Truthful (chain : ChainHistory) (t : TimedAction) : Prop :=
  ∀ scope kind view, t.action.sample = some (scope, kind, view) →
    (∀ n, transactionCount view.latest = .ok n → n = chain.latest scope t.latestAt) ∧
    (∀ n, transactionCount view.pending = .ok n → n = chain.pending scope t.pendingAt)

/-- Under the lock, on the given store, the action's view classifies as divergence. -/
def Action.Diverges (s : Store) (a : Action) : Prop := ∃ scope kind view, a.sample = some (scope, kind, view) ∧
    (classify (classificationInput s scope (observe scope kind view))).classification = .divergence

/-- The world after timed actions, listed in lock order. -/
def afterTimed (steps : List TimedAction) : World := Transition.run World.next .start (steps.map (·.action))

theorem afterTimed_concat (steps : List TimedAction) (t : TimedAction) :
    afterTimed (steps ++ [t]) = (afterTimed steps).next t.action := by
  unfold afterTimed
  rw [map_append, Transition.run_append]
  rfl

/-- A count of an observation is the parsed answer of the node. -/
theorem observe_counts (scope : Scope) (kind : ObservationKind) (view : ChainView) :
    (∀ n, (observe scope kind view).latestCount = some n → transactionCount view.latest = .ok n) ∧
    (∀ n, (observe scope kind view).pendingCount = some n → transactionCount view.pending = .ok n) := by
  unfold observe
  cases transactionCount view.latest with
  | error k => simp [failed, start]
  | ok latest =>
    cases transactionCount view.pending with
    | error k => simp [failed, start]
    | ok pending =>
      cases latestHead view.head with
      | error k => simp [failed, start]
      | ok head => simp

/-- The last pending count of a scope only ever comes from a sample of that scope. -/
theorem Committed.lastPending_cases {s s' : Store} {a : Action} (h : Committed s a s') (scope : Scope) :
    scopeLastPending s' scope = scopeLastPending s scope ∨ ∃ kind view, a.sample = some (scope, kind, view) ∧
        scopeLastPending s' scope = (observe scope kind view).pendingCount := by
  cases h with
  | idle => exact .inl rfl
  | refused _ view _ _ _ req decision observationID _ hnew heffect
  | reconciled view _ _ _ tick decision observationID _ heffect =>
    have hpending := heffect.observed.pending scope
    split at hpending
    next hrecorded =>
      obtain ⟨rfl, -⟩ := hrecorded
      exact .inr ⟨_, view, rfl, hpending⟩
    · exact .inl hpending
  | admitted _ view _ _ _ req decision pending b _ hfree hnew heffect =>
    have hlast := heffect.last scope
    by_cases hscope : scope = req.toScope
    · subst hscope
      obtain ⟨latest, hview⟩ := heffect.clean
      refine .inr ⟨.allocation, view, rfl, ?_⟩
      rw [hlast, if_pos rfl]
      exact hview.pending_eq.symm
    · rw [if_neg hscope] at hlast
      exact .inl hlast
  | administered _ _ _ _ req outcome s₁ audit row heffect hrows haudited =>
    left
    cases heffect with
    | unchanged | registry => rfl
    | clear pending _ haction heffect => exact congrFun heffect.last scope
    | dispose b e _ haction heffect =>
      obtain ⟨bindings, events, rfl⟩ := heffect.rest
      rfl

theorem classify_divergence {i : ClassificationInput} {d : Decision} (h : Classified i d)
    (hcause : d.holdCause = some .chainViewDivergence) : (classify i).classification = .divergence := by
  cases h with
  | unread | exhausted | first | bootstrap | consistent | consumed | gap => cases hcause
  | divergence latest pending hread hlatest hpending hdiverges =>
    have hbranch : pending < latest ∨ (i.pendingPrev.any fun prev => pending < prev) = true := by
      simpa only [Option.any_eq_true, decide_eq_true_eq] using hdiverges
    simp only [classify, hread, hlatest, hpending, if_pos hbranch]

theorem Committed.divergence_cases {s s' : Store} {a : Action} (h : Committed s a s') {scope : Scope}
    (hheld : Held s' scope .chainViewDivergence) : Held s scope .chainViewDivergence ∨ a.Diverges s := by
  cases h with
  | idle => exact .inl hheld
  | refused _ view _ _ _ req decision observationID _ hnew heffect
  | reconciled view _ _ _ tick decision observationID _ heffect =>
    rcases (heffect.observed.held scope _).mp hheld with hold | ⟨-, hcause⟩
    · exact .inl hold
    · exact .inr ⟨_, _, _, rfl, classify_divergence heffect.classified hcause⟩
  | admitted _ view _ _ _ req decision pending b _ hfree hnew heffect =>
    unfold Held at hheld
    rw [heffect.holds] at hheld
    exact .inl hheld
  | administered _ _ _ _ req outcome s₁ audit row heffect hrows haudited =>
    left
    cases heffect with
    | unchanged | registry => exact hheld
    | clear pending _ haction heffect =>
      obtain ⟨r, hr, hscope, hcause, hactive, -⟩ := (heffect.held scope _).mp hheld
      exact ⟨r, hr, hscope, hcause, hactive⟩
    | dispose b e _ haction heffect =>
      obtain ⟨bindings, events, rfl⟩ := heffect.rest
      exact hheld

/-- What true samples leave in the store: every last pending count is the true count at the
sampling instant of some earlier action on the scope. -/
theorem lastPending_sampled {chain : ChainHistory} {steps : List TimedAction} (htrue : ∀ t ∈ steps, t.Truthful chain)
    {scope : Scope} {prev : Int} (hprev : scopeLastPending (afterTimed steps).store scope = some prev) :
    ∃ t ∈ steps, t.Samples scope ∧ prev = chain.pending scope t.pendingAt := by
  induction steps using reverseRecOn with
  | nil => cases hprev
  | append_singleton front t ih =>
    rw [afterTimed_concat] at hprev
    rcases ((afterTimed front).next_committed t.action).lastPending_cases scope with
      hsame | ⟨kind, view, hsample, hnew⟩
    · rw [hsame] at hprev
      obtain ⟨earlier, hearlier, hfacts⟩ := ih (fun u hu => htrue u (by simp [hu])) hprev
      exact ⟨earlier, by simp [hearlier], hfacts⟩
    · rw [hnew] at hprev
      have hcount := (observe_counts scope kind view).2 prev hprev
      refine ⟨t, by simp, ⟨kind, view, hsample⟩, ?_⟩
      exact (htrue t (by simp) scope kind view hsample).2 prev hcount

/-- A diverging view was overtaken: an action on its scope that sampled later, and saw a larger
pending count, took the lock first. -/
theorem Action.Diverges.overtaken {chain : ChainHistory} {front : List TimedAction} {t : TimedAction}
    (htrue : ∀ u ∈ front, u.Truthful chain) (ht : t.Truthful chain) (h : t.action.Diverges (afterTimed front).store) :
    ∃ earlier ∈ front, ∃ scope, t.Samples scope ∧ earlier.Samples scope ∧ t.pendingAt < earlier.pendingAt ∧
      chain.pending scope t.pendingAt < chain.pending scope earlier.pendingAt := by
  obtain ⟨scope, kind, view, hsample, hdivergence⟩ := h
  obtain ⟨hlatestTrue, hpendingTrue⟩ := ht scope kind view hsample
  have hclassified := classify_classified (classificationInput (afterTimed front).store scope (observe scope kind view))
  generalize classify (classificationInput (afterTimed front).store scope
    (observe scope kind view)) = decision at hclassified hdivergence
  cases hclassified with
  | unread | exhausted | first | bootstrap | consistent | consumed | gap => cases hdivergence
  | divergence latest pending hread hlatest hpending hdiverges =>
    have hlatestEq := hlatestTrue latest ((observe_counts scope kind view).1 latest hlatest)
    have hpendingEq := hpendingTrue pending ((observe_counts scope kind view).2 pending hpending)
    rcases hdiverges with hlt | ⟨prev, hprev, hlt⟩
    · -- The latest count is read first, so it cannot exceed the pending count of one true chain.
      have hle := chain.latest_le scope t.latestAt
      have hmono := chain.pending_mono scope t.reads
      omega
    · obtain ⟨earlier, hearlier, hsamples, hprevEq⟩ := lastPending_sampled htrue hprev
      rw [hpendingEq, hprevEq] at hlt
      refine ⟨earlier, hearlier, scope, ⟨kind, view, hsample⟩, hsamples, ?_, hlt⟩
      by_contra hge
      have hmono := chain.pending_mono scope (Nat.le_of_not_lt hge)
      omega

/-- Actions on one scope take the lock in the order in which they sampled. -/
def InSamplingOrder (steps : List TimedAction) : Prop := steps.Pairwise fun earlier later =>
    ∀ scope, earlier.Samples scope → later.Samples scope → earlier.pendingAt ≤ later.pendingAt

theorem InSamplingOrder.not_diverges {chain : ChainHistory} {front back : List TimedAction} {t : TimedAction}
    (horder : InSamplingOrder (front ++ t :: back)) (htrue : ∀ u ∈ front ++ t :: back, u.Truthful chain) :
    ¬ t.action.Diverges (afterTimed front).store := by
  intro hdiverges
  obtain ⟨earlier, hearlier, scope, ht, hsamples, hlt, -⟩ :=
    hdiverges.overtaken (fun u hu => htrue u (by simp [hu])) (htrue t (by simp))
  have hle := (pairwise_append.mp horder).2.2 earlier hearlier t (by simp) scope hsamples ht
  omega

/-- Divergence under a chain whose counts never fall comes from overtaken samples only. Each
action whose true view classifies as divergence was preceded at the lock by an action on the same
scope that sampled later and saw a larger pending count; so when the actions of a scope reach the
lock in sampling order, none classifies as divergence and no such hold is ever established. -/
theorem divergence_only_when_overtaken (chain : ChainHistory) (steps : List TimedAction)
    (htrue : ∀ t ∈ steps, t.Truthful chain) :
    (∀ front t back, steps = front ++ t :: back → t.action.Diverges (afterTimed front).store →
      ∃ earlier ∈ front, ∃ scope, t.Samples scope ∧ earlier.Samples scope ∧ t.pendingAt < earlier.pendingAt ∧
        chain.pending scope t.pendingAt < chain.pending scope earlier.pendingAt) ∧
    (InSamplingOrder steps →
      (∀ front t back, steps = front ++ t :: back → ¬ t.action.Diverges (afterTimed front).store) ∧
      ∀ scope, ¬ Held (afterTimed steps).store scope .chainViewDivergence) := by
  refine ⟨?_, fun horder => ⟨?_, fun scope => ?_⟩⟩
  · rintro front t back rfl hdiverges
    exact hdiverges.overtaken (fun u hu => htrue u (by simp [hu])) (htrue t (by simp))
  · rintro front t back rfl
    exact horder.not_diverges htrue
  · induction steps using reverseRecOn with
    | nil =>
      rintro ⟨hold, hmem, -⟩
      cases hmem
    | append_singleton front t ih =>
      intro hheld
      rw [afterTimed_concat] at hheld
      rcases ((afterTimed front).next_committed t.action).divergence_cases hheld with
        hold | hdiverges
      · exact ih (fun u hu => htrue u (by simp [hu])) (pairwise_append.mp horder).1 hold
      · exact horder.not_diverges htrue hdiverges

namespace Sample

/-- Every sender submits one transaction an instant, and none is mined. -/
def chain : ChainHistory where
  latest _ _ := 0
  pending _ t := t
  latest_mono _ := monotone_const
  pending_mono _ _ _ h := Int.ofNat_le.mpr h
  latest_le _ t := Int.natCast_nonneg t

def registeredAt : TimedAction := ⟨register, 0, 0, 0, le_refl 0, le_refl 0⟩

/-- A call that samples at instant 1 and takes the lock at the given one. -/
def earlyCall (lockAt : Nat) (h : 1 ≤ lockAt) : TimedAction :=
  ⟨allocate "intent-1" "1" "0x0" "0x1", 1, 1, lockAt, le_refl 1, h⟩

/-- A call that samples at instant 2 and takes the lock at the given one. -/
def lateCall (lockAt : Nat) (h : 2 ≤ lockAt) : TimedAction :=
  ⟨allocate "intent-2" "2" "0x0" "0x2", 2, 2, lockAt, le_refl 2, h⟩

/-- The later sample takes the lock first. -/
def overtaken : List TimedAction := [registeredAt, lateCall 3 (by decide), earlyCall 4 (by decide)]

/-- Both calls take the lock in sampling order. -/
def ordered : List TimedAction := [registeredAt, earlyCall 3 (by decide), lateCall 4 (by decide)]

theorem registeredAt_truthful : registeredAt.Truthful chain := by
  intro scope kind view hsample
  cases hsample

theorem earlyCall_truthful (lockAt : Nat) (h : 1 ≤ lockAt) : (earlyCall lockAt h).Truthful chain := by
  rintro scope kind _ ⟨⟩
  refine ⟨fun n hn => ?_, fun n hn => ?_⟩
  · exact (Except.ok.inj hn).symm
  · exact (Except.ok.inj hn).symm

theorem lateCall_truthful (lockAt : Nat) (h : 2 ≤ lockAt) : (lateCall lockAt h).Truthful chain := by
  rintro scope kind _ ⟨⟩
  refine ⟨fun n hn => ?_, fun n hn => ?_⟩
  · exact (Except.ok.inj hn).symm
  · exact (Except.ok.inj hn).symm

theorem overtaken_truthful : ∀ t ∈ overtaken, t.Truthful chain := by
  simp only [overtaken, forall_mem_cons, not_mem_nil, false_implies, implies_true, and_true]
  exact ⟨registeredAt_truthful, lateCall_truthful _ _, earlyCall_truthful _ _⟩

theorem ordered_truthful : ∀ t ∈ ordered, t.Truthful chain := by
  simp only [ordered, forall_mem_cons, not_mem_nil, false_implies, implies_true, and_true]
  exact ⟨registeredAt_truthful, earlyCall_truthful _ _, lateCall_truthful _ _⟩

theorem ordered_inSamplingOrder : InSamplingOrder ordered := by
  simp [InSamplingOrder, ordered, registeredAt, earlyCall, lateCall]

end Sample

/-- True samples of a chain whose counts only grow establish a divergence hold when the later one
takes the lock first. -/
theorem divergence_hold_of_overtaken_sample : (∀ t ∈ overtaken, t.Truthful chain) ∧
      (overtaken.Pairwise fun earlier later => earlier.lockAt < later.lockAt) ∧
      Held (afterTimed overtaken).store scope .chainViewDivergence := by
  refine ⟨overtaken_truthful, by decide, ?_⟩
  unfold Held
  decide +kernel

theorem divergence_only_when_overtaken_sample : (∃ earlier ∈ [registeredAt, lateCall 3 (by decide)],
      (earlyCall 4 (by decide)).pendingAt < earlier.pendingAt) ∧
      ¬ Held (afterTimed ordered).store scope .chainViewDivergence := by
  refine ⟨?_, ?_⟩
  · obtain ⟨earlier, hearlier, scope, -, -, hlt, -⟩ :=
      (divergence_only_when_overtaken chain overtaken overtaken_truthful).1
        [registeredAt, lateCall 3 (by decide)] (earlyCall 4 (by decide)) [] rfl
        ⟨_, _, _, rfl, by decide +kernel⟩
    exact ⟨earlier, hearlier, hlt⟩
  · exact ((divergence_only_when_overtaken chain ordered ordered_truthful).2 ordered_inSamplingOrder).2 scope

end TxHarbor.Nonce
