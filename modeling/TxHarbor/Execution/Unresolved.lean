import TxHarbor.Execution.History
import TxHarbor.Execution.Parked

open Relational Transition Option

namespace TxHarbor.Execution

open Store Sample

/-! Step issues against attempts with an unknown outcome. -/

variable {t : ClaimTimings} {s s' : Store}

/-- Some send of the intent has no known outcome. -/
def Store.unresolved (s : Store) : Bool := s.attempts.rows.any fun a => a.state == .unknown

/-- What the callers always bring: the worker has left admitted behind when it issues, and an attempt is
persisted for a step that was persisted before it. -/
def Action.Ordered (s : Store) : Action → Prop
  | .submit (.issue _ _) _ => ∀ intent, s.intent = some intent → intent.state ≠ .admitted
  | .submit (.prepare id _ _ _) _ => id.step ∈ s.steps.rows.map Step.id
  | _ => True

/-- A first broadcast is issued for a claimed intent, or for one that has no step yet. -/
def Action.Resolved (s : Store) : Action → Prop
  | .submit (.issue req _) _ => req.action = .firstBroadcast →
      (∃ intent, s.intent = some intent ∧ intent.state = .claimed) ∨ s.steps.rows.map Step.id = []
  | _ => True

/-- No committed first broadcast finds an unresolved send. -/
def Action.Clear (t : ClaimTimings) (s : Store) : Action → Prop
  | .submit (.issue req gates) _ => req.action = .firstBroadcast →
      ∀ s', (Operation.issue req gates).body t s = .ok ((), s') → s.unresolved = false
  | _ => True

/-- Before its first issue an intent has no step, and every attempt has its step. -/
structure Store.Staged (s : Store) : Prop where
  absent : s.intent = none → s.steps.rows.map Step.id = []
  fresh : ∀ intent, s.intent = some intent → intent.state = .admitted ∨ intent.state = .claimed →
    s.steps.rows.map Step.id = []
  known : ∀ id ∈ s.attempts.rows.map TxAttempt.id, id.step ∈ s.steps.rows.map Step.id

theorem claimed_source {source target : IntentState} (h : classifyTransition source target ≠ .none)
    (htarget : target = .admitted ∨ target = .claimed) : source = .admitted := by
  rcases htarget with rfl | rfl <;> revert h <;> cases source <;> decide

namespace Store.Staged

theorem of_effect {op : Operation} (hs : s.Staged) (heffect : IntentEffect s op s')
    (hsteps : s'.steps.rows.map Step.id = s.steps.rows.map Step.id)
    (hknown : ∀ id ∈ s'.attempts.rows.map TxAttempt.id, id.step ∈ s.steps.rows.map Step.id) : s'.Staged := by
  refine ⟨?_, ?_, by rwa [hsteps]⟩
  · intro hnone
    rw [hsteps]
    cases heffect with
    | still hintent => exact hs.absent (hintent ▸ hnone)
    | admitted fresh => exact hs.absent fresh
    | moved read target current accepted fenced hintent =>
      cases hintent.symm.trans hnone
  · intro intent hintent' hstate
    rw [hsteps]
    cases heffect with
    | still hintent => exact hs.fresh intent (hintent ▸ hintent') hstate
    | admitted fresh => exact hs.absent fresh
    | moved read target current accepted fenced hintent =>
      rw [hintent, some.injEq] at hintent'
      subst hintent'
      exact hs.fresh read current (.inl (claimed_source accepted hstate))

theorem of_issue {req : StepRequest} {gates : IssueGates} (hs : s.Staged)
    (hordered : ∀ intent, s.intent = some intent → intent.state ≠ .admitted)
    (h : issue req gates s = .ok ((), s')) : s'.Staged := by
  obtain ⟨hattempts, -, hids, -⟩ := issue_steps h
  obtain ⟨intent, steps, hissuable, hs'⟩ := issue_spec h
  have hlate : ∃ i, s'.intent = some i ∧ i.state ≠ .admitted ∧ i.state ≠ .claimed := by
    rcases hs' with ⟨-, rfl⟩ | ⟨hnot, rfl⟩
    · exact ⟨_, rfl, nofun, nofun⟩
    · exact ⟨intent, hissuable.read, hordered intent hissuable.read, fun hclaimed => hnot (.inl hclaimed)⟩
  obtain ⟨i, hi, hadmitted, hclaimed⟩ := hlate
  refine ⟨?_, ?_, ?_⟩
  · rw [hi]
    nofun
  · intro intent' hintent' hstate
    rw [hi, some.injEq] at hintent'
    subst hintent'
    exact absurd hstate (not_or.mpr ⟨hadmitted, hclaimed⟩)
  · rw [hattempts, hids]
    exact fun id hid => List.mem_append_left _ (hs.known id hid)

theorem operation {op : Operation} (hs : s.Staged) (fault : Fault Refusal)
    (hordered : (Action.submit op fault).Ordered s) (h : op.body t s = .ok ((), s')) : s'.Staged := by
  have heffect := Operation.intent_effect h
  by_cases hconverges : op.converges = true
  · have hkept := Operation.kept hconverges h
    exact hs.of_effect heffect hkept.ids (by rw [hkept.attempts]; exact hs.known)
  by_cases hobserves : op.observes = true
  · obtain ⟨hids, hlifecycle⟩ := Operation.observes_frame hobserves h
    have hsteps : s'.steps.rows.map Step.id = s.steps.rows.map Step.id := by rw [hlifecycle]
    exact hs.of_effect heffect hsteps (by rw [hids]; exact hs.known)
  · cases op with
    | issue req gates => exact hs.of_issue hordered h
    | prepare id signing anchor recoveryVersion =>
      rcases prepareAttempt_spec h with ⟨rfl, -⟩ | ⟨attempts, -, hinserted, rfl⟩
      · exact hs
      · refine hs.of_effect heffect rfl ?_
        change ∀ id' ∈ attempts.rows.map TxAttempt.id, _
        rw [(Table.insert?_eq_some hinserted).2, List.map_append]
        intro id' hid'
        rcases mem_concat_cases hid' with hold | rfl
        · exact hs.known id' hold
        · exact hordered
    | _ => first | exact absurd rfl hconverges | exact absurd rfl hobserves

theorem next (hs : s.Staged) (a : Action) (hordered : a.Ordered s) : (s.next t a).Staged := by
  cases a with
  | wait ticks => exact ⟨hs.absent, hs.fresh, hs.known⟩
  | submit op fault =>
    rcases s.next_submit t op fault with hsame | ⟨s', hbody, hnew⟩
    · rwa [hsame]
    · rw [hnew]
      exact hs.operation fault hordered hbody

/-- An intent without a step has no attempt yet. -/
theorem clear (hs : s.Staged) (a : Action) (hresolved : a.Resolved s) : a.Clear t s := by
  cases a with
  | wait ticks => trivial
  | submit op fault =>
    cases op with
    | issue req gates =>
      intro haction s' _
      have hsteps : s.steps.rows.map Step.id = [] := by
        rcases hresolved haction with ⟨intent, hintent, hclaimed⟩ | hsteps
        · exact hs.fresh intent hintent (.inr hclaimed)
        · exact hsteps
      have hattempts : s.attempts.rows = [] := by
        rw [List.eq_nil_iff_forall_not_mem]
        intro a ha
        have hknown := hs.known a.id (List.mem_map_of_mem ha)
        rw [hsteps] at hknown
        cases hknown
      rw [unresolved, hattempts]
      rfl
    | _ => trivial

end Store.Staged

theorem staged_run_clear (t : ClaimTimings) (actions : List Action) (hs : s.Staged)
    (h : Along (next t) (fun s a => a.Ordered s ∧ a.Resolved s) s actions) :
    Along (next t) (fun s a => a.Clear t s) s actions := by
  induction actions generalizing s with
  | nil => trivial
  | cons a rest ih => exact ⟨hs.clear a h.1.2, ih (hs.next a h.1.1) h.2⟩

/-- While first broadcasts are issued for claimed intents, or for intents without a step, no committed one
finds a send with an unknown outcome. -/
theorem first_broadcasts_find_no_unknown (t : ClaimTimings) (start : Int) (actions : List Action)
    (h : Along (Store.next t) (fun s a => a.Ordered s ∧ a.Resolved s) (Store.empty start) actions) :
    Along (Store.next t) (fun s a => a.Clear t s) (Store.empty start) actions :=
  staged_run_clear t actions ⟨fun _ => rfl, nofun, nofun⟩ h

namespace Sample

/-- The first dispatch ends unknown and its step is converged: the intent is reconciling. -/
def sentUnknown : List Action := issuing ++ [does (.prepare ⟨1⟩ .request none 0), does (.sign ⟨1⟩),
    does (.dispatch ⟨1⟩ first .initial ⟨none, false⟩ .unknown),
    does (.converge first 1 (.outcome .pendingUnknown (some ⟨1⟩) 3))]

def secondIssue : Action := does (.issue ⟨first, 2, .firstBroadcast⟩ permitting)

end Sample

theorem first_broadcast_of_claimed_intent_clear :
    Along (Store.next timings) (fun s a => a.Clear timings s) (Store.empty 0) issuing := by
  refine first_broadcasts_find_no_unknown timings 0 issuing
    ⟨⟨trivial, trivial⟩, ⟨trivial, trivial⟩, ⟨trivial, trivial⟩, ⟨?_, ?_⟩, trivial⟩
  · intro intent hintent
    have hclaimed : (run (next timings) (.empty 0) claiming).intent = some ⟨.claimed, 2⟩ := by decide +kernel
    obtain rfl := some.inj (hclaimed.symm.trans hintent)
    decide
  · exact fun _ => .inl ⟨⟨.claimed, 2⟩, by decide +kernel, rfl⟩

/-- The worker's next cycle issues step 2 while the attempt of step 1 is unknown. -/
theorem first_broadcast_issued_while_unknown :
    let s := run (next timings) (.empty 0) sentUnknown
    s.unresolved = true ∧ (s.execIntentCycle first 2 granting).steps.rows.map Step.id = [1, 2] ∧
      ¬ Along (next timings) (fun s a => a.Clear timings s) (empty 0) (sentUnknown ++ [secondIssue]) := by
  intro s
  have hunknown : s.unresolved = true := by decide +kernel
  refine ⟨hunknown, by decide +kernel, ?_⟩
  intro hall
  have hlast := (along_append.mp hall).2.1
  have hresolved : s.unresolved = false := hlast rfl _ (ok_of_isOk (by decide +kernel))
  cases hunknown.symm.trans hresolved

end TxHarbor.Execution
