import TxHarbor.Withdrawal.Intake

/-!
# Intake answers in order

Every answer that a call computes from one of its steps is compared with what one sequential intake would answer in the
state of that step, so that the order of the steps is the order of the calls and changes.
-/

open Transition List Option Bool

namespace TxHarbor.Withdrawal

namespace Ledger

variable {l : Ledger} {i : Nat}

variable {s : Session} {row : Request}

/-- A transaction keeps its job. -/
theorem job_next (hi : l.sessions[i]? = some s) (act : Action) :
    ∃ s', (l.next act).sessions[i]? = some s' ∧ s'.job = s.job := by
  have hmove : ∀ (j : Nat) (t : Session) (stage : Stage), l.sessions[j]? = some t →
      ∃ s', (l.move j t stage).sessions[i]? = some s' ∧ s'.job = s.job := by
    intro j t stage hj
    by_cases hji : j = i
    · subst hji
      cases hi.symm.trans hj
      exact ⟨{ s with stage := stage }, by simp [move, (List.getElem?_eq_some_iff.mp hi).1], rfl⟩
    · exact ⟨s, by simp [move, hji, hi], rfl⟩
  have hstep := next_step l act
  generalize l.next act = l' at hstep
  cases hstep with
  | same | ticked => exact ⟨s, hi, rfl⟩
  | started job => exact ⟨s, by rwa [List.getElem?_append_left (List.getElem?_eq_some_iff.mp hi).1], rfl⟩
  | freed hj | held hj | creating hj | bumping hj | revoking hj | sharing hj | checked hj | inserted hj | accepted hj =>
    exact hmove _ _ _ hj
  | @wrote j t writes hj hstage =>
    obtain ⟨s', hs', hjob⟩ := hmove j t .ended hj
    exact ⟨s', by rwa [sessions_apply], hjob⟩

theorem requests_apply {a : String} {writes : Writes} : (l.apply a writes).requests = l.requests := by
  cases writes <;> rfl

theorem mem_requests_next {r : Request} (hr : r ∈ l.requests) (act : Action) : r ∈ (l.next act).requests := by
  have hstep := next_step l act
  generalize l.next act = l' at hstep
  cases hstep with
  | wrote =>
    rwa [requests_apply]
  | accepted => exact mem_cons_of_mem _ hr
  | _ => exact hr

theorem hasEnded_iff (hi : l.sessions[i]? = some s) : l.hasEnded i = true ↔ s.stage = .ended := by
  simp [hasEnded, hi]

theorem hasEnded_move {stage : Stage} (hi : l.sessions[i]? = some s) :
    (l.move i s stage).hasEnded i = true ↔ stage = .ended := by
  simp [hasEnded, move, (List.getElem?_eq_some_iff.mp hi).1]

theorem requests_lock : (l.next (.lock i)).requests = l.requests := by
  simp only [next]
  split
  · simp only [lockGrant, holdGrant]
    split <;> repeat' split
    all_goals rfl
  · rfl

theorem requests_clock : (l.next (.clock i)).requests = l.requests := by
  simp only [next]
  split
  · simp only [checkGrant]
    split <;> rfl
  · rfl

theorem requests_abort : (l.next (.abort i)).requests = l.requests := by
  simp only [next]
  split <;> rfl

/-- Requests change in a commit of a receipt transaction only. -/
theorem requests_next (l : Ledger) (act : Action) : (l.next act).requests = l.requests ∨
    ∃ i row, act = .commit i ∧ l.accepting i = some row ∧ (l.next act).requests = row :: l.requests ∧
      (l.next act).hasEnded i = true := by
  cases act with
  | tick | start => exact .inl rfl
  | lock i => exact .inl requests_lock
  | clock i => exact .inl requests_clock
  | abort i => exact .inl requests_abort
  | decide i =>
    refine .inl ?_
    simp only [next, decideGrant, supplyHeld, createGrant]
    repeat' split
    all_goals rfl
  | insert i =>
    refine .inl ?_
    simp only [next]
    split
    · simp only [insertRequest]
      repeat' split
      all_goals rfl
    · rfl
  | commit i =>
    simp only [next, accepting]
    split
    next s hi =>
      obtain ⟨job, stage⟩ := s
      cases stage with
      | written writes =>
        refine .inl ?_
        simp only [commitSession]
        split
        · rfl
        · exact requests_apply
      | inserted tCheck =>
        cases job with
        | accept row => exact .inr ⟨i, row, rfl, by simp [hi], rfl, (hasEnded_move hi).mpr rfl⟩
        | _ => exact .inl rfl
      | _ => exact .inl rfl
    · exact .inl rfl

theorem grants_of_lock_ended (hi : l.sessions[i]? = some ⟨.accept row, .begun⟩)
    (hended : (l.next (.lock i)).hasEnded i = true) : l.grants row.authorizationID = none := by
  simp only [next, hi, lockGrant] at hended
  split at hended
  · assumption
  · split at hended
    · exact absurd ((hasEnded_iff hi).mp hended) (by rintro ⟨⟩)
    · exact absurd ((hasEnded_move hi).mp hended) (by rintro ⟨⟩)

theorem grantValid_of_clock_ended (hi : l.sessions[i]? = some ⟨.accept row, .sharing⟩)
    (hended : (l.next (.clock i)).hasEnded i = true) : l.grantValid row = false := by
  simp only [next, hi, checkGrant] at hended
  split at hended
  · have hmoved : (l.move i ⟨.accept row, .sharing⟩ (.checked l.clock)).hasEnded i = true := hended
    exact absurd ((hasEnded_move hi).mp hmoved) (by rintro ⟨⟩)
  next hinvalid => exact not_eq_true _ ▸ hinvalid

theorem requests_commit {tCheck : Int} (hi : l.sessions[i]? = some s) (hjob : s.job = .accept row)
    (hstage : s.stage = .inserted tCheck) : (l.next (.commit i)).requests = row :: l.requests := by
  obtain ⟨job, stage⟩ := s
  cases hjob
  cases hstage
  simp only [next, hi, commitSession]
  rfl

end Ledger

variable {r : Request}

/-- A grant that was valid stays so until it expires. -/
theorem Grant.validFor_later {g : Grant} {tCheck now : Int} (h : g.validFor r tCheck = true)
    (hnow : ∀ expires, g.terms.expiresAt = some expires → now < expires) : g.validFor r now = true := by
  simp only [validFor, and_eq_true] at h ⊢
  have hexpires : (g.terms.expiresAt.all fun expires => decide (now < expires)) = true := by
    rw [Option.all_eq_true]
    exact fun expires he => decide_eq_true (hnow expires he)
  obtain ⟨⟨⟨⟨⟨⟨hstate, -⟩, hcaller⟩, hchain⟩, hasset⟩, hrecipient⟩, hamount⟩ := h
  exact ⟨⟨⟨⟨⟨⟨hstate, hexpires⟩, hcaller⟩, hchain⟩, hasset⟩, hrecipient⟩, hamount⟩

theorem Request.not_sameKey {p : Request} (h : r.conflicts p = false) : p.sameKey r = false := by
  rw [eq_false_iff]
  intro hsame
  simp only [sameKey, and_eq_true, beq_iff_eq] at hsame
  exact (Request.apart h).2.1 hsame

namespace IntakeWorld

variable {w : IntakeWorld} {c : Call} {m : Move} {l : Ledger} {phase : Phase}

/-- The ledger's invariants, and what the phase of a call says about it. -/
structure Sound (w : IntakeWorld) : Prop where
  locks : w.ledger.Locks
  recorded : w.ledger.Recorded
  passed : ∀ (k : Nat) (c : Call), w.calls[k]? = some c → c.phase.passed = true →
    c.call.canCreate = true ∧ c.call.malformed = false
  linked : ∀ (k : Nat) (c : Call) i, w.calls[k]? = some c → c.phase = .running i →
    ∃ s, w.ledger.sessions[i]? = some s ∧ s.job = .accept c.call.row

/-- What the calls have read still holds. -/
structure Steady (w : IntakeWorld) : Prop where
  missed : ∀ (k : Nat) (c : Call), w.calls[k]? = some c → c.phase.missedKey = true →
    w.ledger.readRequestByKey c.call.row = none
  listed : ∀ (k : Nat) (c : Call), w.calls[k]? = some c → c.phase.readList = true →
    w.allowlist.contains c.call.row.asset = true

/-- The ways to an answer, each with what the call has read. -/
inductive Answers (w : IntakeWorld) (c : Call) : Ledger → Answer → Prop
  | open' {l : Ledger} {a : Answer} (ha : a = .unauthenticated ∨ a = .unavailable)
      (hrequests : l.requests = w.ledger.requests) : Answers w c l a
  | denied (hcan : c.call.canCreate = false) (hfree : w.ledger.readRequestByKey c.call.row = none) :
      Answers w c w.ledger .forbidden
  | malformed (hcan : c.call.canCreate = true) (hmalformed : c.call.malformed = true)
      (hfree : w.ledger.readRequestByKey c.call.row = none) : Answers w c w.ledger .invalid
  | found {row : Request} (hpassed : c.phase.passed = true) (hrow : w.ledger.readRequestByKey c.call.row = some row) :
      Answers w c w.ledger (foundAnswer row c.call.row)
  | unlisted (hpassed : c.phase.passed = true) (hlist : w.allowlist.contains c.call.row.asset = false)
      (hfree : w.ledger.readRequestByKey c.call.row = none) : Answers w c w.ledger .invalid
  | ungranted {l : Ledger} (hpassed : c.phase.passed = true) (hvalid : w.ledger.grantValid c.call.row = false)
      (hrequests : l.requests = w.ledger.requests) (hfree : w.ledger.readRequestByKey c.call.row = none)
      (hlist : w.allowlist.contains c.call.row.asset = true) : Answers w c l .forbidden
  | bound (hpassed : c.phase.passed = true) (hbound : w.ledger.requestBoundToAuthorization c.call.row = true)
      (hfree : w.ledger.readRequestByKey c.call.row = none)
      (hlist : w.allowlist.contains c.call.row.asset = true) : Answers w c w.ledger .forbidden
  | created {i : Nat} {s : Session} {tCheck : Int} (hpassed : c.phase.passed = true)
      (hi : w.ledger.sessions[i]? = some s) (hjob : s.job = .accept c.call.row) (hstage : s.stage = .inserted tCheck)
      (hlist : w.allowlist.contains c.call.row.asset = true)
      (hunexpired : ∀ g, w.ledger.grants c.call.row.authorizationID = some g →
        ∀ expires, g.terms.expiresAt = some expires → w.ledger.clock < expires) :
      Answers w c (w.ledger.next (.commit i)) (.created c.call.row.receipt)

variable {i k : Nat} {a : Answer}

theorem statement_inv {stage : Stage → Bool} {act : Action} {left : Phase}
    (h : w.statement i stage act left = some (l, phase)) :
    (∃ s, w.ledger.sessions[i]? = some s ∧ stage s.stage = true) ∧ l = w.ledger.next act ∧
      (phase = left ∧ l.hasEnded i = true ∨ phase = .running i) := by
  simp only [statement] at h
  split at h
  next hstage =>
    rw [Option.any_eq_true] at hstage
    cases h
    refine ⟨hstage, rfl, ?_⟩
    split
    next hended => exact .inl ⟨rfl, hended⟩
    · exact .inr rfl
  · cases h

/-- The transaction of a call is in the stage of the statement that ran, with the request of the call. -/
theorem Sound.statement_job {stage : Stage → Bool} {act : Action} {left : Phase} (h : w.Sound) (hc : w.calls[k]? = some c)
    (hphase : c.phase = .running i) (hmove : w.statement i stage act left = some (l, .answered a)) :
    ∃ s, w.ledger.sessions[i]? = some ⟨.accept c.call.row, s⟩ ∧ stage s = true ∧ l = w.ledger.next act ∧
      left = .answered a ∧ l.hasEnded i = true := by
  obtain ⟨⟨⟨job, s⟩, hi, hstage⟩, hl, ⟨hanswer, hended⟩ | hanswer⟩ := statement_inv hmove
  · obtain ⟨s', hi', hjob⟩ := h.linked k c i hc hphase
    cases hi.symm.trans hi'
    cases hjob
    exact ⟨s, hi, hstage, hl, hanswer.symm, hended⟩
  · cases hanswer

/-- Under a steady schedule an answer is given in a state that justifies it. -/
theorem move_answers (h : w.Sound) (hw : w.Steady) (hsteady : w.steady (.call k m) = true) (hc : w.calls[k]? = some c)
    (hmove : w.move c m = some (l, .answered a)) : w.Answers c l a := by
  obtain ⟨hundisturbed, -⟩ := and_eq_true_iff.mp hsteady
  cases m <;> cases hphase : c.phase <;> simp only [move, hphase, reduceCtorEq] at hmove
  case screen.started =>
    simp only [some.injEq, Prod.mk.injEq] at hmove
    obtain ⟨rfl, hphase⟩ := hmove
    simp only [undisturbed, hc, all_some] at hundisturbed
    split_ifs at hphase with hauth hcan hmalformed <;> cases hphase
    · exact .open' (.inl rfl) rfl
    · exact .denied (by simpa using hcan) (by simpa [show c.call.canCreate = false by simpa using hcan] using hundisturbed)
    · exact .malformed (by simpa using hcan) hmalformed (by simpa [hmalformed] using hundisturbed)
  case readKey.admitted | rereadKey.classifying =>
    split at hmove <;> cases hmove
    rename_i row hrow
    exact .found (by rw [hphase]; rfl) hrow
  case checkAllowlist.missed =>
    simp only [some.injEq, Prod.mk.injEq] at hmove
    obtain ⟨rfl, hanswer⟩ := hmove
    split at hanswer <;> cases hanswer
    rename_i hlist
    exact .unlisted (by rw [hphase]; rfl) (not_eq_true _ ▸ hlist) (hw.missed k c hc (by rw [hphase]; rfl))
  case lockGrant.running i =>
    obtain ⟨stage, hi, hstage, rfl, hanswer, hended⟩ := h.statement_job hc hphase hmove
    cases hanswer
    cases stage <;> simp only [isBegun, false_eq_true] at hstage
    refine .ungranted (by rw [hphase]; rfl) ?_ Ledger.requests_lock (hw.missed k c hc (by rw [hphase]; rfl))
      (hw.listed k c hc (by rw [hphase]; rfl))
    simp [Ledger.grantValid, Ledger.grants_of_lock_ended hi hended]
  case checkGrant.running i =>
    obtain ⟨stage, hi, hstage, rfl, hanswer, hended⟩ := h.statement_job hc hphase hmove
    cases hanswer
    cases stage <;> simp only [isSharing, false_eq_true] at hstage
    exact .ungranted (by rw [hphase]; rfl) (Ledger.grantValid_of_clock_ended hi hended) Ledger.requests_clock
      (hw.missed k c hc (by rw [hphase]; rfl)) (hw.listed k c hc (by rw [hphase]; rfl))
  case insert.running i =>
    obtain ⟨-, -, -, -, hanswer, -⟩ := h.statement_job hc hphase hmove
    cases hanswer
  case commit.running i =>
    obtain ⟨stage, hi, hstage, rfl, hanswer, -⟩ := h.statement_job hc hphase hmove
    cases hanswer
    cases stage <;> simp only [isInserted, false_eq_true] at hstage
    refine .created (by rw [hphase]; rfl) hi rfl rfl (hw.listed k c hc (by rw [hphase]; rfl)) ?_
    simpa [undisturbed, hc, Option.all_eq_true] using hundisturbed
  case loseCommit.running => split at hmove <;> cases hmove
  case readBound.unbound =>
    simp only [some.injEq, Prod.mk.injEq] at hmove
    obtain ⟨rfl, hanswer⟩ := hmove
    split at hanswer <;> cases hanswer
    next hbound =>
      exact .bound (by rw [hphase]; rfl) hbound (hw.missed k c hc (by rw [hphase]; rfl))
        (hw.listed k c hc (by rw [hphase]; rfl))
    · exact .open' (.inr rfl) rfl
  -- the call begins its transaction, or it fails
  all_goals cases hmove
  case fail.running => exact .open' (.inr rfl) Ledger.requests_abort
  all_goals exact .open' (.inr rfl) rfl

theorem Answers.requests_eq (h : w.Answers c l a) (ha : ∀ receipt, a ≠ .created receipt) :
    l.requests = w.ledger.requests := by
  cases h with
  | open' _ hrequests | ungranted _ _ hrequests _ _ => exact hrequests
  | denied | malformed | found | unlisted | bound => rfl
  | created => exact absurd rfl (ha _)

theorem Answers.requests_cons {receipt : Receipt} (h : w.Answers c l (.created receipt)) :
    l.requests = c.call.row :: w.ledger.requests := by
  generalize ha : Answer.created receipt = a at h
  cases h with
  | created hpassed hi hjob hstage => exact Ledger.requests_commit hi hjob hstage
  | open' hopen => subst ha; rcases hopen with hopen | hopen <;> cases hopen
  | found hpassed hrow =>
    unfold foundAnswer at ha
    split at ha <;> cases ha
  | _ => cases ha

/-- The row of a transaction that is about to commit stands beside no other, and its grant is valid for as long as it has
not expired. -/
theorem Sound.acceptable (h : w.Sound) {s : Session} {row : Request} {tCheck : Int}
    (hi : w.ledger.sessions[i]? = some s) (hjob : s.job = .accept row) (hstage : s.stage = .inserted tCheck)
    (hunexpired : ∀ g, w.ledger.grants row.authorizationID = some g →
      ∀ expires, g.terms.expiresAt = some expires → w.ledger.clock < expires) :
    w.ledger.readRequestByKey row = none ∧ w.ledger.grantValid row = true ∧
      w.ledger.requestBoundToAuthorization row = false := by
  have hfresh := h.recorded.fresh i s row tCheck hi hjob hstage
  refine ⟨?_, ?_, ?_⟩
  · rw [Ledger.readRequestByKey, find?_eq_none]
    intro r hr
    rw [Request.not_sameKey (hfresh r hr)]
    exact false_ne_true
  · obtain ⟨row', g, hjob', hgrant, hvalid, -⟩ := (h.locks.fits i s hi).valid tCheck (.inr hstage)
    have hrow : row' = row := Job.accept.inj (hjob'.symm.trans hjob)
    subst hrow
    simp only [Ledger.grantValid, hgrant, any_some]
    exact Grant.validFor_later hvalid (hunexpired g hgrant)
  · rw [Ledger.requestBoundToAuthorization, List.any_eq_false]
    intro r hr
    rw [beq_iff_eq]
    exact (Request.apart (hfresh r hr)).2.2

/-- A justified answer is the sequential one of that state. -/
theorem Answers.eq_sequential (h : w.Sound) (hc : w.calls[k]? = some c) (hanswers : w.Answers c l a)
    (hauth : a ≠ .unauthenticated) (hopen : a ≠ .unavailable) : a = w.sequential c.call := by
  cases hanswers with
  | open' ha => exact (ha.elim hauth hopen).elim
  | denied hcan hfree => simp [sequential, hfree, hcan]
  | malformed hcan hmalformed hfree => simp [sequential, hfree, hcan, hmalformed]
  | found hpassed hrow =>
    have hcall := h.passed k c hc hpassed
    simp [sequential, hrow, hcall]
  | unlisted hpassed hlist hfree =>
    have hcall := h.passed k c hc hpassed
    simp only [sequential, hfree, hcall, hlist]
    rfl
  | ungranted hpassed hvalid _ hfree hlist =>
    have hcall := h.passed k c hc hpassed
    simp only [sequential, hfree, hcall, hlist, hvalid]
    rfl
  | bound hpassed hbound hfree hlist =>
    have hcall := h.passed k c hc hpassed
    simp only [sequential, hfree, hcall, hlist, hbound, Bool.not_true, Bool.and_false]
    rfl
  | created hpassed hi hjob hstage hlist hunexpired =>
    have hcall := h.passed k c hc hpassed
    obtain ⟨hnone, hvalid, hbound⟩ := h.acceptable hi hjob hstage hunexpired
    simp only [sequential, hnone, hcall, hlist, hvalid, hbound]
    rfl

/-- A step of a call is at most one action of the ledger. -/
theorem move_ledger (hmove : w.move c m = some (l, phase)) : l = w.ledger ∨ ∃ act, l = w.ledger.next act := by
  cases m <;> cases hphase : c.phase <;> simp only [move, hphase, reduceCtorEq] at hmove
  case lockGrant.running | checkGrant.running | insert.running | commit.running => exact .inr ⟨_, (statement_inv hmove).2.1⟩
  case readKey.admitted | rereadKey.classifying =>
    split at hmove <;> cases hmove <;> exact .inl rfl
  case loseCommit.running effective i =>
    split at hmove <;> cases hmove
    cases effective
    · exact .inl rfl
    · exact .inr ⟨_, if_pos rfl⟩
  all_goals cases hmove
  case beginTx.listed | fail.running => exact .inr ⟨_, rfl⟩
  all_goals exact .inl rfl

/-- A call goes on only after its checks, and its transaction is the one it began. -/
theorem move_phase (hmove : w.move c m = some (l, phase)) :
    (phase.passed = true → c.phase.passed = true ∨ c.call.canCreate = true ∧ c.call.malformed = false) ∧
      ∀ i, phase = .running i → c.phase = .running i ∨ l.sessions[i]? = some ⟨.accept c.call.row, .begun⟩ := by
  cases m <;> cases hphase : c.phase <;> simp only [move, hphase, reduceCtorEq] at hmove
  case screen.started =>
    cases hmove
    split_ifs with hauth hcan hmalformed <;> refine ⟨?_, (by rintro _ ⟨⟩)⟩
    case neg => exact fun _ => .inr ⟨by simpa using hcan, by simpa using hmalformed⟩
    all_goals rintro ⟨⟩
  case readKey.admitted | rereadKey.classifying =>
    split at hmove <;> cases hmove
    · exact ⟨(by rintro ⟨⟩), (by rintro _ ⟨⟩)⟩
    · exact ⟨fun _ => .inl rfl, (by rintro _ ⟨⟩)⟩
  case checkAllowlist.missed =>
    cases hmove
    refine ⟨fun _ => .inl rfl, fun i => ?_⟩
    split <;> rintro ⟨⟩
  case beginTx.listed =>
    cases hmove
    refine ⟨fun _ => .inl rfl, fun i hi => .inr ?_⟩
    cases hi
    simp [Ledger.next]
  case lockGrant.running j | checkGrant.running j | insert.running j | commit.running j =>
    obtain ⟨-, -, ⟨rfl, -⟩ | rfl⟩ := statement_inv hmove
    · exact ⟨fun _ => .inl rfl, (by rintro _ ⟨⟩)⟩
    · exact ⟨fun _ => .inl rfl, fun _ => .inl⟩
  case loseCommit.running effective i =>
    split at hmove <;> cases hmove
    exact ⟨fun _ => .inl rfl, (by rintro _ ⟨⟩)⟩
  case readBound.unbound =>
    cases hmove
    split <;> exact ⟨(by rintro ⟨⟩), (by rintro _ ⟨⟩)⟩
  all_goals
    cases hmove
    exact ⟨(by rintro ⟨⟩), (by rintro _ ⟨⟩)⟩

namespace Sound

/-- The ledger alone moves. -/
theorem ledgerNext (h : w.Sound) (act : Action) : Sound { w with ledger := w.ledger.next act } where
  locks := h.locks.step (Ledger.next_step _ act)
  recorded := h.recorded.step h.locks (Ledger.next_step _ act)
  passed := h.passed
  linked k c i hc hphase := by
    obtain ⟨s, hs, hjob⟩ := h.linked k c i hc hphase
    obtain ⟨s', hs', hjob'⟩ := Ledger.job_next hs act
    exact ⟨s', hs', hjob'.trans hjob⟩

theorem called (h : w.Sound) (hc : w.calls[k]? = some c) (hmove : w.move c m = some (l, phase)) :
    Sound { w with ledger := l, calls := w.calls.set k { c with phase := phase } } := by
  have hledger : Sound { w with ledger := l } := by
    rcases move_ledger hmove with rfl | ⟨act, rfl⟩
    · exact h
    · exact h.ledgerNext act
  obtain ⟨hpassed, hrunning⟩ := move_phase hmove
  refine ⟨hledger.locks, hledger.recorded, ?_, ?_⟩
  · intro j d hd hphase
    rcases getElem?_set_eq_some hd with ⟨-, rfl⟩ | ⟨-, hd⟩
    · exact (hpassed hphase).elim (h.passed k c hc) id
    · exact h.passed j d hd hphase
  · intro j d i hd hphase
    rcases getElem?_set_eq_some hd with ⟨-, rfl⟩ | ⟨-, hd⟩
    · rcases hrunning i hphase with hsame | hbegun
      · exact hledger.linked k c i hc hsame
      · exact ⟨_, hbegun, rfl⟩
    · exact hledger.linked j d i hd hphase

theorem begun (h : w.Sound) (call : SubmitCall) : Sound { w with calls := w.calls ++ [⟨call, .started⟩] } := by
  refine ⟨h.locks, h.recorded, ?_, ?_⟩
  · intro j d hd hphase
    rcases getElem?_append_eq_some hd with hd | ⟨-, rfl⟩
    · exact h.passed j d hd hphase
    · cases hphase
  · intro j d i hd hphase
    rcases getElem?_append_eq_some hd with hd | ⟨-, rfl⟩
    · exact h.linked j d i hd hphase
    · cases hphase

theorem step (h : w.Sound) (act : IntakeAction) : (w.next act).Sound := by
  cases act with
  | environment act =>
    simp only [next]
    split
    · exact h.ledgerNext act
    · exact h
  | setAllowlist assets => exact { h with }
  | begin call => exact h.begun call
  | call k m =>
    simp only [next]
    split
    · exact h
    next c hc =>
      split
      · exact h
      next l phase hmove => exact h.called hc hmove

end Sound

/-- What a step of a call has read. -/
theorem move_reads (hmove : w.move c m = some (l, phase)) :
    (phase.missedKey = true → c.phase.missedKey = true ∨ w.ledger.readRequestByKey c.call.row = none) ∧
      (phase.readList = true → c.phase.readList = true ∨ w.allowlist.contains c.call.row.asset = true) := by
  cases m <;> cases hphase : c.phase <;> simp only [move, hphase, reduceCtorEq] at hmove
  case screen.started =>
    cases hmove
    split_ifs <;> exact ⟨(by rintro ⟨⟩), (by rintro ⟨⟩)⟩
  case readKey.admitted =>
    split at hmove <;> cases hmove
    · exact ⟨(by rintro ⟨⟩), (by rintro ⟨⟩)⟩
    next hnone => exact ⟨fun _ => .inr hnone, (by rintro ⟨⟩)⟩
  case rereadKey.classifying =>
    split at hmove <;> cases hmove
    · exact ⟨(by rintro ⟨⟩), (by rintro ⟨⟩)⟩
    next hnone => exact ⟨fun _ => .inr hnone, fun _ => .inl rfl⟩
  case checkAllowlist.missed =>
    cases hmove
    split
    next hlist => exact ⟨fun _ => .inl rfl, fun _ => .inr hlist⟩
    · exact ⟨(by rintro ⟨⟩), (by rintro ⟨⟩)⟩
  case readBound.unbound =>
    cases hmove
    split <;> exact ⟨(by rintro ⟨⟩), (by rintro ⟨⟩)⟩
  case beginTx.listed | lockGrant.running | checkGrant.running | insert.running | commit.running | loseCommit.running =>
    exact ⟨fun _ => .inl rfl, fun _ => .inl rfl⟩
  all_goals
    cases hmove
    exact ⟨(by rintro ⟨⟩), (by rintro ⟨⟩)⟩

/-- A step of a call adds no request, or lands its own and the call has read no key since. -/
theorem move_requests (hc : w.calls[k]? = some c) (hmove : w.move c m = some (l, phase)) :
    l.requests = w.ledger.requests ∨
      ∃ row, w.lands (.call k m) = some row ∧ l.requests = row :: w.ledger.requests ∧ phase.missedKey = false := by
  cases m <;> cases hphase : c.phase <;> simp only [move, hphase, reduceCtorEq] at hmove
  case readKey.admitted | rereadKey.classifying =>
    split at hmove <;> cases hmove <;> exact .inl rfl
  case lockGrant.running i =>
    rw [(statement_inv hmove).2.1]
    exact .inl Ledger.requests_lock
  case checkGrant.running i =>
    rw [(statement_inv hmove).2.1]
    exact .inl Ledger.requests_clock
  case insert.running i =>
    rw [(statement_inv hmove).2.1]
    refine .inl ((w.ledger.requests_next (.insert i)).resolve_right ?_)
    rintro ⟨_, _, ⟨⟩, -⟩
  case commit.running i =>
    simp only [statement] at hmove
    split at hmove <;> cases hmove
    rcases w.ledger.requests_next (.commit i) with hsame | ⟨_, row, heq, haccepting, hadded, hended⟩
    · exact .inl hsame
    · cases heq
      refine .inr ⟨row, by simp [lands, hc, hphase, haccepting], hadded, ?_⟩
      rw [if_pos hended]
      rfl
  case loseCommit.running effective i =>
    split at hmove <;> cases hmove
    cases effective with
    | false => exact .inl rfl
    | true =>
      rcases w.ledger.requests_next (.commit i) with hsame | ⟨_, row, heq, haccepting, hadded, -⟩
      · exact .inl hsame
      · cases heq
        exact .inr ⟨row, by simp [lands, hc, hphase, haccepting], hadded, rfl⟩
  case beginTx.listed =>
    cases hmove
    exact .inl rfl
  case fail.running i =>
    cases hmove
    exact .inl Ledger.requests_abort
  all_goals
    cases hmove
    exact .inl rfl

namespace Steady

/-- A call keeps missing its key unless a request with the key lands. -/
theorem missed_cons {p row : Request} (h : w.ledger.readRequestByKey p = none) (hrow : p.sameKey row = false)
    (hrequests : l.requests = row :: w.ledger.requests) : l.readRequestByKey p = none := by
  rw [Ledger.readRequestByKey, hrequests, find?_cons, hrow]
  exact h

/-- A steady schedule keeps what the open calls have read. -/
theorem step (h : w.Steady) {act : IntakeAction} (hsteady : w.steady act = true) : (w.next act).Steady := by
  obtain ⟨hundisturbed, hlands⟩ := and_eq_true_iff.mp hsteady
  have hfar : ∀ row, w.lands act = some row → ∀ c ∈ w.others act, c.phase.missedKey = true →
      c.call.row.sameKey row = false := by
    intro row hrow c hc hphase
    rw [hrow, Option.all_some] at hlands
    simpa [hphase] using List.all_eq_true.mp hlands c hc
  have hsame : ∀ {l : Ledger} {p : Request}, l.requests = w.ledger.requests → w.ledger.readRequestByKey p = none →
      l.readRequestByKey p = none := by
    intro l p hrequests hnone
    rwa [Ledger.readRequestByKey, hrequests]
  cases act with
  | environment act =>
    simp only [next]
    split
    · refine ⟨fun k c hc hphase => ?_, h.listed⟩
      rcases w.ledger.requests_next act with hrequests | ⟨i, row, rfl, haccepting, hadded, -⟩
      · exact hsame hrequests (h.missed k c hc hphase)
      · exact missed_cons (h.missed k c hc hphase) (hfar row haccepting c (mem_of_getElem? hc) hphase) hadded
    · exact h
  | setAllowlist assets =>
    refine ⟨h.missed, fun k c hc hphase => ?_⟩
    change assets.contains c.call.row.asset = true
    simpa [hphase] using List.all_eq_true.mp hundisturbed c (mem_of_getElem? hc)
  | begin call =>
    refine ⟨fun k c hc hphase => ?_, fun k c hc hphase => ?_⟩ <;>
      rcases getElem?_append_eq_some hc with hc | ⟨-, rfl⟩
    · exact h.missed k c hc hphase
    · cases hphase
    · exact h.listed k c hc hphase
    · cases hphase
  | call k m =>
    simp only [next]
    split
    · exact h
    next c hc =>
      split
      · exact h
      next l phase hmove =>
        obtain ⟨hkey, hlist⟩ := move_reads hmove
        refine ⟨fun j d hd hphase => ?_, fun j d hd hphase => ?_⟩ <;>
          rcases getElem?_set_eq_some hd with ⟨-, rfl⟩ | ⟨hj, hd⟩
        · have hnone := (hkey hphase).elim (h.missed k c hc) id
          rcases move_requests hc hmove with hrequests | ⟨row, -, -, hgone⟩
          · exact hsame hrequests hnone
          · rw [hgone] at hphase
            cases hphase
        · rcases move_requests hc hmove with hrequests | ⟨row, hrow, hadded, -⟩
          · exact hsame hrequests (h.missed j d hd hphase)
          · have hother : d ∈ w.calls.eraseIdx k := mem_eraseIdx_iff_getElem?.mpr ⟨j, hj, hd⟩
            exact missed_cons (h.missed j d hd hphase) (hfar row hrow d hother hphase) hadded
        · exact (hlist hphase).elim (h.listed k c hc) id
        · exact h.listed j d hd hphase

end Steady

theorem sound_initial (clock : Int) : (initial clock).Sound :=
  ⟨Ledger.locks_initial clock, Ledger.recorded_initial clock, by simp [initial], by simp [initial]⟩

/-- Requests stay. -/
theorem mem_requests_next (hr : r ∈ w.ledger.requests) (act : IntakeAction) : r ∈ (w.next act).ledger.requests := by
  cases act with
  | environment act =>
    simp only [next]
    split
    · exact Ledger.mem_requests_next hr act
    · exact hr
  | setAllowlist | begin => exact hr
  | call k m =>
    simp only [next]
    split
    · exact hr
    · split
      · exact hr
      next l phase hmove =>
        rcases move_ledger hmove with rfl | ⟨act, rfl⟩
        · exact hr
        · exact Ledger.mem_requests_next hr act

/-- An answered call stays as it is. -/
theorem answered_next (hc : w.calls[k]? = some c) (hphase : c.phase = .answered a) (act : IntakeAction) :
    (w.next act).calls[k]? = some c := by
  cases act with
  | environment act =>
    simp only [next]
    split <;> exact hc
  | setAllowlist => exact hc
  | begin call => exact (List.getElem?_append_left (List.getElem?_eq_some_iff.mp hc).1).trans hc
  | call j m =>
    simp only [next]
    split
    · exact hc
    next d hd =>
      by_cases hj : j = k
      · subst hj
        cases hc.symm.trans hd
        have hnone : w.move c m = none := by cases m <;> simp [move, hphase]
        rwa [hnone]
      · split
        · exact hc
        · exact (getElem?_set_ne hj).trans hc

/-- An answer comes from a step of its call. -/
theorem answer_inv {act : IntakeAction} {call : SubmitCall} (hanswer : w.answer act = some (call, a)) :
    ∃ (k : Nat) (c : Call) (m : Move) (l : Ledger), act = .call k m ∧ w.calls[k]? = some c ∧
      w.move c m = some (l, .answered a) ∧ call = c.call ∧ (w.next act).ledger = l := by
  cases act with
  | call k m =>
    simp only [answer] at hanswer
    split at hanswer
    · cases hanswer
    next c hc =>
      split at hanswer
      next l a' hmove =>
        cases hanswer
        exact ⟨k, c, m, l, rfl, hc, hmove, rfl, by simp [next, hc, hmove]⟩
      · cases hanswer
  | _ => cases hanswer

/-- Each step of a steady schedule is sequential. -/
theorem Sound.sequential (h : w.Sound) (hw : w.Steady) (act : IntakeAction) (hsteady : w.steady act = true) :
    w.Sequential act where
  answer call a hanswer hauth hopen := by
    obtain ⟨k, c, m, l, rfl, hc, hmove, rfl, -⟩ := answer_inv hanswer
    exact (move_answers h hw hsteady hc hmove).eq_sequential h hc hauth hopen
  added call receipt hanswer := by
    obtain ⟨k, c, m, l, rfl, hc, hmove, rfl, hl⟩ := answer_inv hanswer
    rw [hl]
    exact (move_answers h hw hsteady hc hmove).requests_cons
  unchanged call a hanswer ha := by
    obtain ⟨k, c, m, l, rfl, hc, hmove, rfl, hl⟩ := answer_inv hanswer
    rw [hl]
    exact (move_answers h hw hsteady hc hmove).requests_eq ha
  kept r hr := mem_requests_next hr act
  final k c a hc hphase := answered_next hc hphase act

end IntakeWorld

namespace Sample

def row : Request := ⟨"wr-1", 7, "key-1", "grant-1", 1, "0xaa", "0xbb", "10"⟩

def submission : SubmitCall := ⟨true, true, false, row⟩

def supply : OpInput := ⟨"op-1", "grant-1", ⟨7, 1, "0xaa", "0xbb", "10", none⟩, none⟩

/-- The grant is supplied and the asset listed. -/
def prepared : List IntakeAction :=
  [.environment (.start (.supply supply false)), .environment (.lock 0), .environment (.decide 0),
    .environment (.commit 0), .setAllowlist ["0xaa"]]

/-- A submission up to its COMMIT. -/
def upToCommit : List IntakeAction :=
  [.begin submission, .call 0 .screen, .call 0 .readKey, .call 0 .checkAllowlist, .call 0 .beginTx, .call 0 .lockGrant,
    .call 0 .checkGrant, .call 0 .insert]

/-- The acknowledgement is lost, and the commit takes effect between the two reads of `classifyFixedOrder`. -/
def straddled : List IntakeAction :=
  upToCommit ++ [.call 0 (.loseCommit false), .call 0 .rereadKey, .environment (.commit 1), .call 0 .readBound]

end Sample

open IntakeWorld

open Sample in
/-- Under no other traffic at all, with its grant valid and its asset listed throughout, a call is answered 403 while its
own request exists, and at no moment between its start and that answer is 403 the sequential answer. -/
theorem own_request_forbidden :
    let w := run next (initial 0) prepared
    let w' := run next w straddled
    w'.calls = [⟨submission, .answered .forbidden⟩] ∧ w'.ledger.requests = [row] ∧
      Along next (fun w _ => w.sequential submission ≠ .forbidden) w straddled ∧
      w'.sequential submission = .replayed row.receipt := by
  decide +kernel

open IntakeWorld in
/-- As long as no request lands between another call's read by the same key and its answer, no asset is delisted under a
call that read the list, calls that are screened out use fresh keys and a COMMIT is sent before the grant expires, every
answer is the one of a sequential intake. -/
theorem intake_sequential (clock : Int) (actions : List IntakeAction)
    (hsteady : Along next (fun w act => w.steady act = true) (initial clock) actions) :
    Along next Sequential (initial clock) actions :=
  along_of_invariant (I := fun w => w.Sound ∧ w.Steady) hsteady
    ⟨sound_initial clock, by simp [initial], by simp [initial]⟩
    (fun _ act hsteady h => Sound.sequential h.1 h.2 act hsteady) fun _ act hsteady h => ⟨h.1.step act, h.2.step hsteady⟩

open Sample in
/-- A submission is accepted, and submitted again it is replayed after its grant has been revoked and its asset
delisted. -/
theorem intake_sequential_replayed :
    let actions := prepared ++ upToCommit ++ [.call 0 .commit, .setAllowlist [],
      .environment (.start (.revoke { supply with operationID := "op-2" })), .environment (.lock 2),
      .environment (.decide 2), .environment (.commit 2), .begin submission, .call 1 .screen, .call 1 .readKey]
    (run next (initial 0) actions).calls.map (·.phase) =
        [.answered (.created row.receipt), .answered (.replayed row.receipt)] ∧
      Along next IntakeWorld.Sequential (initial 0) actions :=
  ⟨by decide +kernel, intake_sequential 0 _ (by decide +kernel)⟩

end TxHarbor.Withdrawal
