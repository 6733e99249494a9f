import TxHarbor.Lifecycle.Moves

open List Option Function

namespace TxHarbor.Lifecycle

open Database World

open Execution (AttemptID AttemptState Probe SendOutcome)

/-! What the send region has read stays true while its locks are held. -/

/-- The lifecycle tables grow: the gate tables, the contents and the signed bytes stay. -/
structure Database.Keeps (db db' : Database) : Prop where
  gates : db'.gates = db.gates
  contents : ∀ id a, db.attempts id = some a → ∃ a', db'.attempts id = some a' ∧ a'.content = a.content
  signings : ∀ id raw, db.signings id = some raw → db'.signings id = some raw

namespace Database

variable {db db' db'' : Database}

variable {P : Database → Prop}

/-- A reconcile moves attempts, and then writes a freeze or nothing. What a move keeps holds before the freeze. -/
theorem reconcile_moves (hbase : P db) (hmove : ∀ db id state, P db → P (db.moveAttempt id state)) (id : AttemptID)
    (a : Attempt) (probe : Probe) (verdicts : List (AttemptID × AttemptState)) :
    ∃ moved, P moved ∧ db.reconcile id a probe verdicts = moved.detectFreeze id a.content := by
  have hsettle : ∀ (verdicts : List (AttemptID × AttemptState)) (db : Database), P db → P (db.settle verdicts) := by
    intro verdicts
    induction verdicts with
    | nil => exact fun _ h => h
    | cons v rest ih => exact fun db h => ih _ (hmove db v.1 v.2 h)
  refine ⟨_, ?_, rfl⟩
  cases Execution.reconcileTransition probe a.state with
  | none =>
    split
    · exact hsettle verdicts _ hbase
    · exact hbase
  | some state =>
    split
    · exact hsettle verdicts _ (hmove db id state hbase)
    · exact hmove db id state hbase

/-- What a move of an attempt and a write of the freezes keep, a reconcile keeps. -/
theorem reconcile_induction (hbase : P db) (hmove : ∀ db id state, P db → P (db.moveAttempt id state))
    (hfreeze : ∀ db freezes, P db → P { db with freezes := freezes }) (id : AttemptID) (a : Attempt) (probe : Probe)
    (verdicts : List (AttemptID × AttemptState)) : P (db.reconcile id a probe verdicts) := by
  obtain ⟨moved, h, heq⟩ := reconcile_moves hbase hmove id a probe verdicts
  rw [heq, detectFreeze]
  split
  · exact h
  · split
    · exact hfreeze moved _ h
    · exact h

theorem Keeps.refl (db : Database) : db.Keeps db := ⟨rfl, fun _ a ha => ⟨a, ha, rfl⟩, fun _ _ h => h⟩

theorem Keeps.trans (h : db.Keeps db') (h' : db'.Keeps db'') : db.Keeps db'' := by
  refine ⟨h'.gates.trans h.gates, fun id a ha => ?_, fun id raw hraw => h'.signings id raw (h.signings id raw hraw)⟩
  obtain ⟨a', ha', hcontent⟩ := h.contents id a ha
  obtain ⟨a'', ha'', hcontent'⟩ := h'.contents id a' ha'
  exact ⟨a'', ha'', hcontent'.trans hcontent⟩

theorem keeps_moveAttempt (db : Database) (id : AttemptID) (state : AttemptState) : db.Keeps (db.moveAttempt id state) := by
  refine ⟨rfl, fun id' a ha => ?_, fun _ _ h => h⟩
  by_cases hid : id' = id
  · subst hid
    refine ⟨a.move state, ?_, rfl⟩
    simp only [moveAttempt, update_self, ha, map_some]
  · refine ⟨a, ?_, rfl⟩
    simp only [moveAttempt, update_of_ne hid, ha]

theorem keeps_record (db : Database) (row : SendRow) (state : AttemptState) : db.Keeps (db.record row state) :=
  (db.keeps_moveAttempt row.attempt state).trans ⟨rfl, fun _ a ha => ⟨a, ha, rfl⟩, fun _ _ h => h⟩

variable {id : AttemptID} {a : Attempt}

theorem keeps_sign (h : db.signings id = none) (raw : SignedTx) : db.Keeps (db.sign id raw) := by
  refine ⟨rfl, (db.keeps_moveAttempt id .signed).contents, fun id' raw' hraw => ?_⟩
  have hid : id' ≠ id := by
    rintro rfl
    cases h.symm.trans hraw
  simp only [sign, update_of_ne hid, hraw]

theorem keeps_reconcile (db : Database) (id : AttemptID) (a : Attempt) (probe : Probe)
    (verdicts : List (AttemptID × AttemptState)) : db.Keeps (db.reconcile id a probe verdicts) :=
  reconcile_induction (P := db.Keeps) (.refl db) (fun db' id state h => h.trans (db'.keeps_moveAttempt id state))
    (fun _ _ h => ⟨h.gates, h.contents, h.signings⟩) id a probe verdicts

theorem keeps_prepare (db : Database) (id : AttemptID) (content : Option Content) : db.Keeps (db.prepare id content) := by
  unfold prepare
  split
  next content hfree =>
    split
    · refine ⟨rfl, fun id' a ha => ⟨a, ?_, rfl⟩, fun _ _ h => h⟩
      have hid : id' ≠ id := by
        rintro rfl
        cases hfree.symm.trans ha
      simp only [update_of_ne hid, ha]
    · exact .refl db
  · exact .refl db

theorem keeps_release (db : Database) (intent : IntentID) : db.Keeps (db.release intent) := by
  unfold release
  split
  · exact ⟨rfl, fun _ a ha => ⟨a, ha, rfl⟩, fun _ _ h => h⟩
  · exact .refl db

/-- A reconcile sends nothing. -/
theorem sends_reconcile (db : Database) (id : AttemptID) (a : Attempt) (probe : Probe)
    (verdicts : List (AttemptID × AttemptState)) : (db.reconcile id a probe verdicts).sends = db.sends :=
  reconcile_induction (P := (·.sends = db.sends)) rfl (fun _ _ _ h => h) (fun _ _ h => h) id a probe verdicts

theorem sends_prepare (db : Database) (id : AttemptID) (content : Option Content) :
    (db.prepare id content).sends = db.sends := by
  unfold prepare
  split
  · split <;> rfl
  · rfl

theorem sends_release (db : Database) (intent : IntentID) : (db.release intent).sends = db.sends := by
  unfold release
  split <;> rfl

/-- No attempt appears and none changes its content. -/
def SameContents (db db' : Database) : Prop :=
  ∀ id, (db'.attempts id).map Attempt.content = (db.attempts id).map Attempt.content

theorem SameContents.trans (h : db.SameContents db') (h' : db'.SameContents db'') : db.SameContents db'' :=
  fun id => (h' id).trans (h id)

section

variable (db : Database)

theorem sameContents_moveAttempt (id : AttemptID) (state : AttemptState) :
    db.SameContents (db.moveAttempt id state) := by
  intro id'
  by_cases hid : id' = id
  · subst hid
    simp only [moveAttempt, Function.update_self, Option.map_map]
    rfl
  · simp only [moveAttempt, update_of_ne hid]

theorem sameContents_reconcile (id : AttemptID) (a : Attempt) (probe : Probe)
    (verdicts : List (AttemptID × AttemptState)) : db.SameContents (db.reconcile id a probe verdicts) :=
  reconcile_induction (P := db.SameContents) (fun _ => rfl)
    (fun db' id state h => h.trans (db'.sameContents_moveAttempt id state)) (fun _ _ h => h) id a probe verdicts

theorem sameContents_release (intent : IntentID) : db.SameContents (db.release intent) := by
  unfold release
  split <;> exact fun _ => rfl

theorem signings_prepare (id : AttemptID) (content : Option Content) :
    (db.prepare id content).signings = db.signings := by
  unfold prepare
  split
  · split <;> rfl
  · rfl

theorem signings_reconcile (id : AttemptID) (a : Attempt) (probe : Probe)
    (verdicts : List (AttemptID × AttemptState)) : (db.reconcile id a probe verdicts).signings = db.signings :=
  reconcile_induction (P := (·.signings = db.signings)) rfl (fun _ _ _ h => h) (fun _ _ h => h) id a probe verdicts

theorem signings_release (intent : IntentID) : (db.release intent).signings = db.signings := by
  unfold release
  split <;> rfl

end

/-- The contents after a prepare are the old ones and the new one. -/
theorem prepare_contents {id' : AttemptID} {content : Option Content}
    (h : (db.prepare id content).attempts id' = some a) :
    db.attempts id' = some a ∨ content = some a.content ∧ validFeeShape a.content.fees = true := by
  unfold prepare at h
  split at h
  · split at h
    next hvalid =>
      by_cases hid : id' = id
      · subst hid
        simp only [update_self, some.injEq] at h
        subst h
        exact .inr ⟨rfl, hvalid⟩
      · simp only [update_of_ne hid] at h
        exact .inl h
    · exact .inl h
  · exact .inl h

/-- What `detectFreeze` takes as proof: a pause created before a recorded dispatch of the intent. -/
def Evidence (db : Database) (intent : IntentID) : Prop :=
  ∃ id a p row, db.attempts id = some a ∧ a.content.intent = intent ∧ p ∈ db.gates.pauses a.content.chain ∧
    row ∈ db.sends ∧ row.attempt = id ∧ p.createdAt < row.dispatchedAt

/-- A freeze appears on evidence only. -/
def FreezesOnly (db db' : Database) : Prop :=
  ∀ intent, (db'.frozen intent = true → db.frozen intent = true ∨ db.Evidence intent) ∧
    (db'.freezes intent ≠ none → db.freezes intent ≠ none ∨ db.Evidence intent)

theorem FreezesOnly.of_eq (h : db'.freezes = db.freezes) : db.FreezesOnly db' := by
  intro intent
  unfold frozen
  rw [h]
  exact ⟨.inl, .inl⟩

/-- The rows and pauses are those of `db`, whatever moved the attempts before. -/
theorem freezes_detectFreeze (ha : db.attempts id = some a) (hgates : db'.gates = db.gates)
    (hsends : db'.sends = db.sends) (hfreezes : db'.freezes = db.freezes) :
    db.FreezesOnly (db'.detectFreeze id a.content) := by
  unfold detectFreeze
  split
  · exact .of_eq hfreezes
  next pause hpause =>
    split
    next hany =>
      have hevidence : db.Evidence a.content.intent := by
        obtain ⟨row, hrow, hbefore⟩ := any_eq_true.mp hany
        obtain ⟨hmem, hid⟩ := mem_filter.mp hrow
        rw [hsends] at hmem
        rw [earliestPause, hgates] at hpause
        obtain ⟨p, hp, rfl⟩ := mem_map.mp (min?_mem hpause)
        exact ⟨id, a, p, row, ha, rfl, hp, hmem, beq_iff_eq.mp hid, of_decide_eq_true hbefore⟩
      intro intent
      by_cases hintent : intent = a.content.intent
      · rw [hintent]
        exact ⟨fun _ => .inr hevidence, fun _ => .inr hevidence⟩
      · simp only [frozen, update_of_ne hintent, hfreezes]
        exact ⟨.inl, .inl⟩
    · exact .of_eq hfreezes

theorem freezes_reconcile (ha : db.attempts id = some a) (probe : Probe)
    (verdicts : List (AttemptID × AttemptState)) : db.FreezesOnly (db.reconcile id a probe verdicts) := by
  obtain ⟨moved, ⟨hgates, hsends, hfreezes⟩, heq⟩ := reconcile_moves
    (P := fun db' => db'.gates = db.gates ∧ db'.sends = db.sends ∧ db'.freezes = db.freezes) ⟨rfl, rfl, rfl⟩
    (fun _ _ _ h => h) id a probe verdicts
  rw [heq]
  exact freezes_detectFreeze ha hgates hsends hfreezes

theorem freezes_prepare (db : Database) (id : AttemptID) (content : Option Content) :
    db.FreezesOnly (db.prepare id content) := by
  unfold prepare
  split
  · split <;> exact .of_eq rfl
  · exact .of_eq rfl

theorem freezes_release (db : Database) (intent : IntentID) : db.FreezesOnly (db.release intent) := by
  unfold release
  split
  next hfrozen =>
    intro intent'
    by_cases hintent : intent' = intent
    · subst hintent
      simp only [frozen, update_self, hfrozen]
      exact ⟨nofun, fun _ => .inl nofun⟩
    · simp only [frozen, update_of_ne hintent]
      exact ⟨.inl, .inl⟩
  · exact .of_eq rfl

end Database

variable {s : Session} {i : Nat} {now : Int} {db : Database} {others : List Session} {ans : Answer} {o : Outcome}

section

variable (h : s.Moves i now db others ans o)
include h

/-- Every statement keeps the lifecycle tables. -/
theorem Session.Moves.keeps : db.Keeps o.db := by
  cases h with
  | sign a _ _ _ hunsigned _ => exact keeps_sign hunsigned _
  | observe state a next _ _ _ _ => exact db.keeps_reconcile _ _ _ _
  | record | recordFailure => exact db.keeps_record _ _
  | _ => exact .refl db

theorem Session.Moves.freezes : db.FreezesOnly o.db := by
  cases h with
  | observe state a next _ _ ha _ => exact freezes_reconcile ha _ _
  | _ => exact .of_eq rfl

theorem Session.Moves.sameContents : db.SameContents o.db := by
  cases h with
  | sign | record | recordFailure => exact db.sameContents_moveAttempt _ _
  | observe => exact db.sameContents_reconcile _ _ _ _
  | _ => exact fun _ => rfl

end

/-- The bytes a region has read. -/
def Phase.raw? : Phase → Option SignedTx
  | .bytes _ raw | .checked _ raw _ | .timed _ raw _ _ => some raw
  | _ => none

/-- The last reading of the clock against the expiry of the grant. -/
def Phase.checkedAt? : Phase → Option Int
  | .checked _ _ checkedAt | .timed _ _ checkedAt _ => some checkedAt
  | _ => none

/-- What a call knows of the database while it runs. -/
structure Session.Sound (now : Int) (db : Database) (s : Session) : Prop where
  content : ∃ a, db.attempts s.attempt = some a ∧ a.content = s.content
  gates : ∀ g, s.phase.holds g = true →
    ∃ read ≤ now, (g = .claim → read = s.claimedAt) ∧ g.refusal s.toGateInputs read db.gates = none
  order : ∀ passed todo, s.phase = .gates passed todo → passed.reverse ++ todo = Gate.order
  raw : ∀ raw, s.phase.raw? = some raw → db.signings s.attempt = some raw
  checked : ∀ checkedAt, s.phase.checkedAt? = some checkedAt → checkedAt ≤ now ∧
    (db.gates.grants s.content.authorization).all (fun g => g.unexpired checkedAt) = true

namespace Session

variable {s : Session} {i : Nat} {now now' : Int} {db db' : Database} {others : List Session} {ans : Answer} {o : Outcome}

/-- Whatever the others do, as long as the rows under its locks stay. -/
theorem Sound.elsewhere (h : s.Sound now db) (hnow : now ≤ now')
    (hcontents : ∀ id a, db.attempts id = some a → ∃ a', db'.attempts id = some a' ∧ a'.content = a.content)
    (hsignings : ∀ id raw, db.signings id = some raw → db'.signings id = some raw)
    (hrows : ∀ g, s.phase.holds g = true → g.SameRows s.toGateInputs db.gates db'.gates) : s.Sound now' db' := by
  refine ⟨?_, ?_, h.order, fun raw hraw => hsignings _ _ (h.raw raw hraw), ?_⟩
  · obtain ⟨a, ha, hcontent⟩ := h.content
    obtain ⟨a', ha', hcontent'⟩ := hcontents _ a ha
    exact ⟨a', ha', hcontent'.trans hcontent⟩
  · intro g hg
    obtain ⟨read, hread, hclaimed, hpassed⟩ := h.gates g hg
    exact ⟨read, hread.trans hnow, hclaimed, (hrows g hg).passed hpassed⟩
  · intro checkedAt hchecked
    obtain ⟨hle, hunexpired⟩ := h.checked checkedAt hchecked
    have hheld : s.phase.holds .grant = true := by
      cases hphase : s.phase <;> simp_all [Phase.checkedAt?, Phase.holds, Phase.locksAttempt]
    refine ⟨hle.trans hnow, ?_⟩
    rwa [(hrows .grant hheld).1]

theorem Sound.keeps (h : s.Sound now db) (hkeeps : db.Keeps db') : s.Sound now db' := by
  apply h.elsewhere le_rfl hkeeps.contents hkeeps.signings
  intro g _
  rw [hkeeps.gates]
  exact Gate.SameRows.refl s.toGateInputs db.gates g

/-- A call outside the region, with the attempt as it was read. -/
theorem Sound.outside (hcontent : ∃ a, db.attempts s.attempt = some a ∧ a.content = s.content)
    (hholds : ∀ g, s.phase.holds g = false) (hgates : ∀ passed todo, s.phase ≠ .gates passed todo)
    (hraw : s.phase.raw? = none) (hchecked : s.phase.checkedAt? = none) : s.Sound now db := by
  refine ⟨hcontent, fun g hg => ?_, fun passed todo hphase => absurd hphase (hgates passed todo), ?_, ?_⟩
  · rw [hholds g] at hg
    cases hg
  · intro raw h
    cases hraw.symm.trans h
  · intro checkedAt h
    cases hchecked.symm.trans h

theorem Sound.openRegion (h : s.Sound now db) (db' : Database) : (s.openRegion db').Sound now db := by
  have hopen : ∀ anchor, Sound now db { s with anchorAuthorization := anchor, phase := .gates [] Gate.order } := by
    intro anchor
    refine ⟨h.content, fun g hg => ?_, fun passed todo hphase => ?_, nofun, nofun⟩
    · cases hg
    · cases hphase
      rfl
  exact s.openRegion_cases db' (.outside h.content (fun _ => rfl) nofun rfl rfl) hopen

/-- Once every gate is passed, the region holds the locks of all of them. -/
theorem Sound.holds_all {passed : List Gate} (h : s.Sound now db) (hphase : s.phase = .gates passed []) (g : Gate) :
    s.phase.holds g = true := by
  have horder := h.order passed [] hphase
  rw [append_nil] at horder
  have hmem : g ∈ passed := by
    rw [← mem_reverse, horder]
    exact Gate.mem_order g
  rw [hphase]
  exact contains_iff_mem.mpr hmem

/-- A region that keeps its locks moves on with what it knows. -/
theorem Sound.onward {next : Phase} (h : s.Sound now db) (hheld : ∀ g, s.phase.holds g = true)
    (hgates : ∀ passed todo, next ≠ .gates passed todo)
    (hraw : ∀ raw, next.raw? = some raw → db.signings s.attempt = some raw)
    (hchecked : ∀ checkedAt, next.checkedAt? = some checkedAt → checkedAt ≤ now ∧
      (db.gates.grants s.content.authorization).all (fun g => g.unexpired checkedAt) = true) :
    (s.goto next).Sound now db :=
  ⟨h.content, fun g _ => h.gates g (hheld g), fun passed todo hphase => absurd hphase (hgates passed todo), hraw, hchecked⟩

theorem Moves.sound (hs : s.Sound now db) (h : s.Moves i now db others ans o) : o.session.Sound now o.db := by
  have hkept := hs.keeps h.keeps
  cases h with
  | stop | giveUp | fail | recordFailure | sign | thaw => exact .outside hkept.content (fun _ => rfl) nofun rfl rfl
  | load next _ hnext =>
    rcases hnext with rfl | ⟨state, rfl⟩ <;> exact .outside hkept.content (fun _ => rfl) nofun rfl rfl
  | enter => exact hs.openRegion db
  | observe state a next _ _ _ hnext =>
    rcases hnext with rfl | rfl
    · exact .outside hkept.content (fun _ => rfl) nofun rfl rfl
    · exact hkept.openRegion _
  | pass g passed rest hphase hpassed =>
    refine ⟨hs.content, fun g' hg' => ?_, fun passed' todo' hphase' => ?_, nofun, nofun⟩
    · by_cases hsame : g' = g
      · subst hsame
        exact ⟨now, le_rfl, fun hclaim => (if_pos hclaim).symm, hpassed⟩
      · have hbefore := (mem_cons.mp (contains_iff_mem.mp hg')).resolve_left hsame
        obtain ⟨read, hread, hclaimed, hold⟩ := hs.gates g' (by rw [hphase]; exact contains_iff_mem.mpr hbefore)
        refine ⟨read, hread, fun hclaim => ?_, hold⟩
        exact (hclaimed hclaim).trans (if_neg fun hg => hsame (hclaim.trans hg.symm)).symm
    · cases hphase'
      rw [reverse_cons, append_assoc]
      exact hs.order passed (g :: rest) hphase
  | lock passed a hphase _ _ =>
    exact ⟨hs.content, fun g _ => hs.gates g (hs.holds_all hphase g), nofun, nofun, nofun⟩
  | read sendSeq raw hphase hraw =>
    refine hs.onward (by rw [hphase]; exact fun _ => rfl) ?_ ?_ ?_
    · nofun
    · rintro _ ⟨⟩
      exact hraw
    · nofun
  | check sendSeq raw hphase hexpiry =>
    refine hs.onward (by rw [hphase]; exact fun _ => rfl) ?_ ?_ ?_
    · nofun
    · rintro _ ⟨⟩
      exact hs.raw raw (by rw [hphase]; rfl)
    · rintro _ ⟨⟩
      exact ⟨le_rfl, hexpiry⟩
  | time sendSeq raw checkedAt hphase =>
    refine hs.onward (by rw [hphase]; exact fun _ => rfl) ?_ ?_ ?_
    · nofun
    · rintro _ ⟨⟩
      exact hs.raw raw (by rw [hphase]; rfl)
    · rintro _ ⟨⟩
      exact hs.checked checkedAt (by rw [hphase]; rfl)
  | dispatch sendSeq raw checkedAt dispatchedAt hphase =>
    refine hs.onward (by rw [hphase]; exact fun _ => rfl) ?_ ?_ ?_ <;> nofun
  | record sendSeq dispatchedAt outcome a next _ _ _ hnext =>
    rcases hnext with ⟨rfl, -⟩ | ⟨rfl, -⟩ <;> exact .outside hkept.content (fun _ => rfl) nofun rfl rfl

end Session

/-! ### Histories -/

namespace World

variable {w : World}

/-- A statement of one call, or nothing. -/
theorem advance_cases (w : World) (i : Nat) (ans : Answer) : w.advance i ans = w ∨
    ∃ s o, w.sessions[i]? = some s ∧ s.Moves i w.now w.db (w.sessions.eraseIdx i) ans o ∧
      w.advance i ans = { w with db := o.db, sessions := w.sessions.set i o.session, calls := w.calls ++ o.call.toList } := by
  unfold advance
  split
  · exact .inl rfl
  next s hs =>
    split
    · exact .inl rfl
    next o ho => exact .inr ⟨s, o, hs, Session.advance_moves ho, rfl⟩

/-- A broken connection stops a call the way a refusal does. -/
theorem abort_cases (w : World) (i : Nat) (ans : Answer) : w.abort i = w ∨
    ∃ s, w.sessions[i]? = some s ∧ s.Moves i w.now w.db (w.sessions.eraseIdx i) ans ⟨s.goto .done, w.db, none⟩ ∧
      w.abort i = { w with sessions := w.sessions.set i (s.goto .done) } := by
  unfold abort
  split
  · exact .inl rfl
  next s hs =>
    split
    next hphase => exact .inr ⟨s, hs, .stop hphase, rfl⟩
    · exact .inl rfl

theorem mem_set_cases {A : Type} {l : List A} {a x : A} (h : x ∈ l.set i a) : x = a ∨ x ∈ l.eraseIdx i := by
  induction l generalizing i with
  | nil => cases h
  | cons y rest ih =>
    cases i with
    | zero => exact (mem_cons.mp h).imp_right fun h => h
    | succ i =>
      rcases mem_cons.mp h with rfl | h
      · exact .inr mem_cons_self
      · exact (ih h).imp_right (mem_cons_of_mem y)

/-- What one action does: a statement of a call, a change of the lifecycle tables by someone else, a write to the gate
tables that no region blocks, or a new call. -/
inductive Steps (w : World) (act : Action) : World → Prop where
  | idle (now : Int) (pausing : List PauseTx) (hnow : w.now ≤ now) : Steps w act { w with now := now, pausing := pausing }
  | statement (i : Nat) (ans : Answer) (s : Session) (o : Outcome) (hact : act = .advance i ans ∨ ans = {})
    (hs : w.sessions[i]? = some s) (hmove : s.Moves i w.now w.db (w.sessions.eraseIdx i) ans o) :
    Steps w act { w with db := o.db, sessions := w.sessions.set i o.session, calls := w.calls ++ o.call.toList }
  | begin (req : SendRequest) (a : Attempt) (hact : act = .send req) (ha : w.db.attempts req.attempt = some a) :
    Steps w act { w with sessions := w.sessions ++ [⟨⟨req, a.content, none⟩, .loading, w.now⟩] }
  | lifecycle (db : Database) (hkeeps : w.db.Keeps db) (hsends : db.sends = w.db.sends)
    (hfreezes : w.db.FreezesOnly db) (hsignings : db.signings = w.db.signings) : Steps w act { w with db := db }
  | write (x : Write) (hact : act = .write x)
    (hrows : ∀ s ∈ w.sessions, ∀ g, s.phase.holds g = true → g.SameRows s.toGateInputs w.db.gates (x.apply w.db.gates)) :
    Steps w act { w with db := { w.db with gates := x.apply w.db.gates } }
  | pause (j : Nat) (p : PauseTx) (hact : act = .commitPause j) (hp : w.pausing[j]? = some p)
    (hfree : ∀ s ∈ w.sessions, s.phase.holds .protection = false) :
    Steps w act { w with
      db := { w.db with gates := w.db.gates.insertPause p.chain p.kind p.startedAt }
      pausing := w.pausing.set j { p with pending := false } }

theorem next_steps (w : World) (act : Action) : w.Steps act (w.next act) := by
  have hidle : w.Steps act w := .idle w.now w.pausing le_rfl
  cases act with
  | tick ticks => exact .idle (w.now + ticks) w.pausing (Int.le_add_of_nonneg_right (Int.natCast_nonneg ticks))
  | beginPause chain kind => exact .idle w.now _ le_rfl
  | write x =>
    simp only [next]
    split
    · exact hidle
    next hfree =>
      refine .write x rfl fun s hs g hg => Write.sameRows ?_
      by_contra hwaits
      rw [Bool.not_eq_false] at hwaits
      refine hfree (any_eq_true.mpr ⟨s, hs, any_eq_true.mpr ⟨g, Gate.mem_order g, ?_⟩⟩)
      rw [hg, hwaits]
      rfl
  | commitPause j =>
    simp only [next, commitPause]
    split
    · exact hidle
    · split
      · exact hidle
      next p hp hfree =>
        rw [not_or] at hfree
        refine .pause j p rfl hp fun s hs => Bool.eq_false_iff.mpr fun hheld => ?_
        exact hfree.2 (any_eq_true.mpr ⟨s, hs, hheld⟩)
  | firstBroadcast id content | replace id r =>
    exact .lifecycle _ (w.db.keeps_prepare id _) (w.db.sends_prepare id _) (w.db.freezes_prepare id _)
      (w.db.signings_prepare id _)
  | send req =>
    simp only [next]
    split
    · exact hidle
    next a ha => exact .begin req a rfl ha
  | advance i ans =>
    rcases w.advance_cases i ans with hsame | ⟨s, o, hs, hmove, hnew⟩
    · rwa [show w.next (.advance i ans) = w.advance i ans from rfl, hsame]
    · rw [show w.next (.advance i ans) = w.advance i ans from rfl, hnew]
      exact .statement i ans s o (.inl rfl) hs hmove
  | abort i =>
    rcases w.abort_cases i {} with hsame | ⟨s, hs, hmove, hnew⟩
    · rwa [show w.next (.abort i) = w.abort i from rfl, hsame]
    · rw [show w.next (.abort i) = w.abort i from rfl, hnew]
      have hstep : w.Steps (.abort i) _ := .statement i {} s _ (.inr rfl) hs hmove
      rwa [toList_none, append_nil] at hstep
  | reconcile id probe verdicts =>
    simp only [next]
    split
    · exact hidle
    next a ha =>
      split
      · exact hidle
      · exact .lifecycle _ (w.db.keeps_reconcile _ _ _ _) (w.db.sends_reconcile _ _ _ _)
          (freezes_reconcile ha probe verdicts) (w.db.signings_reconcile _ _ _ _)
  | release intent =>
    exact .lifecycle _ (w.db.keeps_release intent) (w.db.sends_release intent) (w.db.freezes_release intent)
      (w.db.signings_release intent)

/-- Every attempt has a content that meets `P`. -/
def Contents (P : Content → Prop) (w : World) : Prop := ∀ id a, w.db.attempts id = some a → P a.content

variable {w' : World}

variable {P : Content → Prop} {act : Action}

theorem Contents.congr (h : w.Contents P) (hsame : w.db.SameContents w'.db) : w'.Contents P := by
  intro id a' ha'
  have hcontent := hsame id
  rw [ha', map_some] at hcontent
  obtain ⟨a, ha, hcontent⟩ := map_eq_some_iff.mp hcontent.symm
  rw [← hcontent]
  exact h id a ha

/-- Contents come from the two ways to build one. -/
theorem Contents.next (h : w.Contents P) (act : Action)
    (hfirst : ∀ id c c', act = .firstBroadcast id c → constructFirst w.db.gates c = some c' →
      validFeeShape c'.fees = true → P c')
    (hreplace : ∀ id r c', act = .replace id r → constructReplacement w.db r = some c' →
      validFeeShape c'.fees = true → P c') : (w.next act).Contents P := by
  cases act with
  | tick | beginPause => exact h
  | write x | send req =>
    simp only [World.next]
    split <;> exact h
  | commitPause j =>
    simp only [World.next, World.commitPause]
    repeat' split
    all_goals exact h
  | firstBroadcast id content =>
    intro id' a ha
    rcases prepare_contents ha with hold | ⟨hcontent, hvalid⟩
    · exact h id' a hold
    · exact hfirst id content _ rfl hcontent hvalid
  | replace id r =>
    intro id' a ha
    rcases prepare_contents ha with hold | ⟨hcontent, hvalid⟩
    · exact h id' a hold
    · exact hreplace id r _ rfl hcontent hvalid
  | advance i ans =>
    change (w.advance i ans).Contents P
    rcases w.advance_cases i ans with hsame | ⟨s, o, -, hmove, hnew⟩
    · rwa [hsame]
    · rw [hnew]
      exact h.congr hmove.sameContents
  | abort i =>
    change (w.abort i).Contents P
    rcases w.abort_cases i {} with hsame | ⟨s, -, -, hnew⟩
    · rwa [hsame]
    · rwa [hnew]
  | reconcile id probe verdicts =>
    simp only [World.next]
    split
    · exact h
    · split
      · exact h
      · exact h.congr (w.db.sameContents_reconcile _ _ _ _)
  | release intent => exact h.congr (w.db.sameContents_release intent)

/-- Every running call knows what it has read. -/
def Sound (w : World) : Prop := ∀ s ∈ w.sessions, s.Sound w.now w.db

theorem Sound.steps (h : w.Sound) (hstep : w.Steps act w') : w'.Sound := by
  cases hstep with
  | idle now pausing hnow =>
    exact fun s hs => (h s hs).elsewhere hnow (Database.Keeps.refl w.db).contents (fun _ _ hraw => hraw) fun g _ => .refl _ _ g
  | statement i ans s o _ hs hmove =>
    intro s' hs'
    rcases mem_or_eq_of_mem_set hs' with hold | rfl
    · exact (h s' hold).keeps hmove.keeps
    · exact hmove.sound (h s (mem_of_getElem? hs))
  | begin req a _ ha =>
    intro s hs
    rcases Transition.mem_concat_cases hs with hs | rfl
    · exact h s hs
    · exact .outside ⟨a, ha, rfl⟩ (fun _ => rfl) nofun rfl rfl
  | lifecycle db hkeeps _ _ => exact fun s hs => (h s hs).keeps hkeeps
  | write x _ hrows =>
    exact fun s hs => (h s hs).elsewhere le_rfl (Database.Keeps.refl w.db).contents (fun _ _ hraw => hraw) (hrows s hs)
  | pause j p _ _ hfree =>
    refine fun s hs => (h s hs).elsewhere le_rfl (Database.Keeps.refl w.db).contents (fun _ _ hraw => hraw) fun g hg => ?_
    refine GateTables.insertPause_sameRows ?_ p.chain p.kind p.startedAt
    rintro rfl
    rw [hfree s hs] at hg
    cases hg

theorem sound_run (now : Int) (db : Database) (actions : List Action) :
    (Transition.run next (initial now db) actions).Sound :=
  Transition.Reachable.invariant ⟨actions, rfl⟩ (fun _ => nofun) fun w act hw => hw.steps (w.next_steps act)

/-- A call of the node is made by a session that timed its dispatch. -/
theorem Steps.call {call : Call} (hstep : w.Steps act w') (hcall : w'.calls = w.calls ++ [call]) :
    ∃ s ∈ w.sessions, w.sessions[call.session]? = some s ∧ s.attempt = call.attempt ∧
      ∃ sendSeq, s.phase = .timed sendSeq call.raw call.checkedAt call.dispatchedAt := by
  have hnone : w'.calls ≠ w.calls := by simp [hcall]
  cases hstep with
  | statement i ans s o _ hs hmove =>
    cases hmove with
    | dispatch sendSeq raw checkedAt dispatchedAt hphase =>
      obtain rfl := singleton_inj.mp (append_cancel_left hcall)
      exact ⟨s, mem_of_getElem? hs, hs, rfl, sendSeq, hphase⟩
    | _ => exact absurd (append_nil _) hnone
  | _ => exact absurd rfl hnone

end World

end TxHarbor.Lifecycle
