import TxHarbor.Lifecycle.Records

open Transition List Option Bool Function

namespace TxHarbor.Lifecycle

open GateTables World Sample

open Execution (AttemptID AttemptState Probe SendOutcome)

/-! The freeze of an intent: what a reconcile takes as proof for it. -/

variable {s : Session} {now : Int} {db : Database}

theorem Session.Sound.unpaused (h : s.Sound now db) (hheld : s.phase.holds .protection = true) :
    db.gates.pauses s.content.chain = [] := by
  obtain ⟨_, -, -, hpassed⟩ := h.gates .protection hheld
  exact (protectionRefusal_eq_none.mp hpassed).2.1

variable {i : Nat} {others : List Session} {ans : Answer} {o : Outcome}

namespace Sample

/-- The node does not answer to the dispatch, and does not know the transaction afterwards. -/
def silent : Answer := { probe := .notFoundYet }

/-- A pause transaction begins before the first dispatch and commits after it. -/
def overtaken : List Action :=
  [.beginPause 1 .indexer, .tick 1] ++ approach (own .initial) ++ [.advance 0 silent, .advance 0 silent, .commitPause 0]

end Sample

/-- An unresolved dispatch and a pause that began before it and committed after it: the region never met the pause, and
the next reconcile freezes the intent. -/
theorem freeze_without_loss :
    let w := run next start overtaken
    w.db.freezes 1 = none ∧ (w.next (.reconcile ⟨1⟩ .notFoundYet [])).db.freezes 1 = some false := by
  decide +kernel

/-- No session loses its locks between the call of the node and the record. -/
def Action.keepsLocks (w : World) : Action → Bool
  | .advance i ans => (w.sessions[i]?).all fun s =>
    match s.phase with
    | .dispatched _ _ _ => ans.commit == .acknowledged
    | _ => true
  | _ => true

/-- A pause commits only over dispatches that are not after its transaction began. -/
def Action.afterDispatches (w : World) : Action → Bool
  | .commitPause j => (w.pausing[j]?).all fun p => w.db.sends.all fun row =>
    (w.db.attempts row.attempt).all fun a => a.content.chain != p.chain || decide (row.dispatchedAt ≤ p.startedAt)
  | _ => true

/-- No freeze, and nothing that a reconcile could take as proof for one. -/
structure World.Unproven (w : World) : Prop where
  freezes : ∀ intent, w.db.freezes intent = none
  attempts : ∀ row ∈ w.db.sends, ∃ a, w.db.attempts row.attempt = some a
  ordered : ∀ row ∈ w.db.sends, ∀ a, w.db.attempts row.attempt = some a →
    ∀ p ∈ w.db.gates.pauses a.content.chain, row.dispatchedAt ≤ p.createdAt
  locked : ∀ s ∈ w.sessions, s.phase ≠ .failed

variable {w : World}

theorem World.Unproven.evidence (h : w.Unproven) (intent : IntentID) : ¬ w.db.Evidence intent := by
  rintro ⟨id, a, p, row, ha, -, hp, hrow, rfl, hlt⟩
  exact absurd (h.ordered row hrow a ha p hp) (not_le.mpr hlt)

/-- Without evidence no step of the lifecycle tables writes a freeze. -/
theorem World.Unproven.unfrozen (h : w.Unproven) (hfreezes : w.db.FreezesOnly db) (intent : IntentID) :
    db.freezes intent = none := by
  by_contra hfrozen
  rcases (hfreezes intent).2 hfrozen with hbefore | hevidence
  · exact hbefore (h.freezes intent)
  · exact h.evidence intent hevidence

/-- The rows and the contents of their attempts survive a step of the lifecycle tables. -/
theorem World.Unproven.kept (h : w.Unproven) (hkeeps : w.db.Keeps db) :
    ∀ row ∈ w.db.sends, (∃ a, db.attempts row.attempt = some a) ∧ ∀ a, db.attempts row.attempt = some a →
      ∀ p ∈ db.gates.pauses a.content.chain, row.dispatchedAt ≤ p.createdAt := by
  intro row hrow
  obtain ⟨a, ha⟩ := h.attempts row hrow
  obtain ⟨a', ha', hcontent⟩ := hkeeps.contents _ a ha
  refine ⟨⟨a', ha'⟩, fun a'' ha'' p hp => ?_⟩
  obtain rfl : a' = a'' := some.inj (ha'.symm.trans ha'')
  rw [hcontent, hkeeps.gates] at hp
  exact h.ordered row hrow a ha p hp

variable {t : GateTables} {chain : ChainID} {p : Pause}

theorem Write.pauses_subset {x : Write} (h : p ∈ (x.apply t).pauses chain) : p ∈ t.pauses chain := by
  cases x with
  | clearPause cleared kind =>
    by_cases hchain : chain = cleared
    · subst hchain
      simp only [Write.apply, update_self] at h
      exact mem_of_mem_filter h
    · simpa only [Write.apply, update_of_ne hchain] using h
  | _ => exact h

theorem GateTables.mem_insertPause {paused : ChainID} {kind : PauseKind} {startedAt : Int}
    (h : p ∈ (t.insertPause paused kind startedAt).pauses chain) :
    p ∈ t.pauses chain ∨ chain = paused ∧ p = ⟨kind, startedAt⟩ := by
  by_cases hchain : chain = paused
  · subst hchain
    simp only [insertPause, update_self] at h
    exact (mem_append.mp h).imp_right fun hlast => ⟨rfl, mem_singleton.mp hlast⟩
  · simp only [insertPause, update_of_ne hchain] at h
    exact .inl h

/-- A record is written by a region that still holds its locks, for a dispatch it made. -/
theorem Session.Moves.record_held (h : s.Moves i now db others ans o) (hphase : s.phase ≠ .failed)
    (hcommit : ∀ sendSeq dispatchedAt outcome, s.phase = .dispatched sendSeq dispatchedAt outcome →
      ans.commit = .acknowledged) (hs : s.Sound now db) :
    o.session.phase ≠ .failed ∧ (o.db.sends = db.sends ∨
      ∃ row, o.db.sends = db.sends ++ [row] ∧ row.attempt = s.attempt ∧ s.phase.holds .protection = true) := by
  have hopen : ∀ db', (s.openRegion db').phase ≠ .failed := fun db' =>
    s.openRegion_cases (P := fun s' => s'.phase ≠ .failed) db' nofun fun _ => nofun
  cases h with
  | record sendSeq dispatchedAt outcome a next hdispatched _ _ hnext =>
    refine ⟨?_, .inr ⟨_, rfl, rfl, by rw [hdispatched]; rfl⟩⟩
    rcases hnext with ⟨rfl, -⟩ | ⟨-, hlost⟩
    · exact nofun
    · rw [hcommit _ _ _ hdispatched] at hlost
      cases hlost
  | fail sendSeq dispatchedAt outcome hdispatched hfault =>
    exfalso
    obtain ⟨a, ha, -⟩ := hs.content
    rcases hfault with hfailed | hnone
    · rw [hcommit _ _ _ hdispatched] at hfailed
      cases hfailed
    · cases ha.symm.trans hnone
  | recordFailure a hfailed => exact absurd hfailed hphase
  | load next _ hnext => rcases hnext with rfl | ⟨_, rfl⟩ <;> exact ⟨nofun, .inl rfl⟩
  | enter => exact ⟨hopen db, .inl rfl⟩
  | observe _ _ next _ _ _ hnext =>
    refine ⟨?_, .inl (db.sends_reconcile _ _ _ _)⟩
    rcases hnext with rfl | rfl
    · exact nofun
    · exact hopen _
  | _ => exact ⟨nofun, .inl rfl⟩

theorem World.Unproven.next {act : Action} (h : w.Unproven) (hsound : w.Sound) (hlocks : act.keepsLocks w = true)
    (hafter : act.afterDispatches w = true) : (w.next act).Unproven := by
  have hstep := w.next_steps act
  generalize w.next act = w' at hstep
  cases hstep with
  | idle => exact ⟨h.freezes, h.attempts, h.ordered, h.locked⟩
  | begin req a =>
    refine ⟨h.freezes, h.attempts, h.ordered, fun s hs => ?_⟩
    rcases mem_concat_cases hs with hs | rfl
    · exact h.locked s hs
    · exact nofun
  | lifecycle db hkeeps hsends hfreezes =>
    refine ⟨h.unfrozen hfreezes, fun row hrow => ?_, fun row hrow => ?_, h.locked⟩
    · exact (h.kept hkeeps row (hsends ▸ hrow)).1
    · exact (h.kept hkeeps row (hsends ▸ hrow)).2
  | write x hact _ =>
    refine ⟨h.freezes, h.attempts, fun row hrow a ha p hp => ?_, h.locked⟩
    exact h.ordered row hrow a ha p (Write.pauses_subset hp)
  | pause j p hact hp _ =>
    subst hact
    refine ⟨h.freezes, h.attempts, fun row hrow a ha q hq => ?_, h.locked⟩
    rcases mem_insertPause hq with hold | ⟨hchain, rfl⟩
    · exact h.ordered row hrow a ha q hold
    · rw [Action.afterDispatches, hp, all_some] at hafter
      have hrow' := all_eq_true.mp hafter row hrow
      rw [ha, all_some, hchain] at hrow'
      simpa using hrow'
  | statement i ans s o hact hs hmove =>
    have hmem := mem_of_getElem? hs
    have hcommit : ∀ sendSeq dispatchedAt outcome, s.phase = .dispatched sendSeq dispatchedAt outcome →
        ans.commit = .acknowledged := by
      intro sendSeq dispatchedAt outcome hphase
      rcases hact with rfl | rfl
      · rw [Action.keepsLocks, hs, all_some, hphase] at hlocks
        exact beq_iff_eq.mp hlocks
      · rfl
    obtain ⟨hphase, hsends⟩ := hmove.record_held (h.locked s hmem) hcommit (hsound s hmem)
    have hkept := h.kept hmove.keeps
    -- the recorded row meets no pause: the region still holds the coordination row
    have hnew : ∀ row ∈ o.db.sends, row ∈ w.db.sends ∨ row.attempt = s.attempt ∧ s.phase.holds .protection = true := by
      intro row hrow
      rcases hsends with hsame | ⟨row', happend, hattempt, hheld⟩
      · exact .inl (hsame ▸ hrow)
      · rw [happend] at hrow
        rcases mem_concat_cases hrow with hold | rfl
        · exact .inl hold
        · exact .inr ⟨hattempt, hheld⟩
    have hafterwards := hmove.sound (hsound s hmem)
    obtain ⟨b, hb, hcontent⟩ := ((hsound s hmem).keeps hmove.keeps).content
    refine ⟨h.unfrozen hmove.freezes, fun row hrow => ?_, fun row hrow a ha p hp => ?_, fun s' hs' => ?_⟩
    · rcases hnew row hrow with hold | ⟨hattempt, -⟩
      · exact (hkept row hold).1
      · exact ⟨b, hattempt ▸ hb⟩
    · rcases hnew row hrow with hold | ⟨hattempt, hheld⟩
      · exact (hkept row hold).2 a ha p hp
      · have hab : b = a := some.inj (hb.symm.trans (hattempt ▸ ha))
        change p ∈ o.db.gates.pauses a.content.chain at hp
        rw [← hab, hcontent, hmove.keeps.gates, (hsound s hmem).unpaused hheld] at hp
        cases hp
    · rcases mem_or_eq_of_mem_set hs' with hold | rfl
      · exact h.locked s' hold
      · exact hphase

/-- If no session loses its locks, and no pause commits whose transaction began before a dispatch it has waited for, no
freeze is ever inserted. -/
theorem no_freeze_without_loss {now : Int} {db : Database} {actions : List Action} (hsends : db.sends = [])
    (hfreezes : ∀ intent, db.freezes intent = none)
    (hactions : Along next (fun w act => (act.keepsLocks w && act.afterDispatches w) = true)
      (initial now db) actions) (intent : IntentID) :
    (run next (initial now db) actions).db.freezes intent = none := by
  have hnone : ∀ row, row ∉ (initial now db).db.sends := by
    intro row hrow
    rw [show (initial now db).db.sends = [] from hsends] at hrow
    cases hrow
  have hinitial : (initial now db).Sound ∧ (initial now db).Unproven :=
    ⟨fun _ => nofun, hfreezes, fun row hrow => absurd hrow (hnone row),
      fun row hrow => absurd hrow (hnone row), fun _ => nofun⟩
  have hunproven := invariant_of_along (I := fun w : World => w.Sound ∧ w.Unproven) hactions hinitial
    fun w act hact hw => by
      rw [and_eq_true] at hact
      exact ⟨hw.1.steps (w.next_steps act), hw.2.next hw.1 hact.1 hact.2⟩
  exact hunproven.2.freezes intent

/-- The pause begins after the dispatch and commits. -/
theorem no_freeze_without_loss_later : (run next start (approach (own .initial) ++ [.advance 0 silent,
      .beginPause 1 .indexer, .advance 0 silent, .commitPause 0, .reconcile ⟨1⟩ .notFoundYet []])).db.freezes 1 =
        none :=
  no_freeze_without_loss rfl (fun _ => rfl) (by decide +kernel) 1

end TxHarbor.Lifecycle
