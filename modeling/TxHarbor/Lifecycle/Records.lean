import TxHarbor.Lifecycle.Authorised

open Transition List

namespace TxHarbor.Lifecycle

open World SendRow Sample

open Execution (AttemptID AttemptState Probe SendOutcome)

/-! The send rows against the calls of the node they are about. -/

/-! ### Sequence numbers -/

/-- The sequence number a region has taken. -/
def Phase.sendSeq? : Phase → Option Nat
  | .locked sendSeq | .bytes sendSeq _ | .checked sendSeq _ _ | .timed sendSeq _ _ _ | .dispatched sendSeq _ _ =>
    some sendSeq
  | _ => none

theorem Phase.locksAttempt_of_sendSeq {phase : Phase} {sendSeq : Nat} (h : phase.sendSeq? = some sendSeq) :
    phase.locksAttempt = true := by
  cases phase <;> first | rfl | cases h

namespace Database

/-- The rows of the attempt are numbered from one without a gap. -/
def Numbered (db : Database) (id : AttemptID) : Prop :=
  (db.rows id).map SendRow.sendSeq = List.range' 1 (db.rows id).length

theorem foldl_max_range' (n k : Nat) : (List.range' (k + 1) n).foldl max k = k + n := by
  induction n generalizing k with
  | zero => rfl
  | succ n ih =>
    rw [range'_succ, foldl_cons, Nat.max_eq_right (Nat.le_succ k), ih (k + 1)]
    omega

variable {db db' : Database}

variable {id : AttemptID} {row : SendRow}

theorem Numbered.nextSendSeq (h : db.Numbered id) : db.nextSendSeq id = (db.rows id).length + 1 := by
  rw [Database.nextSendSeq, h, foldl_max_range', Nat.zero_add]

theorem rows_append (h : db'.sends = db.sends ++ [row]) (id : AttemptID) :
    db'.rows id = if row.attempt = id then db.rows id ++ [row] else db.rows id := by
  rw [rows, h, filter_append, filter_singleton]
  by_cases hid : row.attempt = id
  · rw [beq_iff_eq.mpr hid, cond_true, if_pos hid]
    rfl
  · rw [beq_eq_false_iff_ne.mpr hid, cond_false, append_nil, if_neg hid]
    rfl

theorem rows_congr (h : db'.sends = db.sends) (id : AttemptID) : db'.rows id = db.rows id := by
  rw [rows, h]
  rfl

theorem Numbered.append (h : db.Numbered id) (hsends : db'.sends = db.sends ++ [row])
    (hseq : row.attempt = id → row.sendSeq = (db.rows id).length + 1) : db'.Numbered id := by
  unfold Numbered
  rw [rows_append hsends]
  split
  next hid =>
    rw [map_append, h, length_append, length_singleton, range'_concat, map_singleton, hseq hid]
    rw [Nat.one_mul, Nat.add_comm 1]
  · exact h

end Database

variable {s : Session} {i : Nat} {now : Int} {db : Database} {others : List Session} {ans : Answer} {o : Outcome}
  {w : World} {act : Action}

/-- What a statement adds to the send log. -/
theorem Session.Moves.sends (h : s.Moves i now db others ans o) : o.db.sends = db.sends ∨
      ∃ row, o.db.sends = db.sends ++ [row] ∧ row.attempt = s.attempt ∧ row.dispatch = i ∧
        others.any (fun o => o.locks s.attempt) = false ∧ o.session.phase.sendSeq? = none ∧
        (s.phase.sendSeq? = some row.sendSeq ∨ row.sendSeq = db.nextSendSeq s.attempt) := by
  cases h with
  | observe state a next _ _ _ _ => exact .inl (db.sends_reconcile _ _ _ _)
  | record sendSeq dispatchedAt outcome a next hphase hfree _ hnext =>
    refine .inr ⟨_, rfl, rfl, rfl, hfree, ?_, .inl (by rw [hphase]; rfl)⟩
    rcases hnext with ⟨rfl, -⟩ | ⟨rfl, -⟩ <;> rfl
  | recordFailure a hphase hfree _ => exact .inr ⟨_, rfl, rfl, rfl, hfree, rfl, .inr rfl⟩
  | _ => exact .inl rfl

/-- The number a region holds is the one it took with the lock. -/
theorem Session.Moves.sendSeq {n : Nat} (h : s.Moves i now db others ans o) (hn : o.session.phase.sendSeq? = some n) :
    o.session.attempt = s.attempt ∧ (s.phase.sendSeq? = some n ∨ n = db.nextSendSeq s.attempt) := by
  have hopen : ∀ db', (s.openRegion db').phase.sendSeq? = none := fun db' =>
    s.openRegion_cases (P := fun s' => s'.phase.sendSeq? = none) db' rfl fun _ => rfl
  refine ⟨congrArg SendRequest.attempt h.inputs.1, ?_⟩
  cases h with
  | lock => exact .inr (Option.some.inj hn).symm
  | read _ _ hphase | check _ _ hphase | time _ _ _ hphase | dispatch _ _ _ _ hphase =>
    rw [hphase]
    exact .inl hn
  | load next _ hnext => rcases hnext with rfl | ⟨_, rfl⟩ <;> cases hn
  | enter =>
    rw [hopen] at hn
    cases hn
  | observe state a next _ _ _ hnext =>
    rcases hnext with rfl | rfl
    · cases hn
    · rw [hopen] at hn
      cases hn
  | record sendSeq dispatchedAt outcome a next _ _ _ hnext => rcases hnext with ⟨rfl, -⟩ | ⟨rfl, -⟩ <;> cases hn
  | _ => cases hn

/-- Numbers are contiguous, and an open region holds the next one. -/
structure World.Numbered (w : World) : Prop where
  rows : ∀ id, w.db.Numbered id
  taken : ∀ s ∈ w.sessions, ∀ n, s.phase.sendSeq? = some n → n = (w.db.rows s.attempt).length + 1

variable {w' : World}

theorem World.Numbered.steps (h : w.Numbered) (hstep : w.Steps act w') : w'.Numbered := by
  have hsame : ∀ {db : Database}, db.sends = w.db.sends → ∀ id, db.rows id = w.db.rows id ∧ db.Numbered id := by
    intro db hsends id
    have hrows := Database.rows_congr hsends id
    refine ⟨hrows, ?_⟩
    rw [Database.Numbered, hrows]
    exact h.rows id
  cases hstep with
  | idle | write | pause => exact ⟨h.rows, h.taken⟩
  | lifecycle db _ hsends _ =>
    refine ⟨fun id => (hsame hsends id).2, fun s hs n hn => ?_⟩
    rw [(hsame hsends s.attempt).1]
    exact h.taken s hs n hn
  | begin req a =>
    refine ⟨h.rows, fun s hs n hn => ?_⟩
    rcases mem_concat_cases hs with hs | rfl
    · exact h.taken s hs n hn
    · cases hn
  | statement i ans s o _ hs hmove =>
    have hmem := mem_of_getElem? hs
    have hheld : ∀ n, s.phase.sendSeq? = some n ∨ n = w.db.nextSendSeq s.attempt →
        n = (w.db.rows s.attempt).length + 1 := by
      rintro n (hn | rfl)
      · exact h.taken s hmem n hn
      · exact (h.rows s.attempt).nextSendSeq
    rcases hmove.sends with hsends | ⟨row, hsends, hrow, -, hfree, hdone, hseq⟩
    · refine ⟨fun id => (hsame hsends id).2, fun s' hs' n hn => ?_⟩
      rw [(hsame hsends s'.attempt).1]
      rcases mem_set_cases hs' with rfl | hother
      · obtain ⟨hattempt, hn⟩ := hmove.sendSeq hn
        rw [hattempt]
        exact hheld n hn
      · exact h.taken s' (mem_of_mem_eraseIdx hother) n hn
    · refine ⟨fun id => (h.rows id).append hsends fun hid => ?_, fun s' hs' n hn => ?_⟩
      · rw [← hid, hrow]
        exact hheld _ hseq
      · rcases mem_set_cases hs' with rfl | hother
        · cases hdone.symm.trans hn
        · -- a second region on the attempt would hold its lock
          have hne : row.attempt ≠ s'.attempt := by
            intro heq
            have hlocks : s'.locks s.attempt = true := by
              rw [Session.locks, Phase.locksAttempt_of_sendSeq hn, ← heq, hrow, Bool.true_and, beq_self_eq_true]
            exact Bool.eq_false_iff.mp hfree (any_eq_true.mpr ⟨s', hother, hlocks⟩)
          rw [Database.rows_append hsends, if_neg hne]
          exact h.taken s' (mem_of_mem_eraseIdx hother) n hn

/-- In every history the rows of every attempt are numbered from one without a gap. -/
theorem World.numbered_run (hdb : db.sends = []) (actions : List Action) :
    (run next (initial now db) actions).Numbered := by
  refine Reachable.invariant (I := World.Numbered) ⟨actions, rfl⟩ ⟨fun id => ?_, ?_⟩ ?_
  · change Database.Numbered db id
    rw [Database.Numbered, Database.rows, hdb]
    rfl
  · exact fun _ => nofun
  · exact fun w act hw => hw.steps (w.next_steps act)

/-! ### One record for one call -/

/-- The node was called and the record of it is still to come. -/
def Phase.unrecorded : Phase → Bool
  | .dispatched _ _ _ | .failed => true
  | _ => false

/-- The COMMIT of a region is not lost on its way back. -/
def Action.acknowledged (w : World) : Action → Bool
  | .advance i ans => (w.sessions[i]?).all fun s =>
    match s.phase with
    | .dispatched _ _ _ => ans.commit != .unacknowledged
    | _ => true
  | _ => true

/-- Every row is about a call of its attempt, and no two rows are about one call. -/
structure World.Recorded (w : World) : Prop where
  rows : ∀ row ∈ w.db.sends, row.dispatch < w.sessions.length ∧
    ∃ call ∈ w.calls, call.session = row.dispatch ∧ call.attempt = row.attempt
  distinct : (w.db.sends.map SendRow.dispatch).Nodup
  /-- A call without its record has no row yet. -/
  unrecorded : ∀ i s, w.sessions[i]? = some s → s.phase.unrecorded = true →
    (∃ call ∈ w.calls, call.session = i ∧ call.attempt = s.attempt) ∧ ∀ row ∈ w.db.sends, row.dispatch ≠ i
  undispatched : ∀ i s, w.sessions[i]? = some s → s.phase.undispatched = true → ∀ row ∈ w.db.sends, row.dispatch ≠ i

/-- What a statement does to the dispatch of its call. -/
theorem Session.Moves.dispatches (h : s.Moves i now db others ans o) :
    o.call = none ∧ o.db.sends = db.sends ∧ (o.session.phase.unrecorded = true → s.phase.unrecorded = true) ∧
        (o.session.phase.undispatched = true → s.phase.undispatched = true) ∨
      (∃ call, o.call = some call ∧ call.session = i ∧ call.attempt = s.attempt) ∧ o.db.sends = db.sends ∧
        s.phase.undispatched = true ∧ o.session.phase.undispatched = false ∨
      o.call = none ∧ s.phase.unrecorded = true ∧ o.session.phase.undispatched = false ∧
        (∃ row, o.db.sends = db.sends ++ [row] ∧ row.attempt = s.attempt ∧ row.dispatch = i) ∧
        (o.session.phase.unrecorded = true → ans.commit = .unacknowledged ∧
          ∃ sendSeq at' outcome, s.phase = .dispatched sendSeq at' outcome) := by
  have hopen : ∀ db', (s.openRegion db').phase.unrecorded = false := fun db' =>
    s.openRegion_cases (P := fun s' => s'.phase.unrecorded = false) db' rfl fun _ => rfl
  cases h with
  | stop hphase | giveUp hphase => exact .inl ⟨rfl, rfl, nofun, nofun⟩
  | load next hphase hnext =>
    refine .inl ⟨rfl, rfl, ?_, by rw [hphase]; exact fun _ => rfl⟩
    rcases hnext with rfl | ⟨_, rfl⟩ <;> nofun
  | sign _ hphase | thaw _ hphase | lock _ _ hphase | read _ _ hphase | check _ _ hphase | time _ _ _ hphase =>
    exact .inl ⟨rfl, rfl, nofun, by rw [hphase]; exact fun _ => rfl⟩
  | pass _ _ _ hphase => exact .inl ⟨rfl, rfl, nofun, by rw [hphase]; exact fun _ => rfl⟩
  | enter _ hphase =>
    refine .inl ⟨rfl, rfl, ?_, by rw [hphase]; exact fun _ => rfl⟩
    rw [hopen]
    nofun
  | observe _ _ next hphase _ _ hnext =>
    refine .inl ⟨rfl, db.sends_reconcile _ _ _ _, ?_, by rw [hphase]; exact fun _ => rfl⟩
    rcases hnext with rfl | rfl
    · nofun
    · rw [hopen]
      nofun
  | dispatch _ _ _ _ hphase => exact .inr (.inl ⟨⟨_, rfl, rfl, rfl⟩, rfl, by rw [hphase]; rfl, rfl⟩)
  | record sendSeq dispatchedAt outcome _ next hphase _ _ hnext =>
    refine .inr (.inr ⟨rfl, by rw [hphase]; rfl, ?_, ⟨_, rfl, rfl, rfl⟩, ?_⟩)
    · rcases hnext with ⟨rfl, -⟩ | ⟨rfl, -⟩ <;> rfl
    · rcases hnext with ⟨rfl, -⟩ | ⟨rfl, hlost⟩
      · nofun
      · exact fun _ => ⟨hlost, sendSeq, dispatchedAt, outcome, hphase⟩
  | fail _ _ _ hphase => exact .inl ⟨rfl, rfl, by rw [hphase]; exact fun _ => rfl, nofun⟩
  | recordFailure _ hphase => exact .inr (.inr ⟨rfl, by rw [hphase]; rfl, rfl, ⟨_, rfl, rfl, rfl⟩, nofun⟩)

theorem Action.acknowledged_at (hack : act.acknowledged w = true) (hact : act = .advance i ans ∨ ans = {})
    (hs : w.sessions[i]? = some s)
    (hdispatched : ∃ sendSeq dispatchedAt outcome, s.phase = .dispatched sendSeq dispatchedAt outcome) :
    ans.commit ≠ .unacknowledged := by
  rcases hact with rfl | rfl
  · obtain ⟨_, _, _, hphase⟩ := hdispatched
    rw [Action.acknowledged, hs, Option.all_some, hphase] at hack
    exact bne_iff_ne.mp hack
  · nofun

theorem World.Recorded.steps (h : w.Recorded) (hstep : w.Steps act w') (hack : act.acknowledged w = true) :
    w'.Recorded := by
  cases hstep with
  | idle | write | pause => exact ⟨h.rows, h.distinct, h.unrecorded, h.undispatched⟩
  | lifecycle db _ hsends _ =>
    refine ⟨?_, ?_, ?_, ?_⟩ <;> simp only [hsends]
    · exact h.rows
    · exact h.distinct
    · exact h.unrecorded
    · exact h.undispatched
  | begin req a =>
    refine ⟨fun row hrow => ?_, h.distinct, fun j s hs hphase => ?_, fun j s hs hphase row hrow => ?_⟩
    · obtain ⟨hlt, hcall⟩ := h.rows row hrow
      exact ⟨by rw [length_append]; omega, hcall⟩
    · rcases getElem?_append_eq_some hs with hs | ⟨-, rfl⟩
      · exact h.unrecorded j s hs hphase
      · cases hphase
    · rcases getElem?_append_eq_some hs with hs | ⟨rfl, -⟩
      · exact h.undispatched j s hs hphase row hrow
      · exact ne_of_lt (h.rows row hrow).1
  | statement i ans s o hact hs hmove =>
    obtain ⟨hlt, -⟩ := List.getElem?_eq_some_iff.mp hs
    have hattempt : o.session.attempt = s.attempt := congrArg SendRequest.attempt hmove.inputs.1
    have hmono : ∀ {j : Nat} {id : AttemptID}, (∃ call ∈ w.calls, call.session = j ∧ call.attempt = id) →
        ∃ call ∈ w.calls ++ o.call.toList, call.session = j ∧ call.attempt = id :=
      fun ⟨call, hcall, hj⟩ => ⟨call, mem_append_left _ hcall, hj⟩
    have holdrows : ∀ row ∈ w.db.sends, row.dispatch < (w.sessions.set i o.session).length ∧
        ∃ call ∈ w.calls ++ o.call.toList, call.session = row.dispatch ∧ call.attempt = row.attempt := by
      intro row hrow
      rw [length_set]
      exact ⟨(h.rows row hrow).1, hmono (h.rows row hrow).2⟩
    rcases hmove.dispatches with ⟨-, hsends, hunrecorded, hundispatched⟩ |
      ⟨⟨call, hcall, hsession, hcallattempt⟩, hsends, hbefore, hafter⟩ |
      ⟨-, hbefore, hafter, ⟨row, hsends, hrow, hdispatch⟩, hlost⟩
    · -- neither a call nor a row
      refine ⟨?_, ?_, fun j s' hs' hphase => ?_, fun j s' hs' hphase => ?_⟩ <;> simp only [hsends]
      · exact holdrows
      · exact h.distinct
      · rcases getElem?_set_eq_some hs' with ⟨rfl, rfl⟩ | ⟨-, hs'⟩
        · rw [hattempt]
          exact (h.unrecorded j s hs (hunrecorded hphase)).imp_left hmono
        · exact (h.unrecorded j s' hs' hphase).imp_left hmono
      · rcases getElem?_set_eq_some hs' with ⟨rfl, rfl⟩ | ⟨-, hs'⟩
        · exact h.undispatched j s hs (hundispatched hphase)
        · exact h.undispatched j s' hs' hphase
    · -- the call
      refine ⟨?_, ?_, fun j s' hs' hphase => ?_, fun j s' hs' hphase => ?_⟩ <;> simp only [hsends]
      · exact holdrows
      · exact h.distinct
      · rcases getElem?_set_eq_some hs' with ⟨rfl, rfl⟩ | ⟨-, hs'⟩
        · refine ⟨⟨call, mem_append_right _ ?_, hsession, hcallattempt.trans hattempt.symm⟩,
            h.undispatched j s hs hbefore⟩
          rw [hcall]
          exact mem_singleton_self call
        · exact (h.unrecorded j s' hs' hphase).imp_left hmono
      · rcases getElem?_set_eq_some hs' with ⟨rfl, rfl⟩ | ⟨-, hs'⟩
        · cases hafter.symm.trans hphase
        · exact h.undispatched j s' hs' hphase
    · -- its record
      obtain ⟨hcall, hfree⟩ := h.unrecorded i s hs hbefore
      have hothers : ∀ {j}, j ≠ i → (∀ r ∈ w.db.sends, r.dispatch ≠ j) → ∀ r ∈ o.db.sends, r.dispatch ≠ j := by
        intro j hj hold r hr
        rw [hsends] at hr
        rcases mem_concat_cases hr with hr | rfl
        · exact hold r hr
        · rw [hdispatch]
          exact hj.symm
      refine ⟨fun r hr => ?_, ?_, fun j s' hs' hphase => ?_, fun j s' hs' hphase => ?_⟩
      · rw [hsends] at hr
        rcases mem_concat_cases hr with hr | rfl
        · exact holdrows r hr
        · rw [hdispatch, hrow, length_set]
          exact ⟨hlt, hmono hcall⟩
      · rw [hsends, map_append, map_singleton, hdispatch]
        refine List.Nodup.append h.distinct (nodup_singleton i) ?_
        rintro j hj hji
        rw [mem_singleton.mp hji] at hj
        obtain ⟨r, hr, hri⟩ := mem_map.mp hj
        exact hfree r hr hri
      · rcases getElem?_set_eq_some hs' with ⟨rfl, rfl⟩ | ⟨hj, hs'⟩
        · obtain ⟨hlostack, hphases⟩ := hlost hphase
          exact absurd hlostack (Action.acknowledged_at hack hact hs hphases)
        · exact (h.unrecorded j s' hs' hphase).imp hmono (hothers hj)
      · rcases getElem?_set_eq_some hs' with ⟨rfl, rfl⟩ | ⟨hj, hs'⟩
        · cases hafter.symm.trans hphase
        · exact hothers hj (h.undispatched j s' hs' hphase)

/-- Rows of an attempt inject into its calls. -/
theorem World.Recorded.length_le (h : w.Recorded) (id : AttemptID) :
    (w.db.rows id).length ≤ (w.calls.filter fun call => call.attempt == id).length := by
  have hnodup : ((w.db.rows id).map dispatch).Nodup :=
    h.distinct.sublist ((filter_sublist (l := w.db.sends)).map dispatch)
  have hsubset : (w.db.rows id).map dispatch ⊆ (w.calls.filter fun call => call.attempt == id).map Call.session := by
    intro i hi
    obtain ⟨row, hrow, rfl⟩ := mem_map.mp hi
    obtain ⟨hmem, hid⟩ := mem_filter.mp hrow
    obtain ⟨-, call, hcall, hsession, hattempt⟩ := h.rows row hmem
    refine mem_map.mpr ⟨call, mem_filter.mpr ⟨hcall, ?_⟩, hsession⟩
    rwa [hattempt]
  have hle := (hnodup.subperm hsubset).length_le
  rwa [length_map, length_map] at hle

namespace Sample

/-- The region's COMMIT takes effect, its acknowledgement is lost, and the failure is recorded. -/
def unacknowledged : List Action := approach (own .initial) ++
    [.advance 0 willing, .advance 0 { willing with commit := .unacknowledged }, .advance 0 willing]

end Sample

/-- One call of the node leaves an accepted row and an unknown row after it. -/
theorem two_records_of_one_dispatch :
    let w := run next start unacknowledged
    (w.calls.filter fun call => call.attempt == ⟨1⟩).length = 1 ∧
      (w.db.rows ⟨1⟩).map (fun row => (row.sendSeq, row.outcome, row.dispatch)) = [(1, .accepted, 0), (2, .unknown, 0)] := by
  decide +kernel

/-- Unless a region's COMMIT takes effect without its acknowledgement, there are no more rows than calls, the numbers are
contiguous from one, and no two rows are about one dispatch. -/
theorem one_record_per_dispatch {now : Int} {db : Database} {actions : List Action} (hdb : db.sends = [])
    (hack : Along next (fun w act => act.acknowledged w = true) (initial now db) actions) :
    let w := run next (initial now db) actions
    (∀ id, (w.db.rows id).length ≤ (w.calls.filter fun call => call.attempt == id).length) ∧
      (∀ id, (w.db.rows id).map sendSeq = List.range' 1 (w.db.rows id).length) ∧
      w.db.sends.Pairwise fun earlier later => earlier.dispatch ≠ later.dispatch := by
  intro w
  have hnone : ∀ (i : Nat) (s : Session), (initial now db).sessions[i]? ≠ some s := by
    intro i s
    rw [show (initial now db).sessions = [] from rfl, getElem?_nil]
    exact nofun
  have hinitial : (initial now db).Recorded := by
    refine ⟨fun row hrow => ?_, ?_, fun i s hs => absurd hs (hnone i s), fun i s hs => absurd hs (hnone i s)⟩
    · rw [show (initial now db).db.sends = [] from hdb] at hrow
      cases hrow
    · rw [show (initial now db).db.sends = [] from hdb]
      exact nodup_nil
  have hrecorded : w.Recorded := invariant_of_along hack hinitial fun w act hact hw => hw.steps (w.next_steps act) hact
  refine ⟨hrecorded.length_le, (World.numbered_run hdb actions).rows, ?_⟩
  exact pairwise_map.mp hrecorded.distinct

/-- A region whose COMMIT fails and whose failure is recorded. -/
theorem one_record_per_dispatch_failed :
    let actions := approach (own .initial) ++
      [.advance 0 willing, .advance 0 { willing with commit := .failed }, .advance 0 willing]
    let w := run next start actions
    (∀ id, (w.db.rows id).length ≤ (w.calls.filter fun call => call.attempt == id).length) ∧
      (∀ id, (w.db.rows id).map sendSeq = List.range' 1 (w.db.rows id).length) ∧
      w.db.sends.Pairwise fun earlier later => earlier.dispatch ≠ later.dispatch :=
  one_record_per_dispatch rfl (by decide +kernel)

/-- Also when acknowledgements are lost, the rows of an attempt are numbered from one without a gap, and a region that has
taken a number has the next one. -/
theorem send_numbers_contiguous {now : Int} {db : Database} (hdb : db.sends = []) (actions : List Action) :
    let w := run next (initial now db) actions
    (∀ id, (w.db.rows id).map sendSeq = List.range' 1 (w.db.rows id).length) ∧
      ∀ s ∈ w.sessions, ∀ n, s.phase.sendSeq? = some n → n = (w.db.rows s.attempt).length + 1 :=
  ⟨(World.numbered_run hdb actions).rows, (World.numbered_run hdb actions).taken⟩

theorem send_numbers_contiguous_twice : ((run next start unacknowledged).db.rows ⟨1⟩).map sendSeq =
    List.range' 1 ((run next start unacknowledged).db.rows ⟨1⟩).length :=
  (send_numbers_contiguous rfl unacknowledged).1 ⟨1⟩

end TxHarbor.Lifecycle
