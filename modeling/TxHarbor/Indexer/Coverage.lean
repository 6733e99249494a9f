import TxHarbor.Indexer.Committed

open Relational Transition Option

namespace TxHarbor.Indexer

/-! Which heights below a stream's watermark have been worked on. -/

/-- The heights a call works on for a stream: an ordinary unit, or a replayed range. -/
def Call.range (u : UnitStream) : Call → Option (Int × Int)
  | .commitLogRange _ _ range _ _ _ _ => if u = .log then some (range.lo, range.hi) else none
  | .commitDepositUnit _ _ _ _ _ range _ => if u = .deposit then some (range.lo, range.hi) else none
  | .replayRange _ _ stream lo hi _ _ _ => if stream = u.stream then some (lo, hi) else none
  | _ => none

/-- The action commits an ordinary unit or a replay range of the stream with the height in it. -/
def Processes (u : UnitStream) (height : Int) (s : Store) (a : Action) : Prop :=
  ∃ call fault lo hi, a = .submit call fault ∧ call.body s = .ok (true, s.next a) ∧
    call.range u = some (lo, hi) ∧ lo ≤ height ∧ height ≤ hi

/-- Whether the action is a unit or a replay range of the stream with the height in it. -/
def Action.touches (u : UnitStream) (height : Int) : Action → Bool
  | .submit call _ => (call.range u).any fun range => range.1 ≤ height && height ≤ range.2
  | .operate _ => false

variable {u : UnitStream} {s s' : Store}

theorem Processes.touches {height : Int} {a : Action} (h : Processes u height s a) : a.touches u height = true := by
  obtain ⟨call, fault, lo, hi, rfl, -, hrange, hlo, hhi⟩ := h
  simp [Action.touches, hrange, hlo, hhi]

/-- What a committed call can do to the watermark of a stream. -/
inductive ProgressStep (u : UnitStream) (s : Store) (call : Call) (s' : Store) : Prop where
  | kept (same : s'.progress u = s.progress u)
  | advanced (lo hi : Int) (moved : StreamCheckpoint) (range : call.range u = some (lo, hi))
      (current : s'.progress u = some moved) (reached : moved.nextBlock = hi + 1)
      (origin : moved.startBlock = lo ∨ ∃ c, s.progress u = some c ∧ c.nextBlock = lo ∧ c.startBlock = moved.startBlock)
  | rolledBack (held : Bool) (cap : RecoveryCapture) (row : RecoveryRow) (a : Ancestor)
      (c : StreamCheckpoint) (rollback : call = .rollback held cap u.stream)
      (active : s.recovery = some row) (ancestor : row.ancestor = some a)
      (previous : s.progress u = some c) (current : s'.progress u = some (c.rollTo a.number))

theorem Store.progress_setProgress (s : Store) (u v : UnitStream) (c : StreamCheckpoint) :
    (s.setProgress v c).progress u = if u = v then some c else s.progress u := by
  cases u <;> cases v <;> rfl

theorem ReplayedRows.progress {lo hi : Int} {headers : List ReplayBlock} {stream : RecoveryStream}
    (h : ReplayedRows s lo hi headers stream s') (u : UnitStream) : s'.progress u = s.progress u := by
  cases h <;> cases u <;> rfl

open Store ProgressStep

theorem Committed.progress {call : Call} (h : Committed s call s') (u : UnitStream) : ProgressStep u s call s' := by
  cases h with
  | logs gate logs checkpoint added advance grown =>
    cases u with
    | deposit => exact .kept rfl
    | log =>
      obtain ⟨hreached, horigin⟩ := HeightRange.advance_eq_some advance
      exact .advanced _ _ checkpoint rfl rfl hreached (horigin.imp_left And.right)
  | deposits gate versions observations checkpoint added advance grown pending =>
    cases u with
    | log => exact .kept rfl
    | deposit =>
      obtain ⟨hreached, horigin⟩ := HeightRange.advance_eq_some advance
      exact .advanced _ _ checkpoint rfl rfl hreached (horigin.imp_left And.right)
  | unitRolledBack v row a c events gate ancestor current logged =>
    have hprogress : ∀ t : Store, ({ t with recoveryEvents := events }).progress u = t.progress u :=
      fun t => by cases u <;> rfl
    by_cases huv : u = v
    · subst huv
      refine .rolledBack _ _ row a c rfl gate.active ancestor current ?_
      rw [hprogress, progress_setProgress, if_pos rfl]
    · apply kept
      rw [hprogress, progress_setProgress, if_neg huv]
  | replayed row row' events s₁ s₂ gate ordered rows covered progress round phase logged =>
    have hframe : ∀ (t : Store) (r : Option RecoveryRow) (e : Table RecoveryEvent),
        ({ t with recovery := r, recoveryEvents := e }).progress u = t.progress u :=
      fun t r e => by cases u <;> rfl
    have hbefore : ∀ r : Option RecoveryRow, ({ s₁ with recovery := r }).progress u = s.progress u :=
      fun r => (hframe s₁ r _).trans (rows.progress u)
    cases progress with
    | block header checkpoint height hash =>
      apply kept
      rw [← rows.progress u]
      cases u <;> rfl
    | unit v named c moved current next start reached =>
      by_cases huv : u = v
      · subst huv
        refine .advanced _ _ moved (by simp [Call.range, named]) ?_ reached (.inr ⟨c, ?_, next, start.symm⟩)
        · rw [hframe, progress_setProgress, if_pos rfl]
        · exact (hbefore _).symm.trans current
      · apply kept
        rw [hframe, progress_setProgress, if_neg huv]
        exact hbefore _
  | _ => exact .kept (by cases u <;> rfl)

/-- The stream has reached the floor a rollback would set it to. -/
def Store.ReachedFloor (s : Store) (u : UnitStream) : Prop :=
  ∀ row ∈ s.recovery, ∀ a ∈ row.ancestor, ∀ c ∈ s.progress u, a.number + 1 ≤ c.nextBlock

instance (s : Store) (u : UnitStream) : Decidable (s.ReachedFloor u) := by
  unfold Store.ReachedFloor
  infer_instance

/-- A rollback of a log or deposit checkpoint really goes back. -/
def RollsBack (s : Store) : Action → Prop
  | .submit (.rollback _ _ .log) _ => s.ReachedFloor .log
  | .submit (.rollback _ _ .deposit) _ => s.ReachedFloor .deposit
  | _ => True

instance (s : Store) (a : Action) : Decidable (RollsBack s a) := by
  unfold RollsBack
  split <;> infer_instance

/-- Every height below the watermark has been processed on the way here. -/
def Covered (u : UnitStream) (actions : List Action) (s : Store) : Prop :=
  ∀ c, s.progress u = some c → ∀ height, c.startBlock ≤ height → height < c.nextBlock →
    Occurs Store.next (Processes u height) Store.empty actions

theorem StreamCheckpoint.rollTo_le_iff (c : StreamCheckpoint) (ancestor : Int) :
    (c.rollTo ancestor).nextBlock ≤ c.nextBlock ↔ ancestor + 1 ≤ c.nextBlock := by
  have hstart := c.start_le_next
  simp only [StreamCheckpoint.rollTo]
  omega

theorem Covered.extend {actions : List Action} (h : Covered u actions s) (a : Action)
    (hsame : s'.progress u = s.progress u) : Covered u (actions ++ [a]) s' := by
  intro c hc height hlo hhi
  exact (h c (hsame ▸ hc) height hlo hhi).extend a

theorem Covered.step (front : List Action) (a : Action) (hrolls : RollsBack (run next .empty front) a)
    (h : Covered u front (run next .empty front)) :
    Covered u (front ++ [a]) ((run next .empty front).next a) := by
  generalize hs : run next .empty front = s at hrolls h
  cases a with
  | operate rows => exact h.extend _ (by cases u <;> rfl)
  | submit call fault =>
    rcases s.next_submit call fault with hsame | ⟨s', hbody, hnew⟩
    · exact h.extend _ (by rw [hsame])
    · rw [hnew]
      cases (Call.body_committed hbody).progress u with
      | kept same => exact h.extend _ same
      | rolledBack held cap row ancestor c rollback active confirmed previous current =>
        subst rollback
        have hreached : s.ReachedFloor u := by cases u <;> exact hrolls
        have hfloor := hreached row active ancestor confirmed c previous
        intro c' hc' height hlo hhi
        rw [current, some.injEq] at hc'
        subst hc'
        have hle := (c.rollTo_le_iff ancestor.number).mpr hfloor
        exact (h c previous height hlo (by omega)).extend _
      | advanced lo hi moved range current reached origin =>
        intro c' hc' height hlo hhi
        rw [current, some.injEq] at hc'
        subst hc'
        by_cases hin : lo ≤ height
        · apply Occurs.last
          rw [hs]
          exact ⟨call, fault, lo, hi, rfl, by rw [hbody, hnew], range, hin, by omega⟩
        · -- below the new range only heights of the old progress row are left
          rcases origin with hstart | ⟨c, hprevious, hnext, hstart⟩
          · omega
          · exact (h c hprevious height (by omega) (by omega)).extend _

/-- A rollback moves the watermark back exactly when the stream had reached the ancestor, and runs
whose rollbacks all go back leave no height behind. -/
theorem rollback_skips_iff_lagging (actions : List Action) :
    (∀ s s' u held cap row ancestor c, s.recovery = some row → row.ancestor = some ancestor →
      Store.progress s u = some c →
      (Call.rollback held cap (UnitStream.stream u)).body s = .ok (true, s') →
      ((∃ c', s'.progress u = some c' ∧ c'.nextBlock ≤ c.nextBlock) ↔ ancestor.number + 1 ≤ c.nextBlock)) ∧
    (Along Store.next RollsBack Store.empty actions → ∀ u, Covered u actions (run Store.next .empty actions)) := by
  constructor
  · intro s s' u held cap row ancestor c hactive hancestor hprogress hbody
    simp only [Call.body, Tx.eq_ok] at hbody
    obtain ⟨result, s₁, hbody, hcommits, rfl⟩ := hbody
    obtain ⟨row', a, hgate, ha, ⟨-, hfalse, -⟩ | ⟨-, c', events, hc', -, rfl⟩⟩ :=
      rollbackRecoveryCheckpoint_unit_spec hbody
    · simp [hcommits] at hfalse
    · rw [hgate.active, some.injEq] at hactive
      subst hactive
      rw [ha, some.injEq] at hancestor
      rw [hc', some.injEq] at hprogress
      subst hancestor hprogress
      have hnew : ({ s.setProgress u (c'.rollTo a.number) with recoveryEvents := events }).progress u =
          some (c'.rollTo a.number) := by cases u <;> rfl
      rw [hnew, ← c'.rollTo_le_iff a.number]
      constructor
      · rintro ⟨moved, hmoved, hle⟩
        cases hmoved
        exact hle
      · exact fun hle => ⟨_, rfl, hle⟩
  · intro halong u
    apply history_invariant (I := Covered u) halong
    · intro c hc
      cases u <;> cases hc
    · exact fun front a hrolls h => Covered.step front a hrolls h

open Sample

/-- The second fork is found while every stream is at the tip: nothing is skipped. -/
theorem rollback_skips_iff_lagging_secondFork :
    let actions := firstFork ++ secondFork
    let s := run next .empty actions
    Along next RollsBack empty actions ∧
      s.recovery.isNone = true ∧ s.logCheckpoint.map (fun c => c.nextBlock) = some 2 ∧ Covered .log actions s := by
  have halong : Along next RollsBack empty (firstFork ++ secondFork) := by decide +kernel
  exact ⟨halong, by decide +kernel, by decide +kernel, (rollback_skips_iff_lagging _).2 halong .log⟩

namespace Sample

/-- Both streams are at height 0 when height 2 turns out to have been replaced. -/
def laggingLogs : List Action := [header 0 0 100 99, header 0 1 101 100, header 0 2 102 101,
   logUnit 0 ⟨0, 0, by decide⟩ true [(0, 100)] [],
   depositUnit 0 ⟨0, 0, by decide⟩ none [(0, 100)] []]

/-- The round that replaces height 2, up to its log rollback and from there to its release. -/
def laggingRound : List Action × List Action := (establish 1 2 102 :: (rewind 1 2 1 101).take 4,
   (rewind 1 2 1 101).drop 4 ++ [replay 1 2 .block 2 2 [⟨2, hash 202, some (hash 101)⟩], replay 1 2 .log 2 2 [],
      replay 1 2 .deposit 2 2 [], does (.complete true (owned 1 2))])

end Sample

/-- Height 1 is below the log watermark of a completed recovery and nobody has read its logs. -/
theorem rollback_skips_lagging_logs :
    let before := laggingLogs ++ laggingRound.1
    let actions := before ++ laggingRound.2
    let s := run next .empty before
    let t := run next .empty actions
    s.recovery.map (fun row => row.phase) = some .invalidated ∧ s.logCheckpoint.map (fun c => c.nextBlock) = some 1 ∧
      (s.next (does (.rollback true (owned 1 2) .log))).logCheckpoint.map (fun c => c.nextBlock) = some 2 ∧
      t.recovery.isNone = true ∧ t.logCheckpoint.map (fun c => (c.startBlock, c.nextBlock)) = some (0, 3) ∧
      ¬ Occurs next (Processes .log 1) empty actions := by
  refine ⟨by decide +kernel, by decide +kernel, by decide +kernel, by decide +kernel, by decide +kernel, fun h => ?_⟩
  obtain ⟨a, ha, s, hprocesses⟩ := h.exists_mem
  have huntouched : ∀ a ∈ laggingLogs ++ laggingRound.1 ++ laggingRound.2, a.touches .log 1 = false := by decide +kernel
  have htouches := hprocesses.touches
  rw [huntouched a ha] at htouches
  cases htouches

end TxHarbor.Indexer
