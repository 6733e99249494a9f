import TxHarbor.Indexer.Executor
import TxHarbor.Indexer.Fencing

open Relational List

namespace TxHarbor.Indexer

open Client Call

/-! What the serve loop keeps of a round from its invalidation on, whatever the node answers and
wherever the process is stopped. -/

/-- The phases after the invalidation. -/
def RecoveryPhase.late : RecoveryPhase → Bool
  | .detected => false
  | .ancestorConfirmed => false
  | .invalidated => true
  | .replaying => true
  | .completePending => true
  | .reconcileRequired => true

/-- The round is active and past its invalidation. -/
def InRound (round : RecoveryRow) (s : Store) : Prop := ∃ row ∈ s.recovery, SameRound round row ∧ row.phase.late = true

instance (round : RecoveryRow) (s : Store) : Decidable (InRound round s) := by
  unfold InRound
  infer_instance

/-- The round is over: it has left its version in the history, and later rounds have larger ones. -/
def RoundOver (round : RecoveryRow) (s : Store) : Prop :=
  round.seq ≤ recoveryEventsMax s ∧ ∀ row, s.recovery = some row → round.seq < row.seq

variable {round : RecoveryRow} {s : Store}

theorem RoundOver.not_inRound (h : RoundOver round s) : ¬ InRound round s := by
  rintro ⟨row, hrow, hsame, -⟩
  have hlt := h.2 row hrow
  have hseq := hsame.seq
  omega

variable {s' : Store}

theorem RoundOver.step (h : RoundOver round s) (hstep : VersionStep s s') : RoundOver round s' := by
  obtain ⟨hmax, hlater⟩ := h
  cases hstep with
  | quiet same version => exact ⟨by omega, fun row hrow => hlater row (same ▸ hrow)⟩
  | opened row _ active fresh version =>
    refine ⟨by omega, fun row' hrow' => ?_⟩
    rw [active, Option.some.injEq] at hrow'
    subst hrow'
    omega
  | audited row active round version =>
    have hlt := hlater row active
    exact ⟨by omega, fun row' hrow' => by rwa [round row' hrow']⟩

/-- The calls the loop submits for a round past its invalidation. A range replays headers the node
has answered, a flip is for a height whose one row is a retained one of that hash, and a revival is
for a block of `flips`. -/
def Call.LateCall (answers : Int → Hash → Prop) (flips : Hash → Prop) (s : Store) : Call → Prop
  | .replayRange _ _ _ _ _ blocks _ _ => ∀ b ∈ blocks, answers b.number b.hash
  | .recanonicalize _ _ height oldHash => localBlockView s height = some (some oldHash, false)
  | .revive _ _ id => flips id.blockHash
  | .signalReconcile .. => True
  | .complete .. => True
  | _ => False

theorem InRound.step {answers : Int → Hash → Prop} {flips : Hash → Prop} {c : Call} (h : InRound round s)
    (hc : c.LateCall answers flips s) (hstep : Committed s c s') : InRound round s' ∨ RoundOver round s' := by
  obtain ⟨row, hrow, hround, hlate⟩ := h
  cases hstep with
  | replayed row' row'' events s₁ s₂ gate _ _ _ _ same phase logged =>
    have heq : row' = row := Option.some.inj (gate.active.symm.trans hrow)
    subst heq
    refine .inl ⟨row'', rfl, hround.trans same, ?_⟩
    simp only [mem_cons, not_mem_nil, or_false] at phase
    rcases phase with hphase | hphase <;> rw [hphase] <;> rfl
  | recanonicalized | revived => exact .inl ⟨row, hrow, hround, hlate⟩
  | signalled row' events gate logged =>
    have heq : row' = row := Option.some.inj (gate.active.symm.trans hrow)
    subst heq
    exact .inl ⟨row'.inPhase .reconcileRequired, rfl, hround.trans (row'.inPhase_sameRound _), rfl⟩
  | released release row' sweptTo events active phase verified logged =>
    have heq : row' = row := Option.some.inj (active.symm.trans hrow)
    subst heq
    refine .inr ⟨?_, fun row'' hrow'' => by cases hrow''⟩
    have hmax : recoveryEventsMax { s with recovery := none, recoveryEvents := events } = _ := logged.eventsMax
    have hseq := hround.seq
    omega
  | audited note =>
    obtain ⟨_, _, rfl⟩ | ⟨_, _, _, rfl⟩ := note <;> cases hc
  | _ => cases hc

/-- The round is running and the store has kept something, or the round is over. -/
def During (round : RecoveryRow) (Kept : Store → Prop) (s : Store) : Prop :=
  InRound round s ∧ Kept s ∨ RoundOver round s

/-- What holds whenever the loop submits a call. -/
def Submits (round : RecoveryRow) (Kept : Store → Prop) (answers : Int → Hash → Prop) (flips : Hash → Prop)
    (s : Store) (c : Call) : Prop :=
  During round Kept s ∧ (InRound round s → c.LateCall answers flips s)

/-- What has to be shown of a property for the loop to keep it: the loop's own transactions keep it,
and where it holds only blocks of `flips` are flipped back. -/
structure Keeps (Kept : Store → Prop) (answers : Int → Hash → Prop) (flips : Hash → Prop) : Prop where
  step : ∀ s c s', Kept s → c.LateCall answers flips s → Committed s c s' → Kept s'
  flip : ∀ s height hash, Kept s → localBlockView s height = some (some hash, false) → flips hash

variable {resumed : List Iteration}

section Contract

variable {round : RecoveryRow} {Kept : Store → Prop} {answers : Int → Hash → Prop} {flips : Hash → Prop}

variable {c : Call} {height : Int}

theorem Submits.step (hkeeps : Keeps Kept answers flips) (h : Submits round Kept answers flips s c)
    (hbody : c.body s = .ok (true, s')) : During round Kept s' := by
  have hcommitted := body_committed hbody
  obtain ⟨⟨hin, hkept⟩ | hover, hlate⟩ := h
  · rcases hin.step (hlate hin) hcommitted with hin' | hover'
    · exact .inl ⟨hin', hkeeps.step s c s' hkept (hlate hin) hcommitted⟩
    · exact .inr hover'
  · exact .inr (hover.step hcommitted.versions)

/-- After the round, the loop may do what it wants. -/
theorem RoundOver.holds {A : Type} (hover : RoundOver round s) (m : Executor A) :
    m.Holds body (Submits round Kept answers flips) (fun _ t => RoundOver round t) s := by
  have hstable : m.Holds body (fun t _ => RoundOver round t) (fun _ t => RoundOver round t) s :=
    Client.Holds.of_stable (fun c s s' h hbody => h.step (body_committed hbody).versions) m hover
  exact hstable.mono (fun t c h => ⟨.inr h, fun hin => absurd hin h.not_inRound⟩) fun _ _ h => h

theorem holds_lateCall (hkeeps : Keeps Kept answers flips) (hs : During round Kept s)
    (hc : InRound round s → c.LateCall answers flips s) :
    (Client.call c).Holds body (Submits round Kept answers flips) (fun _ t => During round Kept t) s :=
  holds_call ⟨hs, hc⟩ hs (fun _ hbody => Submits.step hkeeps ⟨hs, hc⟩ hbody)
    (fun _ hbody => Submits.step hkeeps ⟨hs, hc⟩ hbody) fun _ _ => hs

theorem holds_signal (hkeeps : Keeps Kept answers flips) (hs : During round Kept s) (cap : RecoveryCapture) :
    (signal cap).Holds body (Submits round Kept answers flips) (fun _ t => During round Kept t) s := by
  have hlate : InRound round s → (signalReconcile true cap).LateCall answers flips s := fun _ => trivial
  exact (holds_lateCall hkeeps hs hlate).bind (fun _ h => h) fun _ _ h => h

theorem mem_orphansAtBlock {blockHash : Hash} {id : Identity} : id ∈ orphansAtBlock s blockHash ↔
      ∃ o ∈ s.observations.rows, o.blockHash = blockHash ∧ o.status = .orphaned ∧ o.toIdentity = id := by
  simp only [orphansAtBlock, mem_insertionSort, mem_map, mem_filter, Bool.and_eq_true, beq_iff_eq]
  constructor
  · rintro ⟨o, ⟨ho, hblock, hstatus⟩, rfl⟩
    exact ⟨o, ho, hblock, hstatus, rfl⟩
  · rintro ⟨o, ho, hblock, hstatus, rfl⟩
    exact ⟨o, ⟨ho, hblock, hstatus⟩, rfl⟩

/-- A flip and its revivals. Once the flip is through, its block is one of `flips`. -/
theorem holds_recanonicalizeHeight (hkeeps : Keeps Kept answers flips) (hs : During round Kept s)
    (cap : RecoveryCapture) {oldHash : Hash} (hview : localBlockView s height = some (some oldHash, false)) :
    (recanonicalizeHeight cap height oldHash).Holds body (Submits round Kept answers flips)
      (fun _ t => During round Kept t) s := by
  have hsubmits : Submits round Kept answers flips s (.recanonicalize true cap height oldHash) := ⟨hs, fun _ => hview⟩
  have hflip : ∀ t, (t = s ∨ (recanonicalize true cap height oldHash).body s = .ok (true, t)) →
      During round Kept t ∧ (flips oldHash ∨ RoundOver round t) := by
    intro t ht
    have hduring : During round Kept t := by
      rcases ht with rfl | hbody
      · exact hs
      · exact hsubmits.step hkeeps hbody
    refine ⟨hduring, ?_⟩
    rcases hs with ⟨-, hkept⟩ | hover
    · exact .inl (hkeeps.flip s height oldHash hkept hview)
    · rcases ht with rfl | hbody
      · exact .inr hover
      · exact .inr (hover.step (body_committed hbody).versions)
  have hcall : (Client.call (recanonicalize true cap height oldHash)).Holds body (Submits round Kept answers flips)
      (fun _ t => During round Kept t ∧ (flips oldHash ∨ RoundOver round t)) s :=
    holds_call hsubmits (hflip s (.inl rfl)) (fun t hbody => hflip t (.inr hbody))
      (fun t hbody => hflip t (.inr hbody)) fun _ _ => hflip s (.inl rfl)
  apply hcall.bind (fun _ h => h.1)
  rintro - t ⟨hduring, hflips | hover⟩
  · apply holds_get_bind
    have hrevive : ∀ c ∈ (orphansAtBlock t oldHash).map (revive true cap), ∀ u,
        During round Kept u → Submits round Kept answers flips u c := by
      intro c hc u hu
      obtain ⟨id, hid, rfl⟩ := mem_map.mp hc
      obtain ⟨o, -, hblock, -, rfl⟩ := mem_orphansAtBlock.mp hid
      refine ⟨hu, fun _ => ?_⟩
      change flips o.blockHash
      rwa [hblock]
    exact holds_inOrder hrevive (fun c hc u u' hu hbody => (hrevive c hc u hu).step hkeeps hbody) hduring
  · exact (hover.holds _).mono (fun _ _ h => h) fun _ _ h => .inr h

/-- The triage of a height the node has answered. An assembled header repeats the answer. -/
theorem holds_triageRow (hkeeps : Keeps Kept answers flips) {chainHash : Hash} (hanswers : answers height chainHash)
    (hs : During round Kept s) (parent : Option Hash) (cap : RecoveryCapture) :
    (triageRow parent cap height chainHash (localBlockView s height)).Holds body (Submits round Kept answers flips)
      (fun r t => During round Kept t ∧ ∀ b, r = some (.header b) → answers b.number b.hash) s := by
  have hheader : (pure (.header ⟨height, chainHash, parent⟩) : Executor Triage).Holds body
      (Submits round Kept answers flips)
      (fun r t => During round Kept t ∧ ∀ b, r = some (.header b) → answers b.number b.hash) s := by
    refine ⟨hs, fun b hb => ?_⟩
    cases hb
    exact hanswers
  cases hview : localBlockView s height with
  | none => exact hheader
  | some stored =>
    obtain ⟨localHash, canonical⟩ := stored
    cases canonical with
    | true =>
      cases localHash with
      | none =>
        have hmiss : (none : Option Hash) ≠ some chainHash := by simp
        simp only [triageRow, if_neg hmiss]
        exact hheader
      | some localHash =>
        simp only [triageRow]
        split
        · exact ⟨hs, nofun⟩
        · exact (holds_signal hkeeps hs cap).bind (fun t h => ⟨h, nofun⟩) fun _ t h => ⟨h, nofun⟩
    | false =>
      simp only [triageRow]
      split
      · next hsame =>
        rw [hsame] at hview
        exact (holds_recanonicalizeHeight hkeeps hs cap hview).bind (fun t h => ⟨h, nofun⟩) fun _ t h => ⟨h, nofun⟩
      · exact hheader

/-- The node's answers of an iteration meet `answers`. -/
def NodeView.Answers (answers : Int → Hash → Prop) (view : NodeView) : Prop :=
  ∀ stream height hash, view.header stream height = some hash → answers height hash

variable {view : NodeView}

theorem holds_triageHeights (hkeeps : Keeps Kept answers flips) (hview : view.Answers answers)
    (cap : RecoveryCapture) (stream : RecoveryStream) (heights : List Int) (hs : During round Kept s) :
    (triageHeights view cap stream heights).Holds body (Submits round Kept answers flips)
      (fun r t => During round Kept t ∧
        ∀ blocks, r = some (some blocks) → ∀ b ∈ blocks, answers b.number b.hash) s := by
  induction heights generalizing s with
  | nil =>
    refine ⟨hs, fun blocks hblocks => ?_⟩
    cases hblocks
    simp
  | cons height rest ih =>
    have hheight : (triageHeight view cap stream height).Holds body (Submits round Kept answers flips)
        (fun r t => During round Kept t ∧ ∀ b, r = some (.header b) → answers b.number b.hash) s := by
      unfold triageHeight
      cases hheader : view.header stream height with
      | none => exact ⟨hs, nofun⟩
      | some chainHash =>
        exact holds_get_bind (holds_triageRow hkeeps (hview stream height chainHash hheader) hs _ cap)
    apply hheight.bind (fun t h => ⟨h.1, nofun⟩)
    rintro triage t ⟨ht, hgood⟩
    cases triage with
    | leave => exact ⟨ht, nofun⟩
    | settled => exact ih ht
    | header b =>
      apply (ih ht).bind (fun t h => ⟨h.1, nofun⟩)
      rintro found t' ⟨ht', hfound⟩
      refine ⟨ht', fun blocks hblocks => ?_⟩
      cases found with
      | none => cases hblocks
      | some tail =>
        cases hblocks
        intro c hc
        rcases mem_cons.mp hc with rfl | hc
        · exact hgood c rfl
        · exact hfound tail rfl c hc

section

variable (hkeeps : Keeps Kept answers flips) (hview : view.Answers answers) (e : RecoveryExecutor) (row : RecoveryRow)
include hkeeps hview e row

theorem holds_replayFrom (stream : RecoveryStream) (liveTip resume : Int) (hs : During round Kept s) :
    (replayFrom e view row stream liveTip resume).Holds body (Submits round Kept answers flips)
      (fun _ t => During round Kept t) s := by
  unfold replayFrom
  split
  · apply (holds_triageHeights hkeeps hview row.capture stream _ hs).bind (fun t h => h.1)
    rintro found t ⟨ht, hfound⟩
    cases found with
    | none => exact ht
    | some blocks =>
      cases view.assembled stream with
      | hold | failed => exact ht
      | rows logs observations =>
        have hgood : ∀ b ∈ (if stream = .block then blocks else []), answers b.number b.hash := by
          intro b hb
          split at hb
          · exact hfound blocks rfl b hb
          · cases hb
        have hlate : ∀ lo hi, InRound round t → (replayRange true row.capture stream lo hi
            (if stream = .block then blocks else []) (if stream = .log then logs else [])
            (if stream = .deposit then observations else [])).LateCall answers flips t :=
          fun lo hi _ => hgood
        exact (holds_lateCall hkeeps ht (hlate _ _)).bind (fun _ h => h) fun _ _ h => h
  · exact hs

theorem holds_replayStream (stream : RecoveryStream) (liveTip : Int) (hs : During round Kept s) :
    (replayStream e view row stream liveTip).Holds body (Submits round Kept answers flips)
      (fun _ t => During round Kept t) s := by
  have hmissing : (replayMissing e view row stream liveTip).Holds body
      (Submits round Kept answers flips) (fun _ t => During round Kept t) s := by
    unfold replayMissing
    split
    · split
      · exact holds_signal hkeeps hs row.capture
      · exact holds_replayFrom hkeeps hview e row stream liveTip _ hs
    · exact hs
  apply holds_get_bind
  cases streamResumeFrom s stream with
  | some resume => exact holds_replayFrom hkeeps hview e row stream liveTip resume hs
  | none => exact hmissing

theorem holds_tickReplay (hs : During round Kept s) :
    (tickReplay e view row).Holds body (Submits round Kept answers flips) (fun _ t => During round Kept t) s := by
  apply holds_get_bind
  generalize persistedTip s = liveTip
  generalize [RecoveryStream.block, .log, .deposit] = streams
  induction streams generalizing row s with
  | nil => exact hs
  | cons stream rest ih =>
    apply (holds_replayStream hkeeps hview e row stream liveTip hs).bind (fun _ h => h)
    intro _ t ht
    apply holds_get_bind
    split
    · exact ht
    · split
      · exact ih _ ht
      · exact ht

end

section

variable (hkeeps : Keeps Kept answers flips)
include hkeeps

/-- One iteration of the loop keeps a property of the round, wherever it is stopped. -/
theorem serve_during (e : RecoveryExecutor) {it : Iteration}
    (hview : it.view.Answers answers) (hs : During round Kept s) : During round Kept (e.serve s it) := by
  have hdispatch : (dispatch e it.view s.recovery).Holds body (Submits round Kept answers flips)
      (fun _ t => During round Kept t) s := by
    rcases hs with ⟨hin, hkept⟩ | hover
    · have hs : During round Kept s := .inl ⟨hin, hkept⟩
      obtain ⟨row, hrow, -, hlate⟩ := hin
      have hrow : s.recovery = some row := hrow
      simp only [hrow, dispatch]
      cases hphase : row.phase with
      | detected | ancestorConfirmed => simp [hphase, RecoveryPhase.late] at hlate
      | invalidated | replaying => exact holds_tickReplay hkeeps hview e row hs
      | completePending =>
        have hcomplete : InRound round s → (complete true row.capture).LateCall answers flips s := fun _ => trivial
        exact (holds_lateCall hkeeps hs hcomplete).bind (fun _ h => h) fun _ _ h => h
      | reconcileRequired => exact hs
    · exact (hover.holds _).mono (fun _ _ h => h) fun _ _ h => .inr h
  exact hdispatch.store (fun _ _ h => h.1) (fun _ _ h => h) it.script

/-- The loop keeps a property of the round over any number of iterations and restarts. -/
theorem serve_run_during (e : RecoveryExecutor)
    (hview : ∀ it ∈ resumed, it.view.Answers answers) (hs : During round Kept s) :
    During round Kept (Transition.run e.serve s resumed) := by
  induction resumed generalizing s with
  | nil => exact hs
  | cons it rest ih =>
    exact ih (fun it' hit' => hview it' (by simp [hit'])) (serve_during hkeeps e (hview it (by simp)) hs)

/-- From a replay phase on, for as long as the round goes on. -/
theorem serve_run_kept (e : RecoveryExecutor)
    (hview : ∀ it ∈ resumed, it.view.Answers answers) (hactive : s.recovery = some round)
    (hphase : round.phase ∈ [RecoveryPhase.invalidated, .replaying]) (hs : Kept s) {t : Store}
    (ht : t = Transition.run e.serve s resumed) (hround : InRound round t) : Kept t := by
  subst ht
  have hlate : round.phase.late = true := by
    simp only [List.mem_cons, List.not_mem_nil, or_false] at hphase
    rcases hphase with hphase | hphase <;> rw [hphase] <;> rfl
  rcases serve_run_during hkeeps e hview (.inl ⟨⟨round, hactive, .refl round, hlate⟩, hs⟩) with ⟨-, hkept⟩ | hover
  · exact hkept
  · exact absurd hround hover.not_inRound

end

end Contract

end TxHarbor.Indexer
