import TxHarbor.Indexer.Revival

open Relational Constrained Transition List Option

namespace TxHarbor.Indexer

open ChainBlock Bool Sample

/-! The chain goes back to a fork that was left in an earlier round. The height then has several
retained rows, and the view of it names none of them. -/

/-- The row of `hash` is the canonical row of the height, and the only one. -/
def OneCanonical (s : Store) (height : Int) (hash : Hash) : Prop :=
  (∃ c ∈ s.blocks.rows, c.number = height ∧ c.hash = hash ∧ c.canonical = true) ∧
    ∀ c ∈ s.blocks.rows, c.number = height → c.canonical = true → c.hash = hash

instance (s : Store) (height : Int) (hash : Hash) : Decidable (OneCanonical s height hash) := by
  unfold OneCanonical
  infer_instance

/-- No other fork has left a row at the height. -/
def SoleFork (s : Store) (height : Int) (hash : Hash) : Prop := ∀ c ∈ s.blocks.rows, c.number = height → c.hash = hash

instance (s : Store) (height : Int) (hash : Hash) : Decidable (SoleFork s height hash) := by
  unfold SoleFork
  infer_instance

theorem oneCanonical_of_row {s : Store} {height : Int} {hash : Hash} {c : ChainBlock}
    (hc : c ∈ s.blocks.rows) (hnumber : c.number = height) (hhash : c.hash = hash)
    (hcanonical : c.canonical = true) : OneCanonical s height hash := by
  refine ⟨⟨c, hc, hnumber, hhash, hcanonical⟩, fun d hd hdnumber hdcanonical => ?_⟩
  have hclash : clash d c = true := by
    simp [clash, hdnumber, hnumber, hdcanonical, hcanonical]
  rw [s.blocks.eq_of_clash hd hc hclash, hhash]

section Triage

variable {s : Store} {height : Int} {hash : Hash} {b : ChainBlock}

/-- The view names the retained row exactly when the height has no other. -/
theorem localBlockView_sole (hb : b ∈ s.blocks.rows) (hretired : b.retiredAt height hash = true) :
    localBlockView s height = some (some hash, false) ↔ SoleFork s height hash := by
  simp only [retiredAt, and_eq_true, beq_iff_eq, not_eq_true'] at hretired
  obtain ⟨⟨hnumber, hhash⟩, hcanonical⟩ := hretired
  rw [localBlockView_retained]
  constructor
  · rintro ⟨d, hrows, hdhash, -⟩ c hc hcnumber
    have hmem := mem_rowsAt.mpr ⟨hc, hcnumber⟩
    rw [hrows, mem_singleton] at hmem
    rw [hmem, hdhash]
  · intro hsole
    refine ⟨b, ?_, hhash, hcanonical⟩
    have hmem := mem_rowsAt.mpr ⟨hb, hnumber⟩
    have hunique := s.blocks.unique.filter fun c => c.number == height
    have hall : ∀ c ∈ rowsAt s height, c.hash = hash := fun c hc =>
      hsole c (mem_rowsAt.mp hc).1 (mem_rowsAt.mp hc).2
    change (rowsAt s height).Pairwise _ at hunique
    match hrows : rowsAt s height with
    | [] => simp [hrows] at hmem
    | [d] =>
      rw [hrows, mem_singleton] at hmem
      rw [hmem]
    | d :: d' :: rest =>
      rw [hrows] at hunique hall
      have hfree := (pairwise_cons.mp hunique).1 d' (by simp)
      simp [clash, hall d (by simp), hall d' (by simp)] at hfree

theorem localBlockView_canonical {localHash : Option Hash} (h : localBlockView s height = some (localHash, true)) :
    ∃ c ∈ s.blocks.rows, c.number = height ∧ c.canonical = true := by
  have hrows : ∀ c, c ∈ (rowsAt s height).insertionSort (fun a b => a.hash ≤ b.hash) →
      c ∈ s.blocks.rows ∧ c.number = height := fun c hc =>
    mem_rowsAt.mp (mem_insertionSort _ |>.mp hc)
  unfold localBlockView at h
  generalize (rowsAt s height).insertionSort (fun a b => a.hash ≤ b.hash) = sorted at h hrows
  match sorted with
  | [] => cases h
  | [c] =>
    simp only [blockView, some.injEq, Prod.mk.injEq] at h
    exact ⟨c, (hrows c (by simp)).1, (hrows c (by simp)).2, h.2⟩
  | c :: _ :: _ =>
    simp only [blockView] at h
    split at h
    next hcanonical => exact ⟨c, (hrows c (by simp)).1, (hrows c (by simp)).2, hcanonical⟩
    next =>
      simp only [some.injEq, Prod.mk.injEq, canonicalHashAt, isSome_map] at h
      obtain ⟨d, hd⟩ := isSome_iff_exists.mp h.2
      obtain ⟨hmem, hp⟩ := Table.select_mem hd
      simp only [and_eq_true, beq_iff_eq] at hp
      exact ⟨d, hmem, hp⟩

variable {view : NodeView} {cap : RecoveryCapture} {stream : RecoveryStream}

/-- At a height without a canonical row, the triage submits nothing unless the view names the
retained row. -/
theorem triageHeight_idle (hswept : ∀ c ∈ s.blocks.rows, c.number = height → c.canonical = false)
    (hnode : view.header stream height = some hash) (hview : localBlockView s height ≠ some (some hash, false))
    (script : List (Fault IndexerError)) : ((triageHeight view cap stream height).run Call.body script s).1 = s := by
  simp only [triageHeight, hnode]
  change ((triageRow _ cap height hash (localBlockView s height)).run Call.body script s).1 = s
  match hlocal : localBlockView s height with
  | none => rfl
  | some (localHash, true) =>
    obtain ⟨c, hc, hnumber, hcanonical⟩ := localBlockView_canonical hlocal
    rw [hswept c hc hnumber] at hcanonical
    cases hcanonical
  | some (none, false) => rfl
  | some (some localHash, false) =>
    have hne : some localHash ≠ some hash := fun heq => hview (by rw [hlocal, heq])
    simp only [triageRow, if_neg hne]
    rfl

/-- Where the view names the retained row, the triage is its flip and its revivals. -/
theorem triageHeight_flip (hnode : view.header stream height = some hash)
    (hview : localBlockView s height = some (some hash, false)) (script : List (Fault IndexerError)) :
    ((triageHeight view cap stream height).run Call.body script s).1 =
      ((recanonicalizeHeight cap height hash).run Call.body script s).1 := by
  simp only [triageHeight, hnode]
  change ((triageRow _ cap height hash (localBlockView s height)).run Call.body script s).1 = _
  simp only [hview, triageRow, if_pos]
  exact Client.run_bind_pure _ _ script s

end Triage

section Kept

variable {height : Int} {hash : Hash}

/-- Two forks have left rows at the height, `hash` one of them, and none is canonical. -/
structure ForkedHeight (height : Int) (hash : Hash) (s : Store) : Prop where
  retained : ∃ b ∈ s.blocks.rows, b.number = height ∧ b.hash = hash
  other : ∃ c ∈ s.blocks.rows, c.number = height ∧ c.hash ≠ hash
  swept : ∀ c ∈ s.blocks.rows, c.number = height → c.canonical = false

variable {s : Store}

theorem ForkedHeight.not_named (h : ForkedHeight height hash s) {oldHash : Hash} :
    localBlockView s height ≠ some (some oldHash, false) := by
  intro hview
  obtain ⟨d, hrows, -⟩ := localBlockView_retained.mp hview
  obtain ⟨b, hb, hnumber, hhash⟩ := h.retained
  obtain ⟨c, hc, hcnumber, hchash⟩ := h.other
  have hbd := mem_rowsAt.mpr ⟨hb, hnumber⟩
  have hcd := mem_rowsAt.mpr ⟨hc, hcnumber⟩
  rw [hrows, mem_singleton] at hbd hcd
  exact hchash (by rw [hcd, ← hbd, hhash])

/-- While the node answers with the retained hash, the loop writes nothing at the height: the view
names no row to flip, and a header with that hash is stored already. -/
theorem forkedHeight_keeps :
    Keeps (ForkedHeight height hash) (fun k answer => k = height → answer = hash) (fun _ => True) where
  step := by
    intro s c s' h hlate hcommitted
    cases hcommitted with
    | replayed row row' events s₁ s₂ gate ordered rows covered progress =>
      obtain ⟨hblocks, -⟩ := progress.tables
      refine ForkedHeight.mk ?_ ?_ ?_
      · obtain ⟨b, hb, hkeys⟩ := h.retained
        exact ⟨b, hblocks ▸ rows.mem.1 b hb, hkeys⟩
      · obtain ⟨c, hc, hkeys⟩ := h.other
        exact ⟨c, hblocks ▸ rows.mem.1 c hc, hkeys⟩
      · intro c hc hnumber
        change c ∈ s₂.blocks.rows at hc
        rw [hblocks] at hc
        rcases rows.block_cases hc with hold | hnew
        · exact h.swept c hold hnumber
        · -- an assembled header of this height has the retained hash, so it is not a new row
          obtain ⟨i, hi, hinumber, hihash⟩ := hnew.assembled
          obtain ⟨b, hb, -, hhash⟩ := h.retained
          have hanswer := hlate i hi (hinumber.trans hnumber)
          exact absurd (by rw [hhash, ← hihash, hanswer]) (hnew.fresh b hb)
    | @recanonicalized _ _ k oldHash row blocks events gate rows =>
      have hview : localBlockView s k = some (some oldHash, false) := hlate
      have hother : ∀ c : ChainBlock, c.number = height → c.number ≠ k := by
        rintro c hc rfl
        rw [hc] at hview
        exact h.not_named hview
      have hmem : ∀ c, c.number = height → (c ∈ blocks.rows ↔ c ∈ s.blocks.rows) := by
        intro c hc
        rw [rows, List.mem_map]
        constructor
        · rintro ⟨d, hd, rfl⟩
          rw [recanonicalized_number] at hc
          rwa [recanonicalized_of_ne (hother d hc)]
        · exact fun hmem => ⟨c, hmem, recanonicalized_of_ne (hother c hc)⟩
      obtain ⟨b, hb, hbnumber, hkeys⟩ := h.retained
      obtain ⟨c, hc, hcnumber, hckeys⟩ := h.other
      exact ⟨⟨b, (hmem b hbnumber).mpr hb, hbnumber, hkeys⟩, ⟨c, (hmem c hcnumber).mpr hc, hcnumber, hckeys⟩,
        fun d hd hdnumber => h.swept d ((hmem d hdnumber).mp hd) hdnumber⟩
    | revived | signalled | released => exact ⟨h.retained, h.other, h.swept⟩
    | audited note => obtain ⟨_, _, rfl⟩ | ⟨_, _, _, rfl⟩ := note <;> cases hlate
    | _ => cases hlate
  flip := fun _ _ _ _ _ => trivial

/-- A round cannot be completed over a swept height that has no canonical row. -/
theorem verifyCompletionReady_refuses {row : RecoveryRow} (h : ForkedHeight height hash s)
    (habove : ∀ a ∈ row.ancestor, a.number < height) (sweptTo : Int) : verifyCompletionReady s row ≠ .ok sweptTo := by
  unfold verifyCompletionReady
  cases hancestor : row.ancestor with
  | none => simp
  | some a =>
    have hlow : a.number < height := habove a hancestor
    obtain ⟨b, hb, hnumber, -⟩ := h.retained
    have hend : height ≤ sweepEnd s a.number := by
      refine hnumber ▸ (Table.le_foldl_max (fun b : ChainBlock => b.number) _ _).2 b (mem_filter.mpr ⟨hb, ?_⟩)
      simp [hnumber, hlow, h.swept b hb hnumber]
    have hshort : (countCanonicalRange s (a.number + 1) (sweepEnd s a.number) : Int) <
        sweepEnd s a.number + 1 - (a.number + 1) := by
      apply Table.affected_lt_of_missing (fun b : ChainBlock => b.number) (k := height)
      · intro c d hc hd hnumber
        simp only [canonicalIn, and_eq_true] at hc hd
        simp [clash, hnumber, hc.2, hd.2]
      · intro c hc
        simp only [canonicalIn, and_eq_true, decide_eq_true_eq] at hc
        exact hc.1
      · omega
      · intro c hc hp hnumber
        simp [canonicalIn, h.swept c hc hnumber] at hp
    have hgap : a.number < sweepEnd s a.number ∧ (countCanonicalRange s (a.number + 1) (sweepEnd s a.number) : Int) ≠
          sweepEnd s a.number - a.number := by omega
    simp only [if_pos hgap]
    simp

end Kept

/-- The chain is back, at a swept height, on a fork whose row was retained. The triage of the
height, with transactions enough and no fault, makes that row the canonical one and its orphans
pending exactly when no other fork has left a row there and each orphan passes the checks of its
revival. Over another fork's row the round is stuck: as long as the node answers with this fork,
the height gets no canonical row and the completion is refused. -/
theorem returned_fork_recovers_iff_sole (e : RecoveryExecutor) {s : Store} {row : RecoveryRow}
    (hactive : s.recovery = some row) (hphase : row.phase ∈ [RecoveryPhase.invalidated, .replaying])
    {height : Int} {hash : Hash} {b : ChainBlock} (hb : b ∈ s.blocks.rows) (hretired : b.retiredAt height hash = true)
    (hswept : ∀ c ∈ s.blocks.rows, c.number = height → c.canonical = false) :
    (∀ (view : NodeView) (stream : RecoveryStream) (n : Nat), view.header stream height = some hash →
      (orphansAtBlock s hash).length ≤ n →
      ∀ t, t = ((triageHeight view row.capture stream height).run Call.body (List.replicate (n + 1) .none) s).1 →
      (OneCanonical t height hash ∧ (∀ id ∈ orphansAtBlock s hash, PendingAt t id) ↔ SoleFork s height hash ∧
          ∀ o ∈ s.observations.rows, o.blockHash = hash → o.status = .orphaned → ReviveReady s row o)) ∧
      (¬ SoleFork s height hash → ∀ resumed : List Iteration,
        (∀ it ∈ resumed, it.view.Answers fun k answer => k = height → answer = hash) →
        ∀ t, t = run e.serve s resumed → InRound row t →
        ¬ OneCanonical t height hash ∧ ∀ row' ∈ t.recovery, (∀ a ∈ row'.ancestor, a.number < height) →
            ∀ sweptTo, verifyCompletionReady t row' ≠ .ok sweptTo) := by
  have hgate : OwnedGate row.capture [.invalidated, .replaying] s row := ⟨hactive, rfl, rfl, hphase⟩
  have hcolumns := hretired
  simp only [retiredAt, and_eq_true, beq_iff_eq, not_eq_true'] at hcolumns
  obtain ⟨⟨hnumber, hhash⟩, -⟩ := hcolumns
  constructor
  · intro view stream n hnode hn t ht
    by_cases hsole : SoleFork s height hash
    · rw [triageHeight_flip hnode ((localBlockView_sole hb hretired).mpr hsole)] at ht
      have hpass := recanonicalizeHeight_run n hgate hb hretired hswept
      rw [← ht] at hpass
      obtain ⟨c, hc, hchash, hcnumber, hcanonical⟩ := hpass.canonical
      have hone := oneCanonical_of_row hc hcnumber hchash hcanonical
      rw [and_iff_right hone, and_iff_right hsole, hpass.pending_iff, and_iff_right hn]
    · rw [triageHeight_idle hswept hnode (mt (localBlockView_sole hb hretired).mp hsole)] at ht
      refine iff_of_false ?_ fun h => hsole h.1
      rintro ⟨⟨⟨c, hc, hcnumber, -, hcanonical⟩, -⟩, -⟩
      rw [ht] at hc
      rw [hswept c hc hcnumber] at hcanonical
      cases hcanonical
  · intro hforked resumed hnode t ht hround
    have hstart : ForkedHeight height hash s := by
      simp only [SoleFork, not_forall] at hforked
      obtain ⟨c, hc, hcnumber, hchash⟩ := hforked
      exact ⟨⟨b, hb, hnumber, hhash⟩, ⟨c, hc, hcnumber, hchash⟩, hswept⟩
    have hkept := serve_run_kept forkedHeight_keeps e hnode hactive hphase hstart ht hround
    refine ⟨?_, fun row' _ habove => verifyCompletionReady_refuses hkept habove⟩
    rintro ⟨⟨c, hc, hcnumber, -, hcanonical⟩, -⟩
    rw [hkept.swept c hc hcnumber] at hcanonical
    cases hcanonical

namespace Sample

/-- The second fork has replaced height 1 in a completed round, and a second round has swept it. -/
def sweptAgain : Store := run Store.next .empty (firstFork ++ secondFork ++ establish 2 1 201 :: rewind 2 1 0 100)

/-- The second round. -/
def secondRound : RecoveryRow := sweptAgain.recovery.get (by decide +kernel)

theorem secondRound_active : sweptAgain.recovery = some secondRound := (some_get _).symm

theorem node_answers (transactions : Nat) :
    (iteration [(1, 101, 100)] transactions).view.Answers fun k answer => k = 1 → answer = hash 101 := by
  rintro stream k answer hanswer rfl
  have hsame : some (hash 101) = some answer := hanswer
  exact (some.inj hsame).symm

end Sample

/-- Back on the first fork, in the round that left it and in the next one. -/
theorem returned_fork_recovers_iff_sole_rounds :
    (OneCanonical ((triageHeight (Sample.node [(1, 101, 100)]) Sample.round.capture .block 1).run Call.body
        (List.replicate 2 .none) Sample.swept).1 1 (Sample.hash 101) ∧
      ∀ id ∈ orphansAtBlock Sample.swept (Sample.hash 101),
        PendingAt ((triageHeight (Sample.node [(1, 101, 100)]) Sample.round.capture .block 1).run Call.body
          (List.replicate 2 .none) Sample.swept).1 id) ∧
      ¬ OneCanonical (run Sample.executor.serve Sample.sweptAgain
        [Sample.iteration [(1, 101, 100)] 3]) 1 (Sample.hash 101) := by
  constructor
  · exact ((returned_fork_recovers_iff_sole executor round_active (by decide +kernel)
      (b := ⟨1, hash 101, hash 100, false⟩) (by decide +kernel) (by decide +kernel)
      (by decide +kernel)).1 (node [(1, 101, 100)]) .block 1 (by decide +kernel)
      (by decide +kernel) _ rfl).mpr ⟨by decide +kernel, by decide +kernel⟩
  · refine ((returned_fork_recovers_iff_sole executor secondRound_active (by decide +kernel)
      (b := ⟨1, hash 101, hash 100, false⟩) (by decide +kernel) (by decide +kernel)
      (by decide +kernel)).2 (by decide +kernel) [iteration [(1, 101, 100)] 3] ?_ _ rfl
      (by decide +kernel)).1
    intro it hit
    rw [mem_singleton.mp hit]
    exact node_answers 3

/-- The chain leaves the first fork, comes back to it a round later, and the second round goes on
and on: both rows of height 1 are retained ones, and the completion finds a gap. -/
theorem returned_fork_stuck :
    let t := run executor.serve sweptAgain [iteration [(1, 101, 100)] 9, iteration [(1, 101, 100)] 9]
    t.blocks.rows.map (fun b => (b.number, b.hash, b.canonical)) =
        [(0, Sample.hash 100, true), (1, Sample.hash 101, false), (1, Sample.hash 201, false)] ∧
      (∀ id ∈ orphansAtBlock sweptAgain (hash 101), ¬ PendingAt t id) ∧
      ∀ row ∈ t.recovery, verifyCompletionReady t row = .error (.gate (.sweptGaps 1 1 0)) := by
  decide +kernel

end TxHarbor.Indexer
