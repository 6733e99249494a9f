import TxHarbor.Reconciliation.Scan

open Relational Transition Option

namespace TxHarbor.Reconciliation

variable {Batch : Type}

/-! What an operation can write, and that the checkpoint covers what was stored. -/

/-- Attempts of `b` that are still claimed may have been given up in `b'`; nothing else of the scan has changed. -/
structure Book.Settles (b b' : Book Batch) : Prop where
  kind : b'.task.kind = b.task.kind
  scopeStart : b'.task.scopeStart = b.task.scopeStart
  scopeEnd : b'.task.scopeEnd = b.task.scopeEnd
  checkpoints : b'.checkpoints = b.checkpoints
  results : b'.results = b.results
  attempts : ∃ f : Attempt → Attempt, b'.attempts = b.attempts.map f ∧
    ∀ a, f a = a ∨ a.state = .claimed ∧ ∃ state, state ≠ .claimed ∧ state ≠ .done ∧ f a = { a with state := state }

open Option Function

namespace Book

variable {b b' b'' : Book Batch}

theorem Settles.refl (b : Book Batch) : b.Settles b := ⟨rfl, rfl, rfl, rfl, rfl, id, by simp, fun _ => .inl rfl⟩

theorem Settles.trans (h : b.Settles b') (h' : b'.Settles b'') : b.Settles b'' := by
  obtain ⟨f, hf, hmoves⟩ := h.attempts
  obtain ⟨g, hg, hmoves'⟩ := h'.attempts
  refine ⟨h'.kind.trans h.kind, h'.scopeStart.trans h.scopeStart, h'.scopeEnd.trans h.scopeEnd,
    h'.checkpoints.trans h.checkpoints, h'.results.trans h.results, g ∘ f, by rw [hg, hf, List.map_map], fun a => ?_⟩
  rcases hmoves a with ha | ⟨hclaimed, state, hsettled, hdone, ha⟩
  · rw [comp_apply, ha]
    exact hmoves' a
  · refine .inr ⟨hclaimed, state, hsettled, hdone, ?_⟩
    -- an attempt that was given up is not claimed any more, so it does not move again
    rcases hmoves' (f a) with hsame | ⟨hstill, -⟩
    · rw [comp_apply, hsame, ha]
    · rw [ha] at hstill
      exact absurd hstill hsettled

variable {state : AttemptState} {reason : GapReason}

theorem settles_mark (b : Book Batch) (attemptID : String) (hsettled : state ≠ .claimed) (hdone : state ≠ .done) :
    b.Settles (b.mark attemptID state) := by
  refine ⟨rfl, rfl, rfl, rfl, rfl, _, rfl, fun a => ?_⟩
  split
  next h => exact .inr ⟨h.2, state, hsettled, hdone, rfl⟩
  · exact .inl rfl

theorem settles_insertGap (b : Book Batch) (rangeStart rangeEnd : Int) :
    b.Settles (b.insertGap rangeStart rangeEnd reason) := by
  unfold insertGap
  split
  · exact ⟨rfl, rfl, rfl, rfl, rfl, id, by simp, fun _ => .inl rfl⟩
  · exact .refl b

theorem settles_discardScanBatch (b : Book Batch) (a : Attempt) : b.Settles (b.discardScanBatch a) := by
  unfold discardScanBatch
  split
  · refine (b.settles_mark a.attemptID ?_ ?_).trans (settles_insertGap _ _ _)
    · cases b.task.state <;> decide
    · cases b.task.state <;> decide
  · exact .refl b

theorem settles_settleAttempts (b : Book Batch) (which : Attempt → Bool) (limit : Nat) (hsettled : state ≠ .claimed)
    (hdone : state ≠ .done) : b.Settles (b.settleAttempts which limit state reason) := by
  unfold settleAttempts
  generalize (b.attempts.filter fun a => a.state == .claimed && which a).take limit = picked
  induction picked generalizing b with
  | nil => exact .refl b
  | cons a picked ih =>
    rw [List.foldl_cons]
    exact ((settles_mark b a.attemptID hsettled hdone).trans (settles_insertGap _ _ _)).trans (ih _)

theorem settles_transitionTask {to' : TaskState} {reason : String} (h : b.transitionTask to' reason = some b') :
    b.Settles b' := by
  unfold transitionTask at h
  split at h
  · split at h
    · cases h
      exact ⟨rfl, rfl, rfl, rfl, rfl, id, by simp, fun _ => .inl rfl⟩
    next gap _ =>
      obtain ⟨start, -, h⟩ := bind_eq_some_iff.mp h
      cases h
      have hgap : b.Settles (b.insertGap start b.task.scopeEnd gap) := b.settles_insertGap start b.task.scopeEnd
      exact ⟨rfl, rfl, rfl, hgap.checkpoints, hgap.results, hgap.attempts⟩
  · cases h
    exact .refl b

end Book

/-- What an operation writes: a new claim, the results of a claimed attempt, or neither. -/
inductive Job.Writes (now : Int) (b : Book Batch) : Job Batch → Book Batch → Prop where
  | claims {attemptID owner : String} {span ttl : Int} (a : Attempt) (start : Int) (hstart : b.nextStart = some start)
    (hstate : a.state = .claimed) (hfrom : a.rangeStart = start) (hrange : a.rangeStart ≤ a.rangeEnd)
    (hfree : ∀ a' ∈ b.attempts, a'.attemptID ≠ a.attemptID ∧ a'.state ≠ .claimed) :
    Job.Writes now b (.claim attemptID owner span ttl) { b with attempts := a :: b.attempts }
  | stores {batch : Batch} {persists : Bool} (a : Attempt) (ha : a ∈ b.attempts) (hstate : a.state = .claimed)
    (hrunning : b.task.state = .running) (hlease : now < a.leaseExpiresAt) (hstart : b.nextStart = some a.rangeStart) :
    Job.Writes now b (.commit a.attemptID batch persists) (b.store a batch)
  | settles (job : Job Batch) {b' : Book Batch} (h : b.Settles b') : Job.Writes now b job b'

variable {b b' : Book Batch} {now : Int}

variable {attemptID : String}

open Book

/-- A successful claim starts at the frontier, and no other claim is open. -/
theorem Book.claimScanAttempt_writes {owner : String} {span ttl : Int}
    (h : b.claimScanAttempt now attemptID owner span ttl = some b') :
    Job.Writes now b (.claim attemptID owner span ttl) b' := by
  unfold claimScanAttempt at h
  simp only [ite_none_left_eq_some, bind_eq_some_iff, some.injEq] at h
  obtain ⟨hinput, -, start, hstart, hend, hfree, rfl⟩ := h
  refine .claims _ start hstart rfl rfl ?_ fun a' ha' => ?_
  · have hspan : 0 < span := by omega
    have hbounded := b.task.bounded
    simp only [planClaimEnd]
    cases hkind : b.task.kind with
    | height =>
      have hend' := hbounded hkind
      simp only
      split <;> omega
    | time =>
      simp only
      omega
  · rw [List.any_eq_true, not_exists] at hfree
    have hno := hfree a'
    simp only [ha', true_and, Bool.or_eq_true, beq_iff_eq, not_or] at hno
    exact hno

/-- A successful commit is of a live claim that still starts at the frontier. -/
theorem Book.commitScanBatch_writes {batch : Batch} {persists : Bool}
    (h : b.commitScanBatch now attemptID batch persists = some b') :
    Job.Writes now b (.commit attemptID batch persists) b' := by
  unfold commitScanBatch at h
  obtain ⟨a, hfind, h⟩ := bind_eq_some_iff.mp h
  have hid : a.attemptID = attemptID := by simpa using List.find?_some hfind
  split at h
  · cases h
    exact .settles _ (settles_discardScanBatch b a)
  next hlate =>
    obtain ⟨expected, hstart, h⟩ := bind_eq_some_iff.mp h
    split at h
    · cases h
      exact .settles _ (settles_discardScanBatch b a)
    next hfrom =>
      split at h
      · cases h
      · cases h
        simp only [late, Bool.or_eq_true, bne_iff_ne, decide_eq_true_eq, not_or, not_not, not_le] at hlate
        rw [← hid]
        exact .stores a (List.mem_of_find?_eq_some hfind) hlate.1.1 hlate.1.2 hlate.2 (by rw [hstart, not_not.mp hfrom])

/-- Each operation writes a claim, the results of one, or neither. -/
theorem Job.decide_writes {job : Job Batch} (h : job.decide now b = some b') : job.Writes now b b' := by
  cases job with
  | claim attemptID owner span ttl => exact claimScanAttempt_writes h
  | commit attemptID batch persists => exact commitScanBatch_writes h
  | recover limit =>
    simp only [Job.decide, recoverStaleAttempts, ite_none_left_eq_some, some.injEq] at h
    exact h.2 ▸ .settles _ (settles_settleAttempts b _ limit (by decide) (by decide))
  | settle mode limit =>
    simp only [Job.decide, settleInFlight, ite_none_left_eq_some] at h
    cases mode <;> cases h.2 <;> exact .settles _ (settles_settleAttempts b _ limit (by decide) (by decide))
  | transition to' reason => exact .settles _ (settles_transitionTask h)

/-! ### Tiles -/

/-- The first position after the newest checkpoint. -/
def frontier (start : Int) : List Checkpoint → Int
  | [] => start
  | c :: _ => c.coveredThrough + 1

theorem frontier_cons (start : Int) (c : Checkpoint) (cs : List Checkpoint) :
    frontier start (c :: cs) = c.coveredThrough + 1 := rfl

/-- The attempts lie end to end from `start`, and each one has its checkpoint. -/
inductive Tiles (start : Int) : List Attempt → List Checkpoint → Prop
  | nil : Tiles start [] []
  | cons {a : Attempt} {as : List Attempt} {cs : List Checkpoint} (hfrom : a.rangeStart = frontier start cs)
    (hrange : a.rangeStart ≤ a.rangeEnd) (hrest : Tiles start as cs) :
    Tiles start (a :: as) (⟨cs.length + 1, a.rangeEnd, a.rangeEnd⟩ :: cs)

namespace Tiles

variable {start : Int} {as : List Attempt} {cs : List Checkpoint}

section

variable (h : Tiles start as cs)
include h

theorem start_le : start ≤ frontier start cs := by
  induction h with
  | nil => exact le_refl start
  | cons =>
    simp only [frontier_cons]
    omega

theorem covers (x : Int) : (∃ a ∈ as, a.rangeStart ≤ x ∧ x ≤ a.rangeEnd) ↔ start ≤ x ∧ x < frontier start cs := by
  induction h with
  | nil => simp [frontier]
  | cons hfrom hrange hrest ih =>
    have hle := hrest.start_le
    rw [List.exists_mem_cons_iff, ih, hfrom]
    rw [hfrom] at hrange
    simp only [frontier_cons]
    omega

theorem range_le : ∀ a ∈ as, a.rangeStart ≤ a.rangeEnd := by
  induction h with
  | nil => exact nofun
  | cons _ hrange _ ih => exact List.forall_mem_cons.mpr ⟨hrange, ih⟩

theorem pairwise : as.Pairwise fun a a' => a'.rangeEnd < a.rangeStart := by
  induction h with
  | nil => exact .nil
  | cons hfrom _ hrest ih =>
    refine .cons (fun a' ha' => ?_) ih
    -- the end of an earlier tile is a covered position
    rw [hfrom]
    exact ((hrest.covers a'.rangeEnd).mp ⟨a', ha', hrest.range_le a' ha', le_refl _⟩).2

theorem seqs : (cs.map (·.seq)).reverse = (List.range cs.length).map fun (n : Nat) => (n : Int) + 1 := by
  induction h with
  | nil => rfl
  | cons _ _ _ ih =>
    rw [List.map_cons, List.reverse_cons, ih, List.length_cons, List.range_succ, List.map_append]
    rfl

theorem seq_le : ∀ c ∈ cs, c.seq ≤ cs.length := by
  intro c hc
  have hmem : c.seq ∈ (cs.map (·.seq)).reverse := List.mem_reverse.mpr (List.mem_map_of_mem hc)
  rw [h.seqs, List.mem_map] at hmem
  obtain ⟨n, hn, hseq⟩ := hmem
  have := List.mem_range.mp hn
  omega

/-- The newest checkpoint has the largest number. -/
theorem head : (cs.find? fun c => cs.all fun d => decide (d.seq ≤ c.seq)) = cs.head? := by
  cases h with
  | nil => rfl
  | cons hfrom hrange hrest =>
    refine List.find?_cons_of_pos (List.all_eq_true.mpr fun d hd => decide_eq_true ?_)
    exact (Tiles.cons hfrom hrange hrest).seq_le d hd

theorem persisted : ∀ c ∈ cs, c.resultPersistedThrough = c.coveredThrough := by
  induction h with
  | nil => exact nofun
  | cons _ _ _ ih => exact List.forall_mem_cons.mpr ⟨rfl, ih⟩

theorem nextSeq : (cs.map (·.seq)).foldr max 0 + 1 = cs.length + 1 := by
  induction h with
  | nil => rfl
  | cons =>
    simp only [List.map_cons, List.foldr_cons, List.length_cons]
    omega

end

end Tiles

/-! ### Runs -/

/-- The done attempts. -/
def Book.done (b : Book Batch) : List Attempt := b.attempts.filter fun a => a.state == .done

/-- Where the results of an attempt belong. -/
def Attempt.place (a : Attempt) : String × Int × Int := (a.attemptID, a.rangeStart, a.rangeEnd)

def Stored.place (r : Stored Batch) : String × Int × Int := (r.attemptID, r.rangeStart, r.rangeEnd)

/-- Only the newest attempt can be claimed, and the done ones are stored and covered end to end. -/
structure Book.Covered (b : Book Batch) : Prop where
  older : ∀ a ∈ b.attempts.tail, a.state ≠ .claimed
  ids : (b.attempts.map (·.attemptID)).Nodup
  ranges : ∀ a ∈ b.attempts, a.rangeStart ≤ a.rangeEnd
  tiles : Tiles b.task.scopeStart b.done b.checkpoints
  results : b.results.map Stored.place = b.done.map Attempt.place

/-- The next start is the frontier of the checkpoints. -/
theorem Book.Covered.nextStart (h : b.Covered) {start : Int} (hstart : b.nextStart = some start) :
    start = frontier b.task.scopeStart b.checkpoints := by
  rw [Book.nextStart, Book.head, h.tiles.head] at hstart
  have hpersisted := h.tiles.persisted
  revert hstart hpersisted
  cases b.checkpoints with
  | nil =>
    intro hstart _
    exact (some.inj hstart).symm
  | cons c cs =>
    intro hstart hpersisted
    have hc := hpersisted c List.mem_cons_self
    simp only [List.head?_cons, nextClaimStart, successor] at hstart
    split at hstart
    · cases hkind : b.task.kind with
      | height =>
        simp only [hkind, ite_none_left_eq_some, some.injEq] at hstart
        rw [← hstart.2, hc]
        rfl
      | time =>
        simp only [hkind, some.injEq] at hstart
        rw [← hstart, hc]
        rfl
    · cases hstart

theorem Book.Covered.settles (h : b.Covered) (hsettles : b.Settles b') : b'.Covered := by
  obtain ⟨f, hf, hmoves⟩ := hsettles.attempts
  have hplace : ∀ a, (f a).place = a.place := by
    intro a
    rcases hmoves a with ha | ⟨-, state, -, -, ha⟩ <;> rw [ha]
    rfl
  have hdone : b'.done = b.done := by
    unfold done
    rw [hf, List.filter_map]
    have hsame : ∀ a ∈ b.attempts, ((fun a : Attempt => a.state == .done) ∘ f) a = (a.state == .done) := by
      intro a _
      rcases hmoves a with ha | ⟨hclaimed, state, -, hstate, ha⟩
      · rw [comp_apply, ha]
      · rw [comp_apply, ha, hclaimed]
        exact beq_eq_false_iff_ne.mpr hstate
    rw [List.filter_congr hsame]
    refine (List.map_congr_left fun a ha => ?_).trans (List.map_id _)
    rcases hmoves a with hsame | ⟨hclaimed, -⟩
    · exact hsame
    · have := (List.mem_filter.mp ha).2
      rw [hclaimed] at this
      cases this
  refine ⟨?_, ?_, ?_, ?_, ?_⟩
  · rw [hf, ← List.map_tail]
    intro a ha
    obtain ⟨a₀, ha₀, rfl⟩ := List.mem_map.mp ha
    rcases hmoves a₀ with hsame | ⟨hclaimed, -⟩
    · rw [hsame]
      exact h.older a₀ ha₀
    · exact absurd hclaimed (h.older a₀ ha₀)
  · rw [hf, List.map_map]
    have hids : (fun a : Attempt => a.attemptID) ∘ f = fun a => a.attemptID := funext fun a => congrArg Prod.fst (hplace a)
    rw [hids]
    exact h.ids
  · rw [hf]
    intro a ha
    obtain ⟨a₀, ha₀, rfl⟩ := List.mem_map.mp ha
    have hranges := congrArg Prod.snd (hplace a₀)
    simp only [Attempt.place, Prod.mk.injEq] at hranges
    rw [hranges.1, hranges.2]
    exact h.ranges a₀ ha₀
  · rw [hdone, hsettles.scopeStart, hsettles.checkpoints]
    exact h.tiles
  · rw [hdone, hsettles.results]
    exact h.results

variable {a : Attempt}

/-- The results of a claimed attempt follow the newest checkpoint. -/
theorem Book.Covered.stores (h : b.Covered) (ha : a ∈ b.attempts) (hstate : a.state = .claimed)
    (hstart : b.nextStart = some a.rangeStart) (batch : Batch) : (b.store a batch).Covered := by
  obtain ⟨rest, hattempts⟩ : ∃ rest, b.attempts = a :: rest := by
    cases hb : b.attempts with
    | nil =>
      rw [hb] at ha
      cases ha
    | cons a₀ rest =>
      rw [hb] at ha
      rcases List.mem_cons.mp ha with rfl | hrest
      · exact ⟨rest, rfl⟩
      · refine absurd hstate (h.older a ?_)
        rwa [hb]
  have holder : ∀ a' ∈ rest, a'.state ≠ .claimed := by
    have := h.older
    rw [hattempts] at this
    exact this
  have hmarked : (b.store a batch).attempts = { a with state := .done } :: rest := by
    unfold store mark
    simp only [hattempts, List.map_cons, hstate, and_self, if_true, List.cons.injEq, true_and]
    refine (List.map_congr_left fun a' ha' => ?_).trans (List.map_id _)
    exact if_neg fun hboth => holder a' ha' hboth.2
  have hbefore : b.done = rest.filter fun a => a.state == .done := by
    unfold done
    rw [hattempts, List.filter_cons_of_neg (by rw [hstate]; decide)]
  have hafter : (b.store a batch).done = { a with state := .done } :: b.done := by
    rw [hbefore]
    unfold done
    rw [hmarked, List.filter_cons_of_pos (by rfl)]
  refine ⟨?_, ?_, ?_, ?_, ?_⟩
  · rwa [hmarked]
  · rw [hmarked]
    have hids := h.ids
    rw [hattempts] at hids
    exact hids
  · rw [hmarked]
    have hranges := h.ranges
    rw [hattempts] at hranges
    exact List.forall_mem_cons.mpr ⟨hranges a List.mem_cons_self, fun a' ha' => hranges a' (List.mem_cons_of_mem a ha')⟩
  · have htiles : Tiles b.task.scopeStart ({ a with state := .done } :: b.done) _ :=
      .cons (h.nextStart hstart) (h.ranges a ha) h.tiles
    rw [← h.tiles.nextSeq] at htiles
    rwa [hafter]
  · rw [hafter]
    change Stored.place ⟨a.attemptID, a.rangeStart, a.rangeEnd, batch⟩ :: b.results.map Stored.place = _
    rw [h.results]
    rfl

/-- What an operation writes keeps the coverage. -/
theorem Book.Covered.writes {job : Job Batch} (h : b.Covered) (hwrites : job.Writes now b b') : b'.Covered := by
  cases hwrites with
  | claims a start hstart hstate hfrom hrange hfree =>
    refine ⟨fun a' ha' => (hfree a' ha').2, ?_, List.forall_mem_cons.mpr ⟨hrange, h.ranges⟩, ?_, ?_⟩
    · refine List.nodup_cons.mpr ⟨fun hmem => ?_, h.ids⟩
      obtain ⟨a', ha', hid⟩ := List.mem_map.mp hmem
      exact (hfree a' ha').1 hid
    all_goals
      have hdone : done { b with attempts := a :: b.attempts } = b.done := by
        unfold done
        rw [List.filter_cons_of_neg (by rw [hstate]; decide)]
      rw [hdone]
    · exact h.tiles
    · exact h.results
  | stores a ha hstate _ _ hstart => exact h.stores ha hstate hstart _
  | settles _ hsettles => exact h.settles hsettles

/-- In the words of the tables: one claim at most, the done ranges are apart and are what the newest checkpoint covers, the
checkpoints are numbered from one, and results are stored of the done attempts, each for its range. -/
structure Book.Exact (b : Book Batch) : Prop where
  sole : (b.attempts.filter fun a => a.state == .claimed).length ≤ 1
  apart : b.done.Pairwise fun a a' => ∀ x, ¬((a.rangeStart ≤ x ∧ x ≤ a.rangeEnd) ∧ a'.rangeStart ≤ x ∧ x ≤ a'.rangeEnd)
  covered : ∀ x, (∃ a ∈ b.attempts, a.state = .done ∧ a.rangeStart ≤ x ∧ x ≤ a.rangeEnd) ↔
    ∃ c, b.head = some c ∧ b.task.scopeStart ≤ x ∧ x ≤ c.coveredThrough
  seqs : (b.checkpoints.map (·.seq)).reverse = (List.range b.checkpoints.length).map fun (n : Nat) => (n : Int) + 1
  stored : ∀ a ∈ b.attempts, a.state = .done ↔ ∃ r ∈ b.results, r.place = a.place
  owned : ∀ r ∈ b.results, ∃ a ∈ b.attempts, a.state = .done ∧ r.place = a.place

theorem Book.mem_done : a ∈ b.done ↔ a ∈ b.attempts ∧ a.state = .done := by
  rw [done, List.mem_filter, beq_iff_eq]

/-- The invariant in the words of the tables. -/
theorem Book.Covered.exact (h : b.Covered) : b.Exact where
  sole := by
    cases hb : b.attempts with
    | nil => exact Nat.zero_le 1
    | cons a rest =>
      have hrest : rest.filter (fun a => a.state == .claimed) = [] := by
        refine List.filter_eq_nil_iff.mpr fun a' ha' => ?_
        rw [beq_iff_eq]
        refine h.older a' ?_
        rwa [hb]
      rw [List.filter_cons, hrest]
      split <;> simp
  apart := h.tiles.pairwise.imp fun hlt x hx => by omega
  covered := by
    intro x
    have hiff := h.tiles.covers x
    have hdone : (∃ a ∈ b.attempts, a.state = .done ∧ a.rangeStart ≤ x ∧ x ≤ a.rangeEnd) ↔
        ∃ a ∈ b.done, a.rangeStart ≤ x ∧ x ≤ a.rangeEnd := by
      simp only [mem_done, and_assoc]
    rw [hdone, hiff, head, h.tiles.head]
    cases b.checkpoints with
    | nil =>
      simp only [frontier, List.head?_nil, reduceCtorEq, false_and, exists_false, iff_false]
      omega
    | cons c cs =>
      simp only [frontier_cons, List.head?_cons, some.injEq, exists_eq_left']
      omega
  seqs := h.tiles.seqs
  stored := by
    intro a ha
    have hplaces : (∃ r ∈ b.results, r.place = a.place) ↔ ∃ a' ∈ b.done, a'.place = a.place := by
      rw [← List.mem_map, ← List.mem_map, h.results]
    rw [hplaces]
    constructor
    · exact fun hdone => ⟨a, mem_done.mpr ⟨ha, hdone⟩, rfl⟩
    · rintro ⟨a', ha', hplace⟩
      obtain ⟨hmem, hdone⟩ := mem_done.mp ha'
      -- two attempts with one id are one attempt
      rwa [← List.inj_on_of_nodup_map h.ids hmem ha (congrArg Prod.fst hplace)]
  owned := by
    intro r hr
    have hmem : r.place ∈ b.done.map Attempt.place := by
      rw [← h.results]
      exact List.mem_map_of_mem hr
    obtain ⟨a, ha, hplace⟩ := List.mem_map.mp hmem
    obtain ⟨hattempt, hdone⟩ := mem_done.mp ha
    exact ⟨a, hattempt, hdone, hplace.symm⟩

namespace ScanWorld

/-- The attempt a submitter commits is no longer its own: expired on the clock, given up, or of a task that does not
run. -/
def Late (w : ScanWorld Batch) (attemptID : String) : Prop := w.data.task.state ≠ .running ∨
    ∀ a ∈ w.data.attempts, a.attemptID = attemptID → a.state ≠ .claimed ∨ a.leaseExpiresAt ≤ w.clock

/-- A commit of a late submitter stores nothing and leaves the checkpoints. -/
def Discards (w : ScanWorld Batch) (act : LockAction (Job Batch)) : Prop :=
  ∀ s b attemptID batch persists, w.commits act = some (s, b) → s.job = .commit attemptID batch persists →
    w.Late attemptID → b.results = w.data.results ∧ b.checkpoints = w.data.checkpoints

/-- No lease of a submitted attempt ends between the start of the transaction that submits it and its COMMIT. -/
def prompt (w : ScanWorld Batch) (act : LockAction (Job Batch)) : Bool :=
  match w.commits act with
  | none => true
  | some (s, _) =>
    match s.job with
    | .commit attemptID _ _ =>
      w.data.attempts.all fun a =>
        a.attemptID != attemptID || decide (w.clock < a.leaseExpiresAt) || decide (a.leaseExpiresAt ≤ s.began)
    | _ => true

variable {w : ScanWorld Batch} {act : LockAction (Job Batch)}

variable {s : Session Unit (Job Batch) (Book Batch)}

theorem began_of_prompt (h : w.prompt act = true) {batch : Batch} {persists : Bool}
    (hcommits : w.commits act = some (s, b)) (hjob : s.job = .commit attemptID batch persists)
    (ha : a ∈ w.data.attempts) (hid : a.attemptID = attemptID) (hexpired : a.leaseExpiresAt ≤ w.clock) :
    a.leaseExpiresAt ≤ s.began := by
  simp only [prompt, hcommits, hjob] at h
  have hall := List.all_eq_true.mp h a ha
  simp only [Bool.or_eq_true, bne_iff_ne, ne_eq, hid, not_true_eq_false, decide_eq_true_eq, false_or] at hall
  omega

/-- Every committed operation was decided on the rows it replaces. -/
theorem commits_writes (h : Locked.Serial (scanClients Batch) w) (hcommits : w.commits act = some (s, b)) :
    s.job.Writes s.began w.data b := by
  cases act with
  | commit i told =>
    simp only [Locked.commits] at hcommits
    cases hs : w.sessions[i]? with
    | none =>
      rw [hs] at hcommits
      cases hcommits
    | some s' =>
      simp only [hs] at hcommits
      cases hstage : s'.stage with
      | decided env result =>
        rw [hstage] at hcommits
        cases hcommits
        exact Job.decide_writes (h.current hs hstage)
      | _ =>
        rw [hstage] at hcommits
        cases hcommits
  | _ => cases hcommits

/-- If no lease ends during a submission, a late submitter stores nothing. -/
theorem discards_of_prompt (h : Locked.Serial (scanClients Batch) w) (hprompt : w.prompt act = true) :
    w.Discards act := by
  intro s b attemptID batch persists hcommits hjob hlate
  have hwrites := commits_writes h hcommits
  rw [hjob] at hwrites
  cases hwrites with
  | stores a ha hstate hrunning hlease hstart =>
    exfalso
    rcases hlate with hidle | hgone
    · exact hidle hrunning
    · rcases hgone a ha rfl with hsettled | hexpired
      · exact hsettled hstate
      · exact absurd (began_of_prompt hprompt hcommits hjob ha rfl hexpired) (not_le.mpr hlease)
  | settles _ hsettles => exact ⟨hsettles.results, hsettles.checkpoints⟩

end ScanWorld

/-- Decisions are current, and the rows of the task fit together. -/
def ScanWorld.Sound (w : ScanWorld Batch) : Prop := Locked.Serial (scanClients Batch) w ∧ w.data.Covered

theorem ScanWorld.Sound.next {w : ScanWorld Batch} {act : LockAction (Job Batch)} (h : w.Sound) :
    ScanWorld.Sound (Locked.next (scanClients Batch) w act) := by
  have hstep := Locked.next_step (scanClients Batch) w act
  refine ⟨h.1.step hstep, ?_⟩
  generalize w.next (scanClients Batch) act = w' at hstep
  cases hstep with
  | committed hopen hdecision => exact h.2.writes (Job.decide_writes (h.1.current hopen hdecision))
  | _ => exact h.2

open ScanWorld

theorem ScanWorld.sound_initial (Batch : Type) (clock : Int) (task : Task) : (initial Batch clock task).Sound :=
  ⟨Locked.Serial.empty .., nofun, List.nodup_nil, nofun, .nil, rfl⟩

/-- Whatever the workers do, the checkpoint covers exactly what was stored, and a late submitter stores nothing as long as
no lease ends while its own COMMIT is under way. -/
theorem checkpoint_covers_stored (clock : Int) (task : Task) (actions : List (LockAction (Job Batch)))
    (hprompt : Along (Locked.next (scanClients Batch)) (fun w act => ScanWorld.prompt w act = true)
      (initial Batch clock task) actions) :
    (run (Locked.next (scanClients Batch)) (initial Batch clock task) actions).data.Exact ∧
      Along (Locked.next (scanClients Batch)) ScanWorld.Discards (initial Batch clock task)
        actions := by
  have hinitial := ScanWorld.sound_initial Batch clock task
  constructor
  · exact (invariant_of_along hprompt hinitial fun _ _ _ h => h.next).2.exact
  · exact along_of_invariant hprompt hinitial (fun _ _ hp h => ScanWorld.discards_of_prompt h.1 hp)
      fun _ _ _ h => h.next

/-- Also when leases end while a COMMIT is under way, the checkpoint covers exactly the stored ranges, which are apart. -/
theorem scan_book_exact (clock : Int) (task : Task) (actions : List (LockAction (Job Batch))) :
    (run (Locked.next (scanClients Batch)) (initial Batch clock task) actions).data.Exact := by
  have hsound : ScanWorld.Sound (run (Locked.next (scanClients Batch)) (initial Batch clock task) actions) :=
    Reachable.invariant ⟨actions, rfl⟩ (ScanWorld.sound_initial Batch clock task) fun _ _ h => h.next
  exact hsound.2.exact

namespace Sample

def task : Task := ⟨.height, 0, 9, .running, by decide, by decide⟩

/-- A claim of five heights with a lease of ten, and its commit, begun at three. -/
def claimed : List (LockAction (Job Nat)) :=
  [.start (.claim "a-1" "worker" 5 10), .lock 0, .decide 0, .commit 0 true, .tick 3, .start (.commit "a-1" 7 true)]

def submitted : List (LockAction (Job Nat)) := [.lock 1, .decide 1, .commit 1 true]

def after (actions : List (LockAction (Job Nat))) : ScanWorld Nat :=
  run (Locked.next (scanClients Nat)) (initial Nat 0 task) actions

end Sample

open Sample

/-- The submitter waits for the row of the task until its lease has ended. `now()` is still the start of its
transaction, so its results are stored. -/
theorem expired_attempt_stores :
    let w := after (claimed ++ [.tick 20] ++ submitted)
    let before := after (claimed ++ [.tick 20, .lock 1, .decide 1])
    before.data.attempts.map (fun a => (a.attemptID, a.leaseExpiresAt)) = [("a-1", 10)] ∧ before.clock = 23 ∧
      before.data.results = [] ∧ w.data.results = [⟨"a-1", 0, 4, 7⟩] ∧ w.data.checkpoints = [⟨1, 4, 4⟩] := by
  decide +kernel

theorem checkpoint_covers_stored_first : (run (Locked.next (scanClients Nat)) (initial Nat 0 task)
        (claimed ++ submitted)).data.results = [⟨"a-1", 0, 4, 7⟩] ∧
      (run (Locked.next (scanClients Nat)) (initial Nat 0 task) (claimed ++ submitted)).data.Exact := by
  refine ⟨by decide +kernel, (checkpoint_covers_stored 0 task (claimed ++ submitted) ?_).1⟩
  decide +kernel

end TxHarbor.Reconciliation
