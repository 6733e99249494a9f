import TxHarbor.Events.Consumer

/-!
# Effects are committed once and in order

The inbox key and the version row serialise the transactions of an event and of an aggregate, so whatever the workers,
rebalances and replays do, effects never repeat and never go backwards. Progress only follows durable outcomes.
-/

open Transition

namespace TxHarbor.Events

open List ConsumerWorld

namespace ConsumerWorld

variable {w w' : ConsumerWorld} {act : ConsumerAction}

/-- Every step keeps the locks apart. -/
theorem Locks.step (h : w.Locks) (hstep : w.Step act w') : w'.Locks := by
  cases hstep with
  | same => exact h
  | started hstage hreplays =>
    rename_i s
    have hfree : s.stage.keyed = false ∧ s.stage.rowed = false := by
      rcases hstage with hbegun | ⟨reason, hquarantining⟩
      · rw [hbegun.1]
        exact ⟨rfl, rfl⟩
      · rw [hquarantining]
        exact ⟨rfl, rfl⟩
    have hold : ∀ (j : Nat) (t : Session), (w.sessions ++ [s])[j]? = some t → t.stage.keyed = true ∨ t.stage.rowed = true →
        w.sessions[j]? = some t := by
      intro j t ht hholds
      rcases getElem?_append_eq_some ht with ht | ⟨-, hts⟩
      · exact ht
      · rw [hts, hfree.1, hfree.2] at hholds
        exact absurd hholds (by decide)
    exact
      { keys := fun i j s t hs ht hks hkt => h.keys i j s t (hold i s hs (.inl hks)) (hold j t ht (.inl hkt)) hks hkt
        rows := fun i j s t hs ht hrs hrt => h.rows i j s t (hold i s hs (.inr hrs)) (hold j t ht (.inr hrt)) hrs hrt
        fresh := fun i s hs hks => h.fresh i s (hold i s hs (.inl hks)) hks
        ahead := fun i s hs hrs => h.ahead i s (hold i s hs (.inr hrs)) hrs }
  | duplicate | ended | enqueued => exact h.moveFree rfl rfl
  | inserted hi hstage halone hfresh => exact h.move (fun _ => ⟨halone, hfresh⟩) nofun
  | guarded hi hstage halone hguard =>
    rename_i i s
    have hkeyed : s.stage.keyed = true := by rw [hstage]; rfl
    refine h.move (fun _ => ⟨h.alone_inbox hi hkeyed, h.fresh i s hi hkeyed⟩) ?_
    cases hfound : w.versions s.message.envelope.aggregate with
    | none => nofun
    | some m =>
      rw [hfound] at halone hguard
      refine fun _ => ⟨halone rfl, fun m' hm' => ?_⟩
      cases hm'
      simp only [decideVersionGuard] at hguard
      split at hguard
      · cases hguard
      · split at hguard
        · assumption
        · cases hguard
  | @skipping _ i s hi hstage hguard =>
    have hfree : (w.move i s .skipping).Locks := h.moveFree rfl rfl
    exact hfree.congr (by simp) (by simp) (by simp)
  | versioned hi hstage hrow =>
    rename_i i s found
    have hkeyed : s.stage.keyed = true := by rw [hstage]; rfl
    refine h.move (fun _ => ⟨h.alone_inbox hi hkeyed, h.fresh i s hi hkeyed⟩) fun _ => ?_
    cases found with
    | none => exact hrow rfl
    | some m =>
      have hrowed : s.stage.rowed = true := by rw [hstage]; rfl
      exact ⟨h.alone_version hi hrowed, h.ahead i s hi hrowed⟩
  | @skipped _ i s told hi hstage | @repeated _ i s told hi hstage =>
    have hfree : (w.move i s .ended).Locks := h.moveFree rfl rfl
    exact hfree.congr (by simp) (by simp) (by simp)
  | applied hi hstage => exact Locks.congr (h.applied hi hstage) (by simp) (by simp) (by simp)
  | quarantined hi hstage =>
    rename_i i s existing reason told
    have hfree : (w.move i s .ended).Locks := h.moveFree rfl rfl
    cases existing <;> exact hfree.congr (by simp) (by simp) (by simp)
  | closed hclosing => exact h.congr rfl rfl rfl

/-- The effects of one aggregate, latest first. -/
def effectsOf (w : ConsumerWorld) (a : Aggregate) : List Envelope := w.effects.filter fun e => e.aggregate = a

/-- Effects are those of the inbox, each once, in the order of their versions, and the version row has the last. -/
structure Ordered (w : ConsumerWorld) : Prop where
  inbox : w.inbox = w.effects.map (·.eventID)
  once : (w.effects.map (·.eventID)).Nodup
  ascending : ∀ a, (w.effectsOf a).Pairwise fun newer older => older.aggregateVersion < newer.aggregateVersion
  last : ∀ a, w.versions a = (w.effectsOf a).head?.map (·.aggregateVersion)

theorem Ordered.congr (h : w.Ordered) (hinbox : w'.inbox = w.inbox) (heffects : w'.effects = w.effects)
    (hversions : w'.versions = w.versions) : w'.Ordered := by
  have heffectsOf : w'.effectsOf = w.effectsOf := by
    funext a
    rw [effectsOf, effectsOf, heffects]
  exact ⟨by rw [hinbox, heffects]; exact h.inbox, by rw [heffects]; exact h.once, by rw [heffectsOf]; exact h.ascending,
    by rw [heffectsOf, hversions]; exact h.last⟩

/-- A fresh event ahead of the version row extends the effects in order. -/
theorem Ordered.applied (h : w.Ordered) {e : Envelope} (hfresh : e.eventID ∉ w.inbox)
    (hahead : ∀ m, w.versions e.aggregate = some m → m < e.aggregateVersion) : (w.applied e).Ordered := by
  constructor
  · simp [ConsumerWorld.applied, h.inbox]
  · exact nodup_cons.mpr ⟨h.inbox ▸ hfresh, h.once⟩
  · intro a
    by_cases ha : e.aggregate = a
    · subst ha
      simp only [effectsOf, ConsumerWorld.applied, filter_cons, decide_true, if_true]
      refine pairwise_cons.mpr ⟨fun older holder => ?_, h.ascending e.aggregate⟩
      have hlast := h.last e.aggregate
      have hascending := h.ascending e.aggregate
      change older ∈ w.effectsOf e.aggregate at holder
      cases heffects : w.effectsOf e.aggregate with
      | nil =>
        rw [heffects] at holder
        cases holder
      | cons newest rest =>
        rw [heffects] at holder hlast hascending
        have hnewest := hahead newest.aggregateVersion hlast
        rcases mem_cons.mp holder with rfl | hrest
        · exact hnewest
        · exact Nat.lt_trans ((pairwise_cons.mp hascending).1 older hrest) hnewest
    · have hsame : (w.applied e).effectsOf a = w.effectsOf a := by
        simp [effectsOf, ConsumerWorld.applied, ha]
      rw [hsame]
      exact h.ascending a
  · intro a
    by_cases ha : a = e.aggregate
    · subst ha
      simp [effectsOf, ConsumerWorld.applied]
    · have hne : ¬ e.aggregate = a := fun heq => ha heq.symm
      have hlast := h.last a
      simp only [effectsOf] at hlast
      simp [effectsOf, ConsumerWorld.applied, ha, hne, hlast]

/-- Effects stay ordered: only a session with both locks applies one. -/
theorem Ordered.step (h : w.Ordered) (hlocks : w.Locks) (hstep : w.Step act w') : w'.Ordered := by
  cases hstep with
  | same => exact h
  | started | duplicate | inserted | guarded | versioned | ended | enqueued | closed => exact h.congr rfl rfl rfl
  | skipping | skipped | repeated => exact h.congr (by simp) (by simp) (by simp)
  | applied hi hstage =>
    rename_i i s told
    have hended : (w.move i s .ended).Ordered := h.congr rfl rfl rfl
    have hkeyed : s.stage.keyed = true := by rw [hstage]; rfl
    have hrowed : s.stage.rowed = true := by rw [hstage]; rfl
    exact Ordered.congr (hended.applied (hlocks.fresh i s hi hkeyed) (hlocks.ahead i s hi hrowed)) (by simp) (by simp)
      (by simp)
  | quarantined hi hstage =>
    rename_i existing reason told
    cases existing <;> exact h.congr (by simp) (by simp) (by simp)

/-! ### Progress -/

variable {p : Partition} {n : Nat} {m : Message} {s : Session}

theorem advanceProgress_le (w : ConsumerWorld) (m : Message) (h : w.progress p = some n) :
    ∃ n', (w.advanceProgress m).progress p = some n' ∧ n ≤ n' := by
  unfold advanceProgress
  split
  · exact ⟨n, h, Nat.le_refl _⟩
  · by_cases hp : p = m.source
    · refine ⟨_, if_pos hp, ?_⟩
      rw [h]
      exact Nat.le_max_left _ _
    · exact ⟨n, (if_neg hp).trans h, Nat.le_refl _⟩

/-- Progress is never taken back. -/
theorem Step.progress_le (hstep : w.Step act w') (h : w.progress p = some n) :
    ∃ n', w'.progress p = some n' ∧ n ≤ n' := by
  cases hstep with
  | same | started | duplicate | inserted | guarded | versioned | ended | enqueued | closed => exact ⟨n, h, Nat.le_refl _⟩
  | skipping =>
    refine ⟨n, ?_, Nat.le_refl _⟩
    simpa using h
  | skipped | repeated | applied =>
    simp only [answer_frame, handle_frame]
    exact advanceProgress_le _ _ (by simpa using h)
  | @quarantined _ i s existing reason told hi hstage =>
    simp only [answer_frame, handle_frame]
    refine advanceProgress_le _ _ ?_
    cases existing <;> exact h

/-- A progress row stands one past a message that was handled, and so does what a skip is about to write. -/
structure Followed (w : ConsumerWorld) : Prop where
  reached : ∀ p n, w.progress p = some n → ∃ o, (p, o) ∈ w.handled ∧ n = o + 1
  skipping : ∀ (i : Nat) (s : Session), w.sessions[i]? = some s → s.stage = .skipping → 0 ≤ s.message.offset →
    (s.message.source, s.message.offset.toNat) ∈ w.handled

theorem mem_handle {x : Partition × Nat} (m : Message) (h : x ∈ w.handled) : x ∈ (w.handle m).handled := by
  unfold handle
  split
  · exact h
  · exact mem_cons_of_mem _ h

theorem mem_handle_self (h : 0 ≤ m.offset) : (m.source, m.offset.toNat) ∈ (w.handle m).handled := by
  rw [handle, if_neg (Int.not_lt.mpr h)]
  exact mem_cons_self

/-- Progress after a message that is among the handled ones. -/
theorem reached_advanceProgress {handled : List (Partition × Nat)}
    (hreached : ∀ p n, w.progress p = some n → ∃ o, (p, o) ∈ handled ∧ n = o + 1)
    (hm : 0 ≤ m.offset → (m.source, m.offset.toNat) ∈ handled) :
    ∀ p n, (w.advanceProgress m).progress p = some n → ∃ o, (p, o) ∈ handled ∧ n = o + 1 := by
  intro p n hn
  unfold advanceProgress at hn
  split at hn
  · exact hreached p n hn
  next hoffset =>
    have hmem := hm (Int.not_lt.mp hoffset)
    by_cases hp : p = m.source
    · simp only [if_pos hp, Option.some.injEq] at hn
      subst hp
      cases hold : w.progress m.source with
      | none =>
        rw [hold] at hn
        exact ⟨m.offset.toNat, hmem, by simp at hn; omega⟩
      | some old =>
        obtain ⟨o, ho, hold'⟩ := hreached _ _ hold
        rw [hold, Option.getD_some] at hn
        rcases Nat.le_total old (m.offset.toNat + 1) with hle | hle
        · exact ⟨m.offset.toNat, hmem, by omega⟩
        · exact ⟨o, ho, by omega⟩
    · simp only [if_neg hp] at hn
      exact hreached p n hn

theorem Followed.move (h : w.Followed) {i : Nat} {stage : Stage} (hstage : stage ≠ .skipping) :
    (w.move i s stage).Followed := by
  refine { h with skipping := fun j t ht hskipping => ?_ }
  rcases getElem?_move ht with ⟨rfl, rfl⟩ | ⟨-, ht⟩
  · exact absurd hskipping hstage
  · exact h.skipping j t ht hskipping

theorem Followed.settle (h : w.Followed) {told : Bool} :
    (((w.advanceProgress s.message).handle s.message).answer s told).Followed := by
  constructor
  · simp only [answer_frame, handle_frame]
    refine reached_advanceProgress ?_ mem_handle_self
    intro p n hn
    obtain ⟨o, ho, hn⟩ := h.reached p n hn
    exact ⟨o, mem_handle _ (by simpa using ho), hn⟩
  · intro i t ht hskipping hoffset
    simp only [answer_frame, handle_frame, advanceProgress_frame] at ht
    simp only [answer_frame]
    exact mem_handle _ (by simpa using h.skipping i t ht hskipping hoffset)

/-- Progress only follows messages that were handled. -/
theorem Followed.step (h : w.Followed) (hstep : w.Step act w') : w'.Followed := by
  cases hstep with
  | same => exact h
  | started hstage hreplays =>
    rename_i s
    refine { h with skipping := fun j t ht hskipping => ?_ }
    rcases getElem?_append_eq_some ht with ht | ⟨-, hts⟩
    · exact h.skipping j t ht hskipping
    · rw [hts] at hskipping
      rcases hstage with hbegun | ⟨reason, hquarantining⟩
      · rw [hbegun.1] at hskipping
        cases hskipping
      · cases hquarantining.symm.trans hskipping
  | duplicate | inserted | guarded | versioned | ended | enqueued => exact h.move nofun
  | closed hclosing => exact { h with }
  | skipping hi hstage hguard =>
    rename_i i s
    constructor
    · intro p n hn
      obtain ⟨o, ho, hn⟩ := h.reached p n (by simpa using hn)
      exact ⟨o, mem_handle _ ho, hn⟩
    · intro j t ht hskipping hoffset
      simp only [handle_frame] at ht
      rcases getElem?_move ht with ⟨rfl, rfl⟩ | ⟨-, ht⟩
      · exact mem_handle_self hoffset
      · exact mem_handle _ (h.skipping j t ht hskipping hoffset)
  | skipped hi hstage =>
    rename_i i s told
    have hended : (w.move i s .ended).Followed := h.move nofun
    constructor
    · simp only [answer_frame, advanceProgress_frame]
      exact reached_advanceProgress hended.reached (h.skipping i s hi hstage)
    · intro j t ht hskipping hoffset
      simp only [answer_frame, advanceProgress_frame] at ht ⊢
      exact hended.skipping j t ht hskipping hoffset
  | @repeated _ i s told hi hstage =>
    have hended : (w.move i s .ended).Followed := h.move nofun
    exact hended.settle
  | applied hi hstage =>
    rename_i i s told
    have hended : (w.move i s .ended).Followed := h.move nofun
    have happlied : ((w.move i s .ended).applied s.message.envelope).Followed := { hended with }
    exact happlied.settle
  | quarantined hi hstage =>
    rename_i i s existing reason told
    have hended : (w.move i s .ended).Followed := h.move nofun
    cases existing with
    | true => exact Followed.settle hended
    | false => exact Followed.settle (w := (w.move i s .ended).entered s.message reason) { hended with }

/-- Everything that holds of the tables after any run. -/
structure Sound (w : ConsumerWorld) : Prop where
  locks : w.Locks
  ordered : w.Ordered
  followed : w.Followed

theorem Sound.next (h : w.Sound) (act : ConsumerAction) : (w.next act).Sound :=
  ⟨h.locks.step (next_step w act), h.ordered.step h.locks (next_step w act), h.followed.step (next_step w act)⟩

theorem sound_initial : initial.Sound where
  locks := ⟨by simp [initial], by simp [initial], by simp [initial], by simp [initial]⟩
  ordered := ⟨rfl, nodup_nil, fun _ => List.Pairwise.nil, fun _ => rfl⟩
  followed := ⟨by simp [initial], by simp [initial]⟩

/-- No partition's progress goes back in this step. -/
def KeepsProgress (w : ConsumerWorld) (act : ConsumerAction) : Prop :=
  ∀ p n, w.progress p = some n → ∃ n', (w.next act).progress p = some n' ∧ n ≤ n'

end ConsumerWorld

/-- Effects never repeat and never go backwards, the version row is that of the last effect, and progress never goes back
nor past the messages that were applied, skipped or quarantined. -/
theorem effects_once_in_order (actions : List ConsumerAction) :
    let w := run next initial actions
    (w.effects.map (·.eventID)).Nodup ∧
      (∀ a, (w.effectsOf a).Pairwise fun newer older => older.aggregateVersion < newer.aggregateVersion) ∧
      (∀ a, w.versions a = (w.effectsOf a).head?.map (·.aggregateVersion)) ∧
      (∀ p n, w.progress p = some n → ∃ o, (p, o) ∈ w.handled ∧ n ≤ o + 1) ∧
      Along next ConsumerWorld.KeepsProgress initial actions := by
  have hsound : (run next initial actions).Sound :=
    Reachable.invariant ⟨actions, rfl⟩ ConsumerWorld.sound_initial fun _ act h => h.next act
  refine ⟨hsound.ordered.once, hsound.ordered.ascending, hsound.ordered.last, ?_, ?_⟩
  · intro p n hn
    obtain ⟨o, ho, hn⟩ := hsound.followed.reached p n hn
    exact ⟨o, ho, Nat.le_of_eq hn⟩
  · exact along_of_forall (fun w act p n hn => (ConsumerWorld.next_step w act).progress_le hn) _ _

/-- The inbox has exactly the applied events, in their order, and progress stands one past a message that was handled. -/
theorem inbox_is_effects (actions : List ConsumerAction) :
    let w := run next initial actions
    w.inbox = w.effects.map (·.eventID) ∧ w.inbox.Nodup ∧
      ∀ p n, w.progress p = some n → ∃ o, (p, o) ∈ w.handled ∧ n = o + 1 := by
  have hsound : (run next initial actions).Sound :=
    Reachable.invariant ⟨actions, rfl⟩ ConsumerWorld.sound_initial fun _ act h => h.next act
  exact ⟨hsound.ordered.inbox, hsound.ordered.inbox ▸ hsound.ordered.once, hsound.followed.reached⟩

end TxHarbor.Events
