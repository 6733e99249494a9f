import TxHarbor.Events.Effects

/-!
# Delivered events are applied or kept in quarantine

The consumer takes the first version it sees of an aggregate as its baseline, so an earlier version that comes later is
skipped as old although its effect was never applied. As long as every baseline is version 1, no event is lost.
-/

open Transition List Option

namespace TxHarbor.Events

/-- The events of an aggregate are known by their versions, which start at 1. -/
def Message.Carries (ident : Aggregate → Nat → String) (m : Message) : Prop :=
  m.envelope.eventID = ident m.envelope.aggregate m.envelope.aggregateVersion ∧ 1 ≤ m.envelope.aggregateVersion

def ConsumerAction.Carries (ident : Aggregate → Nat → String) : ConsumerAction → Prop
  | .start m _ => m.Carries ident
  | _ => True

variable {v : Nat}

theorem version_of_apply {m : Nat} (h : decideVersionGuard (some m) v = .apply) : v = m + 1 := by
  simp only [decideVersionGuard] at h
  split at h
  · cases h
  · split at h
    · omega
    · cases h

theorem version_of_skip {found : Option Nat} (h : decideVersionGuard found v = .skip) :
    ∃ m, found = some m ∧ v ≤ m := by
  cases found with
  | none => cases h
  | some m =>
    simp only [decideVersionGuard] at h
    split at h
    · cases h
    · split at h
      · cases h
      · exact ⟨m, rfl, by omega⟩

open ConsumerWorld

namespace ConsumerWorld

/-- A transaction that finds no version row carries version 1. -/
def baseline (w : ConsumerWorld) : ConsumerAction → Bool
  | .read i =>
    (w.sessions[i]?).all fun s =>
      s.stage != .inserted || (w.versions s.message.envelope.aggregate).isSome ||
        s.message.envelope.aggregateVersion == 1
  | _ => true

/-- The effect of the event is applied, or the event is in open quarantine. -/
def Kept (w : ConsumerWorld) (e : String) : Prop := e ∈ w.inbox ∨ ∃ q ∈ w.quarantine, q.eventID = e ∧ q.status = .open'

/-- What is applied or quarantined stays so. -/
structure Grows (w w' : ConsumerWorld) : Prop where
  inbox : ∀ e ∈ w.inbox, e ∈ w'.inbox
  kept : ∀ e, w.Kept e → w'.Kept e
  entries : ∀ (q : Nat) (entry : QuarantineEntry), w.quarantine[q]? = some entry →
    ∃ entry', w'.quarantine[q]? = some entry' ∧ entry'.eventID = entry.eventID

theorem Grows.of_eq {w w' : ConsumerWorld} (hinbox : w'.inbox = w.inbox) (hquarantine : w'.quarantine = w.quarantine) :
    w.Grows w' := by
  refine ⟨fun e he => hinbox ▸ he, fun e he => ?_, fun q entry hentry => ⟨entry, hquarantine ▸ hentry, rfl⟩⟩
  rwa [Kept, hinbox, hquarantine]

theorem grows_applied (w : ConsumerWorld) (e : Envelope) : w.Grows (w.applied e) where
  inbox _ hx := mem_cons_of_mem _ hx
  kept _ hx := hx.imp_left (mem_cons_of_mem _)
  entries _ entry hentry := ⟨entry, hentry, rfl⟩

theorem grows_entered (w : ConsumerWorld) (m : Message) (reason : QuarantineReason) : w.Grows (w.entered m reason) where
  inbox _ hx := hx
  kept x hx := by
    rcases hx with hx | ⟨q, hq, hopen⟩
    · exact .inl hx
    · exact .inr ⟨q, mem_append_left _ hq, hopen⟩
  entries q entry hentry := ⟨entry, by
    simp only [entered]
    rw [List.getElem?_append_left (List.getElem?_eq_some_iff.mp hentry).1]
    exact hentry, rfl⟩

/-- What a transaction may rely on when its commit comes. -/
structure Fits (ident : Aggregate → Nat → String) (w : ConsumerWorld) (s : Session) : Prop where
  carries : s.stage = .begun ∨ s.stage.keyed = true → s.message.Carries ident
  first : s.stage = .guarded none → s.message.envelope.aggregateVersion = 1
  upNext : s.stage.rowed = true →
    s.message.envelope.aggregateVersion = (w.versions s.message.envelope.aggregate).getD 0 + 1
  old : s.stage ≠ .skipping
  duplicate : s.stage = .duplicate → s.message.envelope.eventID ∈ w.inbox
  existing : ∀ reason, s.stage = .enqueued true reason → w.Kept s.message.envelope.eventID
  replays : ∀ q, s.replayOf = some q →
    ∃ entry, w.quarantine[q]? = some entry ∧ entry.eventID = s.message.envelope.eventID

section Loss

variable {ident : Aggregate → Nat → String} {w w' : ConsumerWorld}

theorem Fits.grow {s : Session} (h : w.Fits ident s) (hgrows : w.Grows w') (hversions : s.stage.rowed = true →
      w'.versions s.message.envelope.aggregate = w.versions s.message.envelope.aggregate) : w'.Fits ident s where
  carries := h.carries
  first := h.first
  upNext hrowed := by rw [hversions hrowed]; exact h.upNext hrowed
  old := h.old
  duplicate hstage := hgrows.inbox _ (h.duplicate hstage)
  existing reason hstage := hgrows.kept _ (h.existing reason hstage)
  replays q hq := by
    obtain ⟨entry, hentry, hevent⟩ := h.replays q hq
    obtain ⟨entry', hentry', hsame⟩ := hgrows.entries q entry hentry
    exact ⟨entry', hentry', hsame.trans hevent⟩

/-- No event is lost so far, and no transaction under way will lose one. -/
structure Complete (ident : Aggregate → Nat → String) (w : ConsumerWorld) : Prop where
  fits : ∀ (i : Nat) (s : Session), w.sessions[i]? = some s → w.Fits ident s
  covered : ∀ a m, w.versions a = some m → ∀ v, 1 ≤ v → v ≤ m → ident a v ∈ w.inbox
  closing : ∀ q ∈ w.closing, ∃ entry, w.quarantine[q]? = some entry ∧ entry.eventID ∈ w.inbox
  replayed : ∀ q ∈ w.quarantine, q.status = .replayed → q.eventID ∈ w.inbox
  returned : ∀ e ∈ w.returned, w.Kept e

namespace Complete

theorem congr (h : w.Complete ident) (hsessions : w'.sessions = w.sessions) (hinbox : w'.inbox = w.inbox)
    (hversions : w'.versions = w.versions) (hquarantine : w'.quarantine = w.quarantine)
    (hclosing : w'.closing = w.closing) (hreturned : w'.returned = w.returned) : w'.Complete ident where
  fits i s hs := (h.fits i s (hsessions ▸ hs)).grow (.of_eq hinbox hquarantine) fun _ => by rw [hversions]
  covered := by rw [hversions, hinbox]; exact h.covered
  closing := by rw [hclosing, hquarantine, hinbox]; exact h.closing
  replayed := by rw [hquarantine, hinbox]; exact h.replayed
  returned e he := (Grows.of_eq hinbox hquarantine).kept e (h.returned e (hreturned ▸ he))

variable {i : Nat} {s : Session} {stage : Stage}

theorem move (h : w.Complete ident) (hfits : w.Fits ident { s with stage := stage }) :
    (w.move i s stage).Complete ident := by
  refine { h with fits := fun j t ht => ?_ }
  rcases getElem?_move ht with ⟨-, rfl⟩ | ⟨-, ht⟩
  · exact { hfits with }
  · exact { h.fits j t ht with }

theorem of_stage (hstage : s.stage = stage) (hfits : w.Fits ident { s with stage := stage }) : w.Fits ident s := by
  subst hstage
  exact hfits

section

variable (h : w.Complete ident)
include h

theorem handled (m : Message) : ((w.advanceProgress m).handle m).Complete ident :=
  h.congr (by simp) (by simp) (by simp) (by simp) (by simp) (by simp)

theorem ended (hi : w.sessions[i]? = some s) : (w.move i s .ended).Complete ident :=
  h.move ⟨nofun, nofun, nofun, nofun, nofun, nofun, (h.fits i s hi).replays⟩

/-- An answer settles its message, since its event is kept. -/
theorem answer {told : Bool} (hkept : w.Kept s.message.envelope.eventID)
    (hclose : (∀ existing reason, s.stage ≠ .enqueued existing reason) → s.message.envelope.eventID ∈ w.inbox)
    (hreplays : ∀ q, s.replayOf = some q →
      ∃ entry, w.quarantine[q]? = some entry ∧ entry.eventID = s.message.envelope.eventID) :
    (w.answer s told).Complete ident := by
  cases told with
  | false => exact h
  | true =>
    refine { h with fits := fun i t ht => { h.fits i t ht with }, closing := ?_, returned := ?_ }
    · intro q hq
      simp only [ConsumerWorld.answer, if_true] at hq
      split at hq
      · exact h.closing q hq
      next hstage =>
        rcases mem_append.mp hq with hq | hq
        · obtain ⟨entry, hentry, hevent⟩ := hreplays q (mem_toList.mp hq)
          exact ⟨entry, hentry, hevent ▸ hclose hstage⟩
        · exact h.closing q hq
    · intro e he
      rcases mem_cons.mp he with rfl | he
      · exact hkept
      · exact h.returned e he

/-- The commit of an applied event covers its version. -/
theorem applied (hlocks : w.Locks) (hi : w.sessions[i]? = some s)
    (hstage : s.stage = .versioned) : ((w.move i s .ended).applied s.message.envelope).Complete ident := by
  have hended := h.ended hi
  have hgrows := grows_applied (w.move i s .ended) s.message.envelope
  have hrowed : s.stage.rowed = true := by rw [hstage]; rfl
  have hkeyed : s.stage.keyed = true := by rw [hstage]; rfl
  constructor
  · intro j t ht
    refine (hended.fits j t ht).grow hgrows fun hholds => ?_
    rcases getElem?_move ht with ⟨-, rfl⟩ | ⟨hj, ht⟩
    · cases hholds
    · refine if_neg fun heq => hj ?_
      exact hlocks.rows j i t s ht hi hholds hrowed heq
  · intro a m hm v hpos hv
    obtain ⟨hident, -⟩ := (h.fits i s hi).carries (.inr hkeyed)
    have hnext := (h.fits i s hi).upNext hrowed
    simp only [ConsumerWorld.applied] at hm
    split at hm
    next heq =>
      cases hm
      subst heq
      by_cases hlast : v = s.message.envelope.aggregateVersion
      · rw [hlast, ← hident]
        exact mem_cons_self
      · cases hversions : w.versions s.message.envelope.aggregate with
        | none =>
          rw [hversions, getD_none] at hnext
          omega
        | some m =>
          rw [hversions, getD_some] at hnext
          exact mem_cons_of_mem _ (h.covered _ m hversions v hpos (by omega))
    · exact mem_cons_of_mem _ (h.covered a m hm v hpos hv)
  · intro q hq
    obtain ⟨entry, hentry, hevent⟩ := hended.closing q hq
    exact ⟨entry, hentry, mem_cons_of_mem _ hevent⟩
  · exact fun q hq hstatus => mem_cons_of_mem _ (hended.replayed q hq hstatus)
  · exact fun e he => hgrows.kept e (hended.returned e he)

theorem entered (m : Message) (reason : QuarantineReason) : (w.entered m reason).Complete ident := by
  have hgrows := grows_entered w m reason
  refine ⟨fun i s hs => (h.fits i s hs).grow hgrows fun _ => rfl, h.covered, ?_, ?_, ?_⟩
  · intro q hq
    obtain ⟨entry, hentry, hevent⟩ := h.closing q hq
    obtain ⟨entry', hentry', hsame⟩ := hgrows.entries q entry hentry
    exact ⟨entry', hentry', hsame ▸ hevent⟩
  · intro q hq hstatus
    rcases mem_concat_cases hq with hq | rfl
    · exact h.replayed q hq hstatus
    · cases hstatus
  · exact fun e he => hgrows.kept e (h.returned e he)

theorem closed {entry : Nat} (hclosing : entry ∈ w.closing) :
    Complete ident { w with quarantine := w.quarantine.modify entry fun q => { q with status := .replayed } } := by
  have hlookup : ∀ (q : Nat) (x : QuarantineEntry), w.quarantine[q]? = some x →
      ∃ x', (w.quarantine.modify entry fun q => { q with status := .replayed })[q]? = some x' ∧
        x'.eventID = x.eventID := by
    intro q x hx
    rw [getElem?_modify, hx]
    by_cases hq : entry = q
    · exact ⟨{ x with status := .replayed }, by simp [hq], rfl⟩
    · exact ⟨x, by simp [hq], rfl⟩
  have hback : ∀ x' ∈ w.quarantine.modify entry fun q => { q with status := .replayed }, ∃ x ∈ w.quarantine,
      x'.eventID = x.eventID ∧ (x' = x ∨ x.eventID ∈ w.inbox) := by
    intro x' hx'
    obtain ⟨q, hq⟩ := mem_iff_getElem?.mp hx'
    rw [getElem?_modify] at hq
    obtain ⟨x, hx, hmap⟩ := map_eq_some_iff.mp hq
    refine ⟨x, mem_of_getElem? hx, ?_⟩
    split at hmap
    next hsame =>
      subst hsame hmap
      obtain ⟨y, hy, hevent⟩ := h.closing _ hclosing
      cases hx.symm.trans hy
      exact ⟨rfl, .inr hevent⟩
    · exact ⟨by rw [← hmap], .inl hmap.symm⟩
  have hgrows : w.Grows { w with quarantine := w.quarantine.modify entry fun q => { q with status := .replayed } } := by
    refine ⟨fun _ he => he, fun e he => ?_, hlookup⟩
    rcases he with he | ⟨x, hx, hevent, hopen⟩
    · exact .inl he
    · obtain ⟨q, hq⟩ := mem_iff_getElem?.mp hx
      by_cases hsame : entry = q
      · subst hsame
        obtain ⟨y, hy, hin⟩ := h.closing _ hclosing
        cases hq.symm.trans hy
        exact .inl (hevent ▸ hin)
      · refine .inr ⟨x, mem_of_getElem? (i := q) ?_, hevent, hopen⟩
        rw [getElem?_modify, hq]
        simp [hsame]
  refine ⟨fun i s hs => (h.fits i s hs).grow hgrows fun _ => rfl, h.covered, ?_, ?_, ?_⟩
  · intro q hq
    obtain ⟨x, hx, hevent⟩ := h.closing q hq
    obtain ⟨x', hx', hsame⟩ := hlookup q x hx
    exact ⟨x', hx', hsame ▸ hevent⟩
  · intro x' hx' hstatus
    obtain ⟨x, hx, hevent, hsame | hin⟩ := hback x' hx'
    · subst hsame
      exact h.replayed x' hx hstatus
    · exact hevent ▸ hin
  · exact fun e he => hgrows.kept e (h.returned e he)

/-- No step loses an event while the first version row of an aggregate is for version 1. -/
theorem step (hlocks : w.Locks) {act : ConsumerAction} (hcarries : act.Carries ident)
    (hbaseline : w.baseline act = true) (hstep : w.Step act w') : w'.Complete ident := by
  cases hstep with
  | same => exact h
  | @started _ s hstage hreplays =>
    refine { h with fits := fun j t ht => ?_ }
    rcases getElem?_append_eq_some ht with ht | ⟨-, rfl⟩
    · exact { h.fits j t ht with }
    · have hreplays' : ∀ q, t.replayOf = some q →
          ∃ entry, w.quarantine[q]? = some entry ∧ entry.eventID = t.message.envelope.eventID := by
        intro q hq
        simp only [hq, replays, Option.any_eq_true, beq_iff_eq] at hreplays
        exact hreplays
      rcases hstage with ⟨hbegun, rfl⟩ | ⟨reason, hquarantining⟩
      · exact of_stage hbegun ⟨fun _ => hcarries, nofun, nofun, nofun, nofun, nofun, hreplays'⟩
      · exact of_stage hquarantining ⟨nofun, nofun, nofun, nofun, nofun, nofun, hreplays'⟩
  | @duplicate _ i s hi hstage hfound =>
    exact h.move ⟨nofun, nofun, nofun, nofun, fun _ => hfound, nofun, (h.fits i s hi).replays⟩
  | @inserted _ i s hi hstage halone hfresh =>
    exact h.move
      ⟨fun _ => (h.fits i s hi).carries (.inl hstage), nofun, nofun, nofun, nofun, nofun, (h.fits i s hi).replays⟩
  | @guarded i s hi hstage halone hguard =>
    have hcarry := (h.fits i s hi).carries (.inr (by rw [hstage]; rfl))
    refine h.move ⟨fun _ => hcarry, fun hfirst => ?_, fun hrowed => ?_, nofun, nofun, nofun, (h.fits i s hi).replays⟩
    · have hnone : w.versions s.message.envelope.aggregate = none := Stage.guarded.inj hfirst
      simp only [baseline, hi, all_some, hstage, hnone] at hbaseline
      simpa using hbaseline
    · cases hfound : w.versions s.message.envelope.aggregate with
      | none =>
        rw [hfound] at hrowed
        cases hrowed
      | some m =>
        rw [hfound] at hguard
        exact version_of_apply hguard
  | @skipping _ i s hi hstage hguard =>
    -- The version is covered, so the event would have been found in the inbox.
    have hkeyed : s.stage.keyed = true := by rw [hstage]; rfl
    obtain ⟨hident, hpos⟩ := (h.fits i s hi).carries (.inr hkeyed)
    obtain ⟨m, hm, hle⟩ := version_of_skip hguard
    have hmem := h.covered _ m hm _ hpos hle
    rw [← hident] at hmem
    exact absurd hmem (hlocks.fresh i s hi hkeyed)
  | @versioned _ i s found hi hstage hrow =>
    have hkeyed : s.stage.keyed = true := by rw [hstage]; rfl
    have hcarry := (h.fits i s hi).carries (.inr hkeyed)
    refine h.move ⟨fun _ => hcarry, nofun, fun _ => ?_, nofun, nofun, nofun, (h.fits i s hi).replays⟩
    cases found with
    | some m => exact (h.fits i s hi).upNext (by rw [hstage]; rfl)
    | none =>
      have hone := (h.fits i s hi).first hstage
      cases hversions : w.versions s.message.envelope.aggregate with
      | none => exact hone
      | some m =>
        have hlt := (hrow rfl).2 m hversions
        show s.message.envelope.aggregateVersion = m + 1
        omega
  | ended hi => exact h.ended hi
  | @skipped _ i s told hi hstage => exact absurd hstage (h.fits i s hi).old
  | @enqueued _ i s reason hi hstage =>
    refine h.move ⟨nofun, nofun, nofun, nofun, nofun, fun reason' hexisting => ?_, (h.fits i s hi).replays⟩
    have hopen : (w.quarantine.any fun q => q.eventID == s.message.envelope.eventID && q.status == .open') = true :=
      (Stage.enqueued.inj hexisting).1
    obtain ⟨q, hq, hmatch⟩ := any_eq_true.mp hopen
    simp only [Bool.and_eq_true, beq_iff_eq] at hmatch
    exact .inr ⟨q, hq, hmatch⟩
  | @repeated _ i s told hi hstage =>
    have hfound := (h.fits i s hi).duplicate hstage
    exact ((h.ended hi).handled s.message).answer (.inl (by simpa using hfound)) (fun _ => by simpa using hfound)
      (by simpa using (h.fits i s hi).replays)
  | @applied _ i s told hi hstage =>
    have hmem : s.message.envelope.eventID ∈ ((w.move i s .ended).applied s.message.envelope).inbox := mem_cons_self
    exact ((h.applied hlocks hi hstage).handled s.message).answer (.inl (by simpa using hmem))
      (fun _ => by simpa using hmem) (by simpa using (h.fits i s hi).replays)
  | @quarantined _ i s existing reason told hi hstage =>
    have hended := h.ended hi
    cases existing with
    | true =>
      refine (hended.handled s.message).answer ?_ (fun hne => absurd hstage (hne true reason))
        (by simpa using (h.fits i s hi).replays)
      have hkept := (h.fits i s hi).existing reason hstage
      simpa [Kept] using hkept
    | false =>
      refine ((hended.entered s.message reason).handled s.message).answer ?_
        (fun hne => absurd hstage (hne false reason)) ?_
      · exact .inr ⟨⟨s.message.envelope.eventID, reason, s.message.source, s.message.offset, .open'⟩,
          by simp [ConsumerWorld.entered], rfl, rfl⟩
      · intro q hq
        obtain ⟨entry, hentry, hevent⟩ := (h.fits i s hi).replays q hq
        obtain ⟨entry', hentry', hsame⟩ := (grows_entered (w.move i s .ended) s.message reason).entries q entry hentry
        exact ⟨entry', by simpa using hentry', hsame.trans hevent⟩
  | closed hclosing => exact h.closed hclosing

end

end Complete

end Loss

theorem complete_initial (ident : Aggregate → Nat → String) : initial.Complete ident where
  fits i s hs := by simp [initial] at hs
  covered a m hm := by simp [initial] at hm
  closing q hq := by simp [initial] at hq
  replayed q hq := by simp [initial] at hq
  returned e he := by simp [initial] at he

end ConsumerWorld

open ConsumerWorld

/-- While every version row starts at version 1, an event for which `Process` returned is applied or in open quarantine,
and a replay closes an entry only after the effect of its event. -/
theorem delivered_kept (ident : Aggregate → Nat → String) (actions : List ConsumerAction)
    (hcarries : ∀ act ∈ actions, act.Carries ident)
    (hbaseline : Along next (fun w act => ConsumerWorld.baseline w act = true) initial actions) :
    let w := run next initial actions
    (∀ e ∈ w.returned, e ∈ w.inbox ∨ ∃ q ∈ w.quarantine, q.eventID = e ∧ q.status = .open') ∧
      ∀ q ∈ w.quarantine, q.status = .replayed → q.eventID ∈ w.inbox := by
  have hcomplete := invariant_of_along (hbaseline.and_mem hcarries)
    (I := fun w => ConsumerWorld.Sound w ∧ ConsumerWorld.Complete ident w)
    ⟨sound_initial, complete_initial ident⟩ (fun w act hact h =>
      ⟨h.1.next act, h.2.step h.1.locks hact.2 hact.1 (next_step w act)⟩)
  exact ⟨hcomplete.2.returned, hcomplete.2.replayed⟩

namespace Sample

def aggregate : Aggregate := ⟨"withdrawal_request", "w-1"⟩

/-- The first and the second event of one aggregate, delivered in this order. -/
def message (version : Nat) : Message :=
  ⟨⟨"events", 0⟩, version, ⟨if version = 1 then "e-1" else "e-2", aggregate, version⟩, none⟩

def applies (i : Nat) : List ConsumerAction := [.insert i, .read i, .effect i, .commit i true]

/-- Version 2 comes first and becomes the baseline; then version 1 is old. -/
def reordered : List ConsumerAction :=
  [.start (message 2) none] ++ applies 0 ++ [.start (message 1) none, .insert 1, .read 1, .skip 1 true]

/-- Version 1 is quarantined for a failing effect, version 2 is applied, and version 1 is replayed. -/
def replayed : List ConsumerAction :=
  [.start (message 1) none, .insert 0, .read 0, .abort 0, .quarantine (message 1) none .retryExhausted, .enqueue 1,
    .commit 1 true, .start (message 2) none] ++ applies 2 ++
    [.start (message 1) (some 0), .insert 3, .read 3, .skip 3 true, .close 0]

def inOrder : List ConsumerAction := [.start (message 1) none] ++ applies 0 ++ [.start (message 2) none] ++ applies 1

end Sample

open Sample

/-- Both ways an event gets lost without an error. -/
theorem early_version_lost :
    let w := run next initial reordered
    let w' := run next initial replayed
    w.returned = ["e-1", "e-2"] ∧ w.inbox = ["e-2"] ∧ w.quarantine = [] ∧
      w'.quarantine.map (fun q => (q.eventID, q.status)) = [("e-1", .replayed)] ∧ w'.inbox = ["e-2"] := by
  decide +kernel

theorem delivered_kept_in_order :
    let w := run next initial inOrder
    w.returned = ["e-2", "e-1"] ∧
      ∀ e ∈ w.returned, e ∈ w.inbox ∨ ∃ q ∈ w.quarantine, q.eventID = e ∧ q.status = .open' := by
  refine ⟨by decide +kernel, (delivered_kept (fun _ version => if version = 1 then "e-1" else "e-2") inOrder ?_
    (by decide +kernel)).1⟩
  simp [inOrder, applies, ConsumerAction.Carries, Message.Carries, message]

end TxHarbor.Events
