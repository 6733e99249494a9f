import TxHarbor.Withdrawal.Ledger

/-!
# Revocation is final and visible

Whoever changes a grant or its scope holds the grant row, so each change is made to the row that was read. Grants are
created with their scopes, their terms are never rewritten, nothing makes an inactive grant active, and every revoke that
takes effect moves the version of the scope.
-/

open Transition Bool

namespace TxHarbor.Withdrawal

open Session

namespace Ledger

/-- What a transaction has read stays true while it holds the row. -/
structure Fits (w : Ledger) (s : Session) : Prop where
  creates : ∀ terms scope, s.stage = .written (.create terms scope) → w.grants s.job.authorizationID = none
  present : s.stage = .held ∨ s.stage = .written .bump ∨ s.stage.shared = true →
    ∃ g, w.grants s.job.authorizationID = some g
  revokes : s.stage = .written .revoke → ∃ g, w.grants s.job.authorizationID = some g ∧ g.state = .active
  valid : ∀ tCheck, s.stage = .checked tCheck ∨ s.stage = .inserted tCheck → ∃ row g, s.job = .accept row ∧
    w.grants row.authorizationID = some g ∧ g.validFor row tCheck = true ∧ (row.authorizationID, tCheck) ∈ w.reads

variable {w : Ledger} {s : Session}

theorem fits_free (hexclusive : s.stage.exclusive = false) (hshared : s.stage.shared = false) : w.Fits s where
  creates terms scope hstage := by rw [hstage] at hexclusive; cases hexclusive
  present hstage := by
    rcases hstage with hstage | hstage | hstage
    · rw [hstage] at hexclusive; cases hexclusive
    · rw [hstage] at hexclusive; cases hexclusive
    · exact absurd (hshared.symm.trans hstage) false_ne_true
  revokes hstage := by rw [hstage] at hexclusive; cases hexclusive
  valid tCheck hstage := by
    rcases hstage with hstage | hstage <;> rw [hstage] at hshared <;> cases hshared

theorem fits_unchecked (hstage : ∀ tCheck, s.stage ≠ .checked tCheck ∧ s.stage ≠ .inserted tCheck)
    (hcreates : ∀ terms scope, s.stage = .written (.create terms scope) → w.grants s.job.authorizationID = none)
    (hpresent : s.stage = .held ∨ s.stage = .written .bump ∨ s.stage.shared = true →
      ∃ g, w.grants s.job.authorizationID = some g)
    (hrevokes : s.stage = .written .revoke → ∃ g, w.grants s.job.authorizationID = some g ∧ g.state = .active) :
    w.Fits s :=
  ⟨hcreates, hpresent, hrevokes, fun tCheck h => (h.elim (hstage tCheck).1 (hstage tCheck).2).elim⟩

theorem Fits.congr {w' : Ledger} (h : w.Fits s)
    (hgrant : w'.grants s.job.authorizationID = w.grants s.job.authorizationID)
    (hreads : ∀ x ∈ w.reads, x ∈ w'.reads) : w'.Fits s where
  creates := hgrant.symm ▸ h.creates
  present := hgrant.symm ▸ h.present
  revokes := hgrant.symm ▸ h.revokes
  valid tCheck hstage := by
    obtain ⟨row, g, hjob, hg, hvalid, hread⟩ := h.valid tCheck hstage
    refine ⟨row, g, hjob, ?_, hvalid, hreads _ hread⟩
    rw [hjob] at hgrant
    exact hgrant.trans hg

structure Locks (w : Ledger) : Prop where
  alone : ∀ (i j : Nat) (s t : Session), w.sessions[i]? = some s → w.sessions[j]? = some t → s.stage.exclusive = true →
    t.stage.exclusive = true ∨ t.stage.shared = true → s.job.authorizationID = t.job.authorizationID → i = j
  fits : ∀ (i : Nat) (s : Session), w.sessions[i]? = some s → w.Fits s
  paired : ∀ a, w.grants a = none → w.scopes a = none

section Writes

variable {w : Ledger} {a b : String} {writes : Writes}

theorem grants_apply_ne (hb : b ≠ a) : (w.apply a writes).grants b = w.grants b := by
  cases writes with
  | audit => rfl
  | create terms scope => exact if_neg hb
  | bump => rfl
  | revoke => exact if_neg hb

theorem scopes_apply_ne (hb : b ≠ a) : (w.apply a writes).scopes b = w.scopes b := by
  cases writes with
  | audit => rfl
  | create terms scope => exact if_neg hb
  | bump => exact if_neg hb
  | revoke => exact if_neg hb

theorem sessions_apply : (w.apply a writes).sessions = w.sessions := by
  cases writes <;> rfl

theorem reads_apply : (w.apply a writes).reads = w.reads := by
  cases writes <;> rfl

end Writes

namespace Locks

variable {w : Ledger}

variable {i : Nat}

variable {stage : Stage}

section

variable (h : w.Locks)
include h

/-- A transaction enters a stage whose locks no other has. -/
theorem move (hfits : w.Fits { s with stage := stage }) (hexclusive : stage.exclusive = true →
      w.others i (fun t => t.excludes s.job.authorizationID || t.shares s.job.authorizationID) = false)
    (hshared : stage.shared = true → w.others i (·.excludes s.job.authorizationID) = false) :
    (w.move i s stage).Locks := by
  have hfree : ∀ (j : Nat) (t : Session), j ≠ i → w.sessions[j]? = some t → stage.exclusive = true →
      t.stage.exclusive = true ∨ t.stage.shared = true → t.job.authorizationID ≠ s.job.authorizationID := by
    intro j t hj ht hstage hholds heq
    have hnone := others_eq_false.mp (hexclusive hstage) j t hj ht
    rcases hholds with hholds | hholds <;> simp [excludes, shares, heq, hholds] at hnone
  have hfree' : ∀ (j : Nat) (t : Session), j ≠ i → w.sessions[j]? = some t → stage.shared = true →
      t.stage.exclusive = true → t.job.authorizationID ≠ s.job.authorizationID := by
    intro j t hj ht hstage hholds heq
    have hnone := others_eq_false.mp (hshared hstage) j t hj ht
    simp [excludes, heq, hholds] at hnone
  refine ⟨?_, ?_, h.paired⟩
  · intro k j t u ht hu hexcl hholds heq
    rcases getElem?_move ht with ⟨hk, hst⟩ | ⟨hk, htk⟩ <;> rcases getElem?_move hu with ⟨hj, hsu⟩ | ⟨hj, huj⟩
    · exact hk.trans hj.symm
    · subst hst
      exact absurd heq.symm (hfree j u hj huj hexcl hholds)
    · subst hsu
      rcases hholds with hholds | hholds
      · exact absurd heq (hfree k t hk htk hholds (.inl hexcl))
      · exact absurd heq (hfree' k t hk htk hholds hexcl)
    · exact h.alone k j t u htk huj hexcl hholds heq
  · intro j t ht
    rcases getElem?_move ht with ⟨-, rfl⟩ | ⟨-, ht⟩
    · exact { hfits with }
    · exact { h.fits j t ht with }

theorem moveFree (hexclusive : stage.exclusive = false) (hshared : stage.shared = false) : (w.move i s stage).Locks :=
  h.move (fits_free hexclusive hshared) (fun he => absurd (hexclusive.symm.trans he) false_ne_true)
    fun hs => absurd (hshared.symm.trans hs) false_ne_true

/-- A holder of the row excludes the others from it. -/
theorem others_of_exclusive (hi : w.sessions[i]? = some s) (hexclusive : s.stage.exclusive = true) :
    w.others i (fun t => t.excludes s.job.authorizationID || t.shares s.job.authorizationID) = false := by
  rw [others_eq_false]
  intro j t hj ht
  rw [eq_false_iff]
  intro hholds
  simp only [excludes, shares, or_eq_true, and_eq_true, beq_iff_eq] at hholds
  rcases hholds with ⟨heq, hholds⟩ | ⟨heq, hholds⟩
  · exact hj (h.alone i j s t hi ht hexclusive (.inl hholds) heq.symm).symm
  · exact hj (h.alone i j s t hi ht hexclusive (.inr hholds) heq.symm).symm

theorem others_of_shared (hi : w.sessions[i]? = some s) (hshared : s.stage.shared = true) :
    w.others i (·.excludes s.job.authorizationID) = false := by
  rw [others_eq_false]
  intro j t hj ht
  rw [eq_false_iff]
  intro hholds
  simp only [excludes, and_eq_true, beq_iff_eq] at hholds
  exact hj (h.alone j i t s ht hi hholds.2 (.inr hshared) hholds.1)

/-- A commit releases the row of its grant, so the locks of the others still fit. -/
theorem wrote {writes : Writes} (hi : w.sessions[i]? = some s) (hstage : s.stage = .written writes) :
    ((w.move i s .ended).apply s.job.authorizationID writes).Locks := by
  have hended : (w.move i s .ended).Locks := h.moveFree rfl rfl
  have hexclusive : writes ≠ .audit → s.stage.exclusive = true := by
    intro hwrites
    rw [hstage]
    cases writes with
    | audit => exact absurd rfl hwrites
    | _ => rfl
  refine ⟨by rw [sessions_apply]; exact hended.alone, ?_, ?_⟩
  · intro j t ht
    rw [sessions_apply] at ht
    have hfits := hended.fits j t ht
    by_cases hwrites : writes = .audit
    · subst hwrites
      exact hfits
    · by_cases heq : t.job.authorizationID = s.job.authorizationID
      · -- The row is held by the writer, so this transaction relies on nothing.
        rcases getElem?_move ht with ⟨-, rfl⟩ | ⟨hj, ht⟩
        · exact fits_free rfl rfl
        · refine fits_free ?_ ?_
          · rw [eq_false_iff]
            exact fun hholds => hj (h.alone i j s t hi ht (hexclusive hwrites) (.inl hholds) heq.symm).symm
          · rw [eq_false_iff]
            exact fun hholds => hj (h.alone i j s t hi ht (hexclusive hwrites) (.inr hholds) heq.symm).symm
      · exact hfits.congr (grants_apply_ne heq) fun x hx => by rwa [reads_apply]
  · intro a hnone
    by_cases ha : a = s.job.authorizationID
    · subst ha
      cases writes with
      | audit => exact h.paired _ hnone
      | create terms scope => simp [apply] at hnone
      | bump =>
        have hscope := hended.paired _ hnone
        simp [apply, bumped, hscope]
      | revoke =>
        simp only [apply, if_true, Option.map_eq_none_iff] at hnone
        have hscope := hended.paired _ hnone
        simp [apply, bumped, hscope]
    · rw [grants_apply_ne ha] at hnone
      rw [scopes_apply_ne ha]
      exact h.paired a hnone

/-- Every step keeps the lock discipline. -/
theorem step {w' : Ledger} (hstep : w.Step w') : w'.Locks := by
  cases hstep with
  | same => exact h
  | ticked elapsed => exact ⟨h.alone, fun j t ht => { h.fits j t ht with }, h.paired⟩
  | started job =>
    have hold : ∀ (j : Nat) (t : Session), (w.sessions ++ [⟨job, .begun⟩])[j]? = some t →
        t.stage.exclusive = true ∨ t.stage.shared = true → w.sessions[j]? = some t := by
      intro j t ht hholds
      rcases getElem?_append_eq_some ht with ht | ⟨-, rfl⟩
      · exact ht
      · rcases hholds with hholds | hholds <;> cases hholds
    refine ⟨fun i j s t hs ht hexcl hholds => h.alone i j s t (hold i s hs (.inl hexcl)) (hold j t ht hholds) hexcl
      hholds, fun j t ht => ?_, h.paired⟩
    rcases getElem?_append_eq_some ht with ht | ⟨-, rfl⟩
    · exact { h.fits j t ht with }
    · exact fits_free rfl rfl
  | freed hi hexclusive hshared => exact h.moveFree hexclusive hshared
  | held hi hpresent halone =>
    exact h.move (fits_unchecked (fun _ => ⟨(by rintro ⟨⟩), (by rintro ⟨⟩)⟩) (fun _ _ => (by rintro ⟨⟩)) (fun _ => hpresent) (by rintro ⟨⟩))
      (fun _ => halone) (by rintro ⟨⟩)
  | @creating i s terms scope hi habsent halone =>
    refine h.move (fits_unchecked (fun _ => ⟨(by rintro ⟨⟩), (by rintro ⟨⟩)⟩) (fun _ _ _ => habsent) ?_ (by rintro ⟨⟩)) (fun _ => ?_)
      (by rintro ⟨⟩)
    · rintro (hstage | hstage | hstage) <;> cases hstage
    -- A row that is not there is not shared either.
    rw [others_eq_false] at halone ⊢
    intro j t hj ht
    have hexcludes := halone j t hj ht
    rw [hexcludes, Bool.false_or, Bool.eq_false_iff]
    intro hshares
    simp only [shares, and_eq_true, beq_iff_eq] at hshares
    obtain ⟨g, hg⟩ := (h.fits j t ht).present (.inr (.inr hshares.2))
    rw [hshares.1, habsent] at hg
    cases hg
  | @bumping i s hi hstage =>
    have hexclusive : s.stage.exclusive = true := by rw [hstage]; rfl
    exact h.move (fits_unchecked (fun _ => ⟨(by rintro ⟨⟩), (by rintro ⟨⟩)⟩) (fun _ _ => (by rintro ⟨⟩))
      (fun _ => (h.fits i s hi).present (.inl hstage)) (by rintro ⟨⟩))
      (fun _ => h.others_of_exclusive hi hexclusive) (by rintro ⟨⟩)
  | @revoking i s g hi hstage hgrant hactive =>
    have hexclusive : s.stage.exclusive = true := by rw [hstage]; rfl
    exact h.move (fits_unchecked (fun _ => ⟨(by rintro ⟨⟩), (by rintro ⟨⟩)⟩) (fun _ _ => (by rintro ⟨⟩))
      (fun _ => ⟨g, hgrant⟩) fun _ => ⟨g, hgrant, hactive⟩)
      (fun _ => h.others_of_exclusive hi hexclusive) (by rintro ⟨⟩)
  | sharing hi hjob hpresent halone =>
    exact h.move (fits_unchecked (fun _ => ⟨(by rintro ⟨⟩), (by rintro ⟨⟩)⟩) (fun _ _ => (by rintro ⟨⟩)) (fun _ => hpresent) (by rintro ⟨⟩))
      (by rintro ⟨⟩) fun _ => halone
  | @checked i s row g hi hjob hstage hgrant hvalid =>
    have hshared : s.stage.shared = true := by rw [hstage]; rfl
    have hread : Locks { w with reads := (row.authorizationID, w.clock) :: w.reads } :=
      ⟨h.alone, fun j t ht => (h.fits j t ht).congr rfl fun x hx => List.mem_cons_of_mem _ hx, h.paired⟩
    refine hread.move (s := s) ⟨fun _ _ => (by rintro ⟨⟩), fun _ => (h.fits i s hi).present (.inr (.inr hshared)), (by rintro ⟨⟩), ?_⟩
      (by rintro ⟨⟩) fun _ => h.others_of_shared hi hshared
    intro tCheck htCheck
    rcases htCheck with htCheck | htCheck
    · cases htCheck
      exact ⟨row, g, hjob, hgrant, hvalid, List.mem_cons_self⟩
    · cases htCheck
  | @inserted i s row tCheck hi hjob hstage halone hfresh =>
    have hshared : s.stage.shared = true := by rw [hstage]; rfl
    refine h.move ⟨fun _ _ => (by rintro ⟨⟩), fun _ => (h.fits i s hi).present (.inr (.inr hshared)), (by rintro ⟨⟩), ?_⟩
      (by rintro ⟨⟩) fun _ => h.others_of_shared hi hshared
    intro tCheck' htCheck
    rcases htCheck with htCheck | htCheck
    · cases htCheck
    · cases htCheck
      exact (h.fits i s hi).valid tCheck (.inl hstage)
  | wrote hi hstage =>
    have hwrote := h.wrote hi hstage
    exact ⟨hwrote.alone, fun j t ht => { hwrote.fits j t ht with }, hwrote.paired⟩
  | accepted hi hjob hstage =>
    rename_i i s row tCheck
    have hended : (w.move i s .ended).Locks := h.moveFree rfl rfl
    exact ⟨hended.alone, fun j t ht => { hended.fits j t ht with }, hended.paired⟩

end

end Locks

theorem locks_initial (clock : Int) : (initial clock).Locks := ⟨by simp [initial], by simp [initial], fun _ _ => rfl⟩

/-- What becomes of a grant and its scope from one state to a later one. -/
structure Keeps (a : String) (w w' : Ledger) : Prop where
  grant : ∀ g, w.grants a = some g →
    ∃ g', w'.grants a = some g' ∧ g'.terms = g.terms ∧ (g.state ≠ .active → g'.state = g.state)
  scope : ∀ s, w.scopes a = some s → ∃ s', w'.scopes a = some s' ∧ s'.terms = s.terms ∧
    s.authorizationVersion ≤ s'.authorizationVersion
  revoke : ∀ g g' s s', w.grants a = some g → w'.grants a = some g' → w.scopes a = some s → w'.scopes a = some s' →
    g.state = .active → g'.state ≠ .active → s.authorizationVersion < s'.authorizationVersion
  absent : ∀ g, w.grants a = some g → w.scopes a = none → w'.scopes a = none

variable {a : String} {w' : Ledger}

theorem Keeps.of_eq (hgrants : w'.grants a = w.grants a) (hscopes : w'.scopes a = w.scopes a) : Keeps a w w' where
  grant g hg := ⟨g, hgrants.trans hg, rfl, fun _ => rfl⟩
  scope s hs := ⟨s, hscopes.trans hs, rfl, Nat.le_refl _⟩
  revoke g g' s s' hg hg' _ _ hactive hinactive := by
    rw [hgrants, hg] at hg'
    cases hg'
    exact absurd hactive hinactive
  absent _ _ hs := hscopes.trans hs

theorem Keeps.trans {w₁ w₂ w₃ : Ledger} (h : Keeps a w₁ w₂) (h' : Keeps a w₂ w₃) : Keeps a w₁ w₃ where
  grant g hg := by
    obtain ⟨g', hg', hterms, hstate⟩ := h.grant g hg
    obtain ⟨g'', hg'', hterms', hstate'⟩ := h'.grant g' hg'
    refine ⟨g'', hg'', hterms'.trans hterms, fun hinactive => ?_⟩
    have hsame := hstate hinactive
    exact (hstate' (hsame ▸ hinactive)).trans hsame
  scope s hs := by
    obtain ⟨s', hs', hterms, hle⟩ := h.scope s hs
    obtain ⟨s'', hs'', hterms', hle'⟩ := h'.scope s' hs'
    exact ⟨s'', hs'', hterms'.trans hterms, Nat.le_trans hle hle'⟩
  revoke g g'' s s'' hg hg'' hs hs'' hactive hinactive := by
    obtain ⟨g', hg', -, -⟩ := h.grant g hg
    obtain ⟨s', hs', -, hle⟩ := h.scope s hs
    obtain ⟨t, ht, -, hle'⟩ := h'.scope s' hs'
    cases hs''.symm.trans ht
    -- The revoke took effect in the first part or in the second.
    by_cases hmiddle : g'.state = .active
    · exact Nat.lt_of_le_of_lt hle (h'.revoke g' g'' s' s'' hg' hg'' hs' hs'' hmiddle hinactive)
    · exact Nat.lt_of_lt_of_le (h.revoke g g' s s' hg hg' hs hs' hactive hmiddle) hle'
  absent g hg hs := by
    obtain ⟨g', hg', -, -⟩ := h.grant g hg
    exact h'.absent g' hg' (h.absent g hg hs)

/-- What a holder of the row commits rewrites no terms and revives no inactive grant. -/
theorem keeps_apply {writes : Writes} (hfits : w.Fits s)
    (hpaired : w.grants s.job.authorizationID = none → w.scopes s.job.authorizationID = none)
    (hstage : s.stage = .written writes) : Keeps s.job.authorizationID w (w.apply s.job.authorizationID writes) := by
  cases writes with
  | audit => exact .of_eq rfl rfl
  | create terms scope =>
    have hnone := hfits.creates terms scope hstage
    have hscope := hpaired hnone
    exact
      { grant := fun g hg => absurd (hnone.symm.trans hg) nofun
        scope := fun t ht => absurd (hscope.symm.trans ht) nofun
        revoke := fun g g' t t' hg => absurd (hnone.symm.trans hg) nofun
        absent := fun g hg => absurd (hnone.symm.trans hg) nofun }
  | bump =>
    exact
      { grant := fun g hg => ⟨g, hg, rfl, fun _ => rfl⟩
        scope := fun t ht => ⟨{ t with authorizationVersion := t.authorizationVersion + 1 },
          by simp [apply, bumped, ht], rfl, Nat.le_succ _⟩
        revoke := fun g g' t t' hg hg' _ _ hactive hinactive => by
          rw [show (w.apply s.job.authorizationID .bump).grants = w.grants from rfl, hg] at hg'
          cases hg'
          exact absurd hactive hinactive
        absent := fun g _ ht => by simp [apply, bumped, ht] }
  | revoke =>
    obtain ⟨g₀, hg₀, hactive₀⟩ := hfits.revokes hstage
    exact
      { grant := fun g hg => by
          refine ⟨{ g with state := .revoked }, by simp [apply, hg], rfl, fun hinactive => ?_⟩
          cases hg₀.symm.trans hg
          exact absurd hactive₀ hinactive
        scope := fun t ht => ⟨{ t with authorizationVersion := t.authorizationVersion + 1 },
          by simp [apply, bumped, ht], rfl, Nat.le_succ _⟩
        revoke := fun g g' t t' _ _ ht ht' _ _ => by
          simp only [apply, bumped, if_true, ht, Option.map_some, Option.some.injEq] at ht'
          rw [← ht']
          exact Nat.lt_succ_self _
        absent := fun g _ ht => by simp [apply, bumped, ht] }

/-- No step rewrites the terms of a grant or revives one. -/
theorem keeps_step (h : w.Locks) (hstep : w.Step w') (a : String) : Keeps a w w' := by
  cases hstep with
  | @wrote i s writes hi hstage =>
    by_cases ha : a = s.job.authorizationID
    · subst ha
      have hkeeps := keeps_apply (h.fits i s hi) (h.paired _) hstage
      have hended : Keeps s.job.authorizationID (w.move i s .ended)
          ((w.move i s .ended).apply s.job.authorizationID writes) := by
        cases writes <;> exact { hkeeps with }
      exact { hended with }
    · exact .of_eq (grants_apply_ne ha) (scopes_apply_ne ha)
  | _ => exact .of_eq rfl rfl

theorem keeps_run (h : w.Locks) (a : String) (actions : List Action) : Keeps a w (run next w actions) := by
  induction actions generalizing w with
  | nil => exact .of_eq rfl rfl
  | cons act rest ih =>
    exact (keeps_step h (next_step w act) a).trans (ih (h.step (next_step w act)))

theorem locks_run (clock : Int) (actions : List Action) : (run next (initial clock) actions).Locks :=
  Reachable.invariant ⟨actions, rfl⟩ (locks_initial clock) fun w act h => h.step (next_step w act)

end Ledger

/-- From any reachable state on: grants keep their terms, an inactive one stays as it is, scopes keep their content and
their versions never fall, a grant without a scope never gets one, and between two states that an effective revoke
separates the version has grown. A scope never stands without its grant. -/
theorem revocation_final (clock : Int) (earlier later : List Action) (a : String) :
    let w := run Ledger.next (.initial clock) earlier
    let w' := run Ledger.next w later
    (∀ g, w.grants a = some g → ∃ g', w'.grants a = some g' ∧ g'.terms = g.terms ∧
        (g.state ≠ .active → g'.state = g.state)) ∧
      (∀ s, w.scopes a = some s → ∃ s', w'.scopes a = some s' ∧ s'.terms = s.terms ∧
        s.authorizationVersion ≤ s'.authorizationVersion) ∧
      (∀ g g' s s', w.grants a = some g → w'.grants a = some g' → w.scopes a = some s → w'.scopes a = some s' →
        g.state = .active → g'.state ≠ .active → s.authorizationVersion < s'.authorizationVersion) ∧
      (∀ g, w.grants a = some g → w.scopes a = none → w'.scopes a = none) ∧
      (w.grants a = none → w.scopes a = none) := by
  have hlocks := Ledger.locks_run clock earlier
  have hkeeps := Ledger.keeps_run hlocks a later
  exact ⟨hkeeps.grant, hkeeps.scope, hkeeps.revoke, hkeeps.absent, hlocks.paired a⟩

end TxHarbor.Withdrawal
