import TxHarbor.Lifecycle.Authorised

open Transition List Option Function

namespace TxHarbor.Lifecycle

open Execution (AttemptID)
open Signer (FeeCaps FeeShape feeScopeRefusal covers_of_feeScopeRefusal)

/-! The fees of a dispatched transaction and the caps of its grant. The caps are tested when a first broadcast is built,
when the signer approves, and at the gate of a replacement under the anchor's own grant. -/

/-! ### The caps of a grant do not move -/

/-- Every scope row stays, with its caps. -/
def GateTables.KeepsCaps (t t' : GateTables) : Prop :=
  ∀ id scope, t.scopes id = some scope → ∃ scope', t'.scopes id = some scope' ∧ scope'.caps = scope.caps

variable {t t' : GateTables} {c : Content} {db : Database} {s : Session}

theorem GateTables.KeepsCaps.of_eq (h : t'.scopes = t.scopes) : t.KeepsCaps t' := by
  intro id scope hscope
  rw [h]
  exact ⟨scope, hscope, rfl⟩

theorem Write.keepsCaps (x : Write) (t : GateTables) : t.KeepsCaps (x.apply t) := by
  cases x with
  | supplyScope id | bumpScope id =>
    intro id' scope hscope
    by_cases hid : id' = id
    · subst hid
      simp [Write.apply, hscope]
    · simp only [Write.apply, update_of_ne hid]
      exact ⟨scope, hscope, rfl⟩
  | _ => exact .of_eq rfl

theorem World.next_keepsCaps (w : World) (act : Action) : w.db.gates.KeepsCaps (w.next act).db.gates := by
  have hstep := w.next_steps act
  generalize w.next act = w' at hstep
  cases hstep with
  | idle | begin | pause => exact .of_eq rfl
  | statement i ans s o _ _ hmove => exact .of_eq (congrArg GateTables.scopes hmove.keeps.gates)
  | lifecycle db hkeeps => exact .of_eq (congrArg GateTables.scopes hkeeps.gates)
  | write x => exact x.keepsCaps w.db.gates

/-! ### First broadcasts -/

/-- The grant of a first broadcast has a scope with a fee constraint. -/
def GateTables.Constrains (t : GateTables) (c : Content) : Prop :=
  c.replacementOf = none → ∃ scope, t.scopes c.authorization = some scope ∧ scope.caps.unconstrained = false

/-- `constructFees` finds no fee under an all-zero scope. -/
theorem constructFees_constrained {gasLimit : Nat} {caps : FeeCaps} {fees : Nat × Nat}
    (h : constructFees gasLimit caps = some fees) : caps.unconstrained = false := by
  have hperGas : caps.perGas ≠ 0 := by
    intro hzero
    unfold constructFees at h
    rw [hzero, Nat.zero_min, ite_self, if_pos rfl] at h
    cases h
  unfold FeeCaps.unconstrained
  rw [beq_false_of_ne hperGas, Bool.and_false, Bool.false_and]

theorem constructFirst_constrains {content : Content} (h : constructFirst t content = some c) : t.Constrains c := by
  simp only [constructFirst, bind_eq_bind, bind_eq_some_iff] at h
  obtain ⟨scope, hscope, fees, hfees, hc⟩ := h
  cases hc
  exact fun _ => ⟨scope, hscope, constructFees_constrained hfees⟩

theorem constructReplacement_constrains {r : Replacement} (h : constructReplacement db r = some c) :
    t.Constrains c := by
  simp only [constructReplacement, bind_eq_bind, bind_eq_some_iff, ite_none_left_eq_some] at h
  obtain ⟨anchor, -, scope, -, -, hc⟩ := h
  cases hc
  exact nofun

theorem GateTables.Constrains.keeps (h : t.Constrains c) (hkeeps : t.KeepsCaps t') : t'.Constrains c := by
  intro hfirst
  obtain ⟨scope, hscope, hcaps⟩ := h hfirst
  obtain ⟨scope', hscope', hsame⟩ := hkeeps _ scope hscope
  exact ⟨scope', hscope', hsame ▸ hcaps⟩

/-! ### Signed transactions -/

/-- The scope of the grant covers the fees of a content, or sets no fee constraint. -/
def GateTables.Approves (t : GateTables) (c : Content) : Prop := ∃ scope, t.scopes c.authorization = some scope ∧
    (scope.caps.unconstrained = true ∨ scope.caps.Covers c.gasLimit c.fees)

theorem signerApproves_approves (h : signerApproves t c = true) : t.Approves c := by
  unfold signerApproves at h
  cases hscope : t.scopes c.authorization with
  | none =>
    rw [hscope] at h
    cases h
  | some scope =>
    rw [hscope, any_some, isNone_iff_eq_none] at h
    exact ⟨scope, hscope, covers_of_feeScopeRefusal h⟩

theorem GateTables.Approves.keeps (h : t.Approves c) (hkeeps : t.KeepsCaps t') : t'.Approves c := by
  obtain ⟨scope, hscope, hcaps⟩ := h
  obtain ⟨scope', hscope', hsame⟩ := hkeeps _ scope hscope
  exact ⟨scope', hscope', hsame ▸ hcaps⟩

variable {i : Nat} {now : Int} {others : List Session} {ans : Answer} {o : Outcome} {w : World}

/-- Only the signer's approval makes a signature. -/
theorem Session.Moves.signings (h : s.Moves i now db others ans o) : o.db.signings = db.signings ∨
      db.gates.Approves s.content ∧
        o.db.signings = Function.update db.signings s.attempt (some ⟨s.content, ans.signature⟩) := by
  cases h with
  | sign a _ _ _ _ happroved => exact .inr ⟨signerApproves_approves happroved, rfl⟩
  | observe => exact .inl (db.signings_reconcile _ _ _ _)
  | _ => exact .inl rfl

/-! ### Replacements -/

/-- The region is open: the grant of the anchor was read. -/
def Phase.opened : Phase → Bool
  | .gates _ _ => true
  | phase => phase.locksAttempt

/-- In an open region the grant of the anchor is the one of the anchor's row. -/
def Session.Anchored (db : Database) (s : Session) : Prop :=
  s.phase.opened = true → ∀ anchor, s.content.replacementOf = some anchor →
    ∃ b, db.attempts anchor = some b ∧ s.anchorAuthorization = some b.content.authorization

theorem Session.Anchored.keeps {db' : Database} (h : s.Anchored db)
    (hcontents : ∀ id a, db.attempts id = some a → ∃ a', db'.attempts id = some a' ∧ a'.content = a.content) :
    s.Anchored db' := by
  intro hopen anchor hanchor
  obtain ⟨b, hb, hauthorization⟩ := h hopen anchor hanchor
  obtain ⟨b', hb', hcontent⟩ := hcontents anchor b hb
  exact ⟨b', hb', hcontent ▸ hauthorization⟩

theorem Session.anchored_openRegion (s : Session) (db : Database) : (s.openRegion db).Anchored db := by
  unfold Session.openRegion
  split
  next hfirst =>
    intro _ anchor hanchor
    rw [show _ = none from hfirst] at hanchor
    cases hanchor
  next anchor hanchor =>
    split
    · exact nofun
    next b hb =>
      intro _ anchor' hanchor'
      obtain rfl : anchor = anchor' := some.inj (hanchor.symm.trans hanchor')
      exact ⟨b, hb, rfl⟩

theorem Session.Moves.anchored (h : s.Moves i now db others ans o) (hs : s.Anchored db) : o.session.Anchored o.db := by
  have honward : ∀ next, s.phase.opened = true → (s.goto next).Anchored db := fun next hopen _ => hs hopen
  cases h with
  | enter => exact s.anchored_openRegion db
  | observe _ _ next _ _ _ hnext =>
    rcases hnext with rfl | rfl
    · exact nofun
    · exact s.anchored_openRegion _
  | pass _ _ _ hphase | lock _ _ hphase | read _ _ hphase | check _ _ hphase | time _ _ _ hphase
  | dispatch _ _ _ _ hphase => exact honward _ (by rw [hphase]; rfl)
  | load next _ hnext => rcases hnext with rfl | ⟨_, rfl⟩ <;> exact nofun
  | record _ _ _ _ next _ _ _ hnext => rcases hnext with ⟨rfl, -⟩ | ⟨rfl, -⟩ <;> exact nofun
  | _ => exact nofun

/-! ### Histories -/

/-- First broadcasts have a constrained scope, signatures the signer's approval, and open regions the anchor's grant. -/
structure World.Priced (w : World) : Prop where
  firsts : w.Contents w.db.gates.Constrains
  signings : ∀ id raw, w.db.signings id = some raw →
    (∃ a, w.db.attempts id = some a ∧ a.content = raw.content) ∧ w.db.gates.Approves raw.content
  anchors : ∀ s ∈ w.sessions, s.Anchored w.db

theorem World.Priced.signings_kept (h : w.Priced) (hkeeps : w.db.Keeps db) {id : AttemptID} {raw : SignedTx}
    (hraw : w.db.signings id = some raw) :
    (∃ a, db.attempts id = some a ∧ a.content = raw.content) ∧ db.gates.Approves raw.content := by
  obtain ⟨⟨a, ha, hcontent⟩, happroved⟩ := h.signings id raw hraw
  obtain ⟨a', ha', hcontent'⟩ := hkeeps.contents id a ha
  refine ⟨⟨a', ha', hcontent'.trans hcontent⟩, ?_⟩
  rwa [hkeeps.gates]

theorem World.Priced.next (h : w.Priced) (hsound : w.Sound) (act : Action) : (w.next act).Priced := by
  have hfirsts : (w.next act).Contents (w.next act).db.gates.Constrains := by
    have hbefore : (w.next act).Contents w.db.gates.Constrains :=
      h.firsts.next act (fun _ _ _ _ hc _ => constructFirst_constrains hc)
        fun _ _ _ _ hc _ => constructReplacement_constrains hc
    exact fun id a ha => (hbefore id a ha).keeps (w.next_keepsCaps act)
  have hcaps := w.next_keepsCaps act
  have hstep := w.next_steps act
  generalize w.next act = w' at hstep hfirsts hcaps
  cases hstep with
  | idle => exact ⟨hfirsts, h.signings, h.anchors⟩
  | begin req a =>
    refine ⟨hfirsts, h.signings, fun s hs => ?_⟩
    rcases mem_concat_cases hs with hs | rfl
    · exact h.anchors s hs
    · exact nofun
  | lifecycle db hkeeps _ _ hsignings =>
    refine ⟨hfirsts, fun id raw hraw => ?_, fun s hs => (h.anchors s hs).keeps hkeeps.contents⟩
    exact h.signings_kept hkeeps (hsignings ▸ hraw)
  | write | pause =>
    exact ⟨hfirsts, fun id raw hraw => ⟨(h.signings id raw hraw).1, (h.signings id raw hraw).2.keeps hcaps⟩, h.anchors⟩
  | statement i ans s o _ hs hmove =>
    have hmem := mem_of_getElem? hs
    refine ⟨hfirsts, fun id raw hraw => ?_, fun s' hs' => ?_⟩
    · rcases hmove.signings with hsame | ⟨happroved, hsigned⟩
      · exact h.signings_kept hmove.keeps (hsame ▸ hraw)
      · change o.db.signings id = some raw at hraw
        rw [hsigned] at hraw
        by_cases hid : id = s.attempt
        · subst hid
          rw [update_self] at hraw
          cases hraw
          exact ⟨((hsound s hmem).keeps hmove.keeps).content, happroved.keeps hcaps⟩
        · rw [update_of_ne hid] at hraw
          exact h.signings_kept hmove.keeps hraw
    · rcases mem_or_eq_of_mem_set hs' with hold | rfl
      · exact (h.anchors s' hold).keeps hmove.keeps.contents
      · exact hmove.anchored (h.anchors s hmem)

/-- The content replaces an attempt under another grant than that attempt's. -/
def Database.FreshGrant (db : Database) (c : Content) : Prop :=
  ∃ anchor b, c.replacementOf = some anchor ∧ db.attempts anchor = some b ∧ b.content.authorization ≠ c.authorization

open World

/-- In every history that starts without attempts, the caps of its grant cover the fees of every dispatched transaction,
unless it is a replacement under a fresh grant whose scope is all zero. -/
theorem dispatch_covered {now : Int} {db : Database} {actions : List Action} (hattempts : ∀ id, db.attempts id = none)
    (hsignings : ∀ id, db.signings id = none) (act : Action) {call : Call}
    (hcall : ((run next (initial now db) actions).next act).calls =
      (run next (initial now db) actions).calls ++ [call]) :
    let w := run next (initial now db) actions
    ∃ a scope, w.db.attempts call.attempt = some a ∧ call.raw.content = a.content ∧
      w.db.gates.scopes a.content.authorization = some scope ∧ (scope.caps.Covers a.content.gasLimit a.content.fees ∨
        scope.caps.unconstrained = true ∧ w.db.FreshGrant a.content) := by
  intro w
  have hpriced : w.Sound ∧ w.Priced := by
    refine Reachable.invariant (I := fun w : World => w.Sound ∧ w.Priced) ⟨actions, rfl⟩ ?_ ?_
    · refine ⟨fun _ => nofun, fun id a ha => ?_, fun id raw hraw => ?_, fun _ => nofun⟩
      · rw [show (initial now db).db.attempts id = none from hattempts id] at ha
        cases ha
      · rw [show (initial now db).db.signings id = none from hsignings id] at hraw
        cases hraw
    · exact fun w act hw => ⟨hw.1.steps (w.next_steps act), hw.2.next hw.1 act⟩
  obtain ⟨hsound, hpriced⟩ := hpriced
  obtain ⟨s, hs, -, hattempt, sendSeq, hphase⟩ := (w.next_steps act).call hcall
  have hraw := (hsound s hs).raw call.raw (by rw [hphase]; rfl)
  obtain ⟨⟨a, ha, hcontent⟩, scope, hscope, hcaps⟩ := hpriced.signings _ _ hraw
  rw [← hcontent] at hscope hcaps
  refine ⟨a, scope, hattempt ▸ ha, hcontent.symm, hscope, ?_⟩
  rcases hcaps with hfree | hcovers
  swap
  · exact .inl hcovers
  cases hreplaced : a.content.replacementOf with
  | none =>
    -- a first broadcast is not built under an all-zero scope
    obtain ⟨scope', hscope', hconstrained⟩ := hpriced.firsts _ a ha hreplaced
    obtain rfl : scope = scope' := some.inj (hscope.symm.trans hscope')
    cases hfree.symm.trans hconstrained
  | some anchor =>
    obtain ⟨a', ha', hcontent'⟩ := (hsound s hs).content
    obtain rfl : a = a' := some.inj (ha.symm.trans ha')
    rw [hcontent'] at hreplaced hscope ⊢
    obtain ⟨b, hb, hauthorization⟩ := hpriced.anchors s hs (by rw [hphase]; rfl) anchor hreplaced
    by_cases hown : b.content.authorization = s.content.authorization
    · -- under the anchor's own grant the gate has tested the fees
      obtain ⟨_, -, -, hpassed⟩ := (hsound s hs).gates .fees (by rw [hphase]; rfl)
      obtain ⟨scope', hscope', -, hcovers⟩ :=
        feeRefusal_eq_none.mp hpassed (by rw [hreplaced]; rfl) (hauthorization.trans (congrArg some hown))
      obtain rfl : scope = scope' := some.inj (hscope.symm.trans hscope')
      exact .inl hcovers
    · exact .inr ⟨hfree, anchor, b, hreplaced, hb, hown⟩

open Sample

theorem dispatch_covered_first :
    let w := run next start (approach (own .initial))
    ∃ a scope, w.db.attempts ⟨1⟩ = some a ∧ sent.raw.content = a.content ∧
      w.db.gates.scopes a.content.authorization = some scope ∧ (scope.caps.Covers a.content.gasLimit a.content.fees ∨
        scope.caps.unconstrained = true ∧ w.db.FreshGrant a.content) :=
  dispatch_covered (fun _ => rfl) (fun _ => rfl) (.advance 0 willing) (show _ = _ ++ [sent] by decide +kernel)

namespace Sample

/-- A replacement of the first attempt under grant 2, whose scope is all zero. -/
def overpriced : List Action :=
  approach (own .initial) ++ [.advance 0 willing, .advance 0 willing, .replace ⟨2⟩ ⟨⟨1⟩, some 2, 1000000, 1, 0⟩,
    .send { own .initial with attempt := ⟨2⟩ }] ++ List.replicate 14 (.advance 1 willing)

end Sample

/-- The replacement is dispatched with a fee per gas of one million under a cap of zero. -/
theorem overpriced_dispatch :
    let w := run next start overpriced
    ((w.next (.advance 1 willing)).calls.map fun call =>
        (call.attempt, call.raw.content.authorization, call.raw.content.fees)) =
      (w.calls.map fun call => (call.attempt, call.raw.content.authorization, call.raw.content.fees)) ++
        [(⟨2⟩, 2, .dynamicFee 1000000 1)] ∧
      (w.db.gates.scopes 2).map GrantScope.caps = some ⟨0, 0, 0⟩ := by
  decide +kernel

end TxHarbor.Lifecycle
