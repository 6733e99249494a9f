import TxHarbor.Signer.Submit

open Transition List Option Bool

namespace TxHarbor.Signer

/-! One grant, one payment: the transactions signed under one authorization differ in their fees only. -/

/-! ### The unique keys -/

/-- The two rows may stand in one table. -/
def RequestRow.Apart (a b : RequestRow) : Prop := ∀ key, a.shares b key = false

open RequestRow

theorem RequestRow.Apart.symm {a b : RequestRow} (h : a.Apart b) : b.Apart a := by
  intro key
  have hkey := h key
  cases key with
  | callerRequest =>
    simp only [shares] at hkey ⊢
    rwa [beq_comm, beq_comm (a := b.signingRequestID)]
  | attempt =>
    simp only [shares] at hkey ⊢
    rwa [beq_comm]
  | authorizationAnchor =>
    simp only [shares] at hkey ⊢
    rwa [Bool.beq_comm, Bool.and_right_comm]

instance : Std.Symm RequestRow.Apart := ⟨fun _ _ h => h.symm⟩

variable {rows : List RequestRow}

theorem apart_of_violated {row : RequestRow} (h : violated rows row = none) : ∀ r ∈ rows, r.Apart row := by
  intro r hr key
  have hfree := find?_eq_none.mp h key (UniqueKey.mem_all key)
  by_contra hshares
  exact hfree (any_eq_true.mpr ⟨r, hr, not_eq_false _ ▸ hshares⟩)

/-- Two anchors of one authorization are one row. -/
theorem eq_of_anchors (hrows : rows.Pairwise RequestRow.Apart) {a b : RequestRow} (ha : a ∈ rows)
    (hb : b ∈ rows) (hanchor : a.replacementOf = none ∧ b.replacementOf = none)
    (hauthorization : a.authorizationID = b.authorizationID) : a = b := by
  by_contra hne
  have hapart : a.Apart b := hrows.forall ha hb hne
  have hkey := hapart .authorizationAnchor
  rw [shares, hauthorization, hanchor.1, hanchor.2, beq_self_eq_true] at hkey
  cases hkey

open Session

/-- What one statement does to the rows and the keys of its transaction. -/
theorem Session.Moves.keys {s : Session} {deps : Deps} {db : Store} {others : List Session} {o : Session × Store}
    (h : s.Moves deps db others o) :
    o.2.requests = db.requests ∧ (o.1.pending = s.pending ∨ o.1.pending = none) ∨
      (∃ row, o.2.requests = db.requests ∧ o.1.pending = some row ∧ (∀ r ∈ db.requests, r.Apart row) ∧
        ∀ r ∈ others.filterMap pending, r.Apart row) ∨
      ∃ d state, s.phase.draft? = some d ∧ o.1.pending = none ∧
        o.2.requests = db.requests ++ [{ d.row with state := state }] := by
  cases h with
  | stop => exact .inl ⟨rfl, .inr rfl⟩
  -- these statements pass the row of the transaction on
  | lock hphase | anchor _ hphase | recover _ hphase | bind _ hphase | read _ hphase | sign _ _ _ _ _ _ hphase =>
    refine .inl ⟨rfl, .inl ?_⟩
    rw [pending, pending, hphase]
    rfl
  | insert held anchor columns envelope _ _ hpending hcommitted =>
    exact .inr (.inl ⟨_, rfl, rfl, apart_of_violated hcommitted, apart_of_violated hpending⟩)
  | reject d class' hphase => exact .inr (.inr ⟨d, _, hphase, rfl, rfl⟩)
  | commit d result reply hphase => exact .inr (.inr ⟨d, _, by rw [hphase]; rfl, rfl, rfl⟩)

section

variable {l : List Session} {i : Nat} {s : Session}

theorem pending_perm (hs : l[i]? = some s) :
    (l.filterMap pending).Perm (s.pending.toList ++ (l.eraseIdx i).filterMap pending) := by
  obtain ⟨hi, rfl⟩ := List.getElem?_eq_some_iff.mp hs
  have hperm := (getElem_cons_eraseIdx_perm hi).symm.filterMap pending
  refine hperm.trans (List.Perm.of_eq ?_)
  cases hpending : (l[i]).pending with
  | none => simp [hpending]
  | some row => simp [hpending]

theorem pending_set_perm (hs : l[i]? = some s) (s' : Session) :
    ((l.set i s').filterMap pending).Perm (s'.pending.toList ++ (l.eraseIdx i).filterMap pending) := by
  obtain ⟨hi, -⟩ := List.getElem?_eq_some_iff.mp hs
  have hset : (l.set i s')[i]? = some s' := by
    rw [getElem?_set_self hi]
  have hperm := pending_perm hset
  rwa [eraseIdx_set_eq] at hperm

/-- The committed rows and those of the open transactions stay apart. -/
theorem Session.Moves.distinct {deps : Deps} {db : Store} {o : Session × Store}
    (hs : l[i]? = some s) (h : s.Moves deps db (l.eraseIdx i) o)
    (hdistinct : (db.requests ++ l.filterMap pending).Pairwise RequestRow.Apart) :
    (o.2.requests ++ (l.set i o.1).filterMap pending).Pairwise RequestRow.Apart := by
  have hsymm : ∀ {a b : RequestRow}, a.Apart b → b.Apart a := fun h => h.symm
  have hold : (db.requests ++ (s.pending.toList ++ (l.eraseIdx i).filterMap pending)).Pairwise RequestRow.Apart :=
    (List.Perm.pairwise_iff hsymm ((pending_perm hs).append_left db.requests)).mp hdistinct
  refine (List.Perm.pairwise_iff hsymm ((pending_set_perm hs o.1).append_left o.2.requests)).mpr ?_
  rcases h.keys with ⟨hrequests, hpending⟩ | ⟨row, hrequests, hpending, hcommitted, hothers⟩ | ⟨d, state, hdraft, hpending, hrequests⟩
  · rw [hrequests]
    rcases hpending with hsame | hnone
    · rwa [hsame]
    · rw [hnone]
      exact hold.sublist ((sublist_append_right _ _).append_left db.requests)
  · rw [hrequests, hpending]
    have hrest := hold.sublist ((sublist_append_right s.pending.toList _).append_left db.requests)
    obtain ⟨hrows, hopen, hbetween⟩ := pairwise_append.mp hrest
    refine pairwise_append.mpr ⟨hrows, pairwise_cons.mpr ⟨fun r hr => (hothers r hr).symm, hopen⟩, ?_⟩
    intro r hr r' hr'
    rcases mem_cons.mp hr' with rfl | hr'
    · exact hcommitted r hr
    · exact hbetween r hr r' hr'
  · rw [hrequests, hpending, toList_none, nil_append, append_assoc]
    have hown : s.pending = some d.row := by rw [pending, hdraft]; rfl
    rw [hown] at hold
    obtain ⟨hrows, hopen, hbetween⟩ := pairwise_append.mp hold
    obtain ⟨hrow, hothers⟩ := pairwise_cons.mp hopen
    -- the state of a row is in no key
    refine pairwise_append.mpr ⟨hrows, pairwise_cons.mpr ⟨fun r hr key => hrow r hr key, hothers⟩, ?_⟩
    intro r hr r' hr'
    rcases mem_cons.mp hr' with rfl | hr'
    · exact fun key => hbetween r hr d.row mem_cons_self key
    · exact hbetween r hr r' (mem_cons_of_mem _ hr')

end

/-! ### What a transaction knows -/

/-- The signed transaction is the transfer of its grant, within the caps of its scope unless these are all zero. -/
structure SignatureResult.Transfers (r : SignatureResult) : Prop where
  value : r.transaction.value = 0
  asset : r.transaction.toAddr = lowerAddr r.grant.asset
  payment : decodeTransfer r.transaction.data = some (lowerAddr r.grant.recipient, r.grant.amount)
  fees : r.scope.caps.unconstrained = true ∨ r.scope.caps.Covers r.transaction.gasLimit r.transaction.fees

/-- A committed row that replaces nothing. -/
structure RequestRow.AnchorOf (requests : List RequestRow) (authorizationID : String) (a : RequestRow) : Prop where
  committed : a ∈ requests
  first : a.replacementOf = none
  authorization : a.authorizationID = authorizationID

structure Session.Sound (deps : Deps) (db : Store) (s : Session) : Prop where
  valid : validate deps.checksum s.req = none
  anchor : ∀ a, s.phase.anchor? = some a → a.AnchorOf db.requests s.req.authorizationID
  draft : ∀ d, s.phase.draft? = some d → d.row.authorizationID = s.req.authorizationID ∧
    d.row.replacementOf = d.anchor.map RequestRow.id ∧ s.req.columns = some d.row.columns
  signed : ∀ d r, s.phase = .signed d r → r.authorizationID = s.req.authorizationID ∧ r.Transfers ∧
    r.transaction.Pays (d.anchor.getD d.row).columns

def Phase.isSigned : Phase → Bool
  | .signed _ _ => true
  | _ => false

namespace Session

variable {s : Session} {deps : Deps} {db db' : Store} {others : List Session} {o : Session × Store}

/-- Committed rows stay. -/
theorem Sound.grows (h : s.Sound deps db) (hrequests : ∀ r ∈ db.requests, r ∈ db'.requests) : s.Sound deps db' :=
  ⟨h.valid, fun a ha => ⟨hrequests a (h.anchor a ha).committed, (h.anchor a ha).first, (h.anchor a ha).authorization⟩,
    h.draft, h.signed⟩

/-- A transaction without an anchor and a row. -/
theorem Sound.empty (hvalid : validate deps.checksum s.req = none) (hanchor : s.phase.anchor? = none)
    (hdraft : s.phase.draft? = none) : s.Sound deps db := by
  refine ⟨hvalid, fun a ha => ?_, fun d hd => ?_, fun d r hphase => ?_⟩
  · exact absurd (ha.symm.trans hanchor) (some_ne_none a)
  · exact absurd (hd.symm.trans hdraft) (some_ne_none d)
  · rw [hphase] at hdraft
    exact absurd hdraft (some_ne_none d)

theorem Sound.finish (h : s.Sound deps db) (reply : Reply) : (s.goto (.done reply)).Sound deps db :=
  .empty h.valid rfl rfl

/-- The transaction goes on with the row it has inserted. -/
theorem Sound.onward {next : Phase} {d : Draft} (h : s.Sound deps db) (hdraft : s.phase.draft? = some d)
    (hanchor : s.phase.anchor? = d.anchor) (hnext : next.draft? = some d) (hnextAnchor : next.anchor? = d.anchor)
    (hsigned : next.isSigned = false) : (s.goto next).Sound deps db := by
  refine ⟨h.valid, fun a ha => h.anchor a ?_, fun d' hd' => h.draft d' ?_, fun d' r hphase => ?_⟩
  · rwa [hanchor, ← hnextAnchor]
  · rwa [hdraft, ← hnext]
  · rw [show next = .signed d' r from hphase] at hsigned
    exact absurd hsigned.symm false_ne_true

/-- The tests before the signature make the payment. -/
theorem Sound.payment {d : Draft} {now : Int} {transaction : Transaction} {signature : Nat} {grant : AuthzGrant}
    {scope : GrantScope} (h : s.Sound deps db) (hcanonical : ∀ row ∈ db.requests, row.columns.Canonical)
    (hphase : s.phase = .granted d (some grant) (some scope))
    (hpassed : s.refusal deps now d (some grant) (some scope) = none) (htransaction : s.req.transaction = some transaction) :
    SignatureResult.Transfers ⟨d.row.id, s.req.authorizationID, transaction, signature, grant, scope⟩ ∧
      transaction.Pays (d.anchor.getD d.row).columns := by
  simp only [refusal, orElse_eq_none] at hpassed
  obtain ⟨hgrant, hreuse, hscope, -⟩ := hpassed
  obtain ⟨g, hg, hasset, hrecipient, hamount⟩ := evaluateGrant_eq_none hgrant
  obtain ⟨g', hg', hcaps⟩ := evaluateGrantScopeBoundIdentity_eq_none hscope htransaction
  cases hg
  cases hg'
  obtain ⟨hvalue, hto, amount, hamount', hdata⟩ := validate_transfer h.valid htransaction
  cases hamount.symm.trans hamount'
  refine ⟨⟨hvalue, hto.trans hasset.symm, by rw [hdata, hrecipient], hcaps⟩, ?_⟩
  cases hanchor : d.anchor with
  | none =>
    exact Request.transaction_pays htransaction (h.draft d (by rw [hphase]; rfl)).2.2
  | some a =>
    rw [hanchor, bind_some, orElse_eq_none] at hreuse
    have hknown := h.anchor a (by rwa [hphase])
    exact evaluateAnchorBinding_pays (hcanonical a hknown.committed) hreuse.2 htransaction

theorem Moves.sound (hs : s.Sound deps db) (hcanonical : ∀ row ∈ db.requests, row.columns.Canonical)
    (h : s.Moves deps db others o) : o.1.Sound deps o.2 := by
  cases h with
  | stop reply => exact hs.finish reply
  | lock => exact .empty hs.valid rfl rfl
  | anchor held hphase =>
    refine ⟨hs.valid, fun a ha => ?_, fun d hd => absurd hd.symm (some_ne_none d), fun d r hphase' => ?_⟩
    swap
    · exact absurd (congrArg Phase.isSigned hphase') false_ne_true
    have hfound : s.findAnchorRow db.requests = some a := ha
    have hprops := find?_some hfound
    simp only [and_eq_true, beq_iff_eq] at hprops
    exact ⟨mem_of_find?_eq_some hfound, isNone_iff_eq_none.mp hprops.1.2, hprops.1.1.2⟩
  | insert held anchor columns envelope hphase hcolumns =>
    refine ⟨hs.valid, fun a ha => hs.anchor a ?_, fun d hd => ?_, fun d r hphase' => ?_⟩
    · rwa [hphase]
    · rw [← some.inj hd]
      exact ⟨rfl, rfl, hcolumns⟩
    · exact absurd (congrArg Phase.isSigned hphase') false_ne_true
  | recover d hphase | bind d hphase | read d hphase =>
    exact hs.onward (by rw [hphase]; rfl) (by rw [hphase]; rfl) rfl rfl rfl
  | sign d now transaction signature grant scope hphase hpassed htransaction =>
    obtain ⟨htransfers, hpays⟩ := hs.payment hcanonical hphase hpassed htransaction
    refine ⟨hs.valid, fun a ha => hs.anchor a ?_, fun d' hd' => hs.draft d' ?_, ?_⟩
    · rwa [hphase]
    · rwa [hphase]
    · intro d' r hphase'
      obtain ⟨rfl, rfl⟩ := Phase.signed.inj hphase'
      exact ⟨rfl, htransfers, hpays⟩
  | reject d class' | commit d result reply => exact (hs.finish _).grows fun r hr => mem_append_left _ hr

/-- Committed rows are never changed. -/
theorem Moves.requests_grow (h : s.Moves deps db others o) : ∀ r ∈ db.requests, r ∈ o.2.requests := by
  cases h with
  | reject | commit => exact fun r hr => mem_append_left _ hr
  | _ => exact fun r hr => hr

end Session

/-! ### Histories -/

structure World.Sound (deps : Deps) (w : World) : Prop where
  sessions : ∀ s ∈ w.sessions, s.Sound deps w.db
  distinct : (w.db.requests ++ w.sessions.filterMap Session.pending).Pairwise RequestRow.Apart
  canonical : ∀ row ∈ w.db.requests, row.columns.Canonical
  results : ∀ r ∈ w.db.results, r.Transfers ∧
    ∃ a : RequestRow, a.AnchorOf w.db.requests r.authorizationID ∧ r.transaction.Pays a.columns

section

variable {s : Session} {deps : Deps} {db : Store} {others : List Session} {o : Session × Store} (hs : s.Sound deps db)
  (h : s.Moves deps db others o)
include hs h

/-- The rows a statement adds have the columns of their request. -/
theorem Session.Moves.canonical (hcanonical : ∀ row ∈ db.requests, row.columns.Canonical) :
    ∀ row ∈ o.2.requests, row.columns.Canonical := by
  have hadded : ∀ (d : Draft) (state : RequestState), s.phase.draft? = some d →
      ∀ row ∈ db.requests ++ [{ d.row with state := state }], row.columns.Canonical := by
    intro d state hdraft row hrow
    rcases mem_concat_cases hrow with hrow | rfl
    · exact hcanonical row hrow
    · exact Request.columns_canonical (hs.draft d hdraft).2.2
  cases h with
  | reject d class' hphase => exact hadded d _ hphase
  | commit d result reply hphase => exact hadded d _ (by rw [hphase]; rfl)
  | _ => exact hcanonical

theorem Session.Moves.results {r : SignatureResult} (hr : r ∈ o.2.results) : r ∈ db.results ∨ r.Transfers ∧
      ∃ a : RequestRow, a.AnchorOf o.2.requests r.authorizationID ∧ r.transaction.Pays a.columns := by
  cases h with
  | commit d result reply hphase =>
    rcases mem_concat_cases hr with hr | rfl
    · exact .inl hr
    · obtain ⟨hauthorization, htransfers, hpays⟩ := hs.signed d r hphase
      obtain ⟨hrow, hreplacement, -⟩ := hs.draft d (by rw [hphase]; rfl)
      refine .inr ⟨htransfers, ?_⟩
      cases hanchor : d.anchor with
      | none =>
        -- the first use of the grant is its own anchor
        rw [hanchor] at hreplacement hpays
        exact ⟨{ d.row with state := .signed }, ⟨mem_append_right _ (mem_singleton.mpr rfl), hreplacement,
          hrow.trans hauthorization.symm⟩, hpays⟩
      | some a =>
        rw [hanchor] at hpays
        have hknown := hs.anchor a (by rwa [hphase])
        exact ⟨a, ⟨mem_append_left _ hknown.committed, hknown.first, hknown.authorization.trans hauthorization.symm⟩,
          hpays⟩
  | _ => exact .inl hr

end

theorem World.Sound.steps {deps : Deps} {w w' : World} {act : Action} (h : w.Sound deps) (hstep : w.Steps deps act w') :
    w'.Sound deps := by
  cases hstep with
  | outside => exact ⟨fun s hs => (h.sessions s hs).grows fun _ hr => hr, h.distinct, h.canonical, h.results⟩
  | begin callerID req hvalid =>
    refine ⟨fun s hs => ?_, ?_, h.canonical, h.results⟩
    · rcases mem_concat_cases hs with hs | rfl
      · exact h.sessions s hs
      · exact .empty hvalid rfl rfl
    · change (w.db.requests ++ List.filterMap pending (w.sessions ++ [_])).Pairwise RequestRow.Apart
      rw [filterMap_append, filterMap_cons_none rfl, filterMap_nil, append_nil]
      exact h.distinct
  | statement i s o _ hs hmove =>
    have hsession := h.sessions s (mem_of_getElem? hs)
    refine ⟨fun s' hs' => ?_, hmove.distinct hs h.distinct, hmove.canonical hsession h.canonical, fun r hr => ?_⟩
    · rcases mem_or_eq_of_mem_set hs' with hold | rfl
      · exact (h.sessions s' hold).grows hmove.requests_grow
      · exact hmove.sound hsession h.canonical
    · rcases hmove.results hsession hr with hold | hnew
      · obtain ⟨htransfers, a, ha, hpays⟩ := h.results r hold
        exact ⟨htransfers, a, ⟨hmove.requests_grow a ha.committed, ha.first, ha.authorization⟩, hpays⟩
      · exact hnew

open World

theorem World.sound_run (deps : Deps) (now : Int) (nonce : Nonce.World) (recovery : Int → RecoveryGate)
    (grants : String → Option AuthzGrant) (scopes : String → Option GrantScope) (actions : List Action) :
    (run (next deps) (initial now nonce recovery grants scopes) actions).Sound deps :=
  Reachable.invariant ⟨actions, rfl⟩ ⟨fun _ => nofun, List.Pairwise.nil, fun _ => nofun, fun _ => nofun⟩
    fun w act hw => hw.steps (w.next_steps deps act)

/-- In every history the transactions signed under one authorization agree in everything but the fees, and each one is
the transfer of the grant it was signed under, within the caps of the scope unless these are all zero. -/
theorem one_grant_one_payment (deps : Deps) (now : Int) (nonce : Nonce.World) (recovery : Int → RecoveryGate)
    (grants : String → Option AuthzGrant) (scopes : String → Option GrantScope) (actions : List Action) :
    let w := run (next deps) (initial now nonce recovery grants scopes) actions
    (∀ r ∈ w.db.results, ∀ r' ∈ w.db.results, r.authorizationID = r'.authorizationID →
        r.transaction.payment = r'.transaction.payment) ∧
      ∀ r ∈ w.db.results, r.Transfers := by
  intro w
  have hsound : w.Sound deps := World.sound_run deps now nonce recovery grants scopes actions
  refine ⟨fun r hr r' hr' hauthorization => ?_, fun r hr => (hsound.results r hr).1⟩
  obtain ⟨-, a, ha, hpays⟩ := hsound.results r hr
  obtain ⟨-, a', ha', hpays'⟩ := hsound.results r' hr'
  have hrows : w.db.requests.Pairwise RequestRow.Apart := hsound.distinct.sublist (sublist_append_left _ _)
  obtain rfl := eq_of_anchors hrows ha.committed ha'.committed ⟨ha.first, ha'.first⟩
    (ha.authorization.trans (hauthorization.trans ha'.authorization.symm))
  exact hpays.agree hpays'

/-- In every history the committed requests have canonical columns and no two of them share a unique key, and a result
belongs to a committed first use of its authorization. -/
theorem signed_requests_canonical (deps : Deps) (now : Int) (nonce : Nonce.World) (recovery : Int → RecoveryGate)
    (grants : String → Option AuthzGrant) (scopes : String → Option GrantScope) (actions : List Action) :
    let w := run (next deps) (initial now nonce recovery grants scopes) actions
    (∀ row ∈ w.db.requests, row.columns.Canonical) ∧ w.db.requests.Pairwise RequestRow.Apart ∧
      ∀ r ∈ w.db.results, ∃ a : RequestRow, a.AnchorOf w.db.requests r.authorizationID := by
  have hsound := World.sound_run deps now nonce recovery grants scopes actions
  refine ⟨hsound.canonical, hsound.distinct.sublist (sublist_append_left _ _), fun r hr => ?_⟩
  obtain ⟨-, a, ha, -⟩ := hsound.results r hr
  exact ⟨a, ha⟩

namespace Sample

/-! One wallet, one grant, and the binding of `intent-1` to the nonce 0. -/

def sender : String := "0x00000000000000000000000000000000000000aa"

def token : String := "0x00000000000000000000000000000000000000cc"

def recipient : String := "0x00000000000000000000000000000000000000bb"

def request : Request where
  signingRequestID := "request-1"
  attemptID := "attempt-1"
  intentID := "intent-1"
  bindingRef := "nb-a"
  recoveryVersion := 0
  chainID := 1
  sender := sender
  nonce := "0"
  txType := 2
  toAddr := token
  value := "0"
  data := ['0', 'x', 'a', '9', '0', '5', '9', 'c', 'b', 'b'] ++ List.replicate 62 '0' ++ ['b', 'b'] ++
    List.replicate 63 '0' ++ ['7']
  gasLimit := "100000"
  gasPrice := ""
  maxFeePerGas := "10"
  maxPriorityFeePerGas := "2"
  asset := token
  recipient := recipient
  amount := "7"
  authorizationID := "auth-1"

/-- The same payment with leading zeros and a higher fee, under a new identity. -/
def replacement : Request :=
  { request with signingRequestID := "request-2", attemptID := "attempt-2", nonce := "00", gasLimit := "0100000",
                 maxFeePerGas := "20" }

def deps : Deps where
  policy := ⟨[1], [sender], [token], [recipient], 1000, 200000, 100, 100, 100⟩
  checksum := fun _ => true

def nonces : Nonce.World := Nonce.Sample.after [Nonce.Sample.register, Nonce.Sample.allocate "intent-1" "a" "0x0" "0x0"]

def recovery : Int → RecoveryGate := fun _ => ⟨false, none, none, false⟩

def grants : String → Option AuthzGrant := fun id =>
  if id = "auth-1" then some ⟨1, 1, token, recipient, 7, .active, none⟩ else none

def scopes : String → Option GrantScope := fun id =>
  if id = "auth-1" then some ⟨"auth-1", "intent-1", "request-1", sender, ⟨10000000, 100, 50⟩, true, 1⟩ else none

/-- A submit with all its statements. -/
def submit (i : Nat) (req : Request) : List Action := .submit 1 req :: List.replicate 8 (.advance i {})

end Sample

open Sample

/-- A first use and its fee replacement are both signed, and pay the same. -/
theorem one_grant_one_payment_replaced :
    let w := run (next deps) (initial 0 nonces recovery grants scopes) (submit 0 request ++ submit 1 replacement)
    (w.db.results.map fun r => (r.authorizationID, r.transaction.fees)) =
        [("auth-1", .dynamicFee 10 2), ("auth-1", .dynamicFee 20 2)] ∧
      ∀ r ∈ w.db.results, ∀ r' ∈ w.db.results, r.authorizationID = r'.authorizationID →
        r.transaction.payment = r'.transaction.payment := by
  refine And.intro ?_ ?_
  · decide +kernel
  · exact (one_grant_one_payment deps 0 nonces recovery grants scopes (submit 0 request ++ submit 1 replacement)).1

end TxHarbor.Signer
