import TxHarbor.Signer.Payment

open Transition List Option Bool

namespace TxHarbor.Signer

open World Request

/-! The binding a signature is made for. The read of the binding answers with a class only, for the intent of the
request; nothing compares the nonce, the scope or the binding identity that the request claims. -/

/-- The row of a request names a binding of its intent that can still be used. -/
structure RequestRow.BoundTo (row : RequestRow) (b : Nonce.Binding) : Prop where
  intent : b.intentID = row.intentID
  live : Nonce.isTerminal b.state = false
  chainID : b.chainID = row.columns.chainID
  sender : b.sender = row.columns.sender
  nonce : b.nonce = row.columns.nonce
  bindingID : b.bindingID = row.bindingRef

namespace Sample

/-- A request for `intent-1`, whose binding has the nonce 0, that claims the nonce 5 and another binding. -/
def claimed : Request := { request with nonce := "5", bindingRef := "nb-b" }

end Sample

/-- The request is signed for the nonce it claims. -/
theorem unbound_nonce_signed :
    let w := run (next Sample.deps)
      (initial 0 Sample.nonces Sample.recovery Sample.grants Sample.scopes) (Sample.submit 0 Sample.claimed)
    (w.db.results.map fun r => (r.row, r.transaction.nonce)) = [(1, 5)] ∧
      (w.db.requests.map fun row => (row.id, row.intentID, row.bindingRef)) = [(1, "intent-1", "nb-b")] ∧
      (w.db.nonce.store.bindings.rows.map fun b => (b.intentID, b.bindingID, b.nonce)) = [("intent-1", "nb-a", 0)] := by
  decide +kernel

/-- The chain, the sender, the nonce and the reference of the request are those of the binding. -/
def Request.names (r : Request) (b : Nonce.Binding) : Bool :=
  b.chainID == int64 r.chainID && b.sender == lowerAddr r.sender && (decimalBig r.nonce).any (fun n : Nat => b.nonce == (n : Int)) &&
    b.bindingID == r.bindingRef

/-- At the read of the binding, the scope row is locked and the request names the binding of its intent. -/
def Action.namesBinding (w : World) : Action → Bool
  | .advance i _ => (w.sessions[i]?).all fun s =>
    match s.phase with
    | .recovered d => d.held && (Nonce.readBindingByIntentTx w.db.nonce.store s.req.intentID).all s.req.names
    | _ => true
  | _ => true

/-- The binding was read. -/
def Phase.pastBinding : Phase → Bool
  | .bound _ | .granted _ _ _ | .signed _ _ => true
  | _ => false

/-- What a submit knows of its row and its binding. -/
structure Session.Bound (nonces : Nonce.Store) (s : Session) : Prop where
  row : ∀ d, s.phase.draft? = some d → d.row.intentID = s.req.intentID ∧ d.row.bindingRef = s.req.bindingRef ∧
    s.req.columns = some d.row.columns
  result : ∀ d r, s.phase = .signed d r → r.row = d.row.id
  binding : s.phase.pastBinding = true → s.phase.holdsScope = true ∧ ∃ b ∈ nonces.bindings.rows,
    b.intentID = s.req.intentID ∧ Nonce.isTerminal b.state = false ∧ s.req.names b = true

variable {s : Session} {nonces : Nonce.Store} {deps : Deps} {db : Store} {others : List Session} {o : Session × Store}
  {w : World} {act : Action}

theorem Request.names_scope {b : Nonce.Binding} (h : s.req.names b = true) : b.toScope = s.scope := by
  simp only [names, and_eq_true, beq_iff_eq] at h
  rw [Session.scope, ← h.1.1.1, ← h.1.1.2]

/-- The row of a request that names a binding is bound to it. -/
theorem Session.Bound.boundTo {d : Draft} (h : s.Bound nonces) (hdraft : s.phase.draft? = some d)
    (hpast : s.phase.pastBinding = true) : ∃ b ∈ nonces.bindings.rows, d.row.BoundTo b := by
  obtain ⟨hintent, hreference, hcolumns⟩ := h.row d hdraft
  obtain ⟨-, b, hb, hbintent, hlive, hnames⟩ := h.binding hpast
  simp only [names, and_eq_true, beq_iff_eq] at hnames
  obtain ⟨⟨⟨hchain, hsender⟩, hnonce⟩, hid⟩ := hnames
  simp only [columns, bind_eq_bind, bind_eq_some_iff] at hcolumns
  obtain ⟨nonce, hdecimal, value, -, data, -, gasLimit, -, fees, -, amount, -, hcolumns⟩ := hcolumns
  rw [hdecimal, any_some, beq_iff_eq] at hnonce
  refine ⟨b, hb, hbintent.trans hintent.symm, hlive, ?_, ?_, ?_, hid.trans hreference.symm⟩
  · rwa [← some.inj hcolumns]
  · rwa [← some.inj hcolumns]
  · rwa [← some.inj hcolumns]

/-- A submit that has not read its binding. -/
theorem Session.Bound.before (hpast : s.phase.pastBinding = false)
    (hrow : ∀ d, s.phase.draft? = some d → d.row.intentID = s.req.intentID ∧ d.row.bindingRef = s.req.bindingRef ∧
      s.req.columns = some d.row.columns) : s.Bound nonces := by
  refine ⟨hrow, fun d r hphase => ?_, fun h => ?_⟩
  · rw [hphase] at hpast
    exact absurd hpast.symm false_ne_true
  · exact absurd (hpast.symm.trans h) false_ne_true

theorem Session.Moves.bound (h : s.Moves deps db others o) (hs : s.Bound db.nonce.store)
    (hnames : ∀ d, s.phase = .recovered d →
      (d.held && (Nonce.readBindingByIntentTx db.nonce.store s.req.intentID).all s.req.names) = true) :
    o.1.Bound o.2.nonce.store := by
  cases h with
  | stop | lock | anchor | reject | commit => exact .before rfl fun d hd => absurd hd.symm (some_ne_none d)
  | insert held anchor columns envelope _ hcolumns =>
    refine .before rfl fun d hd => ?_
    rw [← some.inj hd]
    exact ⟨rfl, rfl, hcolumns⟩
  | recover d hphase =>
    refine .before rfl fun d' hd' => hs.row d' ?_
    rwa [hphase]
  | bind d hphase hbinding =>
    obtain ⟨b, hb, hlive⟩ := readBinding_matches hbinding
    obtain ⟨hmem, hintent⟩ := Relational.Table.select_mem hb
    have hnamed := hnames d hphase
    rw [hb, all_some, and_eq_true] at hnamed
    refine ⟨fun d' hd' => hs.row d' ?_, fun d' r hsigned => ?_, fun _ => ⟨hnamed.1, b, hmem, beq_iff_eq.mp hintent, hlive,
      hnamed.2⟩⟩
    · rwa [hphase]
    · exact absurd (congrArg Phase.isSigned hsigned) false_ne_true
  | read d hphase =>
    refine ⟨fun d' hd' => hs.row d' ?_, fun d' r hsigned => ?_, fun _ => ?_⟩
    · rwa [hphase]
    · exact absurd (congrArg Phase.isSigned hsigned) false_ne_true
    · have hknown := hs.binding (by rw [hphase]; rfl)
      rw [hphase] at hknown
      exact hknown
  | sign d now transaction signature grant scope hphase =>
    refine ⟨fun d' hd' => hs.row d' ?_, fun d' r hsigned => ?_, fun _ => ?_⟩
    · rwa [hphase]
    · obtain ⟨rfl, rfl⟩ := Phase.signed.inj hsigned
      rfl
    · have hknown := hs.binding (by rw [hphase]; rfl)
      rw [hphase] at hknown
      exact hknown

/-- No statement of a submit writes the tables of the nonces. -/
theorem Session.Moves.nonce (h : s.Moves deps db others o) : o.2.nonce = db.nonce := by
  cases h <;> rfl

def World.Bound (w : World) : Prop := ∀ s ∈ w.sessions, s.Bound w.db.nonce.store

theorem World.Bound.next (h : w.Bound) (hact : act.namesBinding w = true) : (w.next deps act).Bound := by
  have hstep := w.next_steps deps act
  generalize w.next deps act = w' at hstep
  cases hstep with
  | outside now nonce recovery grants scopes hnonce =>
    intro s hs
    have hknown := h s hs
    rcases hnonce with rfl | ⟨nonceAct, rfl, hfree⟩
    · exact hknown
    · refine ⟨hknown.row, hknown.result, fun hpast => ?_⟩
      obtain ⟨hheld, b, hb, hintent, hlive, hnames⟩ := hknown.binding hpast
      -- the scope of the binding is the one this submit has locked
      refine ⟨hheld, b, w.db.nonce.next_kept hb ?_, hintent, hlive, hnames⟩
      rw [names_scope hnames]
      exact hfree s hs hheld
  | begin callerID req hvalid =>
    intro s hs
    rcases mem_concat_cases hs with hs | rfl
    · exact h s hs
    · exact .before rfl fun d hd => absurd hd.symm (some_ne_none d)
  | statement i s o hstatement hs hmove =>
    intro s' hs'
    change s'.Bound o.2.nonce.store
    rcases mem_or_eq_of_mem_set hs' with hold | rfl
    · rw [hmove.nonce]
      exact h s' hold
    · rcases hstatement with ⟨ans, rfl⟩ | ⟨reply, rfl⟩
      · refine hmove.bound (h s (mem_of_getElem? hs)) fun d hphase => ?_
        rw [Action.namesBinding, hs, all_some, hphase] at hact
        exact hact
      · exact .before rfl fun d hd => absurd hd.symm (some_ne_none d)

/-- A signature is added by the COMMIT of the submit that made it. -/
theorem World.Steps.committed {w' : World} {r : SignatureResult} (hstep : w.Steps deps act w')
    (hresult : w'.db.results = w.db.results ++ [r]) :
    ∃ s ∈ w.sessions, ∃ d, s.phase = .signed d r ∧ w'.db.nonce = w.db.nonce ∧
      w'.db.requests = w.db.requests ++ [{ d.row with state := .signed }] := by
  have hsame : w.db.results ≠ w.db.results ++ [r] := by
    intro h
    have hlength := congrArg List.length h
    rw [length_append, length_singleton] at hlength
    omega
  cases hstep with
  | outside | begin => exact absurd hresult hsame
  | statement i s o _ hs hmove =>
    cases hmove with
    | commit d result reply hphase =>
      have hlast := append_cancel_left hresult
      obtain rfl : result = r := singleton_inj.mp hlast
      exact ⟨s, mem_of_getElem? hs, d, hphase, rfl, rfl⟩
    | _ => exact absurd hresult hsame

/-- If every submit names the binding of its intent, under the lock of its scope, when it reads it, then at every new
signature the stored request is bound: the binding of its intent is there, is not terminal, and has its chain, sender,
nonce and identity. -/
theorem signature_for_bound_nonce {deps : Deps} {now : Int} {nonce : Nonce.World} {recovery : Int → RecoveryGate}
    {grants : String → Option AuthzGrant} {scopes : String → Option GrantScope} {actions : List Action}
    (hnames : Along (next deps) (fun w act => act.namesBinding w = true)
      (initial now nonce recovery grants scopes) actions) (act : Action) {r : SignatureResult}
    (hresult : ((run (next deps) (initial now nonce recovery grants scopes) actions).next deps act).db.results =
      (run (next deps) (initial now nonce recovery grants scopes) actions).db.results ++ [r]) :
    ∃ row ∈ ((run (next deps) (initial now nonce recovery grants scopes) actions).next deps
        act).db.requests, row.id = r.row ∧
      ∃ b ∈ ((run (next deps) (initial now nonce recovery grants scopes) actions).next deps
        act).db.nonce.store.bindings.rows, row.BoundTo b := by
  have hbound : (run (next deps) (initial now nonce recovery grants scopes) actions).Bound :=
    invariant_of_along hnames (fun _ => nofun) fun w act hact hw => hw.next hact
  generalize run (next deps) (initial now nonce recovery grants scopes) actions = w at *
  obtain ⟨s, hs, d, hphase, hnonce, hrequests⟩ := (w.next_steps deps act).committed hresult
  have hknown := hbound s hs
  obtain ⟨b, hb, hrow⟩ := hknown.boundTo (d := d) (by rw [hphase]; rfl) (by rw [hphase]; rfl)
  refine ⟨{ d.row with state := .signed }, ?_, (hknown.result d r hphase).symm, b, ?_, ?_⟩
  · rw [hrequests]
    exact mem_append_right _ (mem_singleton.mpr rfl)
  · rwa [hnonce]
  · exact ⟨hrow.intent, hrow.live, hrow.chainID, hrow.sender, hrow.nonce, hrow.bindingID⟩

namespace Sample

/-- The statements of a submit up to its COMMIT. -/
def approach (req : Request) : List Action := .submit 1 req :: List.replicate 7 (.advance 0 {})

def signed : SignatureResult where
  row := 1
  authorizationID := "auth-1"
  transaction := ⟨1, sender, 0, 2, token, 0,
    transferSelector ++ List.replicate 31 0 ++ [0xbb] ++ List.replicate 31 0 ++ [7], 100000, .dynamicFee 10 2⟩
  signature := 0
  grant := ⟨1, 1, token, recipient, 7, .active, none⟩
  scope := ⟨"auth-1", "intent-1", "request-1", sender, ⟨10000000, 100, 50⟩, true, 1⟩

end Sample

theorem signature_for_bound_nonce_first :
    let w := (run (next Sample.deps)
      (initial 0 Sample.nonces Sample.recovery Sample.grants Sample.scopes) (Sample.approach Sample.request)).next
        Sample.deps (.advance 0 {})
    ∃ row ∈ w.db.requests, row.id = 1 ∧ ∃ b ∈ w.db.nonce.store.bindings.rows, row.BoundTo b :=
  signature_for_bound_nonce (by decide +kernel) (.advance 0 {}) (show _ = _ ++ [Sample.signed] by decide +kernel)

end TxHarbor.Signer
