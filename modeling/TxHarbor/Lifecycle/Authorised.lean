import TxHarbor.Lifecycle.Region

open Transition

namespace TxHarbor.Lifecycle

open Execution (AttemptID Probe)

/-! Every dispatch is authorised at the moment it is made, and the claim it presents is read under the caller's key. -/

/-- The rows that authorise the dispatch of a content, with the clock against which the grant was last tested. -/
structure GateTables.Authorises (t : GateTables) (a : Content) (checkedAt : Int) : Prop where
  unpaused : t.pauses a.chain = []
  recovered : t.recovery a.chain = none ∧ t.recoveryVersion a.chain = a.recoveryVersion
  bound : ∃ b, t.bindings a.binding = some b ∧ b.intent = a.intent ∧ b.chain = a.chain ∧ b.sender = a.sender ∧
    b.nonce = a.nonce ∧ (b.state = .allocated ∨ b.state = .inFlight)
  registered : t.registry a.chain a.sender = some .active ∧ t.holds a.chain a.sender = []
  granted : ∃ g, t.grants a.authorization = some g ∧ g.state = .active ∧ g.unexpired checkedAt = true ∧
    g.chain = a.chain ∧ g.asset = a.asset ∧ g.recipient = a.recipient ∧ g.amount = a.amount
  withinScope : ∃ scope, t.scopes a.authorization = some scope ∧ scope.intent = a.intent ∧ scope.sender = a.sender ∧
    scope.authorizationVersion = a.authorizationVersion

/-- The call sends the persisted bytes of an attempt that the gate tables authorise. -/
def World.Authorises (w : World) (call : Call) : Prop :=
  ∃ a, w.db.attempts call.attempt = some a ∧ w.db.gates.Authorises a.content call.checkedAt ∧
    call.checkedAt ≤ w.now ∧ w.db.signings call.attempt = some call.raw

theorem Session.Sound.authorises {s : Session} {now : Int} {db : Database} {sendSeq : Nat} {raw : SignedTx}
    {checkedAt dispatchedAt : Int} (h : s.Sound now db) (hphase : s.phase = .timed sendSeq raw checkedAt dispatchedAt) :
    db.gates.Authorises s.content checkedAt := by
  have hheld : ∀ g, s.phase.holds g = true := by
    rw [hphase]
    exact fun _ => rfl
  obtain ⟨_, -, -, hprotection⟩ := h.gates .protection (hheld _)
  obtain ⟨_, -, -, hbinding⟩ := h.gates .binding (hheld _)
  obtain ⟨_, -, -, hgrant⟩ := h.gates .grant (hheld _)
  obtain ⟨-, hunexpired⟩ := h.checked checkedAt (by rw [hphase]; rfl)
  obtain ⟨-, hpauses, hrecovery⟩ := protectionRefusal_eq_none.mp hprotection
  obtain ⟨b, hb, hintent, hchain, hsender, hnonce, hstate, hregistry, hholds⟩ := bindingRefusal_eq_none.mp hbinding
  obtain ⟨⟨g, hg, hactive, -, hgchain, hasset, hrecipient, hamount⟩, hscope⟩ := grantRefusal_eq_none.mp hgrant
  rw [hg, Option.all_some] at hunexpired
  exact ⟨hpauses, hrecovery, ⟨b, hb, hintent, hchain, hsender, hnonce, hstate⟩, ⟨hregistry, hholds⟩,
    ⟨g, hg, hactive, hunexpired, hgchain, hasset, hrecipient, hamount⟩, hscope⟩

open World

/-- In every history, at every call of the node, everything the gates ask for holds and the bytes are the persisted ones. -/
theorem dispatch_authorised {now : Int} {db : Database} {actions : List Action} (act : Action) {call : Call}
    (hcall : ((run next (initial now db) actions).next act).calls =
      (run next (initial now db) actions).calls ++ [call]) :
    (run next (initial now db) actions).Authorises call := by
  generalize hw : run next (initial now db) actions = w at hcall ⊢
  have hsound : w.Sound := by
    rw [← hw]
    exact World.sound_run now db actions
  obtain ⟨s, hs, -, hattempt, sendSeq, hphase⟩ := (w.next_steps act).call hcall
  have hknown := hsound s hs
  obtain ⟨a, ha, hcontent⟩ := hknown.content
  obtain ⟨hchecked, -⟩ := hknown.checked call.checkedAt (by rw [hphase]; rfl)
  refine ⟨a, ?_, ?_, hchecked, ?_⟩
  · rwa [← hattempt]
  · rw [hcontent]
    exact hknown.authorises hphase
  · rw [← hattempt]
    exact hknown.raw call.raw (by rw [hphase]; rfl)

namespace Sample

/-! One payment of intent 1 on chain 1, with two workers: the first one claims intent 1, the second one intent 2. -/

def gates : GateTables where
  claims := fun intent => if intent = 1 then some ⟨1, 1, .active, 100, 0, false⟩
    else if intent = 2 then some ⟨2, 1, .active, 100, 0, false⟩ else none
  leases := fun _ => true
  pauses := fun _ => []
  recovery := fun _ => none
  recoveryEvents := fun _ => []
  bindings := fun id => if id = 1 then some ⟨1, 1, 7, 0, .allocated⟩ else none
  registry := fun _ _ => some .active
  holds := fun _ _ => []
  grants := fun id => if id = 1 ∨ id = 2 then some ⟨.active, 1, 5, 6, 10, some 100⟩ else none
  scopes := fun id => if id = 1 then some ⟨1, 7, 1, true, ⟨1000000, 10, 2⟩⟩
    else if id = 2 then some ⟨1, 7, 1, true, ⟨0, 0, 0⟩⟩ else none

def content : Content where
  intent := 1
  binding := 1
  authorization := 1
  authorizationVersion := 1
  recoveryVersion := 0
  chain := 1
  sender := 7
  nonce := 0
  gasLimit := 0
  fees := .legacy 0
  asset := 5
  recipient := 6
  amount := 10
  replacementOf := none

def database : Database := ⟨gates, fun _ => none, fun _ => none, [], fun _ => none⟩

def start : World := .initial 0 database

def own (kind : Execution.SendKind) : SendRequest := ⟨⟨1⟩, kind, 1, ⟨1, 1⟩, none⟩

/-- The node has not seen the transaction and accepts it. -/
def willing : Answer := { probe := .notFoundYet, outcome := .accepted }

/-- The statements of a first `Send` up to the call of the node. -/
def approach (req : SendRequest) : List Action :=
  [.firstBroadcast ⟨1⟩ content, .send req] ++ List.replicate 14 (.advance 0 willing)

def sent : Call := ⟨0, ⟨1⟩, ⟨{ content with gasLimit := 100000, fees := .dynamicFee 10 2 }, 0⟩, 0, 0⟩

end Sample

open Sample

theorem dispatch_authorised_first : (run next start (approach (own .initial))).Authorises sent :=
  dispatch_authorised (.advance 0 willing) (by decide +kernel)

/-! ### The claim -/

/-- The claim row of the attempt's own intent is the presented one; it was unexpired when the claim gate read it. -/
def World.OwnClaim (w : World) (s : Session) : Prop :=
  ∃ a c, w.db.attempts s.attempt = some a ∧ w.db.gates.claims a.content.intent = some c ∧ c.state = .active ∧
    c.owner = s.request.holder.owner ∧ c.leaseVersion = s.request.holder.leaseVersion ∧
    s.claimedAt ≤ w.now ∧ s.claimedAt < c.expiresAt

namespace Sample

/-- The second worker presents the claim of intent 2 for the attempt of intent 1. -/
def foreign : SendRequest := ⟨⟨1⟩, .initial, 2, ⟨2, 1⟩, none⟩

end Sample

/-- The worker of intent 2 dispatches the transaction of intent 1, whose claim another worker holds. -/
theorem foreign_claim_dispatches :
    let w := run next start (approach foreign)
    (w.next (.advance 0 willing)).calls = w.calls ++ [sent] ∧
      (w.db.attempts ⟨1⟩).map (fun a => a.content.intent) = some 1 ∧
      (w.db.gates.claims 1).map (fun c => c.owner) = some 1 ∧ foreign.holder.owner = 2 := by
  decide +kernel

/-- The caller names the intent of the attempt it sends. -/
def Action.ownIntent (w : World) : Action → Bool
  | .send req => (w.db.attempts req.attempt).all fun a => a.content.intent == req.claimIntent
  | _ => true

/-- The inputs of a call are those it began with, but for the grant of the anchor. -/
theorem Session.Moves.inputs {s : Session} {i : Nat} {now : Int} {db : Database} {others : List Session} {ans : Answer}
    {o : Outcome} (h : s.Moves i now db others ans o) : o.session.request = s.request ∧ o.session.content = s.content := by
  have hopen : ∀ db', (s.openRegion db').request = s.request ∧ (s.openRegion db').content = s.content := fun db' =>
    s.openRegion_cases (P := fun s' => s'.request = s.request ∧ s'.content = s.content) db' ⟨rfl, rfl⟩ fun _ => ⟨rfl, rfl⟩
  cases h with
  | enter => exact hopen db
  | observe state a next _ _ _ hnext =>
    rcases hnext with rfl | rfl
    · exact ⟨rfl, rfl⟩
    · exact hopen _
  | _ => exact ⟨rfl, rfl⟩

def World.OwnIntents (w : World) : Prop := ∀ s ∈ w.sessions, s.request.claimIntent = s.content.intent

theorem World.OwnIntents.next {w : World} (h : w.OwnIntents) {act : Action} (hact : act.ownIntent w = true) :
    (w.next act).OwnIntents := by
  have hstep := w.next_steps act
  generalize w.next act = w' at hstep
  cases hstep with
  | idle | lifecycle | write | pause => exact h
  | statement i ans s o _ hs hmove =>
    intro s' hs'
    rcases List.mem_or_eq_of_mem_set hs' with hold | rfl
    · exact h s' hold
    · rw [hmove.inputs.1, hmove.inputs.2]
      exact h s (List.mem_of_getElem? hs)
  | begin req a hsend ha =>
    intro s hs
    rcases mem_concat_cases hs with hs | rfl
    · exact h s hs
    · rw [hsend, Action.ownIntent, ha, Option.all_some, beq_iff_eq] at hact
      exact hact.symm

/-- From the call of the node to the end of the region the presented claim is the one of the attempt's intent, if every
caller names the intent of the attempt it sends. -/
theorem dispatch_under_own_claim {now : Int} {db : Database} {actions : List Action}
    (hown : Along next (fun w act => act.ownIntent w = true) (initial now db) actions) :
    let w := run next (initial now db) actions
    (∀ act call, (w.next act).calls = w.calls ++ [call] →
        ∃ s, w.sessions[call.session]? = some s ∧ s.attempt = call.attempt ∧ w.OwnClaim s) ∧
      ∀ s ∈ w.sessions, s.phase.locksAttempt = true → w.OwnClaim s := by
  intro w
  have hsound : w.Sound := World.sound_run now db actions
  have hintents : w.OwnIntents := invariant_of_along hown (fun _ => nofun) fun w act hact hw => hw.next hact
  have hclaim : ∀ s ∈ w.sessions, s.phase.locksAttempt = true → w.OwnClaim s := by
    intro s hs hlocked
    have hheld : s.phase.holds .claim = true := by
      cases hphase : s.phase <;> simp_all [Phase.holds, Phase.locksAttempt]
    obtain ⟨_, hread, hclaimed, hpassed⟩ := (hsound s hs).gates .claim hheld
    obtain rfl := hclaimed rfl
    obtain ⟨a, ha, hcontent⟩ := (hsound s hs).content
    obtain ⟨c, hc, hactive, hexpiry, howner, hversion⟩ := claimRefusal_eq_none.mp hpassed
    rw [hintents s hs, ← hcontent] at hc
    exact ⟨a, c, ha, hc, hactive, howner, hversion, hread, hexpiry⟩
  refine ⟨fun act call hcall => ?_, hclaim⟩
  obtain ⟨s, hs, hindex, hattempt, sendSeq, hphase⟩ := (w.next_steps act).call hcall
  exact ⟨s, hindex, hattempt, hclaim s hs (by rw [hphase]; rfl)⟩

theorem dispatch_under_own_claim_first :
    let w := run next start (approach (own .initial))
    ∃ s, w.sessions[0]? = some s ∧ s.attempt = ⟨1⟩ ∧ w.OwnClaim s := by
  exact (dispatch_under_own_claim (by decide +kernel)).1 (.advance 0 willing) sent (by decide +kernel)

end TxHarbor.Lifecycle
