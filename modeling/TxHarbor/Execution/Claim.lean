import TxHarbor.Execution.Store

open Relational Tx

namespace TxHarbor.Execution

/-- The timings of a claim store. `NewClaimStore` refuses a stall window within the TTL. -/
structure ClaimTimings where
  ttl : Int
  stallWindow : Int
  ttl_pos : 0 < ttl
  ttl_lt_stallWindow : ttl < stallWindow

/-- Owner, version, active and unexpired, as `verifyClaimTx`, `claimIsCurrentSQL` and the claim read
of the send region all check it. -/
def Claim.current (c : Claim) (h : Holder) (now : Int) : Bool :=
  c.owner == h.owner && c.leaseVersion == h.leaseVersion && c.state == .active && decide (now < c.expiresAt)

def Store.holds (s : Store) (h : Holder) : Bool := s.claim.any fun c => c.current h s.now

variable {s : Store} {h : Holder} {t : ClaimTimings} {s' : Store} {version : Nat} {u : Unit}

theorem Store.holds_eq_true :
    s.holds h = true ↔ ∃ c, s.claim = some c ∧ c.owner = h.owner ∧ c.leaseVersion = h.leaseVersion ∧
      c.state = .active ∧ s.now < c.expiresAt := by
  unfold Store.holds
  cases s.claim with
  | none => simp
  | some c => simp [Claim.current, and_assoc]

def Claim.stalled (c : Claim) (t : ClaimTimings) (now : Int) : Prop := t.stallWindow ≤ now - c.lastProgressAt

instance (c : Claim) (t : ClaimTimings) (now : Int) : Decidable (c.stalled t now) :=
  inferInstanceAs (Decidable (_ ≤ _))

/-- Inactive, expired or stalled; a takeover wants a stalled active holder. -/
def Claim.claimable (c : Claim) (t : ClaimTimings) (now : Int) (onlyStall : Bool) : Prop :=
  if onlyStall then c.state = .active ∧ c.stalled t now
  else c.state ≠ .active ∨ c.expiresAt ≤ now ∨ c.stalled t now

instance (c : Claim) (t : ClaimTimings) (now : Int) (onlyStall : Bool) : Decidable (c.claimable t now onlyStall) := by
  unfold Claim.claimable
  infer_instance

/-- The row after an acquisition. -/
def acquired (t : ClaimTimings) (owner : Owner) (version : Nat) (now : Int) : Claim :=
  ⟨owner, version, .active, now + t.ttl, now, false⟩

/-- `claimTx`: the event says whether an active holder was displaced. -/
def claimTx (t : ClaimTimings) (owner : Owner) (onlyStall : Bool) : ExecutionTx Nat := do
  let s ← get
  require (s.intent ≠ none) .intentMissing
  match s.claim with
  | none =>
    require (onlyStall = false) .notClaimable
    set { s with claim := some (acquired t owner 1 s.now),
                 events := s.events ++ [{ Event.of .claimed with leaseVersion := 1 }] }
    pure 1
  | some c =>
    require (c.claimable t s.now onlyStall) .notClaimable
    let kind := if c.state = .active then EventKind.takenOver else .claimed
    set { s with claim := some (acquired t owner (c.leaseVersion + 1) s.now),
                 events := s.events ++ [{ Event.of kind with leaseVersion := c.leaseVersion + 1 }] }
    pure (c.leaseVersion + 1)

/-- `acquireClaimSQL`: the same acquisition in one statement, without an event. -/
def acquire (t : ClaimTimings) (owner : Owner) : ExecutionTx Nat := do
  let s ← get
  require (s.intent ≠ none) .intentMissing
  match s.claim with
  | none =>
    set { s with claim := some (acquired t owner 1 s.now) }
    pure 1
  | some c =>
    require (c.claimable t s.now false) .notClaimable
    set { s with claim := some (acquired t owner (c.leaseVersion + 1) s.now) }
    pure (c.leaseVersion + 1)

/-- An update of the row under its owner and version, if it is active and unexpired. -/
def fencedUpdate (h : Holder) (f : Claim → Int → Claim) : ExecutionTx Unit := do
  let s ← get
  require (s.holds h = true) .claimLost
  set { s with claim := s.claim.map fun c => f c s.now }

def renew (t : ClaimTimings) (h : Holder) : ExecutionTx Unit :=
  fencedUpdate h fun c now => { c with expiresAt := now + t.ttl }

/-- `AdvanceProgress`, `advanceProgressTx`. -/
def advanceProgress (h : Holder) : ExecutionTx Unit := fencedUpdate h fun c now => { c with lastProgressAt := now }

/-- `releaseClaimSQL`, which does not ask for the expiry. -/
def release (h : Holder) : ExecutionTx Unit := do
  let s ← get
  let c ← demand .claimLost s.claim
  require (c.owner = h.owner ∧ c.leaseVersion = h.leaseVersion ∧ c.state = .active) .claimLost
  set { s with claim := some { c with state := .released } }

/-- `RevokeClaimTx`. -/
def revokeClaim (version : Nat) : ExecutionTx Unit := do
  let s ← get
  let c ← demand .claimLost s.claim
  require (c.leaseVersion = version ∧ c.state = .active) .claimLost
  set { s with claim := some { c with state := .revoked },
               events := s.events ++ [{ Event.of .revoked with leaseVersion := version }] }

/-- `SweepStalls`. -/
def sweepStalls (t : ClaimTimings) : ExecutionTx Unit := do
  let s ← get
  match s.claim with
  | none => pure ()
  | some c =>
    if c.state = .active ∧ c.stallFlagged = false ∧ c.stalled t s.now then
      set { s with claim := some { c with stallFlagged := true },
                   events := s.events ++ [{ Event.of .stallFlagged with leaseVersion := c.leaseVersion }] }
    else pure ()

/-- A claim is taken over only when it is claimable, under the next lease version. -/
theorem claimTx_spec {owner : Owner} {onlyStall : Bool} (h : claimTx t owner onlyStall s = .ok (version, s')) :
    ∃ e, (e.kind = .claimed ∨ e.kind = .takenOver) ∧ s' = { s with claim := s'.claim, events := s.events ++ [e] } ∧
      (∀ d, s.claim = some d → d.claimable t s.now false) ∧
      version = (s.claim.map Claim.leaseVersion).getD 0 + 1 ∧ s'.claim = some (acquired t owner version s.now) := by
  simp only [claimTx, eq_ok] at h
  obtain ⟨_, _, ⟨rfl, rfl⟩, _, _, ⟨-, rfl⟩, h⟩ := h
  cases hc : s.claim with
  | none =>
    simp only [hc, eq_ok] at h
    obtain ⟨_, _, ⟨-, rfl⟩, _, _, rfl, rfl, rfl⟩ := h
    exact ⟨_, .inl rfl, rfl, by simp, rfl, rfl⟩
  | some c =>
    simp only [hc, eq_ok] at h
    obtain ⟨_, _, ⟨hfree, rfl⟩, _, _, rfl, rfl, rfl⟩ := h
    refine ⟨_, ?_, rfl, ?_, rfl, rfl⟩
    · split
      · exact .inr rfl
      · exact .inl rfl
    · rintro d ⟨⟩
      cases onlyStall with
      | false => exact hfree
      | true => exact .inr (.inr hfree.2)

/-- An acquisition is a claim without its event. -/
theorem acquire_spec {owner : Owner} (h : acquire t owner s = .ok (version, s')) :
    s' = { s with claim := s'.claim } ∧ (∀ d, s.claim = some d → d.claimable t s.now false) ∧
      version = (s.claim.map Claim.leaseVersion).getD 0 + 1 ∧ s'.claim = some (acquired t owner version s.now) := by
  simp only [acquire, eq_ok] at h
  obtain ⟨_, _, ⟨rfl, rfl⟩, _, _, ⟨-, rfl⟩, h⟩ := h
  cases hc : s.claim with
  | none =>
    simp only [hc, eq_ok] at h
    obtain ⟨_, _, rfl, rfl, rfl⟩ := h
    exact ⟨rfl, by simp, rfl, rfl⟩
  | some c =>
    simp only [hc, eq_ok] at h
    obtain ⟨_, _, ⟨hfree, rfl⟩, _, _, rfl, rfl, rfl⟩ := h
    exact ⟨rfl, by rintro d ⟨⟩; exact hfree, rfl, rfl⟩

theorem fencedUpdate_spec {f : Claim → Int → Claim} (hbody : fencedUpdate h f s = .ok (u, s')) :
    s.holds h = true ∧ s' = { s with claim := s.claim.map fun c => f c s.now } := by
  simp only [fencedUpdate, eq_ok] at hbody
  obtain ⟨_, _, ⟨rfl, rfl⟩, _, _, ⟨hholds, rfl⟩, rfl⟩ := hbody
  exact ⟨hholds, rfl⟩

theorem release_spec (hbody : release h s = .ok (u, s')) :
    ∃ c, s.claim = some c ∧ c.leaseVersion = h.leaseVersion ∧ c.state = .active ∧
      s' = { s with claim := some { c with state := .released } } := by
  simp only [release, eq_ok] at hbody
  obtain ⟨_, _, ⟨rfl, rfl⟩, c, _, ⟨hc, rfl⟩, _, _, ⟨⟨-, hversion, hactive⟩, rfl⟩, rfl⟩ := hbody
  exact ⟨c, hc, hversion, hactive, rfl⟩

theorem revokeClaim_spec (hbody : revokeClaim version s = .ok (u, s')) :
    ∃ c, s.claim = some c ∧ c.leaseVersion = version ∧ c.state = .active ∧
      s' = { s with claim := some { c with state := .revoked },
                    events := s.events ++ [{ Event.of .revoked with leaseVersion := version }] } := by
  simp only [revokeClaim, eq_ok] at hbody
  obtain ⟨_, _, ⟨rfl, rfl⟩, c, _, ⟨hc, rfl⟩, _, _, ⟨⟨hversion, hactive⟩, rfl⟩, rfl⟩ := hbody
  exact ⟨c, hc, hversion, hactive, rfl⟩

/-- A sweep at most flags the claim. -/
theorem sweepStalls_spec (hbody : sweepStalls t s = .ok (u, s')) : s' = s ∨ ∃ c, s.claim = some c ∧
      s' = { s with claim := some { c with stallFlagged := true },
                    events := s.events ++ [{ Event.of .stallFlagged with leaseVersion := c.leaseVersion }] } := by
  simp only [sweepStalls, eq_ok] at hbody
  obtain ⟨_, _, ⟨rfl, rfl⟩, hbody⟩ := hbody
  cases hc : s.claim with
  | none =>
    simp only [hc, pure_eq_ok] at hbody
    exact .inl hbody.2.symm
  | some c =>
    simp only [hc, ite_apply_eq_ok, set_eq_ok, pure_eq_ok] at hbody
    rcases hbody with ⟨-, rfl⟩ | ⟨-, -, rfl⟩
    · exact .inr ⟨c, rfl, rfl⟩
    · exact .inl rfl

end TxHarbor.Execution
