import Mathlib

/-!
# The outbox table

The rows of `outbox_events` and the statements that change them: the claim of the publisher, its owner-guarded
settlements, the operator's unblock and the retention prune.
-/

namespace TxHarbor.Events

inductive IdentityKind
  | evmLog
  | businessObject
  deriving DecidableEq

inductive PublishState
  | pending
  | published
  | blocked
  deriving DecidableEq

inductive FailureClass
  | transient
  | permanent
  | contract
  deriving DecidableEq

/-- The columns of a row that no statement changes. -/
structure Fact where
  eventID : String
  identityKind : IdentityKind
  eventType : String
  schemaVersion : Nat
  aggregateType : String
  aggregateID : String
  aggregateVersion : Nat
  payload : String
  payloadHash : String
  occurredAt : Int
  chainID : Option Int
  blockNumber : Option Int
  blockHash : Option String
  txHash : Option String
  logIndex : Option Nat
  recoveryVersion : Option Int
  revisesEventID : Option String
  sourceKind : Option String
  sourceID : Option String
  sourceVersion : Option Int
  deriving DecidableEq

structure OutboxRow where
  id : Nat
  fact : Fact
  publishState : PublishState
  attemptCount : Nat
  nextAttemptAt : Int
  claimOwner : Option String
  claimExpiresAt : Option Int
  lastErrorClass : Option FailureClass
  publishedAt : Option Int
  deriving DecidableEq

/-- A row as `Append` inserts it: the other columns have their defaults. -/
def OutboxRow.inserted (id : Nat) (fact : Fact) (now : Int) : OutboxRow :=
  ⟨id, fact, .pending, 0, now, none, none, none, none⟩

/-- The largest value of the INTEGER column `attempt_count`. -/
def maxInt32 : Nat := 2147483647

/-- The WHERE clause of `ClaimPendingSQL`. -/
def OutboxRow.claimable (now : Int) (r : OutboxRow) : Bool :=
  r.publishState == .pending && decide (r.nextAttemptAt ≤ now) &&
    (r.claimOwner.isNone || r.claimExpiresAt.all fun expires => decide (expires ≤ now))

/-- `ClaimMarkSQL` on one selected row. -/
def OutboxRow.mark (owner : String) (now leaseTTL : Int) (r : OutboxRow) : OutboxRow :=
  { r with claimOwner := some owner, claimExpiresAt := some (now + leaseTTL), attemptCount := r.attemptCount + 1 }

/-- The four owner-guarded settlements of a claim. -/
inductive SettleKind
  | ack
  | release (backoff : Int) (lastErrorClass : FailureClass)
  | releaseImmediate
  | block (lastErrorClass : FailureClass)
  deriving DecidableEq

structure Settle where
  kind : SettleKind
  ids : List Nat
  deriving DecidableEq

/-- The guard the settlements share. -/
def OutboxRow.guarded (owner : String) (ids : List Nat) (r : OutboxRow) : Bool :=
  ids.contains r.id && r.claimOwner == some owner && r.publishState == .pending

/-- The SET clauses of `AckPublishedSQL`, `ReleaseClaimSQL`, `ReleaseClaimImmediateSQL` and `BlockClaimSQL`. -/
def OutboxRow.settle (now : Int) (r : OutboxRow) : SettleKind → OutboxRow
  | .ack => { r with publishState := .published, publishedAt := some now, claimOwner := none, claimExpiresAt := none }
  | .release backoff lastErrorClass =>
    { r with
      claimOwner := none, claimExpiresAt := none, nextAttemptAt := now + backoff,
      lastErrorClass := some lastErrorClass }
  | .releaseImmediate => { r with claimOwner := none, claimExpiresAt := none, nextAttemptAt := now }
  | .block lastErrorClass =>
    { r with
      publishState := .blocked, lastErrorClass := some lastErrorClass, claimOwner := none, claimExpiresAt := none }

def OutboxRow.settled (owner : String) (now : Int) (st : Settle) (r : OutboxRow) : OutboxRow :=
  if r.guarded owner st.ids then r.settle now st.kind else r

/-- `UnblockSQL`. -/
def OutboxRow.unblocked (id : Nat) (now : Int) (r : OutboxRow) : OutboxRow :=
  if r.id = id ∧ r.publishState = .blocked then
    { r with publishState := .pending, lastErrorClass := none, nextAttemptAt := now }
  else r

/-- The WHERE clause of `PruneSQL`. -/
def OutboxRow.prunable (now retention : Int) (r : OutboxRow) : Bool :=
  r.publishState == .published && r.publishedAt.any fun publishedAt => decide (publishedAt < now - retention)

@[simp] theorem OutboxRow.settled_id (owner : String) (now : Int) (st : Settle) (r : OutboxRow) :
    (r.settled owner now st).id = r.id := by
  unfold settled
  split
  · cases st.kind <;> rfl
  · rfl

@[simp] theorem OutboxRow.settled_fact (owner : String) (now : Int) (st : Settle) (r : OutboxRow) :
    (r.settled owner now st).fact = r.fact := by
  unfold settled
  split
  · cases st.kind <;> rfl
  · rfl

@[simp] theorem OutboxRow.unblocked_id (id : Nat) (now : Int) (r : OutboxRow) : (r.unblocked id now).id = r.id := by
  unfold unblocked
  split <;> rfl

@[simp] theorem OutboxRow.unblocked_fact (id : Nat) (now : Int) (r : OutboxRow) :
    (r.unblocked id now).fact = r.fact := by
  unfold unblocked
  split <;> rfl

variable {owner : String} {now : Int} {st : Settle} {r : OutboxRow}

namespace OutboxRow

/-- A settlement that changes a row is by the owner its claim column names. -/
theorem claimOwner_of_settled_ne (h : r.settled owner now st ≠ r) :
    r.claimOwner = some owner ∧ r.id ∈ st.ids ∧ r.publishState = .pending := by
  have hguard : r.guarded owner st.ids = true := by
    by_contra hguard
    exact h (if_neg hguard)
  simp only [guarded, Bool.and_eq_true, List.contains_iff_mem, beq_iff_eq] at hguard
  exact ⟨hguard.1.2, hguard.1.1, hguard.2⟩

/-- No settlement leaves a claim on a row it changes, and only an acknowledgement publishes. -/
theorem claimOwner_settled {o : String} (h : (r.settled owner now st).claimOwner = some o) : r.claimOwner = some o := by
  unfold settled at h
  split at h
  · cases hkind : st.kind <;> rw [hkind] at h <;> cases h
  · exact h

theorem published_settled (h : (r.settled owner now st).publishState = .published) :
    r.publishState = .published ∨ st.kind = .ack ∧ r.id ∈ st.ids := by
  by_cases hsame : r.settled owner now st = r
  · exact .inl (hsame ▸ h)
  · obtain ⟨-, hid, hpending⟩ := claimOwner_of_settled_ne hsame
    refine .inr ⟨?_, hid⟩
    unfold settled at h
    split at h
    · cases hkind : st.kind with
      | ack => rfl
      | block => rw [hkind] at h; cases h
      | release | releaseImmediate =>
        rw [hkind] at h
        exact absurd (hpending.symm.trans h) (by decide)
    · exact absurd (hpending.symm.trans h) (by decide)

theorem published_unblocked {id : Nat} (h : (r.unblocked id now).publishState = .published) :
    r.publishState = .published := by
  unfold unblocked at h
  split at h
  · cases h
  · exact h

theorem claimOwner_unblocked {id : Nat} : (r.unblocked id now).claimOwner = r.claimOwner := by
  unfold unblocked
  split <;> rfl

theorem published_of_prunable {retention : Int} (h : r.prunable now retention = true) :
    r.publishState = .published := by
  simp only [prunable, Bool.and_eq_true, beq_iff_eq] at h
  exact h.1

/-- A row with a lease that has not ended is skipped. -/
theorem claimable_mark {leaseTTL : Int} (hlease : 0 < leaseTTL) (r : OutboxRow) :
    (r.mark owner now leaseTTL).claimable now = false := by
  have hlive : ¬ now + leaseTTL ≤ now := by omega
  simp [claimable, mark, hlive]

end OutboxRow

end TxHarbor.Events
