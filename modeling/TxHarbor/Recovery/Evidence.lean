import TxHarbor.Transition.Run

open Transition

namespace TxHarbor.Recovery

/-! The evidence of one recovery instance. It is gathered outside any transaction: a write carries the
token captured before, and compares it under the lock of the instance row. -/

inductive Capability where
  | query | chainScan | depositConfirmation | existingWithdrawalRecovery | newWithdrawalCreation
  | eventPublishing | eventConsuming
  deriving DecidableEq

inductive IsolationItem where
  | oldWritersStopped | writerFencingObserved | networkIsolation | versionCompatible | noPreReleaseEffects
  | authorizationRecheck
  deriving DecidableEq

/-- `pending` is an absent row. -/
inductive ChecklistState where
  | evidenced | verified | rejected
  deriving DecidableEq

inductive GapState where
  | opened | escalated | closed
  deriving DecidableEq

/-- `recovery_gap`. -/
structure Gap where
  gapID : Nat
  objectKey : String
  affectedCapabilities : List Capability
  state : GapState

/-- `recovery_isolation_check` (state and `verified_by`) and `recovery_gap`. -/
structure Evidence where
  checks : IsolationItem → Option (ChecklistState × Option String)
  gaps : List Gap

/-- Who verified an item, if it is verified. -/
def Evidence.verified (e : Evidence) (item : IsolationItem) : Option (Option String) :=
  (e.checks item).bind fun c => if c.1 = .verified then some c.2 else none

/-- An open or escalated gap names the capability. -/
def Evidence.named (e : Evidence) (c : Capability) : Bool :=
  e.gaps.any fun g => g.state ≠ .closed && g.affectedCapabilities.contains c

def gapInsert (gaps : List Gap) (objectKey : String) (affected : List Capability) : List Gap :=
  gaps ++ [⟨gaps.length, objectKey, affected, .opened⟩]

/-- `insertVerificationGap`: an open gap of the object is left as it is. -/
def insertVerificationGap (gaps : List Gap) (found : String × List Capability) : List Gap :=
  if gaps.any fun g => g.objectKey = found.1 && g.state = .opened then gaps else gapInsert gaps found.1 found.2

/-- The evidence writes, one for each kind; `allowed` is what the identity and effect checks of `Verify` say. -/
inductive Mutation where
  | verify (item : IsolationItem) (actor : String) (reject allowed : Bool)
  | openGap (objectKey : String) (affected : List Capability)
  | closeGap (gapID : Nat)
  | batch (found : List (String × List Capability))
  | restoreStarted | restoreProbeAccepted | evidenceSnapshotAccepted

/-- The `Apply` hooks. -/
def Mutation.apply (e : Evidence) : Mutation → Option Evidence
  | .verify item actor reject allowed =>
    match e.checks item with
    | some (.evidenced, _) | some (.verified, _) =>
      if allowed then
        let state := if reject then .rejected else .verified
        some { e with checks := Function.update e.checks item (some (state, some actor)) }
      else none
    | _ => none
  | .openGap objectKey affected => some { e with gaps := gapInsert e.gaps objectKey affected }
  | .closeGap gapID =>
    if e.gaps.any fun g => g.gapID = gapID && g.state ≠ .closed then
      some { e with gaps := e.gaps.map fun g => if g.gapID = gapID then { g with state := .closed } else g }
    else none
  | .batch found => some { e with gaps := found.foldl insertVerificationGap e.gaps }
  | .restoreStarted | .restoreProbeAccepted | .evidenceSnapshotAccepted => some e

/-- `EvidenceToken`, the columns of `recovery_instance`; `live` is the state `open`. -/
structure EvidenceToken where
  live : Bool
  generation : Nat
  hash : String
  deriving DecidableEq

/-- The freshness test of `evaluateSelfLocked` and `approvalsValid` on a row recorded at `d`. -/
def EvidenceToken.Current (d t : EvidenceToken) : Prop := d.generation = t.generation ∧ d.hash = t.hash

/-- The history of an accepted write: the steps of its capture and of its commit. -/
structure Accepted where
  captured : Nat
  committed : Nat

inductive AuditResult where
  | ok | discarded

/-- `decisions` are the tokens that approvals and releases were recorded at. -/
structure World where
  step : Nat
  token : EvidenceToken
  evidence : Evidence
  decisions : List EvidenceToken
  audit : List (AuditResult × EvidenceToken × EvidenceToken)
  captures : Nat → Option (EvidenceToken × Nat)
  accepted : List Accepted

/-- `durable`: the COMMIT took effect, whether or not its caller was told. -/
inductive Action where
  | capture (n : Nat)
  | write (n : Nat) (m : Mutation) (operationID resultDigest : String) (durable : Bool)
  | collect (item : IsolationItem) (allowed : Bool)
  | escalate (gapID : Nat)
  | decide
  | close

/-- `EvidenceChainHash`: of the previous hash, the generation, the write, the operation and the digest. -/
abbrev ChainHash := String → Nat → Mutation → String → String → String

def emptyEvidenceHash : String := "sha256:e3b0c44298fc1c149afbf4c8996fb92427ae41e4649b934ca495991b7852b855"

namespace World

variable (chainHash : ChainHash)

/-- `CommitEvidenceWriteTx`, with the token `captured` in step `since`. -/
def commitEvidenceWrite (w : World) (captured : EvidenceToken) (since : Nat) (m : Mutation)
    (operationID resultDigest : String) : Option World :=
  if captured ≠ w.token then some { w with audit := (.discarded, captured, w.token) :: w.audit }
  else if !w.token.live then none
  else (m.apply w.evidence).map fun e =>
    let generation := w.token.generation + 1
    let hash := chainHash w.token.hash generation m operationID resultDigest
    { w with
      token := { w.token with generation, hash }
      evidence := e
      audit := (.ok, captured, w.token) :: w.audit
      accepted := ⟨since, w.step⟩ :: w.accepted }

/-- One step, before the count of steps advances. -/
def move (w : World) : Action → World
  | .capture n => { w with captures := Function.update w.captures n (some (w.token, w.step)) }
  | .write n m op digest durable =>
    match w.captures n, durable with
    | some (captured, since), true =>
      (w.commitEvidenceWrite chainHash captured since m op digest).getD w
    | _, _ => w
  | .collect item allowed =>
    if w.token.live && allowed && (w.evidence.verified item).isNone then
      { w with evidence.checks := Function.update w.evidence.checks item (some (.evidenced, none)) }
    else w
  | .escalate gapID =>
    if w.token.live then
      { w with evidence.gaps := w.evidence.gaps.map fun g =>
          if g.gapID = gapID ∧ g.state = .opened then { g with state := .escalated } else g }
    else w
  | .decide => if w.token.live then { w with decisions := w.token :: w.decisions } else w
  | .close => { w with token.live := false }

def next (w : World) (a : Action) : World := { w.move chainHash a with step := w.step + 1 }

/-- The instance as `insertOpenInstanceSQL` leaves it. -/
def initial : World := ⟨0, ⟨true, 0, emptyEvidenceHash⟩, ⟨fun _ => none, []⟩, [], [], fun _ => none, []⟩

/-- What one step does: nothing to the token, the verified items and the named capabilities, or one
accepted write of a token that is still current. -/
inductive Steps (w : World) : World → Prop
  | quiet {w' : World} (step : w'.step = w.step + 1) (generation : w'.token.generation = w.token.generation)
      (hash : w'.token.hash = w.token.hash) (verified : w'.evidence.verified = w.evidence.verified)
      (named : w'.evidence.named = w.evidence.named) (accepted : w'.accepted = w.accepted)
      (captures : ∀ n p, w'.captures n = some p → w.captures n = some p ∨ p = (w.token, w.step))
      (decisions : ∀ d ∈ w'.decisions, d ∈ w.decisions ∨ d.generation = w.token.generation) : Steps w w'
  | accepts {w' : World} {n since : Nat} (capture : w.captures n = some (w.token, since))
      (step : w'.step = w.step + 1) (generation : w'.token.generation = w.token.generation + 1)
      (accepted : w'.accepted = ⟨since, w.step⟩ :: w.accepted) (captures : w'.captures = w.captures)
      (decisions : w'.decisions = w.decisions) : Steps w w'

variable {chainHash} {w w' : World}

theorem Steps.same (audit) : Steps w { w with step := w.step + 1, audit } :=
  .quiet rfl rfl rfl rfl rfl rfl (fun _ _ h => .inl h) fun _ h => .inl h

theorem next_steps (w : World) (a : Action) : Steps w (w.next chainHash a) := by
  cases a <;> simp only [next, move]
  case capture n =>
    refine .quiet rfl rfl rfl rfl rfl rfl (fun m p h => ?_) fun _ h => .inl h
    simp only [Function.update_apply] at h
    split at h
    · exact .inr (Option.some.inj h).symm
    · exact .inl h
  case write n m op digest durable =>
    split
    case h_2 => exact .same _
    case h_1 captured since hcapture =>
      unfold commitEvidenceWrite
      split
      · exact .same _
      case isFalse hsame =>
        split
        · exact .same _
        cases m.apply w.evidence with
        | none => exact .same _
        | some e => exact .accepts (not_not.mp hsame ▸ hcapture) rfl rfl rfl rfl rfl
  case collect item allowed =>
    split
    case isFalse => exact .same _
    case isTrue h =>
      refine .quiet rfl rfl rfl (funext fun k => ?_) rfl rfl (fun _ _ h => .inl h) fun _ h => .inl h
      simp only [Bool.and_eq_true, Option.isNone_iff_eq_none] at h
      by_cases hk : k = item
      · subst hk
        exact (by simp [Evidence.verified] : _ = none).trans h.2.symm
      · simp [Evidence.verified, Function.update_of_ne hk]
  case escalate gapID =>
    split
    case isFalse => exact .same _
    case isTrue =>
      refine .quiet rfl rfl rfl rfl (funext fun c => ?_) rfl (fun _ _ h => .inl h) fun _ h => .inl h
      simp only [Evidence.named, List.any_map]
      congr 1
      funext g
      simp only [Function.comp]
      split
      case isTrue hg => simp [hg.2]
      case isFalse => rfl
  case decide =>
    split
    case isFalse => exact .same _
    case isTrue =>
      refine .quiet rfl rfl rfl rfl rfl rfl (fun _ _ h => .inl h) fun d h => ?_
      obtain rfl | h := List.mem_cons.mp h
      · exact .inr rfl
      · exact .inl h
  case close => exact .quiet rfl rfl rfl rfl rfl rfl (fun _ _ h => .inl h) fun _ h => .inl h

/-- A token of the current generation was captured after every accepted write. -/
structure Fenced (w : World) : Prop where
  count : w.token.generation = w.accepted.length
  ordered : w.accepted.Pairwise fun e f => f.committed < e.captured
  committed : ∀ e ∈ w.accepted, e.committed < w.step
  captures : ∀ n t since, w.captures n = some (t, since) → t.generation ≤ w.token.generation ∧
    (t.generation = w.token.generation → ∀ e ∈ w.accepted, e.committed < since)
  decisions : ∀ d ∈ w.decisions, d.generation ≤ w.token.generation

theorem Steps.fenced (hs : w.Steps w') (h : w.Fenced) : w'.Fenced := by
  cases hs with
  | quiet step generation _ _ _ accepted captures decisions =>
    refine ⟨by rw [generation, accepted, h.count], accepted ▸ h.ordered, fun e he => ?_, fun n t since hn => ?_,
      fun d hd => ?_⟩
    · exact step ▸ Nat.lt_succ_of_lt (h.committed e (accepted ▸ he))
    · rw [generation, accepted]
      obtain hn | hn := captures n _ hn
      · exact h.captures n t since hn
      · cases hn
        exact ⟨le_rfl, fun _ => h.committed⟩
    · rw [generation]
      exact (decisions d hd).elim (h.decisions d) (·.le)
  | accepts capture step generation accepted captures decisions =>
    refine ⟨by rw [generation, accepted, h.count]; rfl, ?_, fun e he => ?_, fun n t since hn => ?_, fun d hd => ?_⟩
    · rw [accepted]
      exact List.pairwise_cons.mpr ⟨(h.captures _ _ _ capture).2 rfl, h.ordered⟩
    · rw [accepted] at he
      obtain rfl | he := List.mem_cons.mp he
      · exact step ▸ Nat.lt_succ_self _
      · exact step ▸ Nat.lt_succ_of_lt (h.committed e he)
    · have := (h.captures n t since (captures ▸ hn)).1
      exact ⟨by omega, fun heq => by omega⟩
    · have := h.decisions d (decisions ▸ hd)
      omega

theorem run_fenced (actions : List Action) : (run (next chainHash) initial actions).Fenced :=
  Reachable.invariant ⟨actions, rfl⟩ ⟨rfl, .nil, nofun, nofun, nofun⟩ fun w a h => (next_steps w a).fenced h

/-- The token is the same, or its generation has grown. -/
def Grown (w w' : World) : Prop :=
  w'.accepted = w.accepted ∧ w'.token.generation = w.token.generation ∧ w'.token.hash = w.token.hash ∨
    w.token.generation < w'.token.generation

theorem run_grown (w : World) (actions : List Action) : w.Grown (run (next chainHash) w actions) := by
  refine Reachable.invariant (I := w.Grown) ⟨actions, rfl⟩ (.inl ⟨rfl, rfl, rfl⟩) fun w' a h => ?_
  cases @next_steps chainHash w' a with
  | quiet _ generation hash _ _ accepted =>
    simpa only [Grown, generation, hash, accepted] using h
  | accepts _ _ generation =>
    refine .inr ?_
    obtain ⟨-, h, -⟩ | h := h <;> omega

end World

end TxHarbor.Recovery
