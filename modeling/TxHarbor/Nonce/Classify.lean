import TxHarbor.Nonce.Numeric
import TxHarbor.Nonce.Vocabulary

namespace TxHarbor.Nonce

/-- `ClassificationInput`: the fresh view and the durable frontier. -/
structure ClassificationInput where
  readFailed : Bool
  latest : Option Int
  pending : Option Int
  pendingPrev : Option Int
  maxBindingNonce : Option Int
  hasBindings : Bool
  reconciledFloor : Option Int

/-- `Decision`. An absent hold cause or refusal is the empty string of the source. -/
structure Decision where
  classification : Classification
  candidate : Option Int := none
  holdCause : Option HoldCause := none
  refusal : Option Outcome := none
  deriving DecidableEq

/-- `classifyFrontierBase`: the next nonce the durable state alone would assign. -/
def classifyFrontierBase (i : ClassificationInput) : Except String Int :=
  if i.hasBindings ∧ i.maxBindingNonce.isSome then nextNonce i.maxBindingNonce
  else if ¬ i.hasBindings ∧ i.reconciledFloor.isSome then do
    validateNonceRange i.reconciledFloor
    pure (i.reconciledFloor.getD 0)
  else .ok 0

def classify (i : ClassificationInput) : Decision :=
  match i.readFailed, i.latest, i.pending with
  | false, some latest, some pending =>
    if pending < latest ∨ (i.pendingPrev.any fun prev => pending < prev) then
      { classification := .divergence, holdCause := some .chainViewDivergence,
        refusal := some .scopeHeld }
    else
      match classifyFrontierBase i with
      | .error _ => { classification := .unavailable, refusal := some .temporarilyUnavailable }
      | .ok base =>
        if ¬ (i.hasBindings ∨ i.reconciledFloor.isSome) then
          if pending = 0 then { classification := .consistent, candidate := some 0 }
          else { classification := .bootstrapExternal, candidate := some pending }
        else if pending ≤ base then
          { classification := .consistent, candidate := maxBig (some base) i.reconciledFloor }
        else if base < latest then
          { classification := .unattributedConsumption,
            holdCause := some .unattributedConsumption, refusal := some .scopeHeld }
        else
          { classification := .unexplainedGap, holdCause := some .unexplainedGap,
            refusal := some .scopeHeld }
  | _, _, _ => { classification := .unavailable, refusal := some .chainViewUnavailable }

/-- A successful read that contradicts neither itself nor the scope's last pending count. -/
structure CleanView (i : ClassificationInput) (latest pending : Int) : Prop where
  read : i.readFailed = false
  latest_eq : i.latest = some latest
  pending_eq : i.pending = some pending
  latest_le : latest ≤ pending
  prev_le : ∀ prev, i.pendingPrev = some prev → prev ≤ pending

/-- The scope has a durable frontier: a binding or a reconciled floor. -/
def ClassificationInput.frontierExists (i : ClassificationInput) : Prop :=
  i.hasBindings = true ∨ i.reconciledFloor.isSome = true

/-- Every decision of the matrix, with the condition that selects it. -/
inductive Classified (i : ClassificationInput) : Decision → Prop where
  | unread (h : i.readFailed = true ∨ i.latest = none ∨ i.pending = none) :
      Classified i { classification := .unavailable, refusal := some .chainViewUnavailable }
  | divergence (latest pending : Int) (hread : i.readFailed = false)
      (hlatest : i.latest = some latest) (hpending : i.pending = some pending)
      (h : pending < latest ∨ ∃ prev, i.pendingPrev = some prev ∧ pending < prev) :
      Classified i { classification := .divergence, holdCause := some .chainViewDivergence,
                     refusal := some .scopeHeld }
  | exhausted (latest pending : Int) (e : String) (hview : CleanView i latest pending)
      (hbase : classifyFrontierBase i = .error e) :
      Classified i { classification := .unavailable, refusal := some .temporarilyUnavailable }
  | first (latest : Int) (hview : CleanView i latest 0) (hnone : ¬ i.frontierExists) :
      Classified i { classification := .consistent, candidate := some 0 }
  | bootstrap (latest pending : Int) (hview : CleanView i latest pending)
      (hnone : ¬ i.frontierExists) (hpos : pending ≠ 0) :
      Classified i { classification := .bootstrapExternal, candidate := some pending }
  | consistent (latest pending base : Int) (hview : CleanView i latest pending)
      (hfrontier : i.frontierExists) (hbase : classifyFrontierBase i = .ok base)
      (hle : pending ≤ base) :
      Classified i { classification := .consistent,
                     candidate := maxBig (some base) i.reconciledFloor }
  | consumed (latest pending base : Int) (hview : CleanView i latest pending)
      (hfrontier : i.frontierExists) (hbase : classifyFrontierBase i = .ok base)
      (hlt : base < latest) :
      Classified i { classification := .unattributedConsumption,
                     holdCause := some .unattributedConsumption, refusal := some .scopeHeld }
  | gap (latest pending base : Int) (hview : CleanView i latest pending)
      (hfrontier : i.frontierExists) (hbase : classifyFrontierBase i = .ok base)
      (hlt : base < pending) (hle : latest ≤ base) :
      Classified i { classification := .unexplainedGap, holdCause := some .unexplainedGap,
                     refusal := some .scopeHeld }

theorem classify_classified (i : ClassificationInput) : Classified i (classify i) := by
  unfold classify
  split
  next latest pending hread hlatest hpending =>
    split
    next hdiv =>
      refine .divergence latest pending hread hlatest hpending ?_
      simpa only [Option.any_eq_true, decide_eq_true_eq] using hdiv
    next hclean =>
      simp only [not_or, Int.not_lt, Bool.not_eq_true, Option.any_eq_false, decide_eq_false_iff_not] at hclean
      have hview : CleanView i latest pending := ⟨hread, hlatest, hpending, hclean.1, hclean.2⟩
      split
      next e hbase => exact .exhausted latest pending e hview hbase
      next base hbase =>
        split
        next hnone =>
          split
          next hzero => exact .first latest (hzero ▸ hview) hnone
          next hpos => exact .bootstrap latest pending hview hnone hpos
        next hsome =>
          have hfrontier : i.frontierExists := not_not.mp hsome
          split
          next hle => exact .consistent latest pending base hview hfrontier hbase hle
          · split
            next hlt => exact .consumed latest pending base hview hfrontier hbase hlt
            next hgap hle => exact .gap latest pending base hview hfrontier hbase (by omega) (by omega)
  next hnot =>
    refine .unread ?_
    cases hread : i.readFailed with
    | true => exact .inl rfl
    | false =>
      cases hlatest : i.latest with
      | none => exact .inr (.inl rfl)
      | some latest =>
        cases hpending : i.pending with
        | none => exact .inr (.inr rfl)
        | some pending => exact absurd hpending (hnot latest pending hread hlatest)

end TxHarbor.Nonce
