import TxHarbor.Nonce.Allocate
import TxHarbor.Nonce.Observed

open Relational Tx Option

namespace TxHarbor.Nonce

/-- What `allocateInTx` hands to its caller before classification, and the state in which it
enters classification: no active hold, no binding of the intent, and a materialised scope row. -/
inductive Admission (env : Environment) (mint : Mint) (req : AllocationRequest)
    (obs : Observation) (s : Store) : AllocationTxResult → Store → Prop where
  | refused (err : Error) (s' : Store) : Admission env mint req obs s (.refused err) s'
  | replay (b : Binding) (s' : Store) (hread : readBindingByIntentTx s req.intentID = some b)
      (hmatch : bindingMatchesInput b req = true) : Admission env mint req obs s (.replay b) s'
  | proceed (auth : AuthorizationRow) (registrySeq : Int) (scopes : Table ScopeState)
      (result : AllocationTxResult) (s' : Store)
      (hfloor : scopeFloor { s with scopes := scopes } = scopeFloor s)
      (hpending : scopeLastPending { s with scopes := scopes } = scopeLastPending s)
      (hfree : ∀ cause, ¬ Held s req.toScope cause)
      (hnew : readBindingByIntentTx s req.intentID = none)
      (hrun : admitInTx env mint req obs auth registrySeq { s with scopes := scopes } =
        .ok (result, s')) : Admission env mint req obs s result s'

variable {env : Environment} {mint : Mint} {req : AllocationRequest} {obs : Observation} {s s' : Store}
  {result : AllocationTxResult}

theorem allocateInTx_admission (h : allocateInTx env mint req obs s = .ok (result, s')) :
    Admission env mint req obs s result s' := by
  simp only [allocateInTx, eq_ok] at h
  obtain ⟨_, _, ⟨rfl, rfl⟩, h⟩ := h
  rw [ite_apply_eq_ok] at h
  rcases h with ⟨-, h⟩ | ⟨-, h⟩
  · obtain ⟨rfl, rfl⟩ := pure_eq_ok.mp h
    exact .refused _ _
  cases hregistry : readRegistryBySenderTx s req.toScope with
  | none =>
    simp only [hregistry, pure_eq_ok] at h
    obtain ⟨rfl, rfl⟩ := h
    exact .refused _ _
  | some registry =>
    cases hrefusal : admissionRefusal (some registry) with
    | some outcome =>
      simp only [hregistry, hrefusal, pure_eq_ok] at h
      obtain ⟨rfl, rfl⟩ := h
      exact .refused _ _
    | none =>
      simp only [hregistry, hrefusal, eq_ok] at h
      obtain ⟨_, s₁, hensure, _, s₂, hlock, _, _, ⟨rfl, rfl⟩, h⟩ := h
      obtain ⟨scopes, rfl, hfloor, hpending⟩ := ensureScopeRowTx_spec hensure
      obtain ⟨rfl, -⟩ := lockScopeRowTx_spec hlock
      cases hholds : readActiveHoldsTx { s with scopes := scopes } req.toScope with
      | cons hold rest =>
        simp only [hholds, pure_eq_ok] at h
        obtain ⟨rfl, rfl⟩ := h
        exact .refused _ _
      | nil =>
        have hfree : ∀ cause, ¬ Held s req.toScope cause := readActiveHoldsTx_eq_nil.mp hholds
        cases hauth : readAuthorizationForShareTx env req.authorizationID req.chainID with
        | none =>
          simp only [hholds, hauth, pure_eq_ok] at h
          obtain ⟨rfl, rfl⟩ := h
          exact .refused _ _
        | some auth =>
          cases hexisting : readBindingByIntentTx { s with scopes := scopes } req.intentID with
          | some existing =>
            simp only [hholds, hauth, hexisting, ite_apply_eq_ok, pure_eq_ok] at h
            rcases h with ⟨hmatch, rfl, rfl⟩ | ⟨-, rfl, rfl⟩
            · exact .replay existing _ hexisting hmatch
            · exact .refused _ _
          | none =>
            simp only [hholds, hauth, hexisting] at h
            exact .proceed auth registry.registrySeq scopes result s' hfloor hpending hfree hexisting h

variable {auth : AuthorizationRow} {registrySeq : Int} {decision : Decision}

/-- The two ways classification ends, statement by statement. -/
theorem admitInTx_cases (h : admitInTx env mint req obs auth registrySeq s = .ok (result, s')) :
    ∃ decision observationID s₁ s₂, decision = classify (classificationInput s req.toScope obs) ∧
      insertObservationTx mint { obs with classification := some decision.classification } s = .ok (observationID, s₁) ∧
      recordFrontierTx req.toScope { obs with classification := some decision.classification }
        observationID s₁ = .ok ((), s₂) ∧
      ((decision.candidate = none ∧ (∃ err, result = .classified err) ∧
          holdForDecisionTx env.now mint req.toScope decision observationID s₂ = .ok ((), s')) ∨
        ∃ candidate hex s₃, decision.candidate = some candidate ∧
          result = .bound (admittedBinding env req auth registrySeq hex observationID candidate) ∧
          insertBindingTx (admittedBinding env req auth registrySeq hex observationID candidate) s₂ = .ok ((), s₃) ∧
          insertBindingEventTx
            { bindingID := "nb-" ++ hex, fromState := none, toState := .allocated,
              observationID := observationID, operationID := "", detail := "admission" } s₃ =
            .ok (true, s')) := by
  simp only [admitInTx, eq_ok] at h
  obtain ⟨_, _, ⟨rfl, rfl⟩, observationID, s₁, hobs, _, s₂, hfrontier, h⟩ := h
  refine ⟨_, observationID, s₁, s₂, rfl, hobs, hfrontier, ?_⟩
  cases hcandidate : (classify (classificationInput s req.toScope obs)).candidate with
  | none =>
    simp only [hcandidate, eq_ok] at h
    obtain ⟨_, _, hhold, rfl, rfl⟩ := h
    exact .inl ⟨rfl, ⟨_, rfl⟩, hhold⟩
  | some candidate =>
    simp only [hcandidate, eq_ok] at h
    obtain ⟨hex, _, ⟨-, rfl⟩, _, s₃, hbinding, _, _, hevent, _, _, ⟨rfl, rfl⟩, rfl, rfl⟩ := h
    exact .inr ⟨candidate, hex, s₃, rfl, rfl, hbinding, hevent⟩

/-- A classification refusal: evidence, waterline and hold, but no binding row. -/
structure RefusedEffect (req : AllocationRequest) (obs : Observation) (decision : Decision)
    (observationID : String) (s s' : Store) : Prop where
  classified : Classified (classificationInput s req.toScope obs) decision
  observed : Observed req.toScope obs decision s s'
  bindings : s'.bindings = s.bindings
  events : s'.events = s.events
  audit : s'.audit = s.audit
  observations : s'.observations.rows = s.observations.rows ++ [evidenceRow obs decision observationID]

/-- An admission: evidence, waterline, the binding row and its creation event. -/
structure AdmittedEffect (req : AllocationRequest) (obs : Observation) (decision : Decision)
    (pending : Int) (b : Binding) (s s' : Store) : Prop where
  scope : b.toScope = req.toScope
  intent : b.intentID = req.intentID
  authorization : b.authorizationID = req.authorizationID
  allocated : b.state = .allocated
  range : 0 ≤ b.nonce ∧ b.nonce ≤ maxNonceBig
  clean : ∃ latest, CleanView (classificationInput s req.toScope obs) latest pending
  classified : Classified (classificationInput s req.toScope obs) decision
  admits : (frontier s req.toScope).Admits pending b.nonce
  pending_nonneg : 0 ≤ pending
  fresh : ∀ r ∈ s.bindings.rows, Constrained.clash r b = false
  bindings : s'.bindings.rows = s.bindings.rows ++ [b]
  events : s'.events.rows = s.events.rows ++
    [{ bindingID := b.bindingID, fromState := none, toState := .allocated,
       observationID := b.allocationObservationID, operationID := "", detail := "admission" }]
  audit : s'.audit = s.audit
  holds : s'.holds = s.holds
  observations : s'.observations.rows = s.observations.rows ++ [evidenceRow obs decision b.allocationObservationID]
  floor : scopeFloor s' = scopeFloor s
  last : ∀ other, scopeLastPending s' other =
    if other = req.toScope then some pending else scopeLastPending s other

/-- A decision with a candidate is clean, trusted, and admits exactly that candidate. -/
private theorem Classified.admits {scope : Scope} {candidate : Int}
    (h : Classified (classificationInput s scope obs) decision) (hcandidate : decision.candidate = some candidate) :
    (decision.classification ≠ .unavailable ∧ decision.classification ≠ .divergence) ∧
      ∃ latest pending, CleanView (classificationInput s scope obs) latest pending ∧
        (frontier s scope).Admits pending candidate := by
  cases h with
  | unread | divergence | exhausted | consumed | gap => cases hcandidate
  | first latest hview hnone =>
    obtain rfl := some.inj hcandidate
    obtain ⟨hbound, hfloor⟩ := not_frontierExists hnone
    exact ⟨by simp, latest, 0, hview, .first hbound hfloor⟩
  | bootstrap latest pending hview hnone =>
    obtain rfl := some.inj hcandidate
    obtain ⟨hbound, hfloor⟩ := not_frontierExists hnone
    exact ⟨by simp, latest, pending, hview, .first hbound hfloor⟩
  | consistent latest pending base hview hfrontier hbase hle =>
    obtain ⟨c, hmax, hbasec, hfloorc, horigin⟩ :=
      maxBig_some_left base (classificationInput s scope obs).reconciledFloor
    obtain rfl : c = candidate := some.inj (hmax.symm.trans hcandidate)
    refine ⟨by simp, latest, pending, hview, .next base c (isBase_of_classifyFrontierBase hfrontier hbase) hle ?_⟩
    by_cases hc : c = base
    · exact .inl ⟨hc, fun x hx => hc ▸ hfloorc x hx⟩
    · rcases horigin with heq | hfloor
      · exact absurd heq hc
      · exact .inr ⟨hfloor, lt_of_le_of_ne hbasec (Ne.symm hc)⟩

theorem admitInTx_effect (h : admitInTx env mint req obs auth registrySeq s = .ok (result, s')) :
    (∃ err decision observationID, result = .classified err ∧ RefusedEffect req obs decision observationID s s') ∨
      ∃ b decision pending, result = .bound b ∧ AdmittedEffect req obs decision pending b s s' := by
  obtain ⟨decision, observationID, s₁, s₂, hdecision, hobs, hfrontier, hcases⟩ := admitInTx_cases h
  have hclassified : Classified (classificationInput s req.toScope obs) decision := hdecision ▸ classify_classified _
  obtain ⟨hvalid, observations, rfl, hobsRows⟩ := insertObservationTx_spec hobs
  obtain ⟨scopes, rfl, hfloor, hlast⟩ := recordFrontierTx_classified hclassified hfrontier rfl rfl rfl
  rcases hcases with ⟨-, ⟨err, rfl⟩, hhold⟩ | ⟨candidate, hex, s₃, hcandidate, rfl, hbinding, hevent⟩
  · obtain ⟨holds, rfl, hheld⟩ := holdForDecisionTx_spec hhold
    exact .inl ⟨err, decision, observationID, rfl,
      { classified := hclassified, bindings := rfl, events := rfl, audit := rfl,
        observations := hobsRows, observed := { nonces := rfl, floor := hfloor, pending := hlast, held := hheld } }⟩
  · obtain ⟨htrusted, latest, pending, hview, hadmits⟩ := hclassified.admits hcandidate
    obtain ⟨hrange, hfresh, bindings, rfl, hrows⟩ := insertBindingTx_spec hbinding
    have hcount : obs.pendingCount = some pending := hview.pending_eq
    rcases insertBindingEventTx_spec hevent with ⟨-, events, rfl, hevents⟩ | ⟨hfalse, -⟩
    · refine .inr ⟨_, decision, pending, rfl,
        { scope := rfl, intent := rfl, authorization := rfl, allocated := rfl, range := hrange,
          clean := ⟨latest, hview⟩, classified := hclassified, admits := hadmits,
          pending_nonneg := ((validateObservation_eq_ok hvalid).2 pending hcount).1,
          fresh := hfresh, bindings := hrows, events := hevents, audit := rfl, holds := rfl,
          observations := hobsRows, floor := hfloor, last := fun other => ?_ }⟩
      refine (hlast other).trans ?_
      by_cases hother : other = req.toScope
      · rwa [if_pos ⟨hother, htrusted⟩, if_pos hother]
      · rw [if_neg (fun hall => hother hall.1), if_neg hother]
        rfl
    · cases hfalse

/-- Everything a successful `allocateInTx` can have done, relative to the store it started
from. -/
inductive AllocateEffect (req : AllocationRequest) (obs : Observation) (s : Store) :
    AllocationTxResult → Store → Prop where
  | refused (err : Error) (s' : Store) : AllocateEffect req obs s (.refused err) s'
  | replay (b : Binding) (s' : Store) (hread : readBindingByIntentTx s req.intentID = some b)
      (hmatch : bindingMatchesInput b req = true) : AllocateEffect req obs s (.replay b) s'
  | classified (err : Error) (s' : Store) (decision : Decision) (observationID : String)
      (hnew : readBindingByIntentTx s req.intentID = none)
      (heffect : RefusedEffect req obs decision observationID s s') :
      AllocateEffect req obs s (.classified err) s'
  | bound (b : Binding) (s' : Store) (decision : Decision) (pending : Int) (hfree : ∀ cause, ¬ Held s req.toScope cause)
      (hnew : readBindingByIntentTx s req.intentID = none)
      (heffect : AdmittedEffect req obs decision pending b s s') :
      AllocateEffect req obs s (.bound b) s'

theorem allocateInTx_effect (h : allocateInTx env mint req obs s = .ok (result, s')) :
    AllocateEffect req obs s result s' := by
  cases allocateInTx_admission h with
  | refused err => exact .refused err s'
  | replay b _ hread hmatch => exact .replay b s' hread hmatch
  | proceed auth registrySeq scopes _ _ hfloor hpending hfree hnew hrun =>
    have hinput := classificationInput_scopes hfloor hpending req.toScope obs
    rcases admitInTx_effect hrun with
      ⟨err, decision, observationID, rfl, heffect⟩ | ⟨b, decision, pending, rfl, heffect⟩
    · refine .classified err s' decision observationID hnew
        { heffect with classified := hinput ▸ heffect.classified
                       observed := { heffect.observed with
                                     floor := heffect.observed.floor.trans hfloor
                                     pending := fun other => ?_ } }
      rw [heffect.observed.pending other, hpending]
    · refine .bound b s' decision pending hfree hnew
        { heffect with clean := hinput ▸ heffect.clean
                       classified := hinput ▸ heffect.classified
                       admits := frontier_scopes hfloor hpending req.toScope ▸ heffect.admits
                       floor := heffect.floor.trans hfloor
                       last := fun other => ?_ }
      rw [heffect.last other, hpending]

/-- An admission is the admitting move of its own scope and leaves every other scope alone. -/
theorem AdmittedEffect.step {pending : Int} {b : Binding} (h : AdmittedEffect req obs decision pending b s s')
    (hfree : ∀ cause, ¬ Held s req.toScope cause) (scope : Scope) : (frontier s scope).Step (frontier s' scope) := by
  have hheld : ∀ other, (frontier s' other).blocked = (frontier s other).blocked := by
    intro other
    simp only [frontier, Held, h.holds]
  by_cases hscope : scope = req.toScope
  · subst hscope
    obtain ⟨latest, hview⟩ := h.clean
    have hbound : boundNonces s' req.toScope = insert b.nonce (boundNonces s req.toScope) := by
      ext n
      simp only [boundNonces, h.bindings, List.mem_append, List.mem_singleton, Set.mem_ofPred_eq, Set.mem_insert_iff]
      constructor
      · rintro ⟨r, hr | rfl, hr', hn⟩
        · exact .inr ⟨r, hr, hr', hn⟩
        · exact .inl hn.symm
      · rintro (rfl | ⟨r, hr, hr', hn⟩)
        · exact ⟨b, .inr rfl, h.scope, rfl⟩
        · exact ⟨r, .inl hr, hr', hn⟩
    have hafter : frontier s' req.toScope =
        { frontier s req.toScope with
          bound := insert b.nonce (frontier s req.toScope).bound, lastPending := some pending } :=
      frontier_eq hbound (congrFun h.floor _) (by rw [h.last]; simp) (hheld _)
    rw [hafter]
    refine .assign pending b.nonce hview.advances ?_ h.pending_nonneg h.admits
    rintro (hblocked | hblocked) <;> exact hfree _ hblocked
  · have hbound : boundNonces s' scope = boundNonces s scope := by
      ext n
      simp only [boundNonces, h.bindings, List.mem_append, List.mem_singleton, Set.mem_ofPred_eq]
      constructor
      · rintro ⟨r, hr | rfl, hr', hn⟩
        · exact ⟨r, hr, hr', hn⟩
        · exact absurd (hr'.symm.trans h.scope) hscope
      · rintro ⟨r, hr, hr', hn⟩
        exact ⟨r, .inl hr, hr', hn⟩
    have hafter : frontier s' scope = frontier s scope :=
      frontier_eq hbound (congrFun h.floor _) (by rw [h.last, if_neg hscope]; rfl) (hheld _)
    rw [hafter]
    exact .idle

end TxHarbor.Nonce
