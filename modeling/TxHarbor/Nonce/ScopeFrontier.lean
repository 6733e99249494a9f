import TxHarbor.Nonce.Admission
import TxHarbor.Nonce.Frontier
import TxHarbor.Nonce.Histories

open Relational

namespace TxHarbor.Nonce

/-- The nonces ever bound in a scope, whatever became of their bindings. -/
def boundNonces (s : Store) (scope : Scope) : Set Int := { n | ∃ b ∈ s.bindings.rows, b.toScope = scope ∧ b.nonce = n }

/-- The abstract frontier that the stored rows of a scope stand for. -/
def frontier (s : Store) (scope : Scope) : Frontier where
  bound := boundNonces s scope
  floor := scopeFloor s scope
  lastPending := scopeLastPending s scope
  blocked := Held s scope .unattributedConsumption ∨ Held s scope .unexplainedGap

variable {s : Store} {scope : Scope} {obs : Observation}

theorem boundNonces_of_advance {s' : Store} (h : BindingsAdvance s s') : boundNonces s' = boundNonces s := by
  obtain ⟨f, hrows, hadvance⟩ := h
  funext scope
  ext n
  simp only [boundNonces, hrows, List.mem_map, Set.mem_ofPred_eq]
  constructor
  · rintro ⟨_, ⟨b, hb, rfl⟩, hscope, hn⟩
    exact ⟨b, hb, (hadvance b).toScope ▸ hscope, (hadvance b).nonce ▸ hn⟩
  · rintro ⟨b, hb, hscope, hn⟩
    exact ⟨f b, ⟨b, hb, rfl⟩, (hadvance b).toScope.trans hscope, (hadvance b).nonce.trans hn⟩

theorem mem_readBindingsByScopeTx {b : Binding} :
    b ∈ readBindingsByScopeTx s scope ↔ b ∈ s.bindings.rows ∧ b.toScope = scope := by
  unfold readBindingsByScopeTx scopeBindings
  rw [List.mem_insertionSort, List.mem_filter]
  simp

private theorem foldl_takeMax (bindings : List Binding) : ∀ m, ∃ k, bindings.foldl takeMax (some m) = some k ∧ m ≤ k ∧
      (∀ b ∈ bindings, b.nonce ≤ k) ∧ (k = m ∨ ∃ b ∈ bindings, b.nonce = k) := by
  induction bindings with
  | nil => exact fun m => ⟨m, rfl, le_refl m, by simp, .inl rfl⟩
  | cons b rest ih =>
    intro m
    by_cases hlt : m < b.nonce
    · obtain ⟨k, hk, hle, hall, horigin⟩ := ih b.nonce
      refine ⟨k, by simpa [takeMax, hlt] using hk, by omega, ?_, ?_⟩
      · simpa [hle] using hall
      · rcases horigin with rfl | ⟨c, hc, hck⟩
        · exact .inr ⟨b, by simp, rfl⟩
        · exact .inr ⟨c, by simp [hc], hck⟩
    · obtain ⟨k, hk, hle, hall, horigin⟩ := ih m
      refine ⟨k, by simpa [takeMax, hlt] using hk, hle, ?_, ?_⟩
      · have : b.nonce ≤ k := by omega
        simpa [this] using hall
      · rcases horigin with rfl | ⟨c, hc, hck⟩
        · exact .inl rfl
        · exact .inr ⟨c, by simp [hc], hck⟩

/-- `maxBoundNonce` is missing exactly on the empty list and attained otherwise. -/
theorem maxBoundNonce_spec (bindings : List Binding) : (bindings = [] ∧ maxBoundNonce bindings = none) ∨
      ∃ k, maxBoundNonce bindings = some k ∧ (∀ b ∈ bindings, b.nonce ≤ k) ∧ ∃ b ∈ bindings, b.nonce = k := by
  cases bindings with
  | nil => exact .inl ⟨rfl, rfl⟩
  | cons b rest =>
    obtain ⟨k, hk, hle, hall, horigin⟩ := foldl_takeMax rest b.nonce
    refine .inr ⟨k, hk, by simpa [hle] using hall, ?_⟩
    rcases horigin with rfl | ⟨c, hc, hck⟩
    · exact ⟨b, by simp, rfl⟩
    · exact ⟨c, by simp [hc], hck⟩

theorem boundNonces_eq_empty : boundNonces s scope = ∅ ↔ readBindingsByScopeTx s scope = [] := by
  rw [Set.eq_empty_iff_forall_notMem, List.eq_nil_iff_forall_not_mem]
  constructor
  · intro hnone b hb
    obtain ⟨hrow, hscope⟩ := mem_readBindingsByScopeTx.mp hb
    exact hnone b.nonce ⟨b, hrow, hscope, rfl⟩
  · rintro hnone n ⟨b, hrow, hscope, -⟩
    exact hnone b (mem_readBindingsByScopeTx.mpr ⟨hrow, hscope⟩)

theorem isGreatest_of_maxBoundNonce {m : Int} (h : maxBoundNonce (readBindingsByScopeTx s scope) = some m) :
    IsGreatest (boundNonces s scope) m := by
  rcases maxBoundNonce_spec (readBindingsByScopeTx s scope) with ⟨-, hnone⟩ | ⟨k, hk, hall, b, hb, hbk⟩
  · cases hnone.symm.trans h
  · obtain rfl : k = m := Option.some.inj (hk.symm.trans h)
    obtain ⟨hrow, hscope⟩ := mem_readBindingsByScopeTx.mp hb
    refine ⟨⟨b, hrow, hscope, hbk⟩, ?_⟩
    rintro n ⟨c, hc, hcscope, rfl⟩
    exact hall c (mem_readBindingsByScopeTx.mpr ⟨hc, hcscope⟩)

theorem hasBindings_iff : (classificationInput s scope obs).hasBindings = true ↔ boundNonces s scope ≠ ∅ := by
  rw [ne_eq, boundNonces_eq_empty]
  simp [classificationInput, List.length_pos_iff]

theorem not_frontierExists (h : ¬ (classificationInput s scope obs).frontierExists) :
    boundNonces s scope = ∅ ∧ scopeFloor s scope = none := by
  unfold ClassificationInput.frontierExists at h
  rw [hasBindings_iff, not_or, not_not] at h
  refine ⟨h.1, ?_⟩
  simpa [classificationInput] using h.2

/-- The code's base is the abstract one whenever the scope has a frontier. -/
theorem isBase_of_classifyFrontierBase {base : Int} (hfrontier : (classificationInput s scope obs).frontierExists)
    (hbase : classifyFrontierBase (classificationInput s scope obs) = .ok base) : (frontier s scope).IsBase base := by
  unfold classifyFrontierBase at hbase
  split at hbase
  next hbound =>
    obtain ⟨m, hm⟩ := Option.isSome_iff_exists.mp hbound.2
    rw [hm, nextNonce_eq_ok] at hbase
    exact .inl ⟨m, isGreatest_of_maxBoundNonce hm, hbase.2.2⟩
  next hnobound =>
    have hempty : boundNonces s scope = ∅ := by
      by_contra hne
      rcases maxBoundNonce_spec (readBindingsByScopeTx s scope) with ⟨hnil, -⟩ | ⟨k, hk, -⟩
      · exact hne (boundNonces_eq_empty.mpr hnil)
      · exact hnobound ⟨hasBindings_iff.mpr hne, Option.isSome_iff_exists.mpr ⟨k, hk⟩⟩
    have hfloor : (classificationInput s scope obs).reconciledFloor.isSome = true := by
      rcases hfrontier with hbindings | hfloor
      · exact absurd hempty (hasBindings_iff.mp hbindings)
      · exact hfloor
    obtain ⟨x, hx⟩ := Option.isSome_iff_exists.mp hfloor
    have hno : ¬ (classificationInput s scope obs).hasBindings = true := by
      rwa [hasBindings_iff, not_not]
    rw [if_pos ⟨by simpa using hno, hfloor⟩, hx] at hbase
    refine .inr ⟨hempty, ?_⟩
    obtain ⟨_, -, hbase⟩ := Tx.except_eq_ok.1.mp hbase
    exact Except.ok.inj hbase ▸ hx

theorem CleanView.advances {latest pending : Int} (h : CleanView (classificationInput s scope obs) latest pending) :
    (frontier s scope).Advances pending := h.prev_le

end TxHarbor.Nonce
