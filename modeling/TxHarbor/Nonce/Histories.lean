import TxHarbor.Nonce.Binding
import TxHarbor.Nonce.Lifecycle

open Relational Constrained List

namespace TxHarbor.Nonce

open Binding

/-- The event rows of one binding, in `event_id` order. -/
def eventsOf (s : Store) (bindingID : String) : List BindingEvent :=
  s.events.rows.filter fun e => e.bindingID == bindingID

/-- The event log explains the state of every binding and of nothing else. -/
structure Histories (s : Store) : Prop where
  lifecycle : ∀ b ∈ s.bindings.rows, Lifecycle (eventsOf s b.bindingID) b.state
  owned : ∀ e ∈ s.events.rows, ∃ b ∈ s.bindings.rows, b.bindingID = e.bindingID

/-- A row of the bindings table after any number of state advances: only the state and the
terminal columns may differ, and a terminal row is final. -/
structure Binding.Advances (b b' : Binding) : Prop where
  facts : b' = { b with state := b'.state, consumedAt := b'.consumedAt,
                        releasedAt := b'.releasedAt, releaseOperationID := b'.releaseOperationID }
  final : isTerminal b.state = true → b' = b

theorem Binding.Advances.refl (b : Binding) : b.Advances b := ⟨rfl, fun _ => rfl⟩

variable {a b : Binding} {s s' : Store} {ev : BindingEvent}

namespace Binding.Advances

theorem trans {c : Binding} (hab : a.Advances b) (hbc : b.Advances c) : a.Advances c := by
  refine ⟨?_, fun hterminal => ?_⟩
  · rw [hbc.facts, hab.facts]
  · have hb := hab.final hterminal
    rw [hbc.final (hb ▸ hterminal), hb]

theorem toScope (h : a.Advances b) : b.toScope = a.toScope := by
  rw [h.facts]

theorem nonce (h : a.Advances b) : b.nonce = a.nonce := by
  rw [h.facts]

theorem bindingID (h : a.Advances b) : b.bindingID = a.bindingID := by
  rw [h.facts]

theorem intentID (h : a.Advances b) : b.intentID = a.intentID := by
  rw [h.facts]

end Binding.Advances

/-- The bindings of `s'` are those of `s`, each advanced in place. -/
def BindingsAdvance (s s' : Store) : Prop :=
  ∃ f : Binding → Binding, s'.bindings.rows = s.bindings.rows.map f ∧ ∀ b : Binding, b.Advances (f b)

theorem BindingsAdvance.of_eq (h : s'.bindings = s.bindings) : BindingsAdvance s s' :=
  ⟨id, by rw [h, map_id], Binding.Advances.refl⟩

theorem BindingsAdvance.trans {s₁ s₂ s₃ : Store} (h₁₂ : BindingsAdvance s₁ s₂)
    (h₂₃ : BindingsAdvance s₂ s₃) : BindingsAdvance s₁ s₃ := by
  obtain ⟨f, hf, hfadv⟩ := h₁₂
  obtain ⟨g, hg, hgadv⟩ := h₂₃
  exact ⟨g ∘ f, by rw [hg, hf, map_map], fun b => (hfadv b).trans (hgadv (f b))⟩

/-- The row map of one guarded state advance. -/
def advanceRow (now : Int) (bindingID : String) (target : BindingState) (operationID : String)
    (source : BindingState) (b : Binding) : Binding :=
  if b.standsAt bindingID source then b.moved target operationID now else b

variable {bindingID : String} {source : BindingState} {now : Int} {operationID : String}

theorem Binding.standsAt_iff : b.standsAt bindingID source = true ↔ b.bindingID = bindingID ∧ b.state = source := by
  simp [standsAt]

theorem advanceRow_advances {target : BindingState} (hedge : canTransition source target = true) (b : Binding) :
    b.Advances (advanceRow now bindingID target operationID source b) := by
  unfold advanceRow
  by_cases hstands : b.standsAt bindingID source = true
  · rw [if_pos hstands]
    refine ⟨rfl, fun hterminal => ?_⟩
    rw [(standsAt_iff.mp hstands).2] at hterminal
    rw [canTransition_of_terminal hterminal] at hedge
    cases hedge
  · rw [if_neg hstands]
    exact .refl b

/-- Two rows with one binding id are the same row. -/
theorem eq_of_bindingID (ha : a ∈ s.bindings.rows) (hb : b ∈ s.bindings.rows) (h : a.bindingID = b.bindingID) : a = b :=
  s.bindings.eq_of_clash ha hb (by simp [clash, h])

/-- Two rows with one intent are the same row. -/
theorem eq_of_intentID (ha : a ∈ s.bindings.rows) (hb : b ∈ s.bindings.rows) (h : a.intentID = b.intentID) : a = b :=
  s.bindings.eq_of_clash ha hb (by simp [clash, h])

private theorem eventsOf_append (hevents : s'.events.rows = s.events.rows ++ [ev]) (bindingID : String) :
    eventsOf s' bindingID = eventsOf s bindingID ++ if ev.bindingID = bindingID then [ev] else [] := by
  unfold eventsOf
  rw [hevents, filter_append]
  by_cases hid : ev.bindingID = bindingID <;> simp [hid]

/-- One recorded edge of one current binding keeps the log and the states in agreement. -/
theorem Histories.move (h : Histories s) (hb : b ∈ s.bindings.rows) (hedge : canTransition b.state ev.toState = true)
    (hid : ev.bindingID = b.bindingID) (hsource : ev.fromState = some b.state)
    (hbindings : s'.bindings.rows = s.bindings.rows.map (advanceRow now b.bindingID ev.toState operationID b.state))
    (hevents : s'.events.rows = s.events.rows ++ [ev]) : Histories s' := by
  constructor
  · intro r' hr'
    rw [hbindings] at hr'
    obtain ⟨r, hr, rfl⟩ := mem_map.mp hr'
    rw [(advanceRow_advances hedge r).bindingID, eventsOf_append hevents]
    by_cases hsame : r.bindingID = b.bindingID
    · obtain rfl := eq_of_bindingID hr hb hsame
      have hstands : r.standsAt r.bindingID r.state = true := standsAt_iff.mpr ⟨rfl, rfl⟩
      rw [if_pos hid, advanceRow, if_pos hstands]
      exact .moved _ r.state ev (h.lifecycle r hr) hsource hedge
    · have hstands : ¬ r.standsAt b.bindingID b.state = true := fun hall => hsame (standsAt_iff.mp hall).1
      rw [if_neg (fun heq => hsame (heq.symm.trans hid)), append_nil, advanceRow, if_neg hstands]
      exact h.lifecycle r hr
  · intro e he
    rw [hevents] at he
    have howner : ∃ r ∈ s.bindings.rows, r.bindingID = e.bindingID := by
      rcases mem_append.mp he with hold | hnew
      · exact h.owned e hold
      · exact ⟨b, hb, by rw [mem_singleton.mp hnew, hid]⟩
    obtain ⟨r, hr, hrid⟩ := howner
    refine ⟨_, hbindings ▸ mem_map_of_mem hr, ?_⟩
    rw [(advanceRow_advances hedge r).bindingID, hrid]

/-- A fresh binding with its creation event keeps the log and the states in agreement. -/
theorem Histories.create (h : Histories s) (hfresh : ∀ r ∈ s.bindings.rows, r.bindingID ≠ b.bindingID)
    (hstate : b.state = .allocated) (hid : ev.bindingID = b.bindingID) (hsource : ev.fromState = none)
    (htarget : ev.toState = .allocated) (hbindings : s'.bindings.rows = s.bindings.rows ++ [b])
    (hevents : s'.events.rows = s.events.rows ++ [ev]) : Histories s' := by
  constructor
  · intro r hr
    rw [eventsOf_append hevents]
    rw [hbindings] at hr
    rcases mem_append.mp hr with hold | hnew
    · rw [if_neg (fun heq => hfresh r hold (heq.symm.trans hid)), append_nil]
      exact h.lifecycle r hold
    · obtain rfl := mem_singleton.mp hnew
      have hnone : eventsOf s r.bindingID = [] := by
        rw [eventsOf, filter_eq_nil_iff]
        intro e he heq
        obtain ⟨owner, howner, hownerid⟩ := h.owned e he
        exact hfresh owner howner (hownerid.trans (by simpa using heq))
      rw [hnone, if_pos hid, hstate]
      exact .created ev hsource htarget
  · intro e he
    rw [hevents] at he
    rw [hbindings]
    rcases mem_append.mp he with hold | hnew
    · obtain ⟨r, hr, hrid⟩ := h.owned e hold
      exact ⟨r, mem_append_left _ hr, hrid⟩
    · exact ⟨b, by simp, by rw [mem_singleton.mp hnew, hid]⟩

theorem Histories.of_eq (h : Histories s) (hbindings : s'.bindings = s.bindings) (hevents : s'.events = s.events) :
    Histories s' := by
  constructor
  · intro b hb
    rw [eventsOf, hevents]
    exact h.lifecycle b (hbindings ▸ hb)
  · intro e he
    rw [hbindings]
    exact h.owned e (hevents ▸ he)

end TxHarbor.Nonce
