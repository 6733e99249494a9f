import TxHarbor.Nonce.Store

open Relational

namespace TxHarbor.Nonce

/-- One event follows another: it starts where the other ended, along a legal edge. -/
def BindingEvent.Follows (previous e : BindingEvent) : Prop :=
  e.fromState = some previous.toState ∧ canTransition previous.toState e.toState = true

/-- The event rows of one binding, oldest first, that lead to its state: the creation event and
then one legal edge after the other. -/
inductive Lifecycle : List BindingEvent → BindingState → Prop where
  | created (e : BindingEvent) (hsource : e.fromState = none) (htarget : e.toState = .allocated) :
      Lifecycle [e] .allocated
  | moved (events : List BindingEvent) (state : BindingState) (e : BindingEvent)
      (hpast : Lifecycle events state) (hsource : e.fromState = some state)
      (hedge : canTransition state e.toState = true) : Lifecycle (events ++ [e]) e.toState

/-- How far a state is along every legal path. -/
def BindingState.rank : BindingState → Nat
  | .allocated => 0
  | .inFlight => 1
  | .consumed | .released => 2

theorem rank_lt_of_canTransition {source target : BindingState}
    (h : canTransition source target = true) : source.rank < target.rank := by
  cases source <;> cases target <;> simp_all [canTransition, BindingState.rank]

variable {events : List BindingEvent} {state : BindingState}

namespace Lifecycle

variable (h : Lifecycle events state)
include h

theorem rank_le : ∀ e ∈ events, e.toState.rank ≤ state.rank := by
  induction h with
  | created e hsource htarget => simp [htarget]
  | moved events state e hpast hsource hedge ih =>
    intro e' he'
    have hlt := rank_lt_of_canTransition hedge
    rcases List.mem_append.mp he' with hold | hnew
    · exact (ih e' hold).trans hlt.le
    · rw [List.mem_singleton.mp hnew]

/-- A state that an edge can still reach has not been visited. -/
theorem not_visited {target : BindingState}
    (hedge : canTransition state target = true) : ∀ e ∈ events, e.toState ≠ target := by
  intro e he heq
  have hle := h.rank_le e he
  have hlt := rank_lt_of_canTransition hedge
  rw [heq] at hle
  omega

theorem head : ∃ e rest, events = e :: rest ∧ e.fromState = none ∧ e.toState = .allocated := by
  induction h with
  | created e hsource htarget => exact ⟨e, [], rfl, hsource, htarget⟩
  | moved events state e hpast hsource hedge ih =>
    obtain ⟨first, rest, rfl, hfirst⟩ := ih
    exact ⟨first, rest ++ [e], rfl, hfirst⟩

theorem last : events.getLast?.map (·.toState) = some state := by
  cases h with
  | created e hsource htarget => simp [htarget]
  | moved events state e hpast hsource hedge => simp

theorem chain : events.IsChain BindingEvent.Follows := by
  induction h with
  | created e hsource htarget => exact .singleton e
  | moved events state e hpast hsource hedge ih =>
    refine ih.append (.singleton e) ?_
    intro previous hprevious next hnext
    have hstate := hpast.last
    rw [Option.mem_def] at hprevious
    rw [hprevious, Option.map_some, Option.some.injEq] at hstate
    obtain rfl : e = next := by simpa using hnext
    exact ⟨hstate ▸ hsource, hstate ▸ hedge⟩

theorem nodup : (events.map (·.toState)).Nodup := by
  induction h with
  | created e hsource htarget => simp
  | moved events state e hpast hsource hedge ih =>
    have hfresh := hpast.not_visited hedge
    rw [List.map_append, List.nodup_append]
    refine ⟨ih, by simp, ?_⟩
    intro target htarget next hnext
    obtain ⟨e', he', rfl⟩ := List.mem_map.mp htarget
    obtain rfl : next = e.toState := by simpa using hnext
    exact hfresh e' he'

end Lifecycle

end TxHarbor.Nonce
