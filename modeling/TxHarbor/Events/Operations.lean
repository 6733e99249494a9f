import TxHarbor.Transition.Run

/-!
# Audited operations

`Replay`, `Unblock` and `RetentionPrune` converge on the audit row of their operation id, which is read first and written
last. What counts here is what a call is told: a replay that finds its id taken at the end has done its work. A call that
fails takes no further step. Texts are given by their characters.
-/

open Transition List

namespace TxHarbor.Events

inductive OpKind
  | replay
  | unblock
  | retentionPrune
  deriving DecidableEq

def OpKind.text : OpKind → List Char
  | .replay => ['r', 'e', 'p', 'l', 'a', 'y']
  | .unblock => ['u', 'n', 'b', 'l', 'o', 'c', 'k']
  | .retentionPrune => ['r', 'e', 't', 'e', 'n', 't', 'i', 'o', 'n', '_', 'p', 'r', 'u', 'n', 'e']

/-- The scope as the id is derived from it: the consumer and the rendered scope of a replay, the outbox id of an unblock,
the retention of a prune. -/
structure Operation where
  kind : OpKind
  scope : List (List Char)
  reason : List Char
  operator : List Char
  operationID : List Char
  deriving DecidableEq

namespace Operation

def parts (op : Operation) : List (List Char) := op.kind.text :: (op.scope ++ [op.reason, op.operator])

/-- The given operation id, or `deriveOperationID` with the digest of the joined parts. -/
def id (digest : List Char → List Char) (op : Operation) : List Char :=
  if op.operationID = [] then op.kind.text ++ '-' :: digest (['|'].intercalate op.parts) else op.operationID

/-- The same kind, scope, reason and operator. -/
def Repeats (op first : Operation) : Prop :=
  op.kind = first.kind ∧ op.scope = first.scope ∧ op.reason = first.reason ∧ op.operator = first.operator

/-- A given id names one operation, and a derived one has no separator in its parts. -/
structure Careful (digest : List Char → List Char) (op first : Operation) : Prop where
  given : op.operationID ≠ [] ∨ first.operationID ≠ [] → op.id digest = first.id digest → op.Repeats first
  derived : op.operationID = [] → ∀ part ∈ op.parts, '|' ∉ part

end Operation

inductive OpPhase
  | begun
  /-- No audit row was found. -/
  | unrecorded
  | executed
  | deduplicated
  deriving DecidableEq

/-- `event_ops_audit` with the operation of each row, and the calls. -/
structure OpsWorld where
  audit : List (List Char × Operation)
  calls : List (Operation × OpPhase)

inductive OpsAction
  | call (op : Operation)
  | readAuditResult (i : Nat)
  | execute (i : Nat)

namespace OpsWorld

def recorded (digest : List Char → List Char) (w : OpsWorld) (op : Operation) : Bool :=
  w.audit.any fun row => row.1 == op.id digest

def next (digest : List Char → List Char) (w : OpsWorld) : OpsAction → OpsWorld
  | .call op => { w with calls := w.calls ++ [(op, .begun)] }
  | .readAuditResult i =>
    match w.calls[i]? with
    | some (op, .begun) =>
      { w with calls := w.calls.set i (op, if w.recorded digest op then .deduplicated else .unrecorded) }
    | _ => w
  | .execute i =>
    match w.calls[i]? with
    -- the id of an audit row is unique
    | some (op, .unrecorded) =>
      if w.recorded digest op then { w with calls := w.calls.set i (op, .deduplicated) }
      else { audit := w.audit ++ [(op.id digest, op)], calls := w.calls.set i (op, .executed) }
    | _ => w

end OpsWorld

variable {digest : List Char → List Char} {op first : Operation}

/-- Derived ids tell operations apart as long as no part has the separator. -/
theorem Operation.repeats_of_derived (hdigest : Function.Injective digest) (hop : op.operationID = [])
    (hfirst : first.operationID = []) (hparts : ∀ part ∈ op.parts, '|' ∉ part) (hparts' : ∀ part ∈ first.parts, '|' ∉ part)
    (h : op.id digest = first.id digest) : op.Repeats first := by
  have hkind : op.kind = first.kind := by
    revert h
    simp only [Operation.id, hop, hfirst, if_true]
    cases op.kind <;> cases first.kind <;> simp [OpKind.text]
  simp only [Operation.id, hop, hfirst, if_true, hkind, append_cancel_left_eq, cons.injEq, true_and] at h
  have hjoined := congrArg (splitOn '|') (hdigest h)
  rw [splitOn_intercalate _ hparts (cons_ne_nil _ _), splitOn_intercalate _ hparts' (cons_ne_nil _ _)] at hjoined
  obtain ⟨hscope, htexts⟩ := append_inj' (cons.inj hjoined).2 rfl
  exact ⟨hkind, hscope, by simpa using htexts⟩

theorem Operation.Careful.repeats (hdigest : Function.Injective digest) (h : op.Careful digest first)
    (h' : first.Careful digest op) (hid : op.id digest = first.id digest) : op.Repeats first := by
  by_cases hgiven : op.operationID ≠ [] ∨ first.operationID ≠ []
  · exact h.given hgiven hid
  · push Not at hgiven
    exact repeats_of_derived hdigest hgiven.1 hgiven.2 (h.derived hgiven.1) (h'.derived hgiven.2) hid

namespace OpsWorld

/-- Only asked operations are called, a row has the id of its operation, and a repeat has found a row with its id. -/
structure Sound (digest : List Char → List Char) (asked : Operation → Prop) (w : OpsWorld) : Prop where
  called : ∀ c ∈ w.calls, asked c.1
  written : ∀ row ∈ w.audit, row.1 = row.2.id digest ∧ asked row.2
  found : ∀ c ∈ w.calls, c.2 = .deduplicated → w.recorded digest c.1 = true

variable {asked : Operation → Prop} {w : OpsWorld} {i : Nat} {phase old : OpPhase}

theorem Sound.set (h : w.Sound digest asked) (hi : w.calls[i]? = some (op, old))
    (hphase : phase = .deduplicated → w.recorded digest op = true) :
    Sound digest asked { w with calls := w.calls.set i (op, phase) } := by
  refine ⟨fun c hc => ?_, h.written, fun c hc hrepeat => ?_⟩ <;> rcases mem_or_eq_of_mem_set hc with hc | rfl
  · exact h.called c hc
  · exact h.called (op, old) (mem_of_getElem? hi)
  · exact h.found c hc hrepeat
  · exact hphase hrepeat

/-- Every action on asked operations keeps the invariant. -/
theorem Sound.next {act : OpsAction} (h : w.Sound digest asked) (hact : ∀ op, act = .call op → asked op) :
    (w.next digest act).Sound digest asked := by
  cases act with
  | call op =>
    refine ⟨?_, h.written, ?_⟩ <;> simp only [OpsWorld.next, forall_mem_append, forall_mem_singleton]
    · exact ⟨h.called, hact op rfl⟩
    · exact ⟨h.found, nofun⟩
  | readAuditResult i =>
    simp only [OpsWorld.next]
    split
    next hi => exact h.set hi (by split <;> simp_all)
    · exact h
  | execute i =>
    simp only [OpsWorld.next]
    split
    next op hi =>
      split
      next hrecorded => exact h.set hi fun _ => hrecorded
      · have hrow : Sound digest asked { w with audit := w.audit ++ [(op.id digest, op)] } := by
          refine ⟨h.called, ?_, fun c hc hrepeat => ?_⟩
          · simp only [forall_mem_append, forall_mem_singleton]
            exact ⟨h.written, trivial, h.called _ (mem_of_getElem? hi)⟩
          · rw [recorded, any_append, Bool.or_eq_true]
            exact .inl (h.found c hc hrepeat)
        exact hrow.set hi nofun
    · exact h

end OpsWorld

/-- Of operations that are careful with their ids, one that is answered as a repeat repeats the operation of the row it
has found. -/
theorem deduplicated_only_repeats (digest : List Char → List Char) (hdigest : Function.Injective digest)
    (actions : List OpsAction)
    (hcareful : ∀ op first, .call op ∈ actions → .call first ∈ actions → Operation.Careful digest op first) :
    let w := run (OpsWorld.next digest) ⟨[], []⟩ actions
    ∀ c ∈ w.calls, c.2 = .deduplicated → ∃ row ∈ w.audit, row.1 = c.1.id digest ∧ c.1.Repeats row.2 := by
  have hsound : (run (OpsWorld.next digest) ⟨[], []⟩ actions).Sound digest (.call · ∈ actions) :=
    invariant_of_along (I := fun w : OpsWorld => w.Sound digest (.call · ∈ actions))
      (along_of_mem (Q := (· ∈ actions)) (fun _ => id) _) ⟨by nofun, by nofun, by nofun⟩
      fun w act hact h => h.next fun op heq => heq ▸ hact
  intro w c hc hrepeat
  obtain ⟨row, hrow, hid⟩ := any_eq_true.mp (hsound.found c hc hrepeat)
  obtain ⟨hwritten, hasked⟩ := hsound.written row hrow
  have hsame := beq_iff_eq.mp hid
  exact ⟨row, hrow, hsame, Operation.Careful.repeats hdigest (hcareful _ _ (hsound.called c hc) hasked)
    (hcareful _ _ hasked (hsound.called c hc)) (hsame.symm.trans hwritten)⟩

namespace Sample

/-- Two calls, one after the other. -/
def twice (op op' : Operation) : List OpsAction :=
  [.call op, .readAuditResult 0, .execute 0, .call op', .readAuditResult 1, .execute 1]

def unblocking (reason operator : List Char) : Operation := ⟨.unblock, [['1']], reason, operator, []⟩

end Sample

open Sample

theorem deduplicated_only_repeats_retried :
    let w := run (OpsWorld.next id) ⟨[], []⟩ (twice (unblocking ['a'] ['b']) (unblocking ['a'] ['b']))
    (unblocking ['a'] ['b'], .deduplicated) ∈ w.calls ∧
      ∃ row ∈ w.audit, row.1 = (unblocking ['a'] ['b']).id id ∧ (unblocking ['a'] ['b']).Repeats row.2 := by
  have hrepeat : (unblocking ['a'] ['b'], .deduplicated) ∈
      (run (OpsWorld.next id) ⟨[], []⟩ (twice (unblocking ['a'] ['b']) (unblocking ['a'] ['b']))).calls := by decide
  refine ⟨hrepeat, deduplicated_only_repeats id Function.injective_id _ ?_ _ hrepeat rfl⟩
  intro op first hop hfirst
  simp only [twice, mem_cons, OpsAction.call.injEq, reduceCtorEq, false_or, not_mem_nil, or_false, or_self] at hop hfirst
  subst hop hfirst
  exact ⟨fun h => absurd h (by decide), fun _ => by decide⟩

/-- A separator in the texts joins two operations into one id, and a given id is not compared with the kind it was used
for. Both second calls are dropped as repeats. -/
theorem deduplicated_other_operation :
    (run (OpsWorld.next id) ⟨[], []⟩ (twice (unblocking ['a', '|', 'b'] ['c']) (unblocking ['a'] ['b', '|', 'c']))).calls =
        [(unblocking ['a', '|', 'b'] ['c'], .executed), (unblocking ['a'] ['b', '|', 'c'], .deduplicated)] ∧
      (run (OpsWorld.next id) ⟨[], []⟩
        (twice ⟨.replay, [], ['a'], ['b'], ['1']⟩ ⟨.unblock, [['7']], ['c'], ['d'], ['1']⟩)).calls.map Prod.snd =
        [.executed, .deduplicated] := by
  decide

end TxHarbor.Events
