import Mathlib

namespace Relational

open Except

/-- A serialized transaction body: it reads and writes the store, or raises an error. -/
abbrev Tx (Store Error : Type) := StateT Store (Except Error)

/-- What the environment does to one transaction. `commitLost` is a COMMIT whose answer never
arrives and `crash` is the death of the calling process; both may or may not have applied. -/
inductive Fault (Error : Type) where
  | none
  | beginFails
  | statementFails (err : Error)
  | commitLost (applied : Bool)
  | crash (applied : Bool)

/-- What the caller learns about its transaction. -/
inductive Attempt (Error Result : Type) where
  | notOpened
  | failed (err : Error)
  | rolledBack (result : Result)
  | committed (result : Result)
  | commitUnknown (result : Result)
  | crashed

namespace Tx

variable {Store Error A : Type} {s s' : Store} {a b : A} {err : Error} {Result : Type} {fault : Fault Error}
  {body : Tx Store Error Result} {keep : Result → Bool} {result : Result}

variable {x : Tx Store Error A} {c : Prop} {u : Unit} {o : Option A}

/-- How a sequence of checks without a store succeeds. -/
theorem except_eq_ok : (∀ {A B : Type} {x : Except Error A} {f : A → Except Error B} {b : B},
      (x >>= f) = .ok b ↔ ∃ a, x = .ok a ∧ f a = .ok b) ∧
    ∀ {A : Type} {a b : A}, (pure a : Except Error A) = .ok b ↔ a = b := by
  refine ⟨fun {A B x f b} => ?_, by simp [pure, Except.pure]⟩
  cases x <;> simp [bind, Except.bind]

theorem bind_eq_ok {B : Type} {f : A → Tx Store Error B} {b : B} :
    (x >>= f) s = .ok (b, s') ↔ ∃ a s₁, x s = .ok (a, s₁) ∧ f a s₁ = .ok (b, s') := by
  change (x s >>= fun p => f p.1 p.2) = .ok (b, s') ↔ _
  rw [except_eq_ok.1, Prod.exists]

@[simp] theorem pure_eq_ok : (pure a : Tx Store Error A) s = .ok (b, s') ↔ a = b ∧ s = s' := by
  change (ok (a, s) : Except Error (A × Store)) = .ok (b, s') ↔ _
  simp

@[simp] theorem throw_eq_ok {e : Error} : (throw e : Tx Store Error A) s = .ok (b, s') ↔ False := by
  change (error e : Except Error (A × Store)) = .ok (b, s') ↔ _
  simp

@[simp] theorem get_eq_ok {b : Store} : (get : Tx Store Error Store) s = .ok (b, s') ↔ s = b ∧ s = s' := by
  change (ok (s, s) : Except Error (Store × Store)) = .ok (b, s') ↔ _
  simp

@[simp] theorem set_eq_ok {t : Store} {u : PUnit} : (set t : Tx Store Error PUnit) s = .ok (u, s') ↔ t = s' := by
  change (ok (PUnit.unit, t) : Except Error (PUnit × Store)) = .ok (u, s') ↔ _
  simp

@[simp] theorem ite_apply_eq_ok [Decidable c] {y : Tx Store Error A} :
    (if c then x else y) s = .ok (b, s') ↔ (c ∧ x s = .ok (b, s')) ∨ (¬ c ∧ y s = .ok (b, s')) := by
  by_cases hc : c <;> simp [hc]

/-- Raise `err` unless the condition holds. -/
def require {Store Error : Type} (c : Prop) [Decidable c] (err : Error) : Tx Store Error Unit :=
  if c then pure () else throw err

@[simp] theorem require_eq_ok [Decidable c] : require c err s = .ok (u, s') ↔ c ∧ s = s' := by
  unfold require
  by_cases hc : c <;> simp [hc]

/-- Turn a missing value into an error. -/
def demand {Store Error A : Type} (err : Error) : Option A → Tx Store Error A
  | some a => pure a
  | none => throw err

@[simp] theorem demand_eq_ok : demand err o s = .ok (a, s') ↔ o = some a ∧ s = s' := by
  cases o <;> simp [demand]

/-- How a body of reads, writes and checks succeeds: one lemma, so that a `simp only` inverts the whole
sequence. -/
theorem eq_ok : (∀ {A B : Type} {x : Tx Store Error A} {f : A → Tx Store Error B} {b : B} {s s' : Store},
      (x >>= f) s = .ok (b, s') ↔ ∃ a s₁, x s = .ok (a, s₁) ∧ f a s₁ = .ok (b, s')) ∧
    (∀ {A : Type} {a b : A} {s s' : Store}, (pure a : Tx Store Error A) s = .ok (b, s') ↔ a = b ∧ s = s') ∧
    (∀ {b s s' : Store}, (get : Tx Store Error Store) s = .ok (b, s') ↔ s = b ∧ s = s') ∧
    (∀ {t s s' : Store} {u : PUnit}, (set t : Tx Store Error PUnit) s = .ok (u, s') ↔ t = s') ∧
    (∀ {c : Prop} [Decidable c] {err : Error} {u : Unit} {s s' : Store}, require c err s = .ok (u, s') ↔ c ∧ s = s') ∧
    ∀ {A : Type} {err : Error} {o : Option A} {a : A} {s s' : Store},
      demand err o s = .ok (a, s') ↔ o = some a ∧ s = s' :=
  ⟨bind_eq_ok, pure_eq_ok, get_eq_ok, set_eq_ok, require_eq_ok, demand_eq_ok⟩

/-- Turn a found offender into an error. -/
def refuse {Store Error A : Type} (f : A → Error) : Option A → Tx Store Error Unit
  | none => pure ()
  | some a => throw (f a)

@[simp] theorem refuse_eq_ok {f : A → Error} : refuse f o s = .ok (u, s') ↔ o = none ∧ s = s' := by
  cases o <;> simp [refuse]

/-- Run a fallible computation that does not touch the store. -/
def lift {Store Error E A : Type} (f : E → Error) : Except E A → Tx Store Error A
  | .ok a => pure a
  | .error e => throw (f e)

@[simp] theorem lift_eq_ok {E : Type} {f : E → Error} {r : Except E A} :
    lift f r s = .ok (a, s') ↔ r = .ok a ∧ s = s' := by
  cases r <;> simp [lift]

/-- One attempt to run a body and, when `keep` asks for it, to commit. A body whose result is
not kept is rolled back by its caller. -/
def attempt {Store Error Result : Type} (fault : Fault Error) (body : Tx Store Error Result)
    (keep : Result → Bool) (s : Store) : Attempt Error Result × Store :=
  match fault with
  | .beginFails => (.notOpened, s)
  | .statementFails err => (.failed err, s)
  | fault =>
    match body s with
    | .error err => (.failed err, s)
    | .ok (result, s') =>
      if keep result then
        match fault with
        | .commitLost applied => (.commitUnknown result, if applied then s' else s)
        | .crash applied => (.crashed, if applied then s' else s)
        | _ => (.committed result, s')
      else
        match fault with
        | .crash _ => (.crashed, s)
        | _ => (.rolledBack result, s)

/-- Whatever the environment does, an attempt leaves the store alone or installs exactly the
store its body computed. -/
theorem attempt_store (fault : Fault Error) (body : Tx Store Error Result) (keep : Result → Bool) (s : Store) :
    (attempt fault body keep s).2 = s ∨ ∃ result s', body s = .ok (result, s') ∧ keep result = true ∧
        (attempt fault body keep s).2 = s' := by
  cases hbody : body s with
  | error err => left; cases fault <;> simp [attempt, hbody]
  | ok p =>
    obtain ⟨result, s'⟩ := p
    cases hkeep : keep result with
    | false => left; cases fault <;> simp [attempt, hbody, hkeep]
    | true =>
      cases fault with
      | none => exact .inr ⟨result, s', rfl, hkeep, by simp [attempt, hbody, hkeep]⟩
      | beginFails | statementFails err => exact .inl rfl
      | commitLost applied | crash applied =>
        cases applied with
        | false => left; simp [attempt, hbody, hkeep]
        | true => exact .inr ⟨result, s', rfl, hkeep, by simp [attempt, hbody, hkeep]⟩

/-- A caller that sees its COMMIT acknowledged holds the body's own result and store. -/
theorem attempt_committed (h : (attempt fault body keep s).1 = .committed result) :
    body s = .ok (result, (attempt fault body keep s).2) ∧ keep result = true := by
  cases hbody : body s with
  | error err => cases fault <;> simp [attempt, hbody] at h
  | ok p =>
    obtain ⟨r, s'⟩ := p
    cases hkeep : keep r with
    | false => cases fault <;> simp [attempt, hbody, hkeep] at h
    | true =>
      cases fault <;> simp [attempt, hbody, hkeep] at h
      subst h
      exact ⟨by simp [attempt, hbody, hkeep], hkeep⟩

/-- A rolled back body leaves the store alone. -/
theorem attempt_rolledBack (h : (attempt fault body keep s).1 = .rolledBack result) :
    (∃ s', body s = .ok (result, s')) ∧ keep result = false ∧ (attempt fault body keep s).2 = s := by
  cases hbody : body s with
  | error err => cases fault <;> simp [attempt, hbody] at h
  | ok p =>
    obtain ⟨r, s'⟩ := p
    cases hkeep : keep r with
    | true => cases fault <;> simp [attempt, hbody, hkeep] at h
    | false =>
      cases fault <;> simp [attempt, hbody, hkeep] at h <;> subst h <;>
        exact ⟨⟨s', rfl⟩, hkeep, by simp [attempt, hbody, hkeep]⟩

@[simp] theorem attempt_none_ok (h : body s = .ok (result, s')) (hkeep : keep result = true) :
    attempt .none body keep s = (.committed result, s') := by
  simp [attempt, h, hkeep]

@[simp] theorem attempt_none_error (h : body s = .error err) : attempt .none body keep s = (.failed err, s) := by
  simp [attempt, h]

/-- Invariant rule for attempts: only a body that succeeds has to keep the invariant. -/
theorem attempt_preserves {Inv : Store → Prop} (hs : Inv s)
    (hbody : ∀ result s', body s = .ok (result, s') → keep result = true → Inv s') :
    Inv (attempt fault body keep s).2 := by
  rcases attempt_store fault body keep s with hsame | ⟨result, s', hrun, hkeep, hnew⟩
  · rwa [hsame]
  · rw [hnew]
    exact hbody result s' hrun hkeep

end Tx

end Relational
