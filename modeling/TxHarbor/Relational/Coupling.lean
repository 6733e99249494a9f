import TxHarbor.Relational.Transaction

namespace Relational

/-! Two runs side by side: rules for bodies that keep a relation between their stores. -/

open Tx

namespace Tx

variable {Store Error A B C D : Type} {R : Store → Store → Prop}

/-- From related stores both bodies raise the same error, or both succeed with related results and
related stores. -/
def Coupled (R : Store → Store → Prop) (Q : A → B → Prop) (x : Tx Store Error A) (y : Tx Store Error B) : Prop :=
  ∀ s t, R s t → (∃ e, x s = .error e ∧ y t = .error e) ∨
    ∃ a b s' t', x s = .ok (a, s') ∧ y t = .ok (b, t') ∧ Q a b ∧ R s' t'

variable {Q : A → B → Prop} {e : Error} {o : Option A}

namespace Coupled

theorem pure {a : A} {b : B} (h : Q a b) : Coupled R Q (Pure.pure a : Tx Store Error A) (Pure.pure b) :=
  fun s t hst => .inr ⟨a, b, s, t, rfl, rfl, h, hst⟩

theorem throw (e : Error) : Coupled R Q (throwThe Error e : Tx Store Error A) (throwThe Error e) :=
  fun _ _ _ => .inl ⟨e, rfl, rfl⟩

theorem bind {P : C → D → Prop} {x : Tx Store Error A} {y : Tx Store Error B} {f : A → Tx Store Error C}
    {g : B → Tx Store Error D} (h : Coupled R Q x y) (hrest : ∀ a b, Q a b → Coupled R P (f a) (g b)) :
    Coupled R P (x >>= f) (y >>= g) := by
  intro s t hst
  rcases h s t hst with ⟨e, hx, hy⟩ | ⟨a, b, s', t', hx, hy, hab, hst'⟩
  · left
    refine ⟨e, ?_, ?_⟩
    · change (x s >>= fun p => f p.1 p.2) = _
      rw [hx]
      rfl
    · change (y t >>= fun p => g p.1 p.2) = _
      rw [hy]
      rfl
  · have hxf : (x >>= f) s = f a s' := by
      change (x s >>= fun p => f p.1 p.2) = _
      rw [hx]
      rfl
    have hyg : (y >>= g) t = g b t' := by
      change (y t >>= fun p => g p.1 p.2) = _
      rw [hy]
      rfl
    rw [hxf, hyg]
    exact hrest a b hab s' t' hst'

/-- A statement with one result in both runs. -/
theorem seq {P : C → D → Prop} {x : Tx Store Error A} {f : A → Tx Store Error C} {g : A → Tx Store Error D}
    (h : Coupled R (· = ·) x x) (hrest : ∀ a, Coupled R P (f a) (g a)) : Coupled R P (x >>= f) (x >>= g) :=
  h.bind fun a _ hab => hab ▸ hrest a

/-- Both runs read their own store. -/
theorem get : Coupled R R (get : Tx Store Error Store) get := fun s t hst => .inr ⟨s, t, s, t, rfl, rfl, hst, hst⟩

theorem set {s t : Store} (h : R s t) : Coupled R (· = ·) (set s : Tx Store Error PUnit) (set t) :=
  fun _ _ _ => .inr ⟨(), (), s, t, rfl, rfl, rfl, h⟩

/-- A check that both runs decide the same way. -/
theorem require {c : Prop} [Decidable c] : Coupled R (· = ·) (require c e : Tx Store Error Unit) (require c e) := by
  unfold Tx.require
  split
  · exact .pure rfl
  · exact .throw e

/-- A value that both runs find, or both miss. -/
theorem demand_of {o' : Option B} (h : o = none ∧ o' = none ∨ ∃ a b, o = some a ∧ o' = some b ∧ Q a b) :
    Coupled R Q (demand e o : Tx Store Error A) (demand e o') := by
  rcases h with ⟨rfl, rfl⟩ | ⟨a, b, rfl, rfl, hab⟩
  · exact .throw e
  · exact .pure hab

theorem demand : Coupled R (· = ·) (demand e o : Tx Store Error A) (demand e o) := by
  cases o with
  | none => exact .throw e
  | some a => exact .pure rfl

theorem refuse {f : A → Error} : Coupled R (· = ·) (refuse f o : Tx Store Error Unit) (refuse f o) := by
  cases o with
  | none => exact .pure rfl
  | some a => exact .throw (f a)

theorem ite {c : Prop} [Decidable c] {x x' : Tx Store Error A} {y y' : Tx Store Error B}
    (h : Coupled R Q x y) (h' : Coupled R Q x' y') : Coupled R Q (if c then x else x') (if c then y else y') := by
  split
  · exact h
  · exact h'

end Coupled

end Tx

end Relational
