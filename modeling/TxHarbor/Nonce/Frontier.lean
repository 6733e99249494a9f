import Mathlib

namespace TxHarbor.Nonce

open Set Option

/-- What admission decides from, for one scope: the nonces ever bound, the reconciled floor, the
last pending count taken as a fact, and whether consumption above the frontier holds the
scope. -/
structure Frontier where
  bound : Set Int
  floor : Option Int
  lastPending : Option Int
  blocked : Prop

namespace Frontier

/-- The next nonce that durable facts alone determine. A scope with neither a binding nor a
floor has none. -/
def IsBase (f : Frontier) (base : Int) : Prop :=
  (∃ m, IsGreatest f.bound m ∧ base = m + 1) ∨ (f.bound = ∅ ∧ f.floor = some base)

/-- The pending count does not fall below the last one. -/
def Advances (f : Frontier) (pending : Int) : Prop := ∀ prev, f.lastPending = some prev → prev ≤ pending

/-- The pending count shows nothing consumed that the frontier does not know. -/
def Consistent (f : Frontier) (pending : Int) : Prop :=
  (∃ base, f.IsBase base ∧ pending ≤ base) ∨ (f.bound = ∅ ∧ f.floor = none ∧ pending = 0)

/-- The nonce an admission takes: above the floor and the bindings, or the observed pending
count when the scope has no frontier yet. -/
inductive Admits (f : Frontier) (pending : Int) : Int → Prop where
  | next (base n : Int) (hbase : f.IsBase base) (hle : pending ≤ base)
      (hn : n = base ∧ (∀ x, f.floor = some x → x ≤ base) ∨ f.floor = some n ∧ base < n) :
      Admits f pending n
  | first (hbound : f.bound = ∅) (hfloor : f.floor = none) : Admits f pending pending

/-- The moves of one scope, whatever the transaction that makes them. -/
inductive Step (f : Frontier) : Frontier → Prop where
  | idle : Step f f
  | observe (pending : Int) (hprev : f.Advances pending) : Step f { f with lastPending := some pending }
  | hold (pending base : Int) (hprev : f.Advances pending) (hbase : f.IsBase base)
      (hlt : base < pending) : Step f { f with lastPending := some pending, blocked := True }
  | assign (pending n : Int) (hprev : f.Advances pending) (hfree : ¬ f.blocked)
      (hrange : 0 ≤ pending) (hn : f.Admits pending n) :
      Step f { f with bound := insert n f.bound, lastPending := some pending }
  | release (pending : Int) (blocked : Prop) (hprev : f.Advances pending) (hrange : 0 ≤ pending)
      (hconsistent : f.Consistent pending) (hblocked : blocked → f.blocked) :
      Step f { f with floor := some (max (f.floor.getD 0) pending), blocked := blocked }

/-- The facts every run keeps. The floor never passes the successor of the largest binding, it
is zero while nothing is bound, and a blocked scope has recorded a pending count above its
base. -/
structure Sound (f : Frontier) : Prop where
  connected : f.bound.OrdConnected
  floor_empty : ∀ x, f.bound = ∅ → f.floor = some x → x = 0
  floor_le : ∀ m x, IsGreatest f.bound m → f.floor = some x → x ≤ m + 1
  nonneg : ∀ m, m ∈ f.bound → 0 ≤ m
  greatest : f.bound.Nonempty → ∃ m, IsGreatest f.bound m
  recorded : f.blocked → ∃ pending base, f.lastPending = some pending ∧ f.IsBase base ∧ base < pending

variable {f : Frontier} {base pending n : Int}

theorem IsBase.unique {a b : Int} (ha : f.IsBase a) (hb : f.IsBase b) : a = b := by
  rcases ha with ⟨m, hm, rfl⟩ | ⟨hempty, hfloor⟩
  · rcases hb with ⟨k, hk, rfl⟩ | ⟨hempty, -⟩
    · rw [hm.unique hk]
    · exact absurd (hempty ▸ hm.1) (notMem_empty m)
  · rcases hb with ⟨k, hk, -⟩ | ⟨-, hfloor'⟩
    · exact absurd (hempty ▸ hk.1) (notMem_empty k)
    · exact some.inj (hfloor.symm.trans hfloor')

/-- The empty scope. -/
def start : Frontier := ⟨∅, none, none, False⟩

theorem start_sound : start.Sound where
  connected := ordConnected_empty
  floor_empty := by simp [start]
  floor_le := by simp [start]
  nonneg := by simp [start]
  greatest := by simp [start]
  recorded := by simp [start]

theorem Sound.floor_le_base (hsound : f.Sound) {x : Int} (hbase : f.IsBase base) (hx : f.floor = some x) :
    x ≤ base := by
  rcases hbase with ⟨m, hm, rfl⟩ | ⟨-, hfloor⟩
  · exact hsound.floor_le m x hm hx
  · exact le_of_eq (some.inj (hx.symm.trans hfloor))

theorem Sound.base_nonneg (hsound : f.Sound) (hbase : f.IsBase base) : 0 ≤ base := by
  rcases hbase with ⟨m, hm, rfl⟩ | ⟨hempty, hfloor⟩
  · have := hsound.nonneg m hm.1
    omega
  · exact ge_of_eq (hsound.floor_empty base hempty hfloor)

variable {m : Int} {bound : Set Int} {f' : Frontier}

theorem IsBase.above (hbase : f.IsBase base) (hm : m ∈ f.bound) : m < base := by
  rcases hbase with ⟨k, hk, rfl⟩ | ⟨hempty, -⟩
  · exact Int.lt_add_one_of_le (hk.2 hm)
  · exact absurd (hempty ▸ hm) (notMem_empty m)

/-- On a sound scope the floor never pushes an admission past the base. -/
theorem Sound.admits_cases (hsound : f.Sound) (hn : f.Admits pending n) :
    (f.IsBase n ∧ pending ≤ n) ∨ (f.bound = ∅ ∧ f.floor = none ∧ n = pending) := by
  cases hn with
  | next base n hbase hle hn =>
    rcases hn with ⟨rfl, -⟩ | ⟨hfloor, hlt⟩
    · exact .inl ⟨hbase, hle⟩
    · exact absurd (hsound.floor_le_base hbase hfloor) (not_le.mpr hlt)
  | first hbound hfloor => exact .inr ⟨hbound, hfloor, rfl⟩

/-- An admitted nonce lies above every bound one and not below the pending count it was
admitted under. -/
theorem Sound.admits_above (hsound : f.Sound) (hn : f.Admits pending n) : (∀ m ∈ f.bound, m < n) ∧ pending ≤ n := by
  rcases hsound.admits_cases hn with ⟨hbase, hle⟩ | ⟨hempty, -, rfl⟩
  · exact ⟨fun m hm => hbase.above hm, hle⟩
  · refine ⟨fun m hm => ?_, le_refl n⟩
    exact absurd (hempty ▸ hm) (notMem_empty m)

/-- A blocked scope is never consistent again: the pending count it recorded already lies above
the base, and pending counts do not fall. -/
theorem Sound.not_consistent_of_blocked (hsound : f.Sound) (hblocked : f.blocked) (hprev : f.Advances pending) :
    ¬ f.Consistent pending := by
  obtain ⟨last, base, hlast, hbase, hlt⟩ := hsound.recorded hblocked
  have hle := hprev last hlast
  rintro (⟨base', hbase', hle'⟩ | ⟨hempty, hnone, -⟩)
  · rw [hbase'.unique hbase] at hle'
    omega
  · rcases hbase with ⟨m, hm, -⟩ | ⟨-, hfloor⟩
    · exact absurd (hempty ▸ hm.1) (notMem_empty m)
    · cases hnone.symm.trans hfloor

private theorem ordConnected_insert_succ (hconn : bound.OrdConnected) (hm : IsGreatest bound m) :
    (insert (m + 1) bound).OrdConnected := by
  refine ⟨?_⟩
  rintro a ha b hb n ⟨han, hnb⟩
  by_cases hnew : n = m + 1
  · exact .inl hnew
  right
  have hnm : n ≤ m := by
    rcases hb with rfl | hb
    · omega
    · exact hnb.trans (hm.2 hb)
  rcases ha with rfl | ha
  · omega
  · exact hconn.out ha hm.1 ⟨han, hnm⟩

private theorem isGreatest_insert (habove : ∀ m ∈ bound, m < n) : IsGreatest (insert n bound) n := by
  refine ⟨mem_insert n bound, ?_⟩
  rintro m (rfl | hm)
  · exact le_refl m
  · exact le_of_lt (habove m hm)

theorem Sound.assign (hsound : f.Sound) (hfree : ¬ f.blocked) (hrange : 0 ≤ pending) (hn : f.Admits pending n) :
    ({ f with bound := insert n f.bound, lastPending := some pending } : Frontier).Sound := by
  have hgreatest := isGreatest_insert (hsound.admits_above hn).1
  have hcases := hsound.admits_cases hn
  have hnonneg : 0 ≤ n := hrange.trans (hsound.admits_above hn).2
  have hfloor : ∀ x, f.floor = some x → x ≤ n := by
    intro x hx
    rcases hcases with ⟨hbase, -⟩ | ⟨-, hnone, -⟩
    · exact hsound.floor_le_base hbase hx
    · cases hnone.symm.trans hx
  constructor
  · rcases hcases with ⟨hbase, -⟩ | ⟨hempty, -, -⟩
    · rcases hbase with ⟨m, hm, rfl⟩ | ⟨hempty, -⟩
      · exact ordConnected_insert_succ hsound.connected hm
      · simpa [hempty] using ordConnected_singleton
    · simpa [hempty] using ordConnected_singleton
  · intro x hempty
    exact absurd hempty (insert_nonempty n f.bound).ne_empty
  · intro m x hm hx
    have := hfloor x hx
    rw [← hgreatest.unique hm]
    omega
  · rintro m (rfl | hm)
    · exact hnonneg
    · exact hsound.nonneg m hm
  · exact fun _ => ⟨n, hgreatest⟩
  · exact fun hblocked => absurd hblocked hfree

theorem Sound.release (hsound : f.Sound) {blocked : Prop} (hprev : f.Advances pending) (hrange : 0 ≤ pending)
    (hconsistent : f.Consistent pending) (hblocked : blocked → f.blocked) :
    ({ f with floor := some (max (f.floor.getD 0) pending), blocked := blocked } : Frontier).Sound := by
  have hle : ∀ base, f.IsBase base → max (f.floor.getD 0) pending ≤ base := by
    intro base hbase
    have hfloor : f.floor.getD 0 ≤ base := by
      cases hf : f.floor with
      | none => exact hsound.base_nonneg hbase
      | some x => exact hsound.floor_le_base hbase hf
    have hpending : pending ≤ base := by
      rcases hconsistent with ⟨base', hbase', hle⟩ | ⟨-, -, rfl⟩
      · rwa [hbase.unique hbase']
      · exact hsound.base_nonneg hbase
    exact max_le hfloor hpending
  constructor
  · exact hsound.connected
  · intro x hempty hx
    obtain rfl := some.inj hx
    cases hf : f.floor with
    | none =>
      rcases hconsistent with ⟨base, hbase, -⟩ | ⟨-, -, rfl⟩
      · rcases hbase with ⟨m, hm, -⟩ | ⟨-, hfloor⟩
        · exact absurd (hempty ▸ hm.1) (notMem_empty m)
        · cases hf.symm.trans hfloor
      · rfl
    | some y =>
      have hbase : f.IsBase y := .inr ⟨hempty, hf⟩
      have hzero := hsound.floor_empty y hempty hf
      have := hle y hbase
      rw [hf, getD_some] at this
      simp only [getD_some]
      omega
  · intro m x hm hx
    obtain rfl := some.inj hx
    exact hle (m + 1) (.inl ⟨m, hm, rfl⟩)
  · exact hsound.nonneg
  · exact hsound.greatest
  · exact fun hb => absurd hconsistent (hsound.not_consistent_of_blocked (hblocked hb) hprev)

/-- Every move keeps a scope sound. -/
theorem Sound.step (hsound : f.Sound) (h : f.Step f') : f'.Sound := by
  cases h with
  | idle => exact hsound
  | observe pending hprev =>
    refine { hsound with recorded := fun hblocked => ?_ }
    obtain ⟨last, base, hlast, hbase, hlt⟩ := hsound.recorded hblocked
    exact ⟨pending, base, rfl, hbase, hlt.trans_le (hprev last hlast)⟩
  | hold pending base hprev hbase hlt =>
    exact { hsound with recorded := fun _ => ⟨pending, base, rfl, hbase, hlt⟩ }
  | assign pending n hprev hfree hrange hn => exact hsound.assign hfree hrange hn
  | release pending blocked hprev hrange hconsistent hblocked =>
    exact hsound.release hprev hrange hconsistent hblocked

/-- No move binds a nonce of a blocked scope. -/
theorem Step.bound_of_blocked (h : f.Step f') (hblocked : f.blocked) : f'.bound = f.bound := by
  cases h with
  | idle | observe | hold | release => rfl
  | assign pending n hprev hfree => exact absurd hblocked hfree

end Frontier

end TxHarbor.Nonce
