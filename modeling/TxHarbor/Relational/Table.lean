import Mathlib

open List

namespace Relational

/-- The uniqueness constraints of a relation. `clash a b` says that the two rows agree on
some declared unique key, so a table can hold at most one of them. -/
class Constrained (Row : Type) where
  clash : Row → Row → Bool
  clash_comm : ∀ a b, clash a b = clash b a

/-- A stored relation. Rows stand in insertion order, and no two of them clash. -/
structure Table (Row : Type) [Constrained Row] where
  rows : List Row
  unique : rows.Pairwise fun a b => Constrained.clash a b = false

/-- An update that cannot make two rows clash: of columns no unique key mentions, or one that
takes a row out of a partial key. -/
def KeepsKeys {Row : Type} [Constrained Row] (f : Row → Row) : Prop :=
  ∀ a b, Constrained.clash a b = false → Constrained.clash (f a) b = false

open Constrained

theorem KeepsKeys.both {Row : Type} [Constrained Row] {f : Row → Row} (hf : KeepsKeys f) {a b : Row}
    (h : clash a b = false) : clash (f a) (f b) = false := by
  rw [clash_comm]
  apply hf
  rw [clash_comm]
  exact hf a b h

namespace Table

variable {Row : Type} [Constrained Row] {t t' : Table Row} {p : Row → Bool} {key : Row → Int} {row : Row} {f : Row → Row}
  {In Error : Type} {check : In → Except Error Row} {sameKey : Row → Row → Bool} {violation : In → Error}
  {inputs : List In} {n : Nat}

@[ext] theorem ext {u : Table Row} (h : t.rows = u.rows) : t = u := by
  cases t
  cases u
  cases h
  rfl

def empty {Row : Type} [Constrained Row] : Table Row := ⟨[], List.Pairwise.nil⟩

@[simp] theorem rows_empty : (empty : Table Row).rows = [] := rfl

/-- `INSERT`: refused when a stored row clashes with the new one. -/
def insert? {Row : Type} [Constrained Row] (t : Table Row) (row : Row) : Option (Table Row) :=
  if h : ∀ r ∈ t.rows, Constrained.clash r row = false then
    some ⟨t.rows ++ [row], pairwise_append.mpr
      ⟨t.unique, pairwise_singleton _ _, fun r hr _ hrow => mem_singleton.mp hrow ▸ h r hr⟩⟩
  else none

/-- `UPDATE … SET f WHERE p` by a change that cannot violate a unique key. -/
def update {Row : Type} [Constrained Row] (t : Table Row) (p : Row → Bool) (f : Row → Row)
    (hf : KeepsKeys f) : Table Row :=
  ⟨t.rows.map fun r => if p r then f r else r, by
    rw [pairwise_map]
    refine t.unique.imp ?_
    intro a b hab
    have hba : Constrained.clash b a = false := by rw [Constrained.clash_comm]; exact hab
    by_cases ha : p a <;> by_cases hb : p b <;>
      simp only [ha, hb, if_true, if_false, Bool.false_eq_true]
    · exact hf.both hab
    · exact hf a b hab
    · rw [Constrained.clash_comm]
      exact hf b a hba
    · exact hab⟩

/-- `UPDATE … SET f WHERE p` checked against the unique keys: refused when two updated rows would
clash. -/
def update? {Row : Type} [Constrained Row] (t : Table Row) (p : Row → Bool) (f : Row → Row) : Option (Table Row) :=
  if h : (t.rows.map fun r => if p r then f r else r).Pairwise
      fun a b => Constrained.clash a b = false then
    some ⟨_, h⟩
  else none

/-- `INSERT … ON CONFLICT (key) DO NOTHING`: a stored row with the same key leaves the table as it
is, any other clash is refused. The flag says whether a row was inserted. -/
def insertNew? {Row : Type} [Constrained Row] (t : Table Row) (sameKey : Row → Bool) (row : Row) :
    Option (Table Row × Bool) :=
  if t.rows.any sameKey then some (t, false) else (t.insert? row).map fun t' => (t', true)

/-- A loop of `INSERT … ON CONFLICT (key) DO NOTHING` statements that stops at its first error and
counts the inserted rows. `check` turns an input into its row or refuses it. -/
def insertBatch {Row In Error : Type} [Constrained Row] (check : In → Except Error Row)
    (sameKey : Row → Row → Bool) (violation : In → Error) (t : Table Row) :
    List In → Except Error (Table Row × Nat)
  | [] => .ok (t, 0)
  | i :: rest =>
    match check i with
    | .error e => .error e
    | .ok row =>
      match t.insertNew? (sameKey row) row with
      | none => .error (violation i)
      | some (t₁, new) =>
        match insertBatch check sameKey violation t₁ rest with
        | .error e => .error e
        | .ok (t₂, n) => .ok (t₂, n + new.toNat)

/-- The single row a unique lookup returns. -/
def select {Row : Type} [Constrained Row] (t : Table Row) (p : Row → Bool) : Option Row := t.rows.find? p

/-- `… WHERE p ORDER BY key DESC LIMIT 1`. -/
def latest {Row : Type} [Constrained Row] (t : Table Row) (p : Row → Bool) (key : Row → Int) : Option Row :=
  (t.rows.filter p).foldl (fun best r => match best with
      | none => some r
      | some b => if key b < key r then some r else some b) none

/-- The later of the best row so far and the next one. -/
def later {Row : Type} (key : Row → Int) (best : Option Row) (r : Row) : Option Row :=
  match best with
  | none => some r
  | some b => if key b < key r then some r else some b

omit [Constrained Row] in
theorem later_eq_some (key : Row → Int) (best : Option Row) (r : Row) :
    ∃ y, later key best r = some y ∧ (best = some y ∨ y = r) ∧ key r ≤ key y ∧ ∀ b ∈ best, key b ≤ key y := by
  cases best with
  | none => exact ⟨r, rfl, .inr rfl, le_refl _, by simp⟩
  | some b =>
    by_cases hlt : key b < key r
    · exact ⟨r, by simp [later, hlt], .inr rfl, le_refl _, by simpa using hlt.le⟩
    · exact ⟨b, by simp [later, hlt], .inl rfl, not_lt.mp hlt, by simp⟩

omit [Constrained Row] in
theorem foldl_later (key : Row → Int) (l : List Row) (init : Option Row) :
    (l.foldl (later key) init = none → init = none ∧ l = []) ∧ ∀ r, l.foldl (later key) init = some r →
        (init = some r ∨ r ∈ l) ∧ (∀ b ∈ init, key b ≤ key r) ∧ ∀ r' ∈ l, key r' ≤ key r := by
  induction l generalizing init with
  | nil => simp +contextual
  | cons x rest ih =>
    obtain ⟨y, hy, hsource, hx, hinit⟩ := later_eq_some key init x
    obtain ⟨hnone, hsome⟩ := ih (some y)
    rw [foldl_cons, hy]
    refine ⟨fun h => (nomatch (hnone h).1), fun r h => ?_⟩
    obtain ⟨hr, hle, hrest⟩ := hsome r h
    simp only [Option.some.injEq, Option.mem_def, forall_eq'] at hr hle
    refine ⟨?_, fun b hb => le_trans (hinit b hb) hle, ?_⟩
    · rcases hr with rfl | hr
      · rcases hsource with hsource | rfl
        · exact .inl hsource
        · exact .inr mem_cons_self
      · exact .inr (mem_cons_of_mem _ hr)
    · intro r' hr'
      rcases mem_cons.mp hr' with rfl | hr'
      · exact le_trans hx hle
      · exact hrest r' hr'

theorem latest_eq_none (h : t.latest p key = none) : ∀ r ∈ t.rows, p r = false := by
  obtain ⟨-, hempty⟩ := (foldl_later key (t.rows.filter p) none).1 h
  simpa [filter_eq_nil_iff] using hempty

/-- The latest row is a stored row that meets the condition, and no other one has a higher key. -/
theorem latest_eq_some (h : t.latest p key = some row) :
    row ∈ t.rows ∧ p row = true ∧ ∀ r ∈ t.rows, p r = true → key r ≤ key row := by
  obtain ⟨hrow, -, hmax⟩ := (foldl_later key (t.rows.filter p) none).2 row h
  simp only [reduceCtorEq, false_or, mem_filter] at hrow hmax
  exact ⟨hrow.1, hrow.2, fun r hr hp => hmax r ⟨hr, hp⟩⟩

/-- A new row with the highest key is the latest one. -/
theorem latest_of_insert (hrows : t'.rows = t.rows ++ [row]) (hp : p row = true)
    (hkey : ∀ r ∈ t.rows, p r = true → key r < key row) : t'.latest p key = some row := by
  have hmem : row ∈ t'.rows := by simp [hrows]
  cases hlatest : t'.latest p key with
  | none =>
    rw [latest_eq_none hlatest row hmem] at hp
    cases hp
  | some r =>
    obtain ⟨hr, hpr, hmax⟩ := latest_eq_some hlatest
    rw [hrows, mem_append, mem_singleton] at hr
    rcases hr with hr | rfl
    · have := hkey r hr hpr
      have := hmax row hmem hp
      omega
    · rfl

/-- Rows a statement with condition `p` affects. -/
def affected {Row : Type} [Constrained Row] (t : Table Row) (p : Row → Bool) : Nat := t.rows.countP p

/-- `COALESCE(MAX(key), init)` bounds every key. -/
theorem le_foldl_max {A K : Type} [LinearOrder K] (key : A → K) (l : List A) (init : K) :
    init ≤ l.foldl (fun m a => max m (key a)) init ∧ ∀ a ∈ l, key a ≤ l.foldl (fun m a => max m (key a)) init := by
  induction l generalizing init with
  | nil => simp
  | cons b rest ih =>
    obtain ⟨hinit, hrest⟩ := ih (max init (key b))
    simp only [foldl_cons, mem_cons, forall_eq_or_imp]
    exact ⟨(le_max_left _ _).trans hinit, (le_max_right _ _).trans hinit, hrest⟩

/-- A running minimum is below its start and below every key. -/
theorem foldl_min_le {A : Type} (key : A → Int) (l : List A) (init : Int) :
    l.foldl (fun m a => min m (key a)) init ≤ init ∧ ∀ a ∈ l, l.foldl (fun m a => min m (key a)) init ≤ key a := by
  induction l generalizing init with
  | nil => simp
  | cons b rest ih =>
    obtain ⟨hinit, hrest⟩ := ih (min init (key b))
    simp only [foldl_cons, mem_cons, forall_eq_or_imp]
    exact ⟨by omega, by omega, hrest⟩

theorem eq_of_clash (t : Table Row) {a b : Row} (ha : a ∈ t.rows) (hb : b ∈ t.rows) (h : clash a b = true) : a = b := by
  by_contra hne
  have hsymm : Std.Symm fun a b : Row => clash a b = false := ⟨fun x y hxy => by rwa [clash_comm]⟩
  have hfalse : clash a b = false := t.unique.forall ha hb hne
  cases h.symm.trans hfalse

/-- A statement by a unique key affects the one row that has it. -/
theorem affected_eq_one (hkey : ∀ a b, p a = true → p b = true → clash a b = true)
    (hmem : row ∈ t.rows) (hrow : p row = true) : t.affected p = 1 := by
  unfold affected
  rw [countP_eq_length_filter]
  have hunique := t.unique.filter p
  have hall : ∀ r ∈ t.rows.filter p, p r = true := fun r hr => (mem_filter.mp hr).2
  match hfilter : t.rows.filter p with
  | [] => exact absurd (mem_filter.mpr ⟨hmem, hrow⟩) (by simp [hfilter])
  | [_] => rfl
  | a :: b :: rest =>
    rw [hfilter] at hunique hall
    have hfree := (pairwise_cons.mp hunique).1 b (by simp)
    rw [hkey a b (hall a (by simp)) (hall b (by simp))] at hfree
    cases hfree

/-- The rows of a statement have different keys when equal keys clash. -/
theorem keys_nodup (t : Table Row) (hkey : ∀ a b, p a = true → p b = true → key a = key b → clash a b = true) :
    ((t.rows.filter p).map key).Nodup := by
  refine pairwise_map.mpr ((t.unique.filter p).imp_of_mem ?_)
  intro a b ha hb hfree heq
  rw [hkey a b (mem_filter.mp ha).2 (mem_filter.mp hb).2 heq] at hfree
  cases hfree

/-- A statement whose rows have different keys and hit every key from `lo` to `hi` affects as many
rows as there are keys. -/
theorem affected_eq_of_covered (key : Row → Int) {lo hi : Int} (hordered : lo ≤ hi + 1)
    (hkey : ∀ a b, p a = true → p b = true → key a = key b → clash a b = true)
    (hrange : ∀ r, p r = true → lo ≤ key r ∧ key r ≤ hi)
    (hcovered : ∀ k, lo ≤ k → k ≤ hi → ∃ r ∈ t.rows, p r = true ∧ key r = k) : (t.affected p : Int) = hi + 1 - lo := by
  have hkeys : ((t.rows.filter p).map key).toFinset = Finset.Icc lo hi := by
    ext k
    rw [mem_toFinset, mem_map, Finset.mem_Icc]
    constructor
    · rintro ⟨r, hr, rfl⟩
      exact hrange r (mem_filter.mp hr).2
    · rintro ⟨hlo, hhi⟩
      obtain ⟨r, hr, hp, hk⟩ := hcovered k hlo hhi
      exact ⟨r, mem_filter.mpr ⟨hr, hp⟩, hk⟩
  have hcard := congrArg Finset.card hkeys
  rw [toFinset_card_of_nodup (t.keys_nodup hkey), length_map, ← countP_eq_length_filter, Int.card_Icc] at hcard
  unfold affected
  omega

/-- A statement whose rows have different keys between `lo` and `hi` and none of them the key `k`
affects fewer rows than there are keys. -/
theorem affected_lt_of_missing (key : Row → Int) {lo hi k : Int}
    (hkey : ∀ a b, p a = true → p b = true → key a = key b → clash a b = true)
    (hrange : ∀ r, p r = true → lo ≤ key r ∧ key r ≤ hi) (hk : lo ≤ k ∧ k ≤ hi)
    (hmissing : ∀ r ∈ t.rows, p r = true → key r ≠ k) : (t.affected p : Int) < hi + 1 - lo := by
  have hnodup := t.keys_nodup hkey
  have hsub : ((t.rows.filter p).map key).toFinset ⊆ (Finset.Icc lo hi).erase k := by
    intro x hx
    obtain ⟨r, hr, rfl⟩ := mem_map.mp (mem_toFinset.mp hx)
    obtain ⟨hmem, hp⟩ := mem_filter.mp hr
    exact Finset.mem_erase.mpr ⟨hmissing r hmem hp, Finset.mem_Icc.mpr (hrange r hp)⟩
  have hcard := Finset.card_le_card hsub
  rw [toFinset_card_of_nodup hnodup, length_map, ← countP_eq_length_filter,
    Finset.card_erase_of_mem (Finset.mem_Icc.mpr hk), Int.card_Icc] at hcard
  unfold affected
  omega

/-- A checked update goes through when the updated rows do not clash. -/
theorem update?_isSome (h : ∀ a ∈ t.rows, ∀ b ∈ t.rows, clash a b = false →
      clash (if p a then f a else a) (if p b then f b else b) = false) :
    ∃ t', t.update? p f = some t' := by
  unfold update?
  have hunique : (t.rows.map fun r => if p r then f r else r).Pairwise fun a b => clash a b = false :=
    pairwise_map.mpr (t.unique.imp_of_mem fun ha hb hab => h _ ha _ hb hab)
  exact ⟨_, dif_pos hunique⟩

theorem insert?_eq_some (h : t.insert? row = some t') :
    (∀ r ∈ t.rows, clash r row = false) ∧ t'.rows = t.rows ++ [row] := by
  unfold insert? at h
  split at h
  next hfree =>
    cases h
    exact ⟨hfree, rfl⟩
  · cases h

theorem insert?_eq_none (h : t.insert? row = none) : ∃ r ∈ t.rows, clash r row = true := by
  unfold insert? at h
  split at h
  · cases h
  next hclash => simpa only [not_forall, Bool.not_eq_false, exists_prop] using hclash

theorem insertNew?_eq_some {sameKey : Row → Bool} {new : Bool} (h : t.insertNew? sameKey row = some (t', new)) :
    (new = false ∧ t' = t ∧ ∃ r ∈ t.rows, sameKey r = true) ∨
      (new = true ∧ t'.rows = t.rows ++ [row] ∧ (∀ r ∈ t.rows, clash r row = false) ∧
        ∀ r ∈ t.rows, sameKey r = false) := by
  unfold insertNew? at h
  split at h
  next hstored =>
    cases h
    exact .inl ⟨rfl, rfl, by simpa using hstored⟩
  next hfree =>
    obtain ⟨t₁, hinsert, heq⟩ := Option.map_eq_some_iff.mp h
    cases heq
    obtain ⟨hclash, hrows⟩ := insert?_eq_some hinsert
    exact .inr ⟨rfl, hrows, hclash, by simpa using hfree⟩

theorem insertBatch_cons {i : In} {rest : List In}
    (h : t.insertBatch check sameKey violation (i :: rest) = .ok (t', n)) :
    ∃ row t₁ new m, check i = .ok row ∧ t.insertNew? (sameKey row) row = some (t₁, new) ∧
      t₁.insertBatch check sameKey violation rest = .ok (t', m) ∧ n = m + new.toNat := by
  simp only [insertBatch] at h
  cases hcheck : check i with
  | error e => simp [hcheck] at h
  | ok row =>
    cases hnew : t.insertNew? (sameKey row) row with
    | none => simp [hcheck, hnew] at h
    | some p =>
      obtain ⟨t₁, new⟩ := p
      cases hrest : t₁.insertBatch check sameKey violation rest with
      | error e => simp [hcheck, hnew, hrest] at h
      | ok q =>
        obtain ⟨t₂, m⟩ := q
        simp only [hcheck, hnew, hrest, Except.ok.injEq, Prod.mk.injEq] at h
        obtain ⟨rfl, rfl⟩ := h
        exact ⟨row, t₁, new, m, rfl, hnew, hrest, rfl⟩

/-- A batch appends rows it has checked and leaves every stored row as it is. -/
theorem insertBatch_eq_ok (h : t.insertBatch check sameKey violation inputs = .ok (t', n)) :
    ∃ added, t'.rows = t.rows ++ added ∧ n = added.length ∧ ∀ row ∈ added, (∃ i ∈ inputs, check i = .ok row) ∧
        ∀ r ∈ t.rows, clash r row = false := by
  induction inputs generalizing t n with
  | nil =>
    cases h
    exact ⟨[], by simp⟩
  | cons i rest ih =>
    obtain ⟨row, t₁, new, m, hcheck, hnew, hrest, rfl⟩ := insertBatch_cons h
    obtain ⟨added, hrows, rfl, hadded⟩ := ih hrest
    rcases insertNew?_eq_some hnew with ⟨rfl, rfl, -⟩ | ⟨rfl, hrows₁, hfree, -⟩
    · refine ⟨added, hrows, rfl, fun r hr => ?_⟩
      obtain ⟨⟨j, hj, hjrow⟩, hclash⟩ := hadded r hr
      exact ⟨⟨j, mem_cons_of_mem _ hj, hjrow⟩, hclash⟩
    · refine ⟨row :: added, by rw [hrows, hrows₁, append_assoc]; rfl, rfl, fun r hr => ?_⟩
      rcases mem_cons.mp hr with rfl | hr
      · exact ⟨⟨i, mem_cons_self, hcheck⟩, hfree⟩
      · obtain ⟨⟨j, hj, hjrow⟩, hclash⟩ := hadded r hr
        refine ⟨⟨j, mem_cons_of_mem _ hj, hjrow⟩, fun q hq => hclash q ?_⟩
        rw [hrows₁]
        exact mem_append_left _ hq

/-- Every input of a batch that went through has a stored row with its key. -/
theorem insertBatch_stored (hrefl : ∀ a, sameKey a a = true)
    (h : t.insertBatch check sameKey violation inputs = .ok (t', n)) :
    n ≤ inputs.length ∧ ∀ i ∈ inputs, ∃ row, check i = .ok row ∧ ∃ r ∈ t'.rows, sameKey row r = true := by
  induction inputs generalizing t n with
  | nil =>
    cases h
    exact ⟨le_refl _, by simp⟩
  | cons i rest ih =>
    obtain ⟨row, t₁, new, m, hcheck, hnew, hrest, rfl⟩ := insertBatch_cons h
    obtain ⟨hle, hall⟩ := ih hrest
    obtain ⟨added, hgrown, -⟩ := insertBatch_eq_ok hrest
    have hbit : new.toNat ≤ 1 := by cases new <;> simp
    refine ⟨by simp only [length_cons]; omega, fun j hj => ?_⟩
    rcases mem_cons.mp hj with rfl | hj
    · have hfirst : ∃ r ∈ t₁.rows, sameKey row r = true := by
        rcases insertNew?_eq_some hnew with ⟨-, rfl, hstored⟩ | ⟨-, hrows, -⟩
        · exact hstored
        · exact ⟨row, by simp [hrows], hrefl row⟩
      obtain ⟨r, hr, hsame⟩ := hfirst
      exact ⟨row, hcheck, r, by rw [hgrown]; exact mem_append_left _ hr, hsame⟩
    · exact hall j hj

/-- A batch whose inputs all pass their check goes through when a row of it clashes only with rows
of its conflict key, among the stored rows and those of the batch. -/
theorem insertBatch_succeeds {P : Row → Prop} (t : Table Row) (hstored : ∀ r ∈ t.rows, P r)
    (hcheck : ∀ i ∈ inputs, ∃ row, check i = .ok row ∧ P row ∧ ∀ r, P r → clash r row = true → sameKey row r = true) :
    ∃ t' n, t.insertBatch check sameKey violation inputs = .ok (t', n) := by
  induction inputs generalizing t with
  | nil => exact ⟨t, 0, rfl⟩
  | cons i rest ih =>
    obtain ⟨row, hrow, hmeets, hkey⟩ := hcheck i mem_cons_self
    have hnew : ∃ t₁ new, t.insertNew? (sameKey row) row = some (t₁, new) := by
      unfold insertNew?
      by_cases hfound : t.rows.any (sameKey row) = true
      · exact ⟨t, false, by rw [if_pos hfound]⟩
      · cases hinsert : t.insert? row with
        | none =>
          obtain ⟨r, hr, hclash⟩ := insert?_eq_none hinsert
          exact absurd (any_eq_true.mpr ⟨r, hr, hkey r (hstored r hr) hclash⟩) hfound
        | some t₁ => exact ⟨t₁, true, by rw [if_neg hfound]; rfl⟩
    obtain ⟨t₁, new, hstep⟩ := hnew
    have hstored₁ : ∀ r ∈ t₁.rows, P r := fun r hr => by
      rcases insertNew?_eq_some hstep with ⟨-, rfl, -⟩ | ⟨-, hrows, -⟩
      · exact hstored r hr
      · rw [hrows, mem_append, mem_singleton] at hr
        rcases hr with hr | rfl
        · exact hstored r hr
        · exact hmeets
    obtain ⟨t₂, n, hbatch⟩ := ih t₁ hstored₁ fun j hj => hcheck j (mem_cons_of_mem _ hj)
    exact ⟨t₂, n + new.toNat, by simp [insertBatch, hrow, hstep, hbatch]⟩

/-- A batch whose inputs all pass their check goes through when the conflict key is the only key,
and every input then has a stored row with its key. -/
theorem insertBatch_ok (t : Table Row) (hcheck : ∀ i ∈ inputs, ∃ row, check i = .ok row)
    (hkey : ∀ a b : Row, clash b a = sameKey a b) (hrefl : ∀ a, sameKey a a = true) :
    ∃ t' n, t.insertBatch check sameKey violation inputs = .ok (t', n) ∧ n ≤ inputs.length ∧
      ∀ i ∈ inputs, ∀ row, check i = .ok row → ∃ r ∈ t'.rows, sameKey row r = true := by
  have hsucceeds : ∃ t' n, t.insertBatch check sameKey violation inputs = .ok (t', n) :=
    t.insertBatch_succeeds (P := fun _ => True) (fun _ _ => trivial) fun i hi =>
      (hcheck i hi).imp fun row h => ⟨h, trivial, fun r _ hclash => hkey row r ▸ hclash⟩
  obtain ⟨t', n, hbatch⟩ := hsucceeds
  obtain ⟨hle, hall⟩ := insertBatch_stored hrefl hbatch
  refine ⟨t', n, hbatch, hle, fun i hi row hrow => ?_⟩
  obtain ⟨row', hrow', hfound⟩ := hall i hi
  cases hrow.symm.trans hrow'
  exact hfound

/-- A batch that finds a stored row for every input changes nothing. -/
theorem insertBatch_kept (h : t.insertBatch check sameKey violation inputs = .ok (t', n))
    (hfound : ∀ i ∈ inputs, ∀ row, check i = .ok row → ∃ r ∈ t.rows, clash r row = true) : t' = t := by
  obtain ⟨added, hrows, -, hadded⟩ := insertBatch_eq_ok h
  cases added with
  | nil => exact ext (by simpa using hrows)
  | cons row rest =>
    obtain ⟨⟨i, hi, hrow⟩, hfree⟩ := hadded row mem_cons_self
    obtain ⟨r, hr, hclash⟩ := hfound i hi row hrow
    rw [hfree r hr] at hclash
    cases hclash

theorem update?_eq_some (h : t.update? p f = some t') : t'.rows = t.rows.map fun r => if p r then f r else r := by
  unfold update? at h
  split at h
  · cases h
    rfl
  · cases h

@[simp] theorem rows_update (t : Table Row) (p : Row → Bool) (f : Row → Row) (hf : KeepsKeys f) :
    (t.update p f hf).rows = t.rows.map fun r => if p r then f r else r := rfl

theorem select_mem (h : t.select p = some row) : row ∈ t.rows ∧ p row = true := ⟨mem_of_find?_eq_some h, find?_some h⟩

theorem select_eq_none : t.select p = none ↔ ∀ r ∈ t.rows, p r = false := by
  simp [select, find?_eq_none]

/-- A lookup by a unique key finds the row whenever it is stored. -/
theorem select_eq_some (hkey : ∀ a b, p a = true → p b = true → clash a b = true)
    (hmem : row ∈ t.rows) (hrow : p row = true) : t.select p = some row := by
  cases hsel : t.select p with
  | none =>
    rw [select_eq_none.mp hsel row hmem] at hrow
    cases hrow
  | some r =>
    obtain ⟨hr, hp⟩ := select_mem hsel
    rw [t.eq_of_clash hr hmem (hkey r row hp hrow)]

/-- A lookup on columns the update leaves alone sees the updated row. -/
theorem select_update (t : Table Row) {q : Row → Bool} (hf : KeepsKeys f)
    (hp : ∀ r, p (f r) = p r) : (t.update q f hf).select p = (t.select p).map fun r => if q r then f r else r := by
  unfold select
  rw [rows_update, find?_map]
  congr 2
  funext r
  by_cases hq : q r <;> simp [hq, hp r]

theorem select_of_insert (h : t'.rows = t.rows ++ [row]) :
    t'.select p = (t.select p).or (if p row then some row else none) := by
  unfold select
  rw [h, find?_append]
  by_cases hp : p row <;> simp [hp]

end Table

end Relational
