import Mathlib

open List

namespace Transition

open Transition

/-- The state reached by executing a finite list of actions from left to right.
All nondeterminism of a system is carried by the action itself, so `next` is a function. -/
def run {State Action : Type} (next : State → Action → State) (s : State) : List Action → State
  | [] => s
  | a :: rest => run next (next s a) rest

/-- Every action of the list meets `P` in the state in which it is executed. -/
def Along {State Action : Type} (next : State → Action → State) (P : State → Action → Prop) : State → List Action → Prop
  | _, [] => True
  | s, a :: rest => P s a ∧ Along next P (next s a) rest

instance Along.decidable {State Action : Type} (next : State → Action → State)
    (P : State → Action → Prop) [∀ s a, Decidable (P s a)] :
    (s : State) → (actions : List Action) → Decidable (Along next P s actions)
  | _, [] => isTrue trivial
  | s, a :: rest =>
    have := Along.decidable next P (next s a) rest
    inferInstanceAs (Decidable (P s a ∧ Along next P (next s a) rest))

/-- Some action of the list meets `P` in the state in which it is executed. -/
def Occurs {State Action : Type} (next : State → Action → State) (P : State → Action → Prop)
    (s : State) (actions : List Action) : Prop :=
  ∃ front a back, actions = front ++ a :: back ∧ P (run next s front) a

/-- How many actions of the list meet `P` in the state in which they are executed. -/
def tally {State Action : Type} (next : State → Action → State) (P : State → Action → Prop)
    [∀ s a, Decidable (P s a)] : State → List Action → Nat
  | _, [] => 0
  | s, a :: rest => (if P s a then 1 else 0) + tally next P (next s a) rest

/-- A state some finite list of actions leads to. -/
def Reachable {State Action : Type} (next : State → Action → State) (init s : State) : Prop :=
  ∃ actions, run next init actions = s

/-- What the actions of a run emit, in order. -/
def emitted {State Action Event : Type} (next : State → Action → State)
    (emit : State → Action → Option Event) : State → List Action → List Event
  | _, [] => []
  | s, a :: rest => (emit s a).toList ++ emitted next emit (next s a) rest

variable {State Action : Type} {next : State → Action → State} {P : State → Action → Prop} {s init : State}
  {I : State → Prop} {actions : List Action}

section

variable (next : State → Action → State)

@[simp] theorem run_nil (s : State) : run next s [] = s := rfl

@[simp] theorem run_cons (s : State) (a : Action) (rest : List Action) :
    run next s (a :: rest) = run next (next s a) rest := rfl

theorem run_append (s : State) (front back : List Action) :
    run next s (front ++ back) = run next (run next s front) back := by
  induction front generalizing s with
  | nil => rfl
  | cons a rest ih => exact ih (next s a)

end

theorem along_append {front back : List Action} :
    Along next P s (front ++ back) ↔ Along next P s front ∧ Along next P (run next s front) back := by
  induction front generalizing s with
  | nil => simp [Along]
  | cons a rest ih => simp only [cons_append, Along, run_cons, ih, and_assoc]

/-- A property along a run, read at the single steps. -/
theorem along_iff : Along next P s actions ↔ ∀ front a back, actions = front ++ a :: back → P (run next s front) a := by
  refine ⟨?_, fun h => ?_⟩
  · rintro h front a back rfl
    exact (along_append.mp h).2.1
  · induction actions generalizing s with
    | nil => trivial
    | cons a rest ih =>
      exact ⟨h [] a rest rfl, ih fun front b back heq => h (a :: front) b back (congrArg (a :: ·) heq)⟩

theorem Reachable.step (h : Reachable next init s) (a : Action) : Reachable next init (next s a) := by
  obtain ⟨actions, rfl⟩ := h
  exact ⟨actions ++ [a], by rw [run_append]; rfl⟩

/-- Invariant rule. What the initial state has and every action keeps holds in every
reachable state. -/
theorem Reachable.invariant (h : Reachable next init s) (hinit : I init) (hstep : ∀ s a, I s → I (next s a)) : I s := by
  obtain ⟨actions, rfl⟩ := h
  induction actions generalizing init with
  | nil => exact hinit
  | cons a rest ih => exact ih (hstep init a hinit)

/-- Invariant rule for restricted runs: only actions that meet `P` where they are executed
have to keep the invariant. -/
theorem invariant_of_along (halong : Along next P s actions) (hs : I s) (hstep : ∀ s a, P s a → I s → I (next s a)) :
    I (run next s actions) := by
  induction actions generalizing s with
  | nil => exact hs
  | cons a rest ih => exact ih halong.2 (hstep s a halong.1 hs)

/-- A property of every single step holds along every run. -/
theorem along_of_forall (h : ∀ s a, P s a) (s : State) (actions : List Action) : Along next P s actions := by
  induction actions generalizing s with
  | nil => trivial
  | cons a rest ih => exact ⟨h s a, ih (next s a)⟩

/-- A property of every action of the list holds along its run. -/
theorem along_of_mem {Q : Action → Prop} (h : ∀ a ∈ actions, Q a) (s : State) :
    Along next (fun _ a => Q a) s actions := by
  induction actions generalizing s with
  | nil => trivial
  | cons a rest ih => exact ⟨h a mem_cons_self, ih (fun b hb => h b (mem_cons_of_mem _ hb)) (next s a)⟩

variable {Q : State → Action → Prop}

/-- What follows from an invariant holds at every step of a restricted run. -/
theorem along_of_invariant (halong : Along next P s actions) (hs : I s) (hQ : ∀ s a, P s a → I s → Q s a)
    (hstep : ∀ s a, P s a → I s → I (next s a)) : Along next Q s actions := by
  induction actions generalizing s with
  | nil => trivial
  | cons a rest ih => exact ⟨hQ s a halong.1 hs, ih halong.2 (hstep s a halong.1 hs)⟩

/-- What every action of the list has can be used along its run. -/
theorem Along.and_mem {Q : Action → Prop} (h : Along next P s actions) (hQ : ∀ a ∈ actions, Q a) :
    Along next (fun s a => P s a ∧ Q a) s actions := by
  induction actions generalizing s with
  | nil => trivial
  | cons a rest ih =>
    exact ⟨⟨h.1, hQ a mem_cons_self⟩, ih h.2 fun b hb => hQ b (mem_cons_of_mem _ hb)⟩

/-- Counting rule. A measure that grows by one exactly in the steps that meet `P` counts them. -/
theorem run_measure_eq_tally [∀ s a, Decidable (P s a)] {m : State → Nat}
    (hstep : ∀ s a, m (next s a) = m s + if P s a then 1 else 0) (s : State) (actions : List Action) :
    m (run next s actions) = m s + tally next P s actions := by
  induction actions generalizing s with
  | nil => rfl
  | cons a rest ih =>
    rw [run_cons, ih, hstep, tally]
    omega

/-- Invariant rule for properties of a state and of the actions that led to it. -/
theorem history_invariant {I : List Action → State → Prop} (halong : Along next P s actions) (hs : I [] s)
    (hstep : ∀ front a, P (run next s front) a → I front (run next s front) →
      I (front ++ [a]) (next (run next s front) a)) : I actions (run next s actions) := by
  induction actions using List.reverseRecOn with
  | nil => exact hs
  | append_singleton front a ih =>
    rw [along_append] at halong
    rw [run_append]
    exact hstep front a halong.2.1 (ih halong.1)

/-- Invariant rule for properties of a state and of what was emitted on the way to it. -/
theorem emitted_invariant {Event : Type} {emit : State → Action → Option Event} {I : State → List Event → Prop}
    (hs : I s []) (hstep : ∀ s past a, I s past → I (next s a) (past ++ (emit s a).toList)) (actions : List Action) :
    I (run next s actions) (emitted next emit s actions) := by
  have hpast : ∀ actions s past, I s past → I (run next s actions) (past ++ emitted next emit s actions) := by
    intro actions
    induction actions with
    | nil =>
      intro s past h
      simpa [emitted] using h
    | cons a rest ih =>
      intro s past h
      have := ih (next s a) _ (hstep s past a h)
      rwa [append_assoc] at this
  simpa using hpast actions s [] hs

/-- Monotonicity rule. A preorder respected by every action relates the two ends of a run. -/
theorem run_related {R : State → State → Prop} (hrefl : ∀ s, R s s) (htrans : ∀ a b c, R a b → R b c → R a c)
    (hstep : ∀ s a, R s (next s a)) (s : State) (actions : List Action) : R s (run next s actions) := by
  induction actions generalizing s with
  | nil => exact hrefl s
  | cons a rest ih => exact htrans _ _ _ (hstep s a) (ih (next s a))

/-- A measure no action lowers and some action of the run raises is larger at the end. -/
theorem Occurs.measure_lt {m : State → Int} (hmono : ∀ s a, m s ≤ m (next s a))
    (h : Occurs next (fun s a => m s < m (next s a)) s actions) : m s < m (run next s actions) := by
  obtain ⟨front, a, back, rfl, hraise⟩ := h
  have hrun : ∀ s actions, m s ≤ m (run next s actions) :=
    run_related (R := fun s t => m s ≤ m t) (fun s => le_refl (m s)) (fun _ _ _ => le_trans) hmono
  rw [run_append, run_cons]
  have hfront := hrun s front
  have hback := hrun (next (run next s front) a) back
  omega

theorem Occurs.extend (h : Occurs next P s actions) (a : Action) : Occurs next P s (actions ++ [a]) := by
  obtain ⟨front, b, back, rfl, hP⟩ := h
  exact ⟨front, b, back ++ [a], by simp, hP⟩

theorem Occurs.last (actions : List Action) {a : Action} (h : P (run next s actions) a) :
    Occurs next P s (actions ++ [a]) :=
  ⟨actions, a, [], rfl, h⟩

theorem Occurs.exists_mem (h : Occurs next P s actions) : ∃ a ∈ actions, ∃ t, P t a := by
  obtain ⟨front, a, back, rfl, hP⟩ := h
  exact ⟨a, by simp, _, hP⟩

theorem Occurs.imp (hPQ : ∀ s a, P s a → Q s a) (h : Occurs next P s actions) : Occurs next Q s actions := by
  obtain ⟨front, a, back, hactions, hP⟩ := h
  exact ⟨front, a, back, hactions, hPQ _ a hP⟩

/-! The parties of a system are often a list, in which one step changes or appends one. -/

variable {A : Type} {l : List A} {i j : Nat} {x y : A}

theorem getElem?_set_eq_some (h : (l.set i x)[j]? = some y) : j = i ∧ y = x ∨ j ≠ i ∧ l[j]? = some y := by
  rw [getElem?_set] at h
  split at h
  next heq =>
    split at h
    · exact .inl ⟨heq.symm, (Option.some.inj h).symm⟩
    · cases h
  next hne => exact .inr ⟨fun heq => hne heq.symm, h⟩

theorem mem_concat_cases (h : y ∈ l ++ [x]) : y ∈ l ∨ y = x := (mem_append.mp h).imp_right mem_singleton.mp

theorem getElem?_append_eq_some (h : (l ++ [x])[j]? = some y) : l[j]? = some y ∨ j = l.length ∧ y = x := by
  rw [getElem?_append] at h
  split at h
  · exact .inl h
  next hlong =>
    obtain ⟨hzero, rfl⟩ : j - l.length = 0 ∧ x = y := by simpa [getElem?_cons] using h
    exact .inr ⟨by omega, rfl⟩

theorem any_eraseIdx_eq_false {p : A → Bool} :
    (l.eraseIdx i).any p = false ↔ ∀ j x, j ≠ i → l[j]? = some x → p x = false := by
  simp only [any_eq_false, Bool.not_eq_true, mem_eraseIdx_iff_getElem?]
  exact ⟨fun h j x hj hx => h x ⟨j, hj, hx⟩, fun h x ⟨j, hj, hx⟩ => h j x hj hx⟩

end Transition
