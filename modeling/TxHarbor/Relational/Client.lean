import TxHarbor.Relational.Transaction

namespace Relational

open Tx

/-- A sequential client of a store. It reads the committed state, submits one transaction at a
time and goes on with the answer; `fail` is an error it returns to its caller. -/
inductive Client (Store Call Error A : Type) where
  | done (a : A)
  | fail
  | read (next : Store → Client Store Call Error A)
  | submit (call : Call) (next : Attempt Error Bool → Client Store Call Error A)

namespace Client

section

variable {Store Call Error A B : Type}

def bind : Client Store Call Error A → (A → Client Store Call Error B) → Client Store Call Error B
  | done a, f => f a
  | fail, _ => fail
  | read next, f => read fun s => (next s).bind f
  | submit call next, f => submit call fun answer => (next answer).bind f

instance : Monad (Client Store Call Error) where
  pure := done
  bind := bind

/-- Read the whole committed state. -/
def get : Client Store Call Error Store := read done

/-- Submit a transaction and return any error to the caller. -/
def call (c : Call) : Client Store Call Error Bool := submit c fun
    | .committed result => done result
    | .rolledBack result => done result
    | _ => fail

/-- Submit transactions in order, up to the first error. -/
def inOrder : List Call → Client Store Call Error Unit
  | [] => done ()
  | c :: rest => do
    let _ ← call c
    inOrder rest

/-- One submitted transaction with the store before and after it. -/
structure Entry (Store Call : Type) where
  before : Store
  call : Call
  after : Store

/-- Execute a client against a store it has for itself. Each transaction meets the next fault of
the script, and a client whose script has run out was stopped there. The result is the store and
what was submitted on the way. -/
def run (body : Call → Tx Store Error Bool) :
    Client Store Call Error A → List (Fault Error) → Store → Store × List (Entry Store Call)
  | done _, _, s => (s, [])
  | fail, _, s => (s, [])
  | read next, script, s => run body (next s) script s
  | submit _ _, [], s => (s, [])
  | submit c next, fault :: script, s =>
    let attempt := Tx.attempt fault (body c) id s
    let rest := run body (next attempt.1) script attempt.2
    (rest.1, ⟨s, c, attempt.2⟩ :: rest.2)

/-- Every call the client can come to submit is in `K`, whatever it reads and is answered. -/
def Issues (K : Call → Prop) : Client Store Call Error A → Prop
  | done _ => True
  | fail => True
  | read next => ∀ s, (next s).Issues K
  | submit c next => K c ∧ ∀ answer, (next answer).Issues K

/-- The client's contract under faults and stops. Whenever it submits a call, `guar` relates the
call to the store at that moment, and where it ends on its own, `post` holds of its value (none
for an error) and the store. A stop can only come where a call is due, so `guar` is also what a
stopped client leaves. -/
def Holds (body : Call → Tx Store Error Bool) (guar : Store → Call → Prop)
    (post : Option A → Store → Prop) : Client Store Call Error A → Store → Prop
  | done a, s => post (some a) s
  | fail, s => post none s
  | read next, s => (next s).Holds body guar post s
  | submit c next, s => guar s c ∧ ∀ fault,
      (next (Tx.attempt fault (body c) id s).1).Holds body guar post (Tx.attempt fault (body c) id s).2

variable {K : Call → Prop} {m : Client Store Call Error A} {s : Store} {I : Store → Prop}

theorem Issues.bind {f : A → Client Store Call Error B} (hm : m.Issues K) (hf : ∀ a, (f a).Issues K) :
    (m >>= f).Issues K := by
  change (m.bind f).Issues K
  induction m with
  | done a => exact hf a
  | fail => trivial
  | read next ih => exact fun s => ih s (hm s)
  | submit c next ih => exact ⟨hm.1, fun answer => ih answer (hm.2 answer)⟩

variable {f : Store → Client Store Call Error A} {c : Call} {calls : List Call}

theorem issues_get_bind (h : ∀ s, (f s).Issues K) : (get >>= f).Issues K := h

theorem issues_call (hc : K c) : (call c : Client Store Call Error Bool).Issues K := by
  refine ⟨hc, fun answer => ?_⟩
  cases answer <;> trivial

theorem issues_inOrder (h : ∀ c ∈ calls, K c) : (inOrder calls : Client Store Call Error Unit).Issues K := by
  induction calls with
  | nil => trivial
  | cons c rest ih =>
    apply Issues.bind (issues_call (h c (by simp)))
    exact fun _ => ih fun d hd => h d (by simp [hd])

variable {body : Call → Tx Store Error Bool} {guar guar' : Store → Call → Prop}
  {post : Option A → Store → Prop} {post' : Option B → Store → Prop}

theorem Holds.bind {f : A → Client Store Call Error B} (hm : m.Holds body guar post s)
    (hfail : ∀ t, post none t → post' none t) (hf : ∀ a t, post (some a) t → (f a).Holds body guar post' t) :
    (m >>= f).Holds body guar post' s := by
  change (m.bind f).Holds body guar post' s
  induction m generalizing s with
  | done a => exact hf a s hm
  | fail => exact hfail s hm
  | read next ih => exact ih s hm
  | submit c next ih => exact ⟨hm.1, fun fault => ih _ (hm.2 fault)⟩

theorem holds_get_bind (h : (f s).Holds body guar post s) : (get >>= f).Holds body guar post s := h

theorem Holds.mono {post' : Option A → Store → Prop} (hm : m.Holds body guar post s)
    (hguar : ∀ t c, guar t c → guar' t c) (hpost : ∀ r t, post r t → post' r t) : m.Holds body guar' post' s := by
  induction m generalizing s with
  | done a => exact hpost _ _ hm
  | fail => exact hpost _ _ hm
  | read next ih => exact ih s hm
  | submit c next ih => exact ⟨hguar _ _ hm.1, fun fault => ih _ (hm.2 fault)⟩

/-- A call either went through, with the store its body computed, or it ends the client somewhere
between the two stores. -/
theorem holds_call {post : Option Bool → Store → Prop} (hguar : guar s c) (hfail : post none s)
    (hlost : ∀ s', body c s = .ok (true, s') → post none s')
    (hkept : ∀ s', body c s = .ok (true, s') → post (some true) s')
    (hskipped : ∀ s', body c s = .ok (false, s') → post (some false) s) : (call c).Holds body guar post s := by
  refine ⟨hguar, fun fault => ?_⟩
  have hnone : post none (attempt fault (body c) id s).2 := by
    rcases attempt_store fault (body c) id s with hsame | ⟨result, s', hbody, hkeep, hnew⟩
    · rwa [hsame]
    · rw [hnew]
      cases hkeep
      exact hlost s' hbody
  cases hanswer : (attempt fault (body c) id s).1 with
  | committed result =>
    obtain ⟨hbody, hkeep⟩ := attempt_committed hanswer
    cases hkeep
    exact hkept _ hbody
  | rolledBack result =>
    obtain ⟨⟨s', hbody⟩, hkeep, hsame⟩ := attempt_rolledBack hanswer
    cases hkeep
    change post (some false) _
    rw [hsame]
    exact hskipped s' hbody
  | notOpened | failed err | commitUnknown result | crashed => exact hnone

theorem holds_inOrder (hguar : ∀ c ∈ calls, ∀ t, I t → guar t c)
    (hstep : ∀ c ∈ calls, ∀ t t', I t → body c t = .ok (true, t') → I t') (hs : I s) :
    (inOrder calls).Holds body guar (fun _ t => I t) s := by
  induction calls generalizing s with
  | nil => exact hs
  | cons c rest ih =>
    have hc : c ∈ c :: rest := by simp
    have hcall : (call c).Holds body guar (fun _ t => I t) s :=
      holds_call (hguar c hc s hs) hs (fun s' => hstep c hc s s' hs) (fun s' => hstep c hc s s' hs) fun _ _ => hs
    exact hcall.bind (fun _ h => h) fun _ t ht => ih (fun d hd => hguar d (by simp [hd]))
      (fun d hd => hstep d (by simp [hd])) ht

/-- An invariant that every transaction keeps is kept by every client. -/
theorem Holds.of_stable (hstep : ∀ c s s', I s → body c s = .ok (true, s') → I s') (m : Client Store Call Error A)
    (hs : I s) : m.Holds body (fun t _ => I t) (fun _ t => I t) s := by
  induction m generalizing s with
  | done a | fail => exact hs
  | read next ih => exact ih s hs
  | submit c next ih =>
    refine ⟨hs, fun fault => ih _ (attempt_preserves hs fun result s' hbody hkeep => ?_)⟩
    cases hkeep
    exact hstep c s s' hs hbody

/-- What the contract says about the store a client leaves, stopped or not. -/
theorem Holds.store (hm : m.Holds body guar post s) (hguar : ∀ t c, guar t c → I t) (hpost : ∀ r t, post r t → I t)
    (script : List (Fault Error)) : I (m.run body script s).1 := by
  induction m generalizing s script with
  | done a => exact hpost _ _ hm
  | fail => exact hpost _ _ hm
  | read next ih => exact ih s hm script
  | submit c next ih =>
    cases script with
    | nil => exact hguar _ _ hm.1
    | cons fault script => exact ih _ (hm.2 fault) script

/-- A submitted transaction left the store alone or committed. -/
theorem run_entry (body : Call → Tx Store Error Bool) {script : List (Fault Error)} {d : Entry Store Call}
    (h : d ∈ (m.run body script s).2) : d.after = d.before ∨ body d.call d.before = .ok (true, d.after) := by
  induction m generalizing script s with
  | done a => simp [run] at h
  | fail => simp [run] at h
  | read next ih => exact ih s h
  | submit c next ih =>
    cases script with
    | nil => simp [run] at h
    | cons fault script =>
      rcases List.mem_cons.mp h with rfl | hrest
      · rcases attempt_store fault (body c) id s with hsame | ⟨result, s', hbody, hkeep, hnew⟩
        · exact .inl hsame
        · cases hkeep
          exact .inr (by rwa [hnew])
      · exact ih _ hrest

/-- An invariant that every transaction of the client keeps unless it is a `B` holds up to the
first `B`. -/
theorem run_until (body : Call → Tx Store Error Bool) {B : Entry Store Call → Prop}
    (hstep : ∀ c s s', K c → I s → body c s = .ok (true, s') → ¬ B ⟨s, c, s'⟩ → I s') (hm : m.Issues K) (hs : I s)
    (script : List (Fault Error)) :
    (∀ front e back, (m.run body script s).2 = front ++ e :: back → (∀ d ∈ front, ¬ B d) → I e.before) ∧
    ((∀ e ∈ (m.run body script s).2, ¬ B e) → I (m.run body script s).1) := by
  induction m generalizing s script with
  | done a | fail => exact ⟨fun front e back h => by simp [run] at h, fun _ => hs⟩
  | read next ih => exact ih s (hm s) hs script
  | submit c next ih =>
    cases script with
    | nil => exact ⟨fun front e back h => by simp [run] at h, fun _ => hs⟩
    | cons fault script =>
      have hnext : ¬ B ⟨s, c, (attempt fault (body c) id s).2⟩ → I (attempt fault (body c) id s).2 := by
        intro hnot
        rcases attempt_store fault (body c) id s with hsame | ⟨result, s', hbody, hkeep, hnew⟩
        · rwa [hsame]
        · rw [hnew] at hnot ⊢
          cases hkeep
          exact hstep c s s' hm.1 hs hbody hnot
      have hrest := fun hnot => ih (attempt fault (body c) id s).1 (hm.2 _) (hnext hnot) script
      constructor
      · intro front e back hlog hfront
        cases front with
        | nil =>
          obtain ⟨rfl, -⟩ := List.cons.inj hlog
          exact hs
        | cons d front =>
          obtain ⟨rfl, htail⟩ := List.cons.inj hlog
          exact (hrest (hfront _ (by simp))).1 front e back htail fun d' hd' => hfront d' (by simp [hd'])
      · intro hall
        exact (hrest (hall _ (by simp [run]))).2 fun e he => hall e (by simp [run, he])

theorem run_get_bind (f : Store → Client Store Call Error A) (script : List (Fault Error)) (s : Store) :
    (get >>= f).run body script s = (f s).run body script s := rfl

/-- How a client goes on after a call. -/
theorem run_call_bind (c : Call) (f : Bool → Client Store Call Error A) (fault : Fault Error)
    (script : List (Fault Error)) (s : Store) :
    ((call c >>= f).run body (fault :: script) s).1 = match (attempt fault (body c) id s).1 with
      | .committed result => ((f result).run body script (attempt fault (body c) id s).2).1
      | .rolledBack result => ((f result).run body script (attempt fault (body c) id s).2).1
      | _ => (attempt fault (body c) id s).2 := by
  change (((call c).bind f).run body (fault :: script) s).1 = _
  cases hanswer : (attempt fault (body c) id s).1 <;> simp only [call, Client.bind, run, hanswer]

/-- A client that goes on to do nothing leaves the store as it is. -/
theorem run_bind_pure (m : Client Store Call Error A) (b : B) (script : List (Fault Error)) (s : Store) :
    ((m >>= fun _ => pure b).run body script s).1 = (m.run body script s).1 := by
  change ((m.bind fun _ => done b).run body script s).1 = _
  induction m generalizing script s with
  | done | fail => rfl
  | read next ih => exact ih s script s
  | submit c next ih =>
    cases script with
    | nil => rfl
    | cons fault script => exact ih _ script _

/-- Transactions performed one after the other: each ran to its end, and those that ask for a
COMMIT got it. -/
def Performed (body : Call → Tx Store Error Bool) : List Call → Store → Store → Prop
  | [], s, s' => s = s'
  | c :: rest, s, s' => ∃ commits t, body c s = .ok (commits, t) ∧ Performed body rest (if commits then t else s) s'

/-- Wherever it is stopped, a client that submits calls in order has performed the first few of
them. -/
theorem inOrder_performed (body : Call → Tx Store Error Bool) (calls : List Call) (script : List (Fault Error)) (s : Store) :
    ∃ k ≤ calls.length, Performed body (calls.take k) s ((inOrder calls).run body script s).1 := by
  induction calls generalizing script s with
  | nil => exact ⟨0, Nat.le_refl 0, rfl⟩
  | cons c rest ih =>
    cases script with
    | nil => exact ⟨0, Nat.zero_le _, rfl⟩
    | cons fault script =>
      have hstopped : ∃ k ≤ (c :: rest).length,
          Performed body ((c :: rest).take k) s (attempt fault (body c) id s).2 := by
        rcases attempt_store fault (body c) id s with hsame | ⟨result, s', hbody, hkeep, hnew⟩
        · exact ⟨0, Nat.zero_le _, hsame.symm⟩
        · cases hkeep
          exact ⟨1, by simp, true, s', hbody, hnew.symm⟩
      rw [inOrder, run_call_bind]
      cases hanswer : (attempt fault (body c) id s).1 with
      | committed result =>
        obtain ⟨hbody, hkeep⟩ := attempt_committed hanswer
        cases hkeep
        obtain ⟨k, hk, hperformed⟩ := ih script (attempt fault (body c) id s).2
        exact ⟨k + 1, Nat.succ_le_succ hk, true, _, hbody, hperformed⟩
      | rolledBack result =>
        obtain ⟨⟨s', hbody⟩, hkeep, hsame⟩ := attempt_rolledBack hanswer
        cases hkeep
        obtain ⟨k, hk, hperformed⟩ := ih script s
        exact ⟨k + 1, Nat.succ_le_succ hk, false, s', hbody, by rwa [hsame]⟩
      | notOpened | failed err | commitUnknown result | crashed => exact hstopped

end

end Client

end Relational
