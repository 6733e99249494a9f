import TxHarbor.Transition.Run

open Transition

namespace Relational

/-! Transactions of many clients over one lock. A client begins a transaction, waits for the lock,
decides under it what to write, and commits; nothing is written before the COMMIT, and the lock is
held until the transaction ends. The library says that what commits was decided on the data it
replaces. -/

/-- How far a transaction has come. A decision keeps the client memory it was made with and the
data its COMMIT will install. -/
inductive Stage (Env Data : Type) where
  | waiting
  | holding
  | decided (env : Env) (result : Data)
  | ended

def Stage.locks {Env Data : Type} : Stage Env Data → Bool
  | .holding | .decided .. => true
  | .waiting | .ended => false

/-- One transaction: its job, its start on the database clock, the memory of its client at that
moment, and whether the client still waits for it. -/
structure Session (Env Job Data : Type) where
  job : Job
  began : Int
  entered : Env
  attended : Bool
  stage : Stage Env Data

/-- Whether the client still drives the session. -/
def Session.driven {Env Job Data : Type} (s : Session Env Job Data) : Bool :=
  match s.stage with
  | .ended => false
  | _ => s.attended

/-- The clients: which jobs may begin beside the open sessions, what a job decides under the lock,
and what its client remembers after an acknowledged COMMIT. -/
structure Clients (Env Job Data : Type) where
  may : List (Session Env Job Data) → Job → Bool
  decide : Env → Int → Job → Data → Option Data
  learn : Env → Job → Data → Env

/-- The committed data with the sessions over it. -/
structure Locked (Env Job Data : Type) where
  clock : Int
  env : Env
  data : Data
  sessions : List (Session Env Job Data)

/-- `commit` may lose its answer, and `abandon` is a client that gives up or dies: its session
can only commit what it had decided, or be rolled back. -/
inductive LockAction (Job : Type) where
  | tick (d : Nat)
  | start (job : Job)
  | lock (i : Nat)
  | decide (i : Nat)
  | commit (i : Nat) (told : Bool)
  | abandon (i : Nat)
  | abort (i : Nat)

namespace Locked

variable {Env Job Data : Type}

/-- Replaces the stage of a session. -/
def move (w : Locked Env Job Data) (i : Nat) (s : Session Env Job Data) (stage : Stage Env Data) :
    Locked Env Job Data :=
  { w with sessions := w.sessions.set i { s with stage := stage } }

def isLocked (w : Locked Env Job Data) : Bool := w.sessions.any (·.stage.locks)

def next (clients : Clients Env Job Data) (w : Locked Env Job Data) : LockAction Job → Locked Env Job Data
  | .tick d => { w with clock := w.clock + d }
  | .start job =>
    if clients.may w.sessions job then
      { w with sessions := w.sessions ++ [⟨job, w.clock, w.env, true, .waiting⟩] }
    else w
  | .lock i =>
    match w.sessions[i]? with
    | none => w
    | some s =>
      match s.stage with
      | .waiting => if w.isLocked then w else w.move i s .holding
      | _ => w
  | .decide i =>
    match w.sessions[i]? with
    | none => w
    | some s =>
      match s.stage, s.attended with
      | .holding, true =>
        match clients.decide w.env s.began s.job w.data with
        | some result => w.move i s (.decided w.env result)
        | none => w.move i s .ended
      | _, _ => w
  | .commit i told =>
    match w.sessions[i]? with
    | none => w
    | some s =>
      match s.stage with
      | .decided _ result =>
        { w.move i s .ended with
            data := result
            env := if told && s.attended then clients.learn w.env s.job result else w.env }
      | _ => w
  | .abandon i =>
    match w.sessions[i]? with
    | none => w
    | some s => { w with sessions := w.sessions.set i { s with attended := false } }
  | .abort i =>
    match w.sessions[i]? with
    | none => w
    | some s => w.move i s .ended

/-- The session an action commits, and the data it installs. -/
def commits (w : Locked Env Job Data) : LockAction Job → Option (Session Env Job Data × Data)
  | .commit i _ =>
    match w.sessions[i]? with
    | none => none
    | some s =>
      match s.stage with
      | .decided _ result => some (s, result)
      | _ => none
  | _ => none

/-- What one step does: it leaves everything but the clock, begins a session, moves one session
without writing, or commits one. -/
inductive Step (clients : Clients Env Job Data) (w : Locked Env Job Data) :
    LockAction Job → Locked Env Job Data → Prop where
  | idle {a : LockAction Job} (clock : Int) (silent : w.commits a = none) : Step clients w a { w with clock := clock }
  | started {job : Job} (permitted : clients.may w.sessions job = true) : Step clients w (.start job)
        { w with sessions := w.sessions ++ [⟨job, w.clock, w.env, true, .waiting⟩] }
  | granted {i : Nat} {s : Session Env Job Data} (open_ : w.sessions[i]? = some s)
      (waiting : s.stage = .waiting) (free : ∀ t ∈ w.sessions, t.stage.locks = false) : Step clients w (.lock i) (w.move i s .holding)
  | decided {i : Nat} {s : Session Env Job Data} {result : Data} (open_ : w.sessions[i]? = some s)
      (holding : s.stage.locks = true) (attended : s.attended = true)
      (decision : clients.decide w.env s.began s.job w.data = some result) :
      Step clients w (.decide i) (w.move i s (.decided w.env result))
  | ended {a : LockAction Job} {i : Nat} {s : Session Env Job Data} (open_ : w.sessions[i]? = some s)
      (silent : w.commits a = none) : Step clients w a (w.move i s .ended)
  | abandoned {i : Nat} {s : Session Env Job Data} (open_ : w.sessions[i]? = some s) :
      Step clients w (.abandon i) { w with sessions := w.sessions.set i { s with attended := false } }
  | committed {i : Nat} {told : Bool} {s : Session Env Job Data} {env : Env} {result : Data}
      (open_ : w.sessions[i]? = some s) (decision : s.stage = .decided env result) :
      Step clients w (.commit i told)
        { w.move i s .ended with
            data := result
            env := if told && s.attended then clients.learn w.env s.job result else w.env }

theorem next_step (clients : Clients Env Job Data) (w : Locked Env Job Data) (a : LockAction Job) :
    Step clients w a (w.next clients a) := by
  have hidle : w.commits a = none → Step clients w a w := .idle w.clock
  cases a <;> simp only [next]
  case tick d => exact .idle _ rfl
  case start job =>
    split
    next hmay => exact .started hmay
    · exact hidle rfl
  case lock i =>
    cases hi : w.sessions[i]? with
    | none => exact hidle rfl
    | some s =>
      simp only
      split
      · split
        · exact hidle rfl
        next hwaiting hfree =>
          refine .granted hi hwaiting fun t ht => ?_
          simpa using fun hlocks => hfree (List.any_eq_true.mpr ⟨t, ht, hlocks⟩)
      · exact hidle rfl
  case decide i =>
    cases hi : w.sessions[i]? with
    | none => exact hidle rfl
    | some s =>
      simp only
      split
      next hstage hattended =>
        split
        next hdecision => exact .decided hi (by rw [hstage]; rfl) hattended hdecision
        · exact .ended hi rfl
      · exact hidle rfl
  case commit i told =>
    cases hi : w.sessions[i]? with
    | none => exact hidle (by simp only [commits, hi])
    | some s =>
      simp only
      split
      next env result hstage => exact .committed hi hstage
      · refine hidle ?_
        simp only [commits, hi]
  case abandon i =>
    cases hi : w.sessions[i]? with
    | none => exact hidle rfl
    | some s => exact .abandoned hi
  case abort i =>
    cases hi : w.sessions[i]? with
    | none => exact hidle rfl
    | some s => exact .ended hi rfl

/-- At most one session holds the lock, and what it has decided was decided on the current data. -/
structure Serial (clients : Clients Env Job Data) (w : Locked Env Job Data) : Prop where
  sole : ∀ {i j : Nat} {s t : Session Env Job Data}, w.sessions[i]? = some s →
    w.sessions[j]? = some t → s.stage.locks = true → t.stage.locks = true → i = j
  current : ∀ {i : Nat} {s : Session Env Job Data} {env : Env} {result : Data},
    w.sessions[i]? = some s → s.stage = .decided env result → clients.decide env s.began s.job w.data = some result

variable {i : Nat} {clients : Clients Env Job Data} {w : Locked Env Job Data}

/-- Changing a session to one that does not hold the lock leaves the others in order. -/
theorem Serial.set (h : Serial clients w) {s : Session Env Job Data} (hlocks : s.stage.locks = false) :
    Serial clients { w with sessions := w.sessions.set i s } where
  sole hj hk ht hu := by
    rcases getElem?_set_eq_some hj with ⟨rfl, rfl⟩ | ⟨-, hj⟩
    · simp [hlocks] at ht
    · rcases getElem?_set_eq_some hk with ⟨rfl, rfl⟩ | ⟨-, hk⟩
      · simp [hlocks] at hu
      · exact h.sole hj hk ht hu
  current hj hstage := by
    rcases getElem?_set_eq_some hj with ⟨rfl, rfl⟩ | ⟨-, hj⟩
    · simp [hstage, Stage.locks] at hlocks
    · exact h.current hj hstage

theorem Serial.step {w' : Locked Env Job Data} {a : LockAction Job} (h : Serial clients w)
    (hstep : Step clients w a w') : Serial clients w' := by
  cases hstep with
  | idle clock hsilent => exact ⟨h.sole, h.current⟩
  | started permitted =>
    constructor
    · intro i j s t hi hj hs ht
      rcases getElem?_append_eq_some hi with hi | ⟨-, rfl⟩
      · rcases getElem?_append_eq_some hj with hj | ⟨-, rfl⟩
        · exact h.sole hi hj hs ht
        · cases ht
      · cases hs
    · intro i s env result hi hstage
      rcases getElem?_append_eq_some hi with hi | ⟨-, rfl⟩
      · exact h.current hi hstage
      · cases hstage
  | @granted i s hopen hwaiting hfree =>
    constructor
    · intro j k t u hj hk ht hu
      rcases getElem?_set_eq_some hj with ⟨rfl, -⟩ | ⟨-, hj⟩
      · rcases getElem?_set_eq_some hk with ⟨rfl, -⟩ | ⟨-, hk⟩
        · rfl
        · simp [hfree u (List.mem_of_getElem? hk)] at hu
      · simp [hfree t (List.mem_of_getElem? hj)] at ht
    · intro j t env result hj hstage
      rcases getElem?_set_eq_some hj with ⟨rfl, rfl⟩ | ⟨-, hj⟩
      · cases hstage
      · exact h.current hj hstage
  | @decided i s result hopen hholding hattended hdecision =>
    constructor
    · intro j k t u hj hk ht hu
      rcases getElem?_set_eq_some hj with ⟨rfl, -⟩ | ⟨hne, hj⟩
      · rcases getElem?_set_eq_some hk with ⟨rfl, -⟩ | ⟨hne', hk⟩
        · rfl
        · exact absurd (h.sole hk hopen hu hholding) hne'
      · exact absurd (h.sole hj hopen ht hholding) hne
    · intro j t env result' hj hstage
      rcases getElem?_set_eq_some hj with ⟨rfl, rfl⟩ | ⟨-, hj⟩
      · cases hstage
        exact hdecision
      · exact h.current hj hstage
  | ended hopen hsilent => exact h.set rfl
  | @abandoned i s hopen =>
    have hsame : ∀ {j : Nat} {t : Session Env Job Data}, (w.sessions.set i { s with attended := false })[j]? = some t →
          ∃ t', w.sessions[j]? = some t' ∧ t'.stage = t.stage ∧ t'.began = t.began ∧ t'.job = t.job :=
      fun hj => by
        rcases getElem?_set_eq_some hj with ⟨rfl, rfl⟩ | ⟨-, hj⟩
        · exact ⟨s, hopen, rfl, rfl, rfl⟩
        · exact ⟨_, hj, rfl, rfl, rfl⟩
    constructor
    · intro j k t u hj hk ht hu
      obtain ⟨t', hj', hstage, -⟩ := hsame hj
      obtain ⟨u', hk', hstage', -⟩ := hsame hk
      exact h.sole hj' hk' (hstage ▸ ht) (hstage' ▸ hu)
    · intro j t env result hj hstage
      obtain ⟨t', hj', hstage', hbegan, hjob⟩ := hsame hj
      rw [← hbegan, ← hjob]
      exact h.current hj' (hstage'.trans hstage)
  | @committed i told s env result hopen hdecision =>
    have hlocks : s.stage.locks = true := by
      rw [hdecision]
      rfl
    constructor
    · exact (h.set (s := { s with stage := .ended }) rfl).sole
    · intro j t env' result' hj hstage
      rcases getElem?_set_eq_some hj with ⟨rfl, rfl⟩ | ⟨hne, hj⟩
      · cases hstage
      · have ht : t.stage.locks = true := by
          rw [hstage]
          rfl
        exact absurd (h.sole hj hopen ht hlocks) hne

/-- One transaction as an atomic step on the data. -/
def atomic (clients : Clients Env Job Data) (data : Data) (a : Env × Int × Job) : Data :=
  (clients.decide a.1 a.2.1 a.2.2 data).getD data

theorem Serial.empty (clients : Clients Env Job Data) (clock : Int) (env : Env) (data : Data) :
    Serial clients ⟨clock, env, data, []⟩ :=
  ⟨fun h => by simp at h, fun h => by simp at h⟩

/-- Whatever the interleaving, the committed data is what some order of whole transactions, one
after the other, leaves. -/
theorem data_reachable {clock : Int} {env : Env} {data : Data} (h : Reachable (next clients) ⟨clock, env, data, []⟩ w) :
    Serial clients w ∧ Reachable (atomic clients) data w.data := by
  refine h.invariant (I := fun w => Serial clients w ∧ Reachable (atomic clients) data w.data)
    ⟨Serial.empty .., [], rfl⟩ fun w a hw => ⟨hw.1.step (next_step clients w a), ?_⟩
  generalize hnext : w.next clients a = w'
  have hstep := next_step clients w a
  rw [hnext] at hstep
  cases hstep with
  | @committed i told s env result hopen hdecision =>
    have hcurrent := hw.1.current hopen hdecision
    have := hw.2.step (env, s.began, s.job)
    simpa [atomic, hcurrent] using this
  | _ => exact hw.2

end Locked

end Relational
