import TxHarbor.Transition.Run

/-!
# The idempotent consumer

`events.Consumer` applies a delivered message in one transaction: inbox dedup, version guard, effect, version row and
progress. The statements of a transaction are separate steps here. A transaction that inserted an inbox row holds its
key, one that read or wrote a version row holds that row, and whoever needs a held row waits. The retries of `Process`
are further transactions, which may be started at any time; an unanswered COMMIT takes effect when it does, whatever the
caller made of it.
-/

open Transition List

namespace TxHarbor.Events

structure Aggregate where
  aggregateType : String
  aggregateID : String
  deriving DecidableEq

/-- The fields of `events.Envelope` that the consumer's own tables use. -/
structure Envelope where
  eventID : String
  aggregate : Aggregate
  aggregateVersion : Nat
  deriving DecidableEq

structure Partition where
  topic : String
  partition : Int
  deriving DecidableEq

inductive QuarantineReason
  | nonRetryable
  | retryExhausted
  | versionGap
  | schemaUnsupported
  | identityMismatch
  deriving DecidableEq

/-- A delivered message with what `ParseEnvelope` and `CheckChainIdentity` make of it: `invalid` is the reason of a
refusal, and then a message that could not be parsed has the identity `quarantineIdentity` derives from its bytes. -/
structure Message where
  source : Partition
  offset : Int
  envelope : Envelope
  invalid : Option QuarantineReason
  deriving DecidableEq

/-- A real delivery without a topic cannot advance progress, which fails its transaction. -/
def Message.unplaced (m : Message) : Bool := decide (0 ≤ m.offset) && m.source.topic == ""

inductive QuarantineStatus
  | open'
  | replayed
  deriving DecidableEq

structure QuarantineEntry where
  eventID : String
  failureClass : QuarantineReason
  source : Partition
  offset : Int
  status : QuarantineStatus
  deriving DecidableEq

inductive GuardDecision
  | apply
  | skip
  | gap
  deriving DecidableEq

/-- The pure version guard, on `max_version` if the row was found. -/
def decideVersionGuard (found : Option Nat) (eventVersion : Nat) : GuardDecision :=
  match found with
  | none => .apply
  | some maxVersion =>
    if maxVersion + 1 < eventVersion then .gap else if maxVersion < eventVersion then .apply else .skip

/-- How far a transaction is. -/
inductive Stage
  | begun
  /-- The inbox has the event already. -/
  | duplicate
  | inserted
  /-- The guard allows the effect, on the version row that was found. -/
  | guarded (found : Option Nat)
  /-- The effect is done and the version row is written. -/
  | versioned
  /-- Rolled back for an old version, before the standalone progress statement. -/
  | skipping
  | quarantining (reason : QuarantineReason)
  | enqueued (existing : Bool) (reason : QuarantineReason)
  | ended
  deriving DecidableEq

/-- One transaction, for a delivery or for the replay of the quarantine entry with that id. -/
structure Session where
  message : Message
  replayOf : Option Nat
  stage : Stage
  deriving DecidableEq

/-- The transaction has inserted the inbox row of its event. -/
def Stage.keyed : Stage → Bool
  | .inserted | .guarded _ | .versioned => true
  | _ => false

/-- The transaction has read the version row of its aggregate FOR UPDATE, or has written it. -/
def Stage.rowed : Stage → Bool
  | .guarded (some _) | .versioned => true
  | _ => false

def Session.holdsInbox (s : Session) (eventID : String) : Bool := s.message.envelope.eventID == eventID && s.stage.keyed

def Session.holdsVersion (s : Session) (a : Aggregate) : Bool := s.message.envelope.aggregate == a && s.stage.rowed

/-- The key of the open entry the transaction has inserted. -/
def Session.holdsEntry (s : Session) (eventID : String) : Bool := s.message.envelope.eventID == eventID &&
    match s.stage with
    | .enqueued false _ => true
    | _ => false

/-- The tables of one consumer name, its transactions, and what happened so far: the committed effects with the latest
first, the offsets of the messages that were applied, skipped or quarantined, the events for which `Process` returned
without error, and the entries a replay is about to close. -/
structure ConsumerWorld where
  inbox : List String
  versions : Aggregate → Option Nat
  progress : Partition → Option Nat
  quarantine : List QuarantineEntry
  sessions : List Session
  effects : List Envelope
  handled : List (Partition × Nat)
  returned : List String
  closing : List Nat

inductive ConsumerAction
  | start (m : Message) (replayOf : Option Nat)
  | quarantine (m : Message) (replayOf : Option Nat) (reason : QuarantineReason)
  | insert (i : Nat)
  | read (i : Nat)
  | effect (i : Nat)
  | skip (i : Nat) (told : Bool)
  | enqueue (i : Nat)
  | commit (i : Nat) (told : Bool)
  | abort (i : Nat)
  | close (entry : Nat)
  deriving DecidableEq

open Session

namespace ConsumerWorld

def initial : ConsumerWorld := ⟨[], fun _ => none, fun _ => none, [], [], [], [], [], []⟩

/-- Whether another transaction than the `i`th meets `P`. -/
def others (w : ConsumerWorld) (i : Nat) (P : Session → Bool) : Bool := (w.sessions.eraseIdx i).any P

def move (w : ConsumerWorld) (i : Nat) (s : Session) (stage : Stage) : ConsumerWorld :=
  { w with sessions := w.sessions.set i { s with stage := stage } }

/-- `advanceProgressSQL`, for a message that carries a real delivery. -/
def advanceProgress (w : ConsumerWorld) (m : Message) : ConsumerWorld :=
  if m.offset < 0 then w
  else
    { w with
      progress := fun p =>
        if p = m.source then some (max ((w.progress p).getD 0) (m.offset.toNat + 1)) else w.progress p }

/-- The message has reached a durable outcome. -/
def handle (w : ConsumerWorld) (m : Message) : ConsumerWorld :=
  if m.offset < 0 then w else { w with handled := (m.source, m.offset.toNat) :: w.handled }

/-- `Process` returns without error. A replay then closes its entry, unless the event was quarantined again. -/
def answer (w : ConsumerWorld) (s : Session) (told : Bool) : ConsumerWorld :=
  if told then
    { w with
      returned := s.message.envelope.eventID :: w.returned
      closing := match s.stage with
        | .enqueued _ _ => w.closing
        | _ => s.replayOf.toList ++ w.closing }
  else w

/-- The inbox row, the effect and the version row of an applied event. -/
def applied (w : ConsumerWorld) (e : Envelope) : ConsumerWorld :=
  { w with
    inbox := e.eventID :: w.inbox
    effects := e :: w.effects
    versions := fun a => if a = e.aggregate then some e.aggregateVersion else w.versions a }

def entered (w : ConsumerWorld) (m : Message) (reason : QuarantineReason) : ConsumerWorld :=
  { w with quarantine := w.quarantine ++ [⟨m.envelope.eventID, reason, m.source, m.offset, .open'⟩] }

/-- `insertInboxSQL`: a conflicting insert that is not committed is waited for. -/
def insertInbox (w : ConsumerWorld) (i : Nat) (s : Session) : ConsumerWorld :=
  let e := s.message.envelope.eventID
  if w.others i (·.holdsInbox e) then w
  else if w.inbox.contains e then w.move i s .duplicate
  else w.move i s .inserted

/-- `readVersionSQL` and the guard. A row that is not there cannot be locked. -/
def readVersion (w : ConsumerWorld) (i : Nat) (s : Session) : ConsumerWorld :=
  let e := s.message.envelope
  if (w.versions e.aggregate).isSome && w.others i (·.holdsVersion e.aggregate) then w
  else
    match decideVersionGuard (w.versions e.aggregate) e.aggregateVersion with
    | .apply => w.move i s (.guarded (w.versions e.aggregate))
    | .skip => (w.move i s .skipping).handle s.message
    | .gap => w.move i s .ended

/-- The effect succeeds, and `updateVersionSQL` or `insertVersionSQL` follows. The latter waits for the row and changes
nothing if it has caught up, which rolls the transaction back. -/
def writeVersion (w : ConsumerWorld) (i : Nat) (s : Session) : Option Nat → ConsumerWorld
  | some maxVersion =>
    if maxVersion < s.message.envelope.aggregateVersion then w.move i s .versioned else w.move i s .ended
  | none =>
    let e := s.message.envelope
    if w.others i (·.holdsVersion e.aggregate) then w
    else
      match w.versions e.aggregate with
      | none => w.move i s .versioned
      | some maxVersion => if maxVersion < e.aggregateVersion then w.move i s .versioned else w.move i s .ended

/-- `QuarantineStore.Enqueue`: at most one open entry for an event. -/
def enqueueEntry (w : ConsumerWorld) (i : Nat) (s : Session) (reason : QuarantineReason) : ConsumerWorld :=
  let e := s.message.envelope.eventID
  if w.others i (·.holdsEntry e) then w
  else w.move i s (.enqueued (w.quarantine.any fun q => q.eventID == e && q.status == .open') reason)

def commitSession (w : ConsumerWorld) (i : Nat) (s : Session) (told : Bool) : ConsumerWorld :=
  if s.message.unplaced then w.move i s .ended
  else
    match s.stage with
    | .duplicate => (((w.move i s .ended).advanceProgress s.message).handle s.message).answer s told
    | .versioned =>
      ((((w.move i s .ended).applied s.message.envelope).advanceProgress s.message).handle s.message).answer s told
    | .enqueued existing reason =>
      let w' := if existing then w.move i s .ended else (w.move i s .ended).entered s.message reason
      ((w'.advanceProgress s.message).handle s.message).answer s told
    | _ => w

/-- The replayed message is the snapshot of its entry. -/
def replays (w : ConsumerWorld) (m : Message) : Option Nat → Bool
  | none => true
  | some q => (w.quarantine[q]?).any fun entry => entry.eventID == m.envelope.eventID

def next (w : ConsumerWorld) : ConsumerAction → ConsumerWorld
  | .start m replayOf =>
    if m.invalid.isNone && w.replays m replayOf then { w with sessions := w.sessions ++ [⟨m, replayOf, .begun⟩] } else w
  | .quarantine m replayOf reason =>
    if w.replays m replayOf then { w with sessions := w.sessions ++ [⟨m, replayOf, .quarantining reason⟩] } else w
  | .insert i =>
    match w.sessions[i]? with
    | some ⟨m, q, .begun⟩ => w.insertInbox i ⟨m, q, .begun⟩
    | _ => w
  | .read i =>
    match w.sessions[i]? with
    | some ⟨m, q, .inserted⟩ => w.readVersion i ⟨m, q, .inserted⟩
    | _ => w
  | .effect i =>
    match w.sessions[i]? with
    | some ⟨m, q, .guarded found⟩ => w.writeVersion i ⟨m, q, .guarded found⟩ found
    | _ => w
  | .skip i told =>
    match w.sessions[i]? with
    | some ⟨m, q, .skipping⟩ =>
      if m.unplaced then w.move i ⟨m, q, .skipping⟩ .ended
      else ((w.move i ⟨m, q, .skipping⟩ .ended).advanceProgress m).answer ⟨m, q, .skipping⟩ told
    | _ => w
  | .enqueue i =>
    match w.sessions[i]? with
    | some ⟨m, q, .quarantining reason⟩ => w.enqueueEntry i ⟨m, q, .quarantining reason⟩ reason
    | _ => w
  | .commit i told =>
    match w.sessions[i]? with
    | some s => w.commitSession i s told
    | none => w
  | .abort i =>
    match w.sessions[i]? with
    | some s => w.move i s .ended
    | none => w
  | .close entry =>
    if w.closing.contains entry then
      { w with
        quarantine := w.quarantine.modify entry fun q => { q with status := .replayed } }
    else w

/-! ### What the parts of a step leave alone -/

section Frames

variable (w : ConsumerWorld)

@[simp] theorem move_frame (i : Nat) (s : Session) (stage : Stage) :
    (w.move i s stage).inbox = w.inbox ∧ (w.move i s stage).versions = w.versions ∧
      (w.move i s stage).progress = w.progress ∧ (w.move i s stage).quarantine = w.quarantine ∧
      (w.move i s stage).effects = w.effects ∧ (w.move i s stage).handled = w.handled ∧
      (w.move i s stage).returned = w.returned ∧ (w.move i s stage).closing = w.closing :=
  ⟨rfl, rfl, rfl, rfl, rfl, rfl, rfl, rfl⟩

@[simp] theorem advanceProgress_frame (m : Message) :
    (w.advanceProgress m).inbox = w.inbox ∧ (w.advanceProgress m).versions = w.versions ∧
      (w.advanceProgress m).quarantine = w.quarantine ∧ (w.advanceProgress m).sessions = w.sessions ∧
      (w.advanceProgress m).effects = w.effects ∧ (w.advanceProgress m).handled = w.handled ∧
      (w.advanceProgress m).returned = w.returned ∧ (w.advanceProgress m).closing = w.closing := by
  unfold advanceProgress
  split <;> exact ⟨rfl, rfl, rfl, rfl, rfl, rfl, rfl, rfl⟩

@[simp] theorem handle_frame (m : Message) :
    (w.handle m).inbox = w.inbox ∧ (w.handle m).versions = w.versions ∧ (w.handle m).progress = w.progress ∧
      (w.handle m).quarantine = w.quarantine ∧ (w.handle m).sessions = w.sessions ∧
      (w.handle m).effects = w.effects ∧ (w.handle m).returned = w.returned ∧ (w.handle m).closing = w.closing := by
  unfold handle
  split <;> exact ⟨rfl, rfl, rfl, rfl, rfl, rfl, rfl, rfl⟩

@[simp] theorem answer_frame (s : Session) (told : Bool) :
    (w.answer s told).inbox = w.inbox ∧ (w.answer s told).versions = w.versions ∧
      (w.answer s told).progress = w.progress ∧ (w.answer s told).quarantine = w.quarantine ∧
      (w.answer s told).sessions = w.sessions ∧ (w.answer s told).effects = w.effects ∧
      (w.answer s told).handled = w.handled := by
  unfold answer
  split <;> exact ⟨rfl, rfl, rfl, rfl, rfl, rfl, rfl⟩

@[simp] theorem applied_frame (e : Envelope) :
    (w.applied e).progress = w.progress ∧ (w.applied e).quarantine = w.quarantine ∧
      (w.applied e).sessions = w.sessions ∧ (w.applied e).handled = w.handled ∧
      (w.applied e).returned = w.returned ∧ (w.applied e).closing = w.closing :=
  ⟨rfl, rfl, rfl, rfl, rfl, rfl⟩

@[simp] theorem entered_frame (m : Message) (reason : QuarantineReason) :
    (w.entered m reason).inbox = w.inbox ∧ (w.entered m reason).versions = w.versions ∧
      (w.entered m reason).progress = w.progress ∧ (w.entered m reason).sessions = w.sessions ∧
      (w.entered m reason).effects = w.effects ∧ (w.entered m reason).handled = w.handled ∧
      (w.entered m reason).returned = w.returned ∧ (w.entered m reason).closing = w.closing :=
  ⟨rfl, rfl, rfl, rfl, rfl, rfl, rfl, rfl⟩

end Frames

/-- What an action can do to the tables and the transactions. -/
inductive Step (w : ConsumerWorld) : ConsumerAction → ConsumerWorld → Prop
  | same {act : ConsumerAction} : Step w act w
  | started {act : ConsumerAction} {s : Session}
      (hstage : s.stage = .begun ∧ act = .start s.message s.replayOf ∨ ∃ reason, s.stage = .quarantining reason)
      (hreplays : w.replays s.message s.replayOf = true) : Step w act { w with sessions := w.sessions ++ [s] }
  | duplicate {act : ConsumerAction} {i : Nat} {s : Session} (hi : w.sessions[i]? = some s) (hstage : s.stage = .begun)
      (hfound : s.message.envelope.eventID ∈ w.inbox) : Step w act (w.move i s .duplicate)
  | inserted {act : ConsumerAction} {i : Nat} {s : Session} (hi : w.sessions[i]? = some s) (hstage : s.stage = .begun)
      (halone : w.others i (·.holdsInbox s.message.envelope.eventID) = false)
      (hfresh : s.message.envelope.eventID ∉ w.inbox) : Step w act (w.move i s .inserted)
  | guarded {i : Nat} {s : Session} (hi : w.sessions[i]? = some s) (hstage : s.stage = .inserted)
      (halone : (w.versions s.message.envelope.aggregate).isSome = true →
        w.others i (·.holdsVersion s.message.envelope.aggregate) = false)
      (hguard : decideVersionGuard (w.versions s.message.envelope.aggregate) s.message.envelope.aggregateVersion = .apply) :
      Step w (.read i) (w.move i s (.guarded (w.versions s.message.envelope.aggregate)))
  | skipping {act : ConsumerAction} {i : Nat} {s : Session} (hi : w.sessions[i]? = some s) (hstage : s.stage = .inserted)
      (hguard : decideVersionGuard (w.versions s.message.envelope.aggregate) s.message.envelope.aggregateVersion = .skip) :
      Step w act ((w.move i s .skipping).handle s.message)
  | versioned {act : ConsumerAction} {i : Nat} {s : Session} {found : Option Nat} (hi : w.sessions[i]? = some s)
      (hstage : s.stage = .guarded found)
      (hrow : found = none → w.others i (·.holdsVersion s.message.envelope.aggregate) = false ∧
        ∀ m, w.versions s.message.envelope.aggregate = some m → m < s.message.envelope.aggregateVersion) :
      Step w act (w.move i s .versioned)
  | ended {act : ConsumerAction} {i : Nat} {s : Session} (hi : w.sessions[i]? = some s) : Step w act (w.move i s .ended)
  | skipped {act : ConsumerAction} {i : Nat} {s : Session} {told : Bool} (hi : w.sessions[i]? = some s)
      (hstage : s.stage = .skipping) :
      Step w act (((w.move i s .ended).advanceProgress s.message).answer s told)
  | enqueued {act : ConsumerAction} {i : Nat} {s : Session} {reason : QuarantineReason} (hi : w.sessions[i]? = some s)
      (hstage : s.stage = .quarantining reason) :
      Step w act (w.move i s (.enqueued (w.quarantine.any fun q =>
        q.eventID == s.message.envelope.eventID && q.status == .open') reason))
  | repeated {act : ConsumerAction} {i : Nat} {s : Session} {told : Bool} (hi : w.sessions[i]? = some s)
      (hstage : s.stage = .duplicate) :
      Step w act ((((w.move i s .ended).advanceProgress s.message).handle s.message).answer s told)
  | applied {act : ConsumerAction} {i : Nat} {s : Session} {told : Bool} (hi : w.sessions[i]? = some s)
      (hstage : s.stage = .versioned) :
      Step w act (((((w.move i s .ended).applied s.message.envelope).advanceProgress s.message).handle s.message).answer s
        told)
  | quarantined {act : ConsumerAction} {i : Nat} {s : Session} {existing : Bool} {reason : QuarantineReason} {told : Bool}
      (hi : w.sessions[i]? = some s) (hstage : s.stage = .enqueued existing reason) :
      Step w act ((((if existing then w.move i s .ended else (w.move i s .ended).entered s.message reason).advanceProgress
        s.message).handle s.message).answer s told)
  | closed {act : ConsumerAction} {entry : Nat} (hclosing : entry ∈ w.closing) :
      Step w act { w with quarantine := w.quarantine.modify entry fun q => { q with status := .replayed } }

variable {w : ConsumerWorld} {i : Nat} {s : Session}

variable {act : ConsumerAction} {j : Nat} {t : Session}

theorem commitSession_step {told : Bool} (hi : w.sessions[i]? = some s) : w.Step act (w.commitSession i s told) := by
  unfold commitSession
  split
  · exact .ended hi
  · split
    next hstage => exact .repeated hi hstage
    next hstage => exact .applied hi hstage
    next hstage => exact .quarantined hi hstage
    · exact .same

theorem writeVersion_step {found : Option Nat} (hi : w.sessions[i]? = some s) (hstage : s.stage = .guarded found) :
    w.Step act (w.writeVersion i s found) := by
  cases found with
  | some m =>
    simp only [writeVersion]
    split
    · exact .versioned hi hstage nofun
    · exact .ended hi
  | none =>
    simp only [writeVersion]
    split
    · exact .same
    next halone =>
      rw [Bool.not_eq_true] at halone
      split
      next hnone => exact .versioned hi hstage fun _ => ⟨halone, fun m hm => by rw [hnone] at hm; cases hm⟩
      next m hm =>
        split
        next hlt =>
          refine .versioned hi hstage fun _ => ⟨halone, fun m' hm' => ?_⟩
          cases hm.symm.trans hm'
          exact hlt
        · exact .ended hi

/-- Every action is one of the steps, or changes nothing. -/
theorem next_step (w : ConsumerWorld) (act : ConsumerAction) : w.Step act (w.next act) := by
  cases act <;> simp only [next]
  case start m replayOf =>
    split
    next h =>
      rw [Bool.and_eq_true] at h
      exact .started (.inl ⟨rfl, rfl⟩) h.2
    · exact .same
  case quarantine m replayOf reason =>
    split
    next h => exact .started (.inr ⟨reason, rfl⟩) h
    · exact .same
  case insert i =>
    split
    next m q hi =>
      unfold insertInbox
      simp only
      split
      · exact .same
      next halone =>
        rw [Bool.not_eq_true] at halone
        split
        next hfound => exact .duplicate hi rfl (contains_iff_mem.mp hfound)
        next hfresh => exact .inserted hi rfl halone fun hmem => hfresh (contains_iff_mem.mpr hmem)
    · exact .same
  case read i =>
    split
    next m q hi =>
      unfold readVersion
      simp only
      split
      · exact .same
      next halone =>
        rw [Bool.and_eq_true, not_and, Bool.not_eq_true] at halone
        split
        next hguard => exact .guarded hi rfl halone hguard
        next hguard => exact .skipping hi rfl hguard
        · exact .ended hi
    · exact .same
  case effect i =>
    split
    next m q found hi => exact writeVersion_step hi rfl
    · exact .same
  case skip i told =>
    split
    next m q hi =>
      split
      · exact .ended hi
      · exact .skipped hi rfl
    · exact .same
  case enqueue i =>
    split
    next m q reason hi =>
      unfold enqueueEntry
      simp only
      split
      · exact .same
      · exact .enqueued hi rfl
    · exact .same
  case commit i told =>
    split
    next s hi => exact commitSession_step hi
    · exact .same
  case abort i =>
    split
    next s hi => exact .ended hi
    · exact .same
  case close entry =>
    split
    next h => exact .closed (contains_iff_mem.mp h)
    · exact .same

/-! ### What a transaction holds -/

theorem others_eq_false {P : Session → Bool} :
    w.others i P = false ↔ ∀ j s, j ≠ i → w.sessions[j]? = some s → P s = false :=
  any_eraseIdx_eq_false

theorem getElem?_move {stage : Stage} (h : (w.move i s stage).sessions[j]? = some t) :
    j = i ∧ t = { s with stage := stage } ∨ j ≠ i ∧ w.sessions[j]? = some t :=
  getElem?_set_eq_some h

/-- An inbox key and a version row have one holder, whose event is not in the inbox yet and is newer than the row. -/
structure Locks (w : ConsumerWorld) : Prop where
  keys : ∀ (i j : Nat) (s t : Session), w.sessions[i]? = some s → w.sessions[j]? = some t → s.stage.keyed = true → t.stage.keyed = true →
    s.message.envelope.eventID = t.message.envelope.eventID → i = j
  rows : ∀ (i j : Nat) (s t : Session), w.sessions[i]? = some s → w.sessions[j]? = some t → s.stage.rowed = true → t.stage.rowed = true →
    s.message.envelope.aggregate = t.message.envelope.aggregate → i = j
  fresh : ∀ (i : Nat) (s : Session), w.sessions[i]? = some s → s.stage.keyed = true → s.message.envelope.eventID ∉ w.inbox
  ahead : ∀ (i : Nat) (s : Session), w.sessions[i]? = some s → s.stage.rowed = true → ∀ m,
    w.versions s.message.envelope.aggregate = some m → m < s.message.envelope.aggregateVersion

namespace Locks

variable {w : ConsumerWorld}

theorem congr (h : w.Locks) {w' : ConsumerWorld} (hsessions : w'.sessions = w.sessions) (hinbox : w'.inbox = w.inbox)
    (hversions : w'.versions = w.versions) : w'.Locks := by
  obtain ⟨keys, rows, fresh, ahead⟩ := h
  exact ⟨hsessions ▸ keys, hsessions ▸ rows, by rwa [hsessions, hinbox],
    by rwa [hsessions, hversions]⟩

/-- A session that inserted the event holds its inbox key alone. -/
theorem alone_inbox (h : w.Locks) (hi : w.sessions[i]? = some s) (hkeyed : s.stage.keyed = true) :
    w.others i (·.holdsInbox s.message.envelope.eventID) = false := by
  rw [others_eq_false]
  intro j t hj ht
  rw [Bool.eq_false_iff]
  intro hholds
  simp only [holdsInbox, Bool.and_eq_true, beq_iff_eq] at hholds
  exact hj (h.keys j i t s ht hi hholds.2 hkeyed hholds.1)

/-- A session that reads the version row under its lock holds it alone. -/
theorem alone_version (h : w.Locks) (hi : w.sessions[i]? = some s) (hrowed : s.stage.rowed = true) :
    w.others i (·.holdsVersion s.message.envelope.aggregate) = false := by
  rw [others_eq_false]
  intro j t hj ht
  rw [Bool.eq_false_iff]
  intro hholds
  simp only [holdsVersion, Bool.and_eq_true, beq_iff_eq] at hholds
  exact hj (h.rows j i t s ht hi hholds.2 hrowed hholds.1)

variable {stage : Stage}

/-- A transaction may take what no other holds. -/
theorem move (h : w.Locks) (hkey : stage.keyed = true →
      w.others i (·.holdsInbox s.message.envelope.eventID) = false ∧ s.message.envelope.eventID ∉ w.inbox)
    (hrow : stage.rowed = true → w.others i (·.holdsVersion s.message.envelope.aggregate) = false ∧
      ∀ m, w.versions s.message.envelope.aggregate = some m → m < s.message.envelope.aggregateVersion) :
    (w.move i s stage).Locks := by
  have hkey' : ∀ j t, j ≠ i → w.sessions[j]? = some t → stage.keyed = true → t.stage.keyed = true →
      t.message.envelope.eventID ≠ s.message.envelope.eventID := by
    intro j t hj ht hstage hkeyed heq
    have hnone := others_eq_false.mp (hkey hstage).1 j t hj ht
    simp [holdsInbox, heq, hkeyed] at hnone
  have hrow' : ∀ j t, j ≠ i → w.sessions[j]? = some t → stage.rowed = true → t.stage.rowed = true →
      t.message.envelope.aggregate ≠ s.message.envelope.aggregate := by
    intro j t hj ht hstage hrowed heq
    have hnone := others_eq_false.mp (hrow hstage).1 j t hj ht
    simp [holdsVersion, heq, hrowed] at hnone
  constructor
  · intro a b t u ht hu hkt hku heq
    rcases getElem?_move ht with ⟨ha, hst⟩ | ⟨ha, hta⟩ <;> rcases getElem?_move hu with ⟨hb, hsu⟩ | ⟨hb, hub⟩
    · exact ha.trans hb.symm
    · subst hst
      exact absurd heq.symm (hkey' b u hb hub hkt hku)
    · subst hsu
      exact absurd heq (hkey' a t ha hta hku hkt)
    · exact h.keys a b t u hta hub hkt hku heq
  · intro a b t u ht hu hkt hku heq
    rcases getElem?_move ht with ⟨ha, hst⟩ | ⟨ha, hta⟩ <;> rcases getElem?_move hu with ⟨hb, hsu⟩ | ⟨hb, hub⟩
    · exact ha.trans hb.symm
    · subst hst
      exact absurd heq.symm (hrow' b u hb hub hkt hku)
    · subst hsu
      exact absurd heq (hrow' a t ha hta hku hkt)
    · exact h.rows a b t u hta hub hkt hku heq
  · intro a t ht hkt
    rcases getElem?_move ht with ⟨rfl, rfl⟩ | ⟨ha, ht⟩
    · exact (hkey hkt).2
    · exact h.fresh a t ht hkt
  · intro a t ht hkt
    rcases getElem?_move ht with ⟨rfl, rfl⟩ | ⟨ha, ht⟩
    · exact (hrow hkt).2
    · exact h.ahead a t ht hkt

/-- A transaction that gives up what it holds. -/
theorem moveFree (h : w.Locks) (hkey : stage.keyed = false) (hrow : stage.rowed = false) : (w.move i s stage).Locks :=
  h.move (fun hk => absurd (hkey.symm.trans hk) Bool.false_ne_true)
    fun hr => absurd (hrow.symm.trans hr) Bool.false_ne_true

/-- The commit of the event whose key and row the `i`th transaction held, after which it holds nothing. -/
theorem applied (h : w.Locks) (hi : w.sessions[i]? = some s) (hstage : s.stage = .versioned) :
    ((w.move i s .ended).applied s.message.envelope).Locks := by
  have hended : (w.move i s .ended).Locks := h.moveFree rfl rfl
  refine { hended with fresh := ?_, ahead := ?_ }
  · intro j t ht hkeyed hmem
    rcases getElem?_move ht with ⟨rfl, rfl⟩ | ⟨hj, ht⟩
    · cases hkeyed
    · rcases mem_cons.mp hmem with heq | hmem
      · exact hj (h.keys j i t s ht hi hkeyed (by rw [hstage]; rfl) heq)
      · exact h.fresh j t ht hkeyed hmem
  · intro j t ht hrowed m hm
    rcases getElem?_move ht with ⟨rfl, rfl⟩ | ⟨hj, ht⟩
    · cases hrowed
    · simp only [ConsumerWorld.applied] at hm
      split at hm
      next heq => exact absurd (h.rows j i t s ht hi hrowed (by rw [hstage]; rfl) heq) hj
      · exact h.ahead j t ht hrowed m hm

end Locks

end ConsumerWorld

end TxHarbor.Events
