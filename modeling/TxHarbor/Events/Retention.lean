import TxHarbor.Events.Outbox
import TxHarbor.Events.Consumer

/-!
# Retention pruning and the readers of the outbox

`Append` derives the next version of an aggregate from the rows of the outbox, a revision looks its superseded event up
there, and the reconciliation audit compares sources with it. `RetentionPrune` shrinks the same table. Here one history of
operations is run twice, with its prunes and without them, and the answers are compared.
-/

open Transition List Option Bool Function

namespace TxHarbor.Events

def Fact.aggregate (f : Fact) : Aggregate := ⟨f.aggregateType, f.aggregateID⟩

/-- The natural key `NewEventID` hashes. -/
inductive NaturalKey
  | evmLog (chainID : Option Int) (blockHash txHash : Option String) (logIndex : Option Nat)
  | businessObject (aggregate : Aggregate) (aggregateVersion : Nat)
  deriving DecidableEq

def naturalKeyFor (f : Fact) (version : Nat) : NaturalKey :=
  match f.identityKind with
  | .evmLog => .evmLog f.chainID f.blockHash f.txHash f.logIndex
  | .businessObject => .businessObject f.aggregate version

/-- The two partial identity indexes of the table. -/
def Fact.sameIdentity (f g : Fact) : Bool := f.identityKind == g.identityKind &&
    match f.identityKind with
    | .evmLog =>
      f.chainID == g.chainID && f.blockHash == g.blockHash && f.txHash == g.txHash && f.logIndex == g.logIndex
    | .businessObject => f.aggregate == g.aggregate && f.aggregateVersion == g.aggregateVersion

structure AppendResult where
  eventID : String
  outboxID : Nat
  aggregateVersion : Nat
  noop : Bool
  deriving DecidableEq

structure SourceWatermark where
  sourceID : String
  sourceVersion : Int
  deriving DecidableEq

inductive AuditOutcome
  | missing
  | behind
  | unverifiable
  | covered
  deriving DecidableEq

def classifyWatermark (mark : SourceWatermark) (emitted : Nat) (maxVersion : Option Int) : AuditOutcome :=
  if emitted = 0 then .missing
  else if 0 < mark.sourceVersion then
    match maxVersion with
    | none => .unverifiable
    | some version => if version < mark.sourceVersion then .behind else .covered
  else .covered

/-- `aggregateVersionQuery`. -/
def maxVersion (rows : List OutboxRow) (a : Aggregate) : Nat :=
  rows.foldr (fun r m => if r.fact.aggregate = a then max r.fact.aggregateVersion m else m) 0

/-- `readWithdrawalHeadEventSQL`: the row with the highest version. -/
def headEvent (rows : List OutboxRow) (a : Aggregate) : Option OutboxRow :=
  rows.find? fun r => r.fact.aggregate = a && r.fact.aggregateVersion == maxVersion rows a

/-- The rows `auditWatermarkSQL` reads. -/
def OutboxRow.ofSource (kind id : String) (r : OutboxRow) : Bool :=
  r.fact.sourceKind == some kind && r.fact.sourceID == some id

/-- `auditWatermarkSQL`: the number of rows and the largest version that is recorded. -/
def auditWatermark (rows : List OutboxRow) (kind id : String) : Nat × Option Int :=
  (rows.countP (·.ofSource kind id), ((rows.filter (·.ofSource kind id)).filterMap (·.fact.sourceVersion)).max?)

/-- The outbox with the broker's log and the tables of one consumer, and the facts of the rows that were pruned. -/
structure Ledger where
  clock : Int
  nextID : Nat
  rows : List OutboxRow
  broker : List Fact
  inbox : List String
  versions : Aggregate → Option Nat
  gone : List Fact

/-- One operation of a history. The event of an `append` gets its id and its version from `Append`. A revision renders
its payload from the event it supersedes; `transition` is the event of the transition it makes. -/
inductive HistoryOp
  | tick (elapsed : Nat)
  | append (event : Fact)
  | revise (transition event : Fact) (evidence : Bool) (render : Fact → String × String)
  | publish (eventID : String)
  | deliver (position : Nat)
  | audit (kind : String) (mark : SourceWatermark)
  | prune (retention : Int)

inductive Output
  | appended (result : Option AppendResult)
  | revised (result : Option (AppendResult × Option AppendResult))
  | applied (effect : Bool)
  | audited (outcome : AuditOutcome)
  deriving DecidableEq

namespace Ledger

def initial (clock : Int) : Ledger := ⟨clock, 1, [], [], [], fun _ => none, []⟩

/-- The fact `Append` stores: `hash` is `NewEventID`. -/
def drafted (hash : NaturalKey → String) (l : Ledger) (event : Fact) : Fact :=
  let version := maxVersion l.rows event.aggregate + 1
  { event with aggregateVersion := version, eventID := hash (naturalKeyFor event version) }

/-- `Append`: an identity conflict with the same payload is a no-op, one with another payload is refused. -/
def append (hash : NaturalKey → String) (l : Ledger) (event : Fact) : Option AppendResult × Ledger :=
  let f := l.drafted hash event
  let l' := { l with nextID := l.nextID + 1 }
  match l.rows.find? fun r => f.sameIdentity r.fact with
  | some r =>
    (if r.fact.payloadHash = f.payloadHash then some ⟨f.eventID, r.id, r.fact.aggregateVersion, true⟩ else none, l')
  | none =>
    (some ⟨f.eventID, l.nextID, f.aggregateVersion, false⟩,
      { l' with rows := l.rows ++ [OutboxRow.inserted l.nextID f l.clock] })

/-- The revision event about the event it supersedes. -/
def superseding (event head : Fact) (render : Fact → String × String) : Fact :=
  { event with revisesEventID := some head.eventID, payload := (render head).1, payloadHash := (render head).2 }

/-- The event part of `RevisionConsumer.Apply`. The superseded event is read first, then the transition appends its own
event to the aggregate, and the revision event follows it: none without a superseded event or chain evidence. A refused
append rolls the transaction back, but for the sequence. -/
def revise (hash : NaturalKey → String) (l : Ledger) (transition event : Fact) (evidence : Bool)
    (render : Fact → String × String) : Option (AppendResult × Option AppendResult) × Ledger :=
  let moved := l.append hash transition
  match moved.1, headEvent l.rows event.aggregate, evidence with
  | none, _, _ => (none, moved.2)
  | some result, some head, true =>
    let revised := moved.2.append hash (superseding event head.fact render)
    match revised.1 with
    | none => (none, { l with nextID := revised.2.nextID })
    | some superseded => (some (result, some superseded), revised.2)
  | some result, _, _ => (some (result, none), moved.2)

/-- The row is published once: the broker has it and the row is marked. -/
def publish (l : Ledger) (eventID : String) : Ledger :=
  match l.rows.find? fun r => r.fact.eventID == eventID && r.publishState == .pending with
  | none => l
  | some row =>
    { l with
      broker := l.broker ++ [row.fact]
      rows := l.rows.map fun r =>
        if r.fact.eventID == eventID && r.publishState == .pending then r.settle l.clock .ack else r }

/-- The T4 transaction of the consumer for a message of the broker. -/
def deliver (l : Ledger) (position : Nat) : Bool × Ledger :=
  match l.broker[position]? with
  | none => (false, l)
  | some f =>
    if l.inbox.contains f.eventID then (false, l)
    else
      match decideVersionGuard (l.versions f.aggregate) f.aggregateVersion with
      | .apply =>
        (true,
          { l with
            inbox := f.eventID :: l.inbox
            versions := fun a => if a = f.aggregate then some f.aggregateVersion else l.versions a })
      | _ => (false, l)

def audit (l : Ledger) (kind : String) (mark : SourceWatermark) : AuditOutcome :=
  let watermark := auditWatermark l.rows kind mark.sourceID
  classifyWatermark mark watermark.1 watermark.2

def prune (l : Ledger) (retention : Int) : Ledger :=
  if 0 < retention then
    { l with
      rows := l.rows.filter fun r => !r.prunable l.clock retention
      gone := (l.rows.filter fun r => r.prunable l.clock retention).map (·.fact) ++ l.gone }
  else l

def next (hash : NaturalKey → String) (l : Ledger) : HistoryOp → Ledger
  | .tick elapsed => { l with clock := l.clock + elapsed }
  | .append event => (l.append hash event).2
  | .revise transition event evidence render => (l.revise hash transition event evidence render).2
  | .publish eventID => l.publish eventID
  | .deliver position => (l.deliver position).2
  | .audit _ _ => l
  | .prune retention => l.prune retention

/-- What the operation answers. A prune answers nothing that the others are compared with. -/
def output (hash : NaturalKey → String) (l : Ledger) : HistoryOp → Option Output
  | .tick _ => none
  | .append event => some (.appended (l.append hash event).1)
  | .revise transition event evidence render => some (.revised (l.revise hash transition event evidence render).1)
  | .publish _ => none
  | .deliver position => some (.applied (l.deliver position).1)
  | .audit kind mark => some (.audited (l.audit kind mark))
  | .prune _ => none

/-- A log that was pruned is not appended again. -/
def unpruned (l : Ledger) (event : Fact) : Bool :=
  event.identityKind != .evmLog || l.gone.all fun g => !event.sameIdentity g

/-- Among the rows there is a newer one of the same aggregate, and one of the same source that is not behind. -/
def shadowed (rows : List OutboxRow) (r : OutboxRow) : Bool :=
  (rows.any fun s => s.fact.aggregate = r.fact.aggregate && decide (r.fact.aggregateVersion < s.fact.aggregateVersion)) &&
    (r.fact.sourceKind.isNone || r.fact.sourceID.isNone || rows.any fun s =>
      s.fact.sourceKind == r.fact.sourceKind && s.fact.sourceID == r.fact.sourceID &&
        r.fact.sourceVersion.all fun version => s.fact.sourceVersion.any fun newer => decide (version ≤ newer))

/-- A prune deletes no row that is the newest of its aggregate or carries the watermark of its source, and no pruned log
is appended again. -/
def spares (l : Ledger) : HistoryOp → Bool
  | .append event => l.unpruned event
  | .revise transition event _ _ => l.unpruned transition && l.unpruned event
  | .prune retention =>
    (l.rows.filter fun r => r.prunable l.clock retention).all
      (shadowed (l.rows.filter fun r => !r.prunable l.clock retention))
  | _ => true

end Ledger

def HistoryOp.prunes : HistoryOp → Bool
  | .prune _ => true
  | _ => false

/-! ### The two runs side by side -/

open Nat

section Queries

variable {rows rows' : List OutboxRow} {a : Aggregate}

theorem le_maxVersion {r : OutboxRow} (hr : r ∈ rows) (ha : r.fact.aggregate = a) :
    r.fact.aggregateVersion ≤ maxVersion rows a := by
  induction rows with
  | nil => cases hr
  | cons s rest ih =>
    simp only [maxVersion, foldr_cons]
    change _ ≤ if s.fact.aggregate = a then max s.fact.aggregateVersion (maxVersion rest a) else maxVersion rest a
    rcases mem_cons.mp hr with rfl | hr
    · rw [if_pos ha]
      exact le_max_left _ _
    · have hrest := ih hr
      split <;> omega

theorem maxVersion_le {n : Nat} (h : ∀ r ∈ rows, r.fact.aggregate = a → r.fact.aggregateVersion ≤ n) :
    maxVersion rows a ≤ n := by
  induction rows with
  | nil => exact zero_le n
  | cons s rest ih =>
    have hrest := ih fun r hr => h r (mem_cons_of_mem _ hr)
    have hs := h s mem_cons_self
    simp only [maxVersion, foldr_cons]
    change (if s.fact.aggregate = a then max s.fact.aggregateVersion (maxVersion rest a) else maxVersion rest a) ≤ n
    split
    next ha => exact Nat.max_le.mpr ⟨hs ha, hrest⟩
    · exact hrest

end Queries

/-- The rows of the unpruned run, each with whether the pruned run still has it. -/
abbrev Tagged := List (OutboxRow × Bool)

def Tagged.all (t : Tagged) : List OutboxRow := t.map Prod.fst

def Tagged.kept (t : Tagged) : List OutboxRow := (t.filter Prod.snd).map Prod.fst

variable {t : Tagged} {r : OutboxRow} {rows : List OutboxRow}

theorem Tagged.mem_kept : r ∈ t.kept ↔ (r, true) ∈ t := by
  simp only [kept, List.mem_map, List.mem_filter]
  constructor
  · rintro ⟨⟨r', b⟩, ⟨hmem, hb⟩, rfl⟩
    cases b with
    | true => exact hmem
    | false => cases hb
  · exact fun hmem => ⟨(r, true), ⟨hmem, rfl⟩, rfl⟩

theorem Tagged.mem_all : r ∈ t.all ↔ ∃ b, (r, b) ∈ t := by
  simp [all]

/-- A search that no pruned row answers. -/
theorem Tagged.find?_kept {p : OutboxRow → Bool} (h : ∀ r, (r, false) ∈ t → p r = false) :
    t.kept.find? p = t.all.find? p := by
  induction t with
  | nil => rfl
  | cons x rest ih =>
    have hrest := ih fun r hr => h r (mem_cons_of_mem _ hr)
    obtain ⟨r, b⟩ := x
    cases b with
    | true =>
      simp only [kept, all, filter_cons, map_cons, find?_cons, if_true] at hrest ⊢
      rw [hrest]
    | false =>
      have hr := h r mem_cons_self
      simp only [kept, all, filter_cons, map_cons, find?_cons, false_eq_true, if_false, hr] at hrest ⊢
      exact hrest

/-- What the two runs have in common: each pruned row is shadowed by rows that both have. -/
structure Shadows (full pruned : Ledger) (t : Tagged) : Prop where
  all : full.rows = t.all
  kept : pruned.rows = t.kept
  clock : pruned.clock = full.clock
  nextID : pruned.nextID = full.nextID
  broker : pruned.broker = full.broker
  inbox : pruned.inbox = full.inbox
  versions : pruned.versions = full.versions
  shadowed : ∀ r, (r, false) ∈ t → Ledger.shadowed t.kept r = true
  gone : ∀ r, (r, false) ∈ t → r.fact ∈ pruned.gone
  published : ∀ r, (r, false) ∈ t → r.publishState = .published

open Ledger

theorem newer_of_shadowed (h : shadowed rows r = true) :
    ∃ s ∈ rows, s.fact.aggregate = r.fact.aggregate ∧ r.fact.aggregateVersion < s.fact.aggregateVersion := by
  simp only [shadowed, Bool.and_eq_true, List.any_eq_true, decide_eq_true_eq] at h
  exact h.1

open OutboxRow

theorem source_of_shadowed (h : shadowed rows r = true) {kind id : String} (hsource : r.ofSource kind id = true) :
    ∃ s ∈ rows, s.ofSource kind id = true ∧
      ∀ version, r.fact.sourceVersion = some version → ∃ newer, s.fact.sourceVersion = some newer ∧ version ≤ newer := by
  simp only [ofSource, and_eq_true, beq_iff_eq] at hsource
  simp only [shadowed, hsource.1, hsource.2, Option.isNone_some, Bool.false_or, Bool.and_eq_true, List.any_eq_true,
    beq_iff_eq, Option.all_eq_true, Option.any_eq_true, decide_eq_true_eq] at h
  obtain ⟨-, s, hs, ⟨hkind, hid⟩, hversion⟩ := h
  exact ⟨s, hs, by simp [ofSource, hkind, hid], hversion⟩

variable {rows' : List OutboxRow}

theorem shadowed_mono (hrows : ∀ s ∈ rows, ∃ s' ∈ rows', s'.fact = s.fact) {r' : OutboxRow}
    (hr : r'.fact = r.fact) (h : shadowed rows r = true) : shadowed rows' r' = true := by
  simp only [shadowed, Bool.and_eq_true, Bool.or_eq_true, List.any_eq_true, hr] at h ⊢
  refine ⟨?_, h.2.imp_right ?_⟩
  · obtain ⟨s, hs, hnewer⟩ := h.1
    obtain ⟨s', hs', hfact⟩ := hrows s hs
    exact ⟨s', hs', hfact ▸ hnewer⟩
  · rintro ⟨s, hs, hsource⟩
    obtain ⟨s', hs', hfact⟩ := hrows s hs
    exact ⟨s', hs', hfact ▸ hsource⟩

/-- What shadows a shadow shadows what is behind it. -/
theorem shadowed_trans (h : shadowed rows r = true)
    (hrows : ∀ s ∈ rows, s ∈ rows' ∨ shadowed rows' s = true) : shadowed rows' r = true := by
  have hnewer : ∃ s ∈ rows', s.fact.aggregate = r.fact.aggregate ∧
      r.fact.aggregateVersion < s.fact.aggregateVersion := by
    obtain ⟨s, hs, hsame, hlt⟩ := newer_of_shadowed h
    rcases hrows s hs with hs | hshadowed
    · exact ⟨s, hs, hsame, hlt⟩
    · obtain ⟨s', hs', hsame', hlt'⟩ := newer_of_shadowed hshadowed
      exact ⟨s', hs', hsame'.trans hsame, lt_trans hlt hlt'⟩
  have hsource : ∀ kind id, r.ofSource kind id = true → ∃ s ∈ rows', s.ofSource kind id = true ∧
      ∀ version, r.fact.sourceVersion = some version →
        ∃ newer, s.fact.sourceVersion = some newer ∧ version ≤ newer := by
    intro kind id hof
    obtain ⟨s, hs, hsame, hle⟩ := source_of_shadowed h hof
    rcases hrows s hs with hs | hshadowed
    · exact ⟨s, hs, hsame, hle⟩
    · obtain ⟨s', hs', hsame', hle'⟩ := source_of_shadowed hshadowed hsame
      refine ⟨s', hs', hsame', fun version hversion => ?_⟩
      obtain ⟨newer, hnewer, hvn⟩ := hle version hversion
      obtain ⟨newest, hnewest, hnn⟩ := hle' newer hnewer
      exact ⟨newest, hnewest, Int.le_trans hvn hnn⟩
  simp only [shadowed, Bool.and_eq_true, List.any_eq_true, decide_eq_true_eq]
  refine ⟨hnewer, ?_⟩
  cases hkind : r.fact.sourceKind with
  | none => rfl
  | some kind =>
    cases hid : r.fact.sourceID with
    | none => rfl
    | some id =>
      obtain ⟨s, hs, hsame, hle⟩ := hsource kind id (by simp [ofSource, hkind, hid])
      simp only [ofSource, and_eq_true, beq_iff_eq] at hsame
      simp only [Option.isNone_some, Bool.false_or, List.any_eq_true, Bool.and_eq_true, beq_iff_eq, Option.all_eq_true,
        Option.any_eq_true, decide_eq_true_eq]
      exact ⟨s, hs, ⟨hsame.1, hsame.2⟩, hle⟩

open Tagged

namespace Shadows

variable {hash : NaturalKey → String} {full pruned : Ledger} {t : Tagged}

section

variable (h : Shadows full pruned t)
include h

theorem mem_full (hr : r ∈ pruned.rows) : r ∈ full.rows := by
  rw [h.all, mem_all]
  rw [h.kept, mem_kept] at hr
  exact ⟨true, hr⟩

/-- A row of the unpruned run is in the other, or is pruned. -/
theorem kept_or_gone (hr : r ∈ full.rows) : r ∈ pruned.rows ∨ (r, false) ∈ t := by
  rw [h.all, mem_all] at hr
  rw [h.kept, mem_kept]
  obtain ⟨b, hb⟩ := hr
  cases b with
  | true => exact .inl hb
  | false => exact .inr hb

theorem shadow (hr : (r, false) ∈ t) : Ledger.shadowed pruned.rows r = true := by
  rw [h.kept]
  exact h.shadowed r hr

theorem maxVersion_eq (a : Aggregate) : maxVersion pruned.rows a = maxVersion full.rows a := by
  apply le_antisymm
  · exact maxVersion_le fun r hr ha => le_maxVersion (h.mem_full hr) ha
  · refine maxVersion_le fun r hr ha => ?_
    rcases h.kept_or_gone hr with hr | hgone
    · exact le_maxVersion hr ha
    · obtain ⟨s, hs, hsame, hlt⟩ := newer_of_shadowed (h.shadow hgone)
      exact le_trans (le_of_lt hlt) (le_maxVersion hs (hsame.trans ha))

theorem lt_maxVersion (hr : (r, false) ∈ t) : r.fact.aggregateVersion < maxVersion pruned.rows r.fact.aggregate := by
  obtain ⟨s, hs, hsame, hlt⟩ := newer_of_shadowed (h.shadow hr)
  exact lt_of_lt_of_le hlt (le_maxVersion hs hsame)

/-- The head event of an aggregate is the same over both tables. -/
theorem headEvent_eq (a : Aggregate) : headEvent pruned.rows a = headEvent full.rows a := by
  obtain ⟨m, hm⟩ : ∃ m, m = maxVersion full.rows a := ⟨_, rfl⟩
  unfold headEvent
  rw [h.maxVersion_eq a, ← hm, h.kept, h.all]
  refine find?_kept fun r hr => ?_
  have hlt := h.lt_maxVersion hr
  rw [and_eq_false_iff, decide_eq_false_iff_not, beq_eq_false_iff_ne]
  by_cases ha : r.fact.aggregate = a
  · refine .inr ?_
    rw [hm, ← h.maxVersion_eq, ← ha]
    exact Nat.ne_of_lt hlt
  · exact .inl ha

theorem drafted_eq (event : Fact) : pruned.drafted hash event = full.drafted hash event := by
  simp only [drafted, h.maxVersion_eq]

/-- No pruned row answers the conflict check of an append. -/
theorem conflict_eq {event : Fact} (hspares : pruned.unpruned event = true) :
    pruned.rows.find? (fun r => (full.drafted hash event).sameIdentity r.fact) =
      full.rows.find? fun r => (full.drafted hash event).sameIdentity r.fact := by
  rw [h.kept, h.all]
  refine find?_kept fun r hr => ?_
  rw [eq_false_iff]
  intro hsame
  have hlt := h.lt_maxVersion hr
  cases hkind : event.identityKind with
  | businessObject =>
    simp only [Fact.sameIdentity, drafted, hkind, and_eq_true, beq_iff_eq] at hsame
    obtain ⟨-, hagg, hversion⟩ := hsame
    have haggregate : event.aggregate = r.fact.aggregate := hagg
    rw [h.maxVersion_eq, ← haggregate] at hlt
    omega
  | evmLog =>
    simp only [unpruned, hkind, bne_self_eq_false, Bool.false_or, List.all_eq_true] at hspares
    have hother := hspares r.fact (h.gone r hr)
    rw [not_eq_true', eq_false_iff] at hother
    apply hother
    simp only [Fact.sameIdentity, drafted, hkind] at hsame ⊢
    exact hsame

/-- An append answers the same over both tables. -/
theorem append (hash : NaturalKey → String) (event : Fact) (hspares : pruned.unpruned event = true) :
    (pruned.append hash event).1 = (full.append hash event).1 ∧
      ∃ t', Shadows (full.append hash event).2 (pruned.append hash event).2 t' := by
  simp only [Ledger.append, h.drafted_eq, h.conflict_eq hspares, h.nextID, h.clock]
  split
  · exact ⟨rfl, t, { h with clock := rfl, nextID := rfl }⟩
  · refine ⟨rfl, t ++ [(inserted full.nextID (full.drafted hash event) full.clock, true)], ?_⟩
    have hold : ∀ r, (r, false) ∈ t ++ [(inserted full.nextID (full.drafted hash event) full.clock, true)] →
        (r, false) ∈ t := by
      intro r hr
      rcases mem_append.mp hr with hr | hr
      · exact hr
      · cases (Prod.mk.inj (mem_singleton.mp hr)).2
    exact
      { h with
        all := by simp [Tagged.all, h.all]
        kept := by simp [Tagged.kept, h.kept]
        clock := rfl
        nextID := rfl
        shadowed := fun r hr => by
          refine shadowed_mono (fun s hs => ⟨s, ?_, rfl⟩) rfl (h.shadowed r (hold r hr))
          rw [mem_kept] at hs ⊢
          exact mem_append_left _ hs
        gone := fun r hr => h.gone r (hold r hr)
        published := fun r hr => h.published r (hold r hr) }

/-- So does a revision, with the event of its transition. -/
theorem revise (hash : NaturalKey → String) {transition event : Fact} (evidence : Bool)
    (render : Fact → String × String) (hmoves : pruned.unpruned transition = true)
    (hspares : pruned.unpruned event = true) :
    (pruned.revise hash transition event evidence render).1 = (full.revise hash transition event evidence render).1 ∧
      ∃ t', Shadows (full.revise hash transition event evidence render).2
        (pruned.revise hash transition event evidence render).2 t' := by
  obtain ⟨hmoved, t₁, h₁⟩ := h.append hash transition hmoves
  simp only [Ledger.revise, h.headEvent_eq, hmoved]
  split
  · exact ⟨rfl, t₁, h₁⟩
  next result head _ _ =>
    have hgone : (pruned.append hash transition).2.gone = pruned.gone := by
      simp only [Ledger.append]
      split <;> rfl
    obtain ⟨hrevised, t₂, h₂⟩ := h₁.append hash (superseding event head.fact render)
      (by rw [unpruned, hgone]; exact hspares)
    simp only [hrevised]
    split
    · exact ⟨rfl, t, { h with nextID := h₂.nextID }⟩
    · exact ⟨rfl, t₂, h₂⟩
  · exact ⟨rfl, t₁, h₁⟩

theorem publish (eventID : String) : ∃ t', Shadows (full.publish eventID) (pruned.publish eventID) t' := by
  have hfind : (pruned.rows.find? fun r => r.fact.eventID == eventID && r.publishState == .pending) =
      full.rows.find? fun r => r.fact.eventID == eventID && r.publishState == .pending := by
    rw [h.kept, h.all]
    refine find?_kept fun r hr => ?_
    rw [h.published r hr]
    simp
  simp only [Ledger.publish, hfind]
  split
  · exact ⟨t, h⟩
  · have hfact : ∀ r : OutboxRow, (if r.fact.eventID == eventID && r.publishState == .pending then
        r.settle full.clock .ack else r).fact = r.fact := fun r => by split <;> rfl
    have hold : ∀ r, (r, false) ∈ t.map (fun x => (if x.1.fact.eventID == eventID && x.1.publishState == .pending then
        x.1.settle full.clock .ack else x.1, x.2)) → (r, false) ∈ t := by
      intro r hr
      obtain ⟨x, hx, heq⟩ := mem_map.mp hr
      obtain ⟨hrow, htag⟩ := Prod.mk.inj heq
      have hx' : (x.1, false) ∈ t := by rwa [← htag]
      rw [h.published x.1 hx'] at hrow
      simp only [show (PublishState.published == PublishState.pending) = false from rfl, Bool.and_false,
        false_eq_true, if_false] at hrow
      rwa [← hrow]
    refine ⟨t.map fun x => (if x.1.fact.eventID == eventID && x.1.publishState == .pending then
      x.1.settle full.clock .ack else x.1, x.2), ?_⟩
    exact
      { h with
        all := by simp [Tagged.all, h.all, comp_def]
        kept := by simp [Tagged.kept, h.kept, h.clock, List.filter_map, Function.comp_def]
        broker := by simp only [h.broker]
        shadowed := fun r hr => by
          refine shadowed_mono (fun s hs => ?_) rfl (h.shadowed r (hold r hr))
          refine ⟨if s.fact.eventID == eventID && s.publishState == .pending then s.settle full.clock .ack else s, ?_,
            hfact s⟩
          rw [mem_kept] at hs ⊢
          exact mem_map.mpr ⟨(s, true), hs, rfl⟩
        gone := fun r hr => h.gone r (hold r hr)
        published := fun r hr => h.published r (hold r hr) }

theorem deliver (position : Nat) : (pruned.deliver position).1 = (full.deliver position).1 ∧
      Shadows (full.deliver position).2 (pruned.deliver position).2 t := by
  simp only [Ledger.deliver, h.broker, h.inbox, h.versions]
  split
  · exact ⟨rfl, h⟩
  · split
    · exact ⟨rfl, h⟩
    · split
      · exact ⟨rfl, { h with broker := rfl, inbox := rfl, versions := rfl }⟩
      · exact ⟨rfl, h⟩

omit h in
theorem max?_eq_of_dominated {few many : List Int} (hsub : ∀ v ∈ few, v ∈ many) (hdom : ∀ v ∈ many, ∃ v' ∈ few, v ≤ v') :
    few.max? = many.max? := by
  cases hfew : few.max? with
  | none =>
    rw [max?_eq_none_iff] at hfew
    subst hfew
    have hmany : many = [] := eq_nil_iff_forall_not_mem.mpr fun v hv => by
      obtain ⟨v', hv', -⟩ := hdom v hv
      cases hv'
    rw [hmany]
    rfl
  | some m =>
    rw [max?_eq_some_iff] at hfew
    symm
    rw [max?_eq_some_iff]
    refine ⟨hsub m hfew.1, fun v hv => ?_⟩
    obtain ⟨v', hv', hle⟩ := hdom v hv
    exact Int.le_trans hle (hfew.2 v' hv')

/-- The watermark of a source is that of the rows both runs have. -/
theorem audit_eq (kind : String) (mark : SourceWatermark) : pruned.audit kind mark = full.audit kind mark := by
  have hdominated : ∀ r ∈ full.rows, r.ofSource kind mark.sourceID = true → ∃ s ∈ pruned.rows,
      s.ofSource kind mark.sourceID = true ∧ ∀ version, r.fact.sourceVersion = some version →
        ∃ newer, s.fact.sourceVersion = some newer ∧ version ≤ newer := by
    intro r hr hsource
    rcases h.kept_or_gone hr with hr | hgone
    · exact ⟨r, hr, hsource, fun version hversion => ⟨version, hversion, Int.le_refl _⟩⟩
    · exact source_of_shadowed (h.shadow hgone) hsource
  have hemitted : pruned.rows.countP (·.ofSource kind mark.sourceID) = 0 ↔
      full.rows.countP (·.ofSource kind mark.sourceID) = 0 := by
    simp only [countP_eq_zero]
    constructor
    · intro hnone r hr hsource
      obtain ⟨s, hs, hsame, -⟩ := hdominated r hr hsource
      exact hnone s hs hsame
    · exact fun hnone r hr => hnone r (h.mem_full hr)
  have hmax : ((pruned.rows.filter (·.ofSource kind mark.sourceID)).filterMap (·.fact.sourceVersion)).max? =
      ((full.rows.filter (·.ofSource kind mark.sourceID)).filterMap (·.fact.sourceVersion)).max? := by
    refine max?_eq_of_dominated (fun v hv => ?_) fun v hv => ?_ <;>
      obtain ⟨r, hr, hversion⟩ := mem_filterMap.mp hv <;> obtain ⟨hr, hsource⟩ := mem_filter.mp hr
    · exact mem_filterMap.mpr ⟨r, mem_filter.mpr ⟨h.mem_full hr, hsource⟩, hversion⟩
    · obtain ⟨s, hs, hsame, hle⟩ := hdominated r hr hsource
      obtain ⟨newer, hnewer, hvn⟩ := hle v hversion
      exact ⟨newer, mem_filterMap.mpr ⟨s, mem_filter.mpr ⟨hs, hsame⟩, hnewer⟩, hvn⟩
  unfold audit auditWatermark
  rw [hmax]
  unfold classifyWatermark
  by_cases hzero : full.rows.countP (·.ofSource kind mark.sourceID) = 0
  · exact (if_pos (hemitted.mpr hzero)).trans (if_pos hzero).symm
  · exact (if_neg (mt hemitted.mp hzero)).trans (if_neg hzero).symm

/-- A prune that spares the newer rows keeps the shadow. -/
theorem prune {retention : Int} (hspares : pruned.spares (.prune retention) = true) :
    ∃ t', Shadows full (pruned.prune retention) t' := by
  unfold Ledger.prune
  split
  · refine ⟨t.map fun x => (x.1, x.2 && !x.1.prunable pruned.clock retention), ?_⟩
    have hkept : Tagged.kept (t.map fun x => (x.1, x.2 && !x.1.prunable pruned.clock retention)) =
        pruned.rows.filter fun r => !r.prunable pruned.clock retention := by
      rw [h.kept]
      simp [Tagged.kept, List.filter_map, Function.comp_def, List.filter_filter, Bool.and_comm]
    simp only [spares, List.all_eq_true, List.mem_filter] at hspares
    have hgone : ∀ r, (r, false) ∈ t.map (fun x => (x.1, x.2 && !x.1.prunable pruned.clock retention)) →
        (r, false) ∈ t ∨ r ∈ pruned.rows ∧ r.prunable pruned.clock retention = true := by
      intro r hr
      obtain ⟨⟨r', b⟩, hx, heq⟩ := mem_map.mp hr
      obtain ⟨rfl, htag⟩ := Prod.mk.inj heq
      cases b with
      | false => exact .inl hx
      | true =>
        refine .inr ⟨by rwa [h.kept, mem_kept], ?_⟩
        simpa using htag
    exact
      { h with
        all := by simp [Tagged.all, h.all, comp_def]
        kept := hkept.symm
        shadowed := fun r hr => by
          rw [hkept]
          rcases hgone r hr with hold | hnew
          · refine shadowed_trans (h.shadow hold) fun s hs => ?_
            cases hprunable : s.prunable pruned.clock retention with
            | true => exact .inr (hspares s ⟨hs, hprunable⟩)
            | false => exact .inl (mem_filter.mpr ⟨hs, by simp [hprunable]⟩)
          · exact hspares r hnew
        gone := fun r hr => by
          rcases hgone r hr with hold | ⟨hr, hprunable⟩
          · exact mem_append_right _ (h.gone r hold)
          · exact mem_append_left _ (mem_map.mpr ⟨r, mem_filter.mpr ⟨hr, hprunable⟩, rfl⟩)
        published := fun r hr => by
          rcases hgone r hr with hold | hnew
          · exact h.published r hold
          · exact published_of_prunable hnew.2 }
  · exact ⟨t, h⟩

/-- Every other operation answers the same in both runs. -/
theorem step (hash : NaturalKey → String) {op : HistoryOp} (hop : op.prunes = false)
    (hspares : pruned.spares op = true) :
    pruned.output hash op = full.output hash op ∧ ∃ t', Shadows (full.next hash op) (pruned.next hash op) t' := by
  cases op with
  | tick elapsed => exact ⟨rfl, t, { h with clock := by simp [Ledger.next, h.clock] }⟩
  | append event =>
    have happend := h.append hash event hspares
    exact ⟨by simp only [output, happend.1], happend.2⟩
  | revise transition event evidence render =>
    obtain ⟨hmoves, hevent⟩ := and_eq_true_iff.mp hspares
    have hrevise := h.revise hash evidence render hmoves hevent
    exact ⟨by simp only [output, hrevise.1], hrevise.2⟩
  | publish eventID => exact ⟨rfl, h.publish eventID⟩
  | deliver position =>
    have hdeliver := h.deliver position
    exact ⟨by simp only [output, hdeliver.1], t, hdeliver.2⟩
  | audit kind mark => exact ⟨by simp only [output, h.audit_eq], t, h⟩
  | prune retention => cases hop

/-- By induction on the history: the outputs are those without the prunes. -/
theorem emitted {ops : List HistoryOp} (hspares : Along (next hash) (fun l op => spares l op = true) pruned ops) :
    emitted (next hash) (output hash) pruned ops =
      emitted (next hash) (output hash) full (ops.filter fun op => !op.prunes) := by
  induction ops generalizing full pruned t with
  | nil => rfl
  | cons op rest ih =>
    cases hop : op.prunes with
    | true =>
      cases op with
      | prune retention =>
        obtain ⟨t', h'⟩ := h.prune hspares.1
        exact ih h' hspares.2
      | _ => cases hop
    | false =>
      obtain ⟨houtput, t', h'⟩ := h.step hash hop hspares.1
      rw [filter_cons, hop]
      simp only [Bool.not_false, if_true, emitted, houtput, ih h' hspares.2]

end

end Shadows

/-- While prunes spare the newest row of every aggregate and of every source, and no pruned log is appended again, the
history answers as if nothing had been pruned. -/
theorem prune_transparent (hash : NaturalKey → String) (clock : Int) (ops : List HistoryOp)
    (hspares : Along (Ledger.next hash) (fun l op => Ledger.spares l op = true) (Ledger.initial clock) ops) :
    emitted (Ledger.next hash) (Ledger.output hash) (Ledger.initial clock) ops =
      emitted (Ledger.next hash) (Ledger.output hash) (Ledger.initial clock) (ops.filter fun op => !op.prunes) := by
  have hinitial : Shadows (initial clock) (initial clock) [] :=
    { all := rfl, kept := rfl, clock := rfl, nextID := rfl, broker := rfl, inbox := rfl, versions := rfl
      shadowed := fun _ => nofun
      gone := fun _ => nofun
      published := fun _ => nofun }
  exact hinitial.emitted hspares

namespace Sample

def hash : NaturalKey → String
  | .businessObject a version => a.aggregateID ++ "/" ++ toString version
  | .evmLog _ _ txHash _ => txHash.getD ""

def intent : Fact where
  eventID := ""
  identityKind := .businessObject
  eventType := "withdrawal.execution"
  schemaVersion := 1
  aggregateType := "withdrawal_intent"
  aggregateID := "i-1"
  aggregateVersion := 0
  payload := "p"
  payloadHash := "h"
  occurredAt := 0
  chainID := none
  blockNumber := none
  blockHash := none
  txHash := none
  logIndex := none
  recoveryVersion := none
  revisesEventID := none
  sourceKind := some "payment_intent"
  sourceID := some "i-1"
  sourceVersion := some 1

/-- The only event of an intent is published, applied and pruned; then the source is audited, a revision is consumed and
a further transition is appended and delivered. -/
def pruned : List HistoryOp :=
  [.append intent, .publish "i-1/1", .deliver 0, .tick 100, .prune 10, .audit "payment_intent" ⟨"i-1", 1⟩,
    .revise intent intent true fun _ => ("p'", "h'"), .append intent, .publish "i-1/1", .publish "i-1/2", .deliver 1]

/-- Two events are published before the older one is pruned. -/
def spared : List HistoryOp :=
  [.append intent, .publish "i-1/1", .tick 100, .append { intent with sourceVersion := some 2 }, .publish "i-1/2",
    .prune 10, .audit "payment_intent" ⟨"i-1", 2⟩, .append intent]

end Sample

open Sample

/-- With the prune the audit reports a gap, the event of the revision's transition has the version and the id of the one
that was pruned, so the consumer takes it for a duplicate, and the revision event is not emitted. -/
theorem pruned_history_diverges : emitted (Ledger.next hash) (Ledger.output hash) (Ledger.initial 0) pruned =
        [.appended (some ⟨"i-1/1", 1, 1, false⟩), .applied true, .audited .missing,
          .revised (some (⟨"i-1/1", 2, 1, false⟩, none)), .appended (some ⟨"i-1/2", 3, 2, false⟩), .applied false] ∧
      emitted (Ledger.next hash) (Ledger.output hash) (Ledger.initial 0) (pruned.filter fun op => !op.prunes) =
        [.appended (some ⟨"i-1/1", 1, 1, false⟩), .applied true, .audited .covered,
          .revised (some (⟨"i-1/2", 2, 2, false⟩, some ⟨"i-1/3", 3, 3, false⟩)),
          .appended (some ⟨"i-1/4", 4, 4, false⟩), .applied true] := by
  decide +kernel

theorem prune_transparent_spared : (run (Ledger.next hash) (.initial 0) spared).gone.length = 1 ∧
      emitted (Ledger.next hash) (Ledger.output hash) (Ledger.initial 0) spared =
        emitted (Ledger.next hash) (Ledger.output hash) (Ledger.initial 0) (spared.filter fun op => !op.prunes) :=
  ⟨by decide +kernel, prune_transparent hash 0 spared (by decide +kernel)⟩

end TxHarbor.Events
