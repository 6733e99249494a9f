import TxHarbor.Reconciliation.Tickets

open Transition List Option Bool Function

namespace TxHarbor.Reconciliation

open Nat TicketStore Phase TicketWorld

/-! The order of verdicts. Every committed change of a ticket row advances its generation, so a token
that still matches was captured after all of them. -/

variable {b b' : TicketStore} {i : ReverifyItem} {c : Call} {n : Nat} {t : Ticket}

/-- The ticket of `i` exists, and if its generation is still the one `i` was loaded with, nothing has
been committed to it since. -/
structure ReverifyItem.Follows (i : ReverifyItem) (b : TicketStore) : Prop where
  loaded : i.loaded ≤ b.step
  row : ∃ t, b.tickets i.discrepancyID = some t ∧ i.generation ≤ t.generation ∧
    (i.generation = t.generation → ∀ ch ∈ b.changes, ch.discrepancyID = i.discrepancyID → ch.step < i.loaded)

/-- No verdict of the ticket is dated after `began`, unless its generation has moved on. -/
def ReverifyItem.Leads (i : ReverifyItem) (b : TicketStore) (began : Int) : Prop :=
  ∀ t, b.tickets i.discrepancyID = some t → i.generation = t.generation →
    ∀ r ∈ b.verdicts, r.discrepancyID = i.discrepancyID → r.createdAt ≤ began

/-- Every item a call holds follows the tables. -/
structure Call.Follows (c : Call) (b : TicketStore) : Prop where
  items : ∀ i ∈ c.items, i.Follows b
  read : ∀ {i s}, c.phase = .read i s → i.Follows b ∧ i.loaded ≤ s
  persist : ∀ {i f s began}, c.phase = .persist i f s began →
    i.Follows b ∧ i.loaded ≤ s ∧ began ≤ b.clock ∧ i.Leads b began

/-- The rows written before step `n`. -/
structure TicketStore.Ordered (b : TicketStore) (n : Nat) : Prop where
  changes : ∀ ch ∈ b.changes, ch.step < n
  verdicts : b.verdicts.Pairwise fun r q => q.reverifyID < r.reverifyID ∧ q.accepted < r.accepted ∧
    (q.discrepancyID = r.discrepancyID → q.createdAt ≤ r.createdAt ∧ q.accepted < r.readFrom)
  bounds : ∀ r ∈ b.verdicts, r.reverifyID < b.nextReverifyID ∧ r.accepted < n ∧ r.createdAt ≤ b.clock
  logged : ∀ r ∈ b.verdicts, ∃ ch ∈ b.changes, ch.discrepancyID = r.discrepancyID ∧ ch.step = r.accepted
  read : ∀ r ∈ b.verdicts, ∀ ch ∈ b.changes, ch.discrepancyID = r.discrepancyID →
    ch.step < r.accepted → ch.step < r.readFrom

/-- What later tables keep of earlier ones: a ticket stays, and either nothing was committed to it or
its generation has grown. -/
structure TicketStore.Extends (b b' : TicketStore) : Prop where
  step : b.step ≤ b'.step
  clock : b.clock ≤ b'.clock
  rows : ∀ id t, b.tickets id = some t → ∃ t', b'.tickets id = some t' ∧
    (t.generation < t'.generation ∨ t.generation = t'.generation ∧
      (∀ ch ∈ b'.changes, ch.discrepancyID = id → ch ∈ b.changes) ∧
      ∀ r ∈ b'.verdicts, r.discrepancyID = id → r ∈ b.verdicts)

variable {began : Int}

namespace TicketStore

theorem change_fields (b : TicketStore) (k : Nat) (write : Ticket → Ticket) (u v : Ticket → Bool) :
    (b.change k write u v).clock = b.clock ∧ (b.change k write u v).verdicts = b.verdicts ∧
      (b.change k write u v).nextReverifyID = b.nextReverifyID := by
  unfold change
  split <;> exact ⟨rfl, rfl, rfl⟩

theorem change_changes (ht : b.tickets n = some t) (write : Ticket → Ticket) (u v : Ticket → Bool) :
    (b.change n write u v).changes = ⟨n, b.step, u t, v t⟩ :: b.changes := by
  simp only [change, ht]

theorem mem_change_changes {k : Nat} {write : Ticket → Ticket} {u v : Ticket → Bool} {ch : Change}
    (h : ch ∈ (b.change k write u v).changes) : ch.step = b.step ∨ ch ∈ b.changes := by
  unfold change at h
  split at h
  · exact .inr h
  · obtain rfl | h := mem_cons.mp h
    · exact .inl rfl
    · exact .inr h

theorem Extends.quiet (hstep : b.step ≤ b'.step) (hclock : b.clock ≤ b'.clock) (htickets : b'.tickets = b.tickets)
    (hchanges : b'.changes = b.changes) (hverdicts : b'.verdicts = b.verdicts) : b.Extends b' where
  step := hstep
  clock := hclock
  rows _ t ht := ⟨t, htickets ▸ ht, .inr ⟨rfl, fun _ h _ => hchanges ▸ h, fun _ h _ => hverdicts ▸ h⟩⟩

theorem Extends.refl (b : TicketStore) : b.Extends b := .quiet le_rfl le_rfl rfl rfl rfl

theorem change_extends (b : TicketStore) (id : Nat) (write : Ticket → Ticket) (u v : Ticket → Bool) :
    b.Extends (b.change id write u v) := by
  unfold change
  cases ht : b.tickets id with
  | none => exact .refl b
  | some t =>
    refine ⟨le_rfl, le_rfl, fun k s hs => ?_⟩
    by_cases hk : k = id
    · subst hk
      obtain rfl : t = s := some.inj (ht.symm.trans hs)
      exact ⟨_, update_self .., .inl (lt_succ_self _)⟩
    · refine ⟨s, (update_of_ne hk ..).trans hs, .inr ⟨rfl, fun ch hch hid => ?_, fun _ h _ => h⟩⟩
      obtain rfl | hch := mem_cons.mp hch
      · exact absurd hid.symm hk
      · exact hch

theorem insertDiscrepancy_extends (b : TicketStore) (id : Nat) (d : EvidenceDomain) :
    b.Extends (b.insertDiscrepancy id d) := by
  unfold insertDiscrepancy
  cases ht : b.tickets id with
  | some t => exact .refl b
  | none =>
    refine ⟨le_rfl, le_rfl, fun k s hs => ⟨s, ?_, .inr ⟨rfl, fun _ h _ => h, fun _ h _ => h⟩⟩⟩
    have hk : k ≠ id := fun hk => by rw [hk, ht] at hs; cases hs
    exact (update_of_ne hk ..).trans hs

theorem accept_extends (taskID : Nat) (f : ReverifyFinding) (s : Nat) (began : Int)
    (ht : b.tickets i.discrepancyID = some t) : b.Extends (b.accept taskID i f s began) := by
  have h := b.change_extends i.discrepancyID id (fun _ => false) (fun _ => false)
  refine ⟨h.step, h.clock, fun k q hq => ?_⟩
  obtain ⟨q', hq', hgrown | ⟨hgen, hch, hr⟩⟩ := h.rows k q hq
  · exact ⟨q', hq', .inl hgrown⟩
  · refine ⟨q', hq', .inr ⟨hgen, hch, fun r hmem hid => ?_⟩⟩
    obtain rfl | hmem := mem_cons.mp hmem
    · -- The generation of the accepted ticket itself has grown.
      obtain rfl : i.discrepancyID = k := hid
      have := hch ⟨i.discrepancyID, b.step, false, false⟩ (by rw [change_changes ht]; exact .head _) rfl
      simp only [change, ht, update_self, some.injEq] at hq'
      obtain rfl : t = q := some.inj (ht.symm.trans hq)
      subst hq'
      exact absurd hgen (by simp)
    · exact hmem

theorem tokenMatches_iff {sum256 : EvidenceDomain → Nat} (h : b.tokenMatches sum256 i = true) :
    ∃ t, b.tickets i.discrepancyID = some t ∧ i.generation = t.generation ∧ i.state = t.state := by
  obtain ⟨t, ht, h⟩ := any_eq_true _ _ |>.mp h
  simp only [and_eq_true, decide_eq_true_eq] at h
  exact ⟨t, ht, h.1.1, h.1.2⟩

theorem updateDiscrepancy_eq (b : TicketStore) (k : Nat) (to' : DiscrepancyState) :
    b.updateDiscrepancy k to' = b ∨ b.updateDiscrepancy k to' =
      b.change k ({ · with state := to' }) (fun _ => to' = .pendingVerify) (fun _ => false) := by
  unfold updateDiscrepancy
  split
  · exact .inl rfl
  · split
    · exact .inr rfl
    · exact .inl rfl

/-- What one step does to the tables: nothing to tickets and verdicts, a change of one row, a new
ticket, or a verdict whose token matched. -/
inductive Step (sum256 : EvidenceDomain → Nat) (b : TicketStore) (c : Call) : TicketStore → Prop
  | quiet {b' : TicketStore} (step : b'.step = b.step) (clock : b.clock ≤ b'.clock) (tickets : b'.tickets = b.tickets)
      (changes : b'.changes = b.changes) (verdicts : b'.verdicts = b.verdicts)
      (ids : b'.nextReverifyID = b.nextReverifyID) : Step sum256 b c b'
  | changed (k write u v) : Step sum256 b c (b.change k write u v)
  | inserted (k d) : Step sum256 b c (b.insertDiscrepancy k d)
  | accepted (i f s began) (phase : c.phase = .persist i f s began)
      (token : b.tokenMatches sum256 i = true) : Step sum256 b c (b.accept c.taskID i f s began)

variable {sum256 : EvidenceDomain → Nat}

theorem Step.same : Step sum256 b c b := .quiet rfl le_rfl rfl rfl rfl rfl

theorem Step.update (k : Nat) (to' : DiscrepancyState) : Step sum256 b c (b.updateDiscrepancy k to') := by
  rcases b.updateDiscrepancy_eq k to' with h | h <;> rw [h]
  · exact .same
  · exact .changed ..

theorem Step.invalidate (k : Nat) : Step sum256 b c (b.invalidateClosed k) := by
  unfold invalidateClosed
  split
  · exact .same
  · exact .update ..

theorem Step.cursor (cursor : Option HistorySweepCursor) :
    Step sum256 b c (cursor.elim b (b.writeHistorySweepThrough c.taskID)) := by
  cases cursor with
  | none => exact .same
  | some k =>
    simp only [elim_some, writeHistorySweepThrough]
    split
    · exact .quiet rfl le_rfl rfl rfl rfl rfl
    · exact .same

theorem Step.persist {f : ReverifyFinding} {s : Nat} (hp : c.phase = .persist i f s began) :
    Step sum256 b c (b.persistReverifyOutcome sum256 c.taskID i f s began) := by
  unfold persistReverifyOutcome
  split
  case isTrue h => exact .accepted i f s began hp h
  case isFalse => exact .quiet rfl le_rfl rfl rfl rfl rfl

theorem Step.extends (h : Step sum256 b c b') : b.Extends b' := by
  cases h with
  | quiet hstep hclock htickets hchanges hverdicts _ => exact .quiet hstep.ge hclock htickets hchanges hverdicts
  | changed k write u v => exact b.change_extends k write u v
  | inserted k d => exact b.insertDiscrepancy_extends k d
  | accepted i f s began _ htoken =>
    obtain ⟨t, ht, -⟩ := tokenMatches_iff htoken
    exact accept_extends c.taskID f s began ht

/-- A step that writes no verdict. -/
theorem Ordered.grow (ho : b.Ordered b.step) (hclock : b.clock ≤ b'.clock)
    (hverdicts : b'.verdicts = b.verdicts) (hids : b'.nextReverifyID = b.nextReverifyID)
    (hnew : ∀ ch ∈ b'.changes, ch.step = b.step ∨ ch ∈ b.changes)
    (hold : ∀ ch ∈ b.changes, ch ∈ b'.changes) : b'.Ordered (b.step + 1) where
  changes ch h := by
    obtain h | h := hnew ch h
    · omega
    · exact (ho.changes ch h).trans (lt_succ_self _)
  verdicts := hverdicts ▸ ho.verdicts
  bounds r h := by
    obtain ⟨h₁, h₂, h₃⟩ := ho.bounds r (hverdicts ▸ h)
    exact ⟨hids ▸ h₁, h₂.trans (lt_succ_self _), h₃.trans hclock⟩
  logged r h := by
    obtain ⟨ch, hch, hid⟩ := ho.logged r (hverdicts ▸ h)
    exact ⟨ch, hold ch hch, hid⟩
  read r h ch hch hid hlt := by
    have hr := hverdicts ▸ h
    obtain h | h := hnew ch hch
    · have := (ho.bounds r hr).2.1
      omega
    · exact ho.read r hr ch h hid hlt

/-- A new verdict was read after everything committed to its ticket before it, and it is dated last. -/
theorem Step.ordered (h : Step sum256 b c b') (ho : b.Ordered b.step) (hc : c.Follows b) : b'.Ordered (b.step + 1) := by
  cases h with
  | quiet _ hclock _ hchanges hverdicts hids =>
    exact ho.grow hclock hverdicts hids (fun _ h => .inr (hchanges ▸ h)) fun _ h => hchanges ▸ h
  | changed k write u v =>
    obtain ⟨hclock, hverdicts, hids⟩ := b.change_fields k write u v
    refine ho.grow hclock.ge hverdicts hids (fun _ h => mem_change_changes h) fun ch h => ?_
    unfold change
    split
    · exact h
    · exact .tail _ h
  | inserted k d =>
    unfold insertDiscrepancy
    split <;> exact ho.grow le_rfl rfl rfl (fun _ h => .inr h) fun _ h => h
  | accepted i f s began hphase htoken =>
    obtain ⟨t, ht, hgen, -⟩ := tokenMatches_iff htoken
    obtain ⟨hi, hread, hbegan, hleads⟩ := hc.persist hphase
    obtain ⟨t', ht', -, hfresh⟩ := hi.row
    obtain rfl : t = t' := some.inj (ht.symm.trans ht')
    have hchanges : (b.accept c.taskID i f s began).changes = _ :: b.changes := change_changes ht ..
    have hearlier : ∀ r ∈ b.verdicts, r.discrepancyID = i.discrepancyID → r.accepted < s := by
      intro r hr hid
      obtain ⟨ch, hch, hch₁, hch₂⟩ := ho.logged r hr
      have := hfresh hgen ch hch (hch₁.trans hid)
      omega
    refine ⟨fun ch h => ?_, ?_, fun r h => ?_, fun r h => ?_, fun r h ch hch hid hlt => ?_⟩
    · rw [hchanges] at h
      obtain rfl | h := mem_cons.mp h
      · exact lt_succ_self _
      · exact (ho.changes ch h).trans (lt_succ_self _)
    · refine pairwise_cons.mpr ⟨fun q hq => ⟨(ho.bounds q hq).1, (ho.bounds q hq).2.1, fun hid => ?_⟩, ho.verdicts⟩
      exact ⟨hleads t ht hgen q hq hid, hearlier q hq hid⟩
    · have hclock : (b.accept c.taskID i f s began).clock = b.clock := (b.change_fields ..).1
      rw [hclock]
      obtain rfl | h := mem_cons.mp h
      · exact ⟨lt_succ_self _, lt_succ_self _, hbegan⟩
      · obtain ⟨h₁, h₂, h₃⟩ := ho.bounds r h
        exact ⟨h₁.trans (lt_succ_self _), h₂.trans (lt_succ_self _), h₃⟩
    · rw [hchanges]
      obtain rfl | h := mem_cons.mp h
      · exact ⟨_, .head _, rfl, rfl⟩
      · obtain ⟨ch, hch, hid⟩ := ho.logged r h
        exact ⟨ch, .tail _ hch, hid⟩
    · rw [hchanges] at hch
      obtain rfl | h := mem_cons.mp h
      · obtain rfl | hch := mem_cons.mp hch
        · exact absurd hlt (lt_irrefl _)
        · exact (hfresh hgen ch hch hid).trans_le hread
      · obtain rfl | hch := mem_cons.mp hch
        · exact absurd ((ho.bounds r h).2.1.trans hlt) (lt_irrefl _)
        · exact ho.read r h ch hch hid hlt

end TicketStore

theorem ReverifyItem.Follows.extends (h : i.Follows b) (he : b.Extends b') : i.Follows b' where
  loaded := h.loaded.trans he.step
  row := by
    obtain ⟨t, ht, hle, hfresh⟩ := h.row
    obtain ⟨t', ht', hgrown | ⟨hgen, hch, -⟩⟩ := he.rows _ t ht
    · exact ⟨t', ht', by omega, fun heq => by omega⟩
    · exact ⟨t', ht', hgen ▸ hle, fun heq ch hmem hid => hfresh (heq.trans hgen.symm) ch (hch ch hmem hid) hid⟩

theorem ReverifyItem.Leads.extends (h : i.Leads b began) (hi : i.Follows b) (he : b.Extends b') : i.Leads b' began := by
  intro t' ht' hgen r hr hid
  obtain ⟨t, ht, hle, -⟩ := hi.row
  obtain ⟨t'', ht'', hgrown | ⟨heq, -, hrows⟩⟩ := he.rows _ t ht
  all_goals obtain rfl : t' = t'' := some.inj (ht'.symm.trans ht'')
  · omega
  · exact h t ht (hgen.trans heq.symm) r (hrows r hr hid) hid

theorem Call.Follows.extends (h : c.Follows b) (he : b.Extends b') : c.Follows b' where
  items i hi := (h.items i hi).extends he
  read hp := ⟨(h.read hp).1.extends he, (h.read hp).2⟩
  persist hp :=
    have ⟨hi, hs, hbegan, hleads⟩ := h.persist hp
    ⟨hi.extends he, hs, hbegan.trans he.clock, hleads.extends hi he⟩

/-- The call has no item in hand. -/
def Phase.plain : Phase → Bool
  | .read .. | .persist .. => false
  | _ => true

namespace Call

theorem Follows.plain {c' : Call} (h : ∀ i ∈ c'.items, i.Follows b) (hp : c'.phase.plain = true) : c'.Follows b where
  items := h
  read h := by simp [h, Phase.plain] at hp
  persist h := by simp [h, Phase.plain] at hp

theorem Follows.start {taskID : Nat} {cursor : Option HistorySweepCursor} {phase : Phase}
    (h : phase.plain = true) : (Call.start taskID cursor phase).Follows b :=
  .plain (fun _ => nofun) h

@[simp] theorem settle_items (c : Call) (i : ReverifyItem) : (c.settle i).items = c.items := by
  unfold settle
  dsimp only
  split <;> rfl

@[simp] theorem settle_phase (c : Call) (i : ReverifyItem) : (c.settle i).phase = .next := by
  unfold settle
  dsimp only
  split <;> rfl

theorem accepted_items (c : Call) (i : ReverifyItem) (f : ReverifyFinding) :
    (c.accepted i f).items = c.items ∧ (c.accepted i f).phase.plain = true := by
  unfold accepted
  repeat' split
  all_goals simp [plain]

theorem rejected_items (c : Call) (i : ReverifyItem) :
    (c.rejected i).items = c.items ∧ (c.rejected i).phase.plain = true := by
  unfold rejected
  split <;> exact ⟨rfl, rfl⟩

variable {sum256 : EvidenceDomain → Nat} {source : ReverifySource}

theorem load_follows {evidenceAt : Option Int} (ho : b.Ordered b.step) (ht : b.tickets n = some t) :
    (b.load sum256 n source t evidenceAt).Follows b :=
  ⟨le_rfl, t, ht, le_rfl, fun _ ch hch _ => ho.changes ch hch⟩

/-- A loaded item starts to follow the tables. -/
theorem Follows.select (h : c.Follows b) (ho : b.Ordered b.step) (k : Nat) :
    (c.select sum256 b source k).Follows b := by
  unfold Call.select
  split
  next i hp hi =>
    obtain ⟨t, ht, hi⟩ := bind_eq_some_iff.mp hi
    split at hi
    case isTrue =>
      cases hi
      refine .plain (fun j hj => ?_) (by rw [hp]; rfl)
      obtain hj | hj := mem_append.mp hj
      · exact h.items j hj
      · exact mem_singleton.mp hj ▸ load_follows ho ht
    case isFalse => cases hi
  · exact h

variable (sum256)

theorem proceed_step (c : Call) (b : TicketStore) (a : Answer) (f : ReverifyFinding) :
    Step sum256 b c (c.proceed sum256 b a f).1 := by
  cases hp : c.phase <;> cases a <;> simp only [proceed, hp]
  all_goals first
    | exact .same
    | exact .persist hp
    | exact .invalidate _
    | exact .cursor _

/-- The items a call holds after a statement follow the tables before it. -/
theorem proceed_holds (a : Answer) (f : ReverifyFinding) (ho : b.Ordered b.step)
    (h : c.Follows b) : (c.proceed sum256 b a f).2.Follows b := by
  have hstop : c.stop.Follows b := .plain h.items rfl
  have hsettle (i : ReverifyItem) : (c.settle i).Follows b := .plain (by simpa using h.items) (by simp [plain])
  cases a with
  | halt | error | lost =>
    cases hp : c.phase <;> simp only [proceed, hp]
    all_goals first
      | exact hstop
      | exact hsettle _
  | ok =>
    cases hp : c.phase <;> simp only [proceed, hp]
    case idle => exact h
    case pending k =>
      cases hl : b.loadPendingDiscrepancy sum256 k with
      | none => exact hstop
      | some i =>
        obtain ⟨t, ht, hi⟩ := bind_eq_some_iff.mp hl
        split at hi
        case isFalse => cases hi
        case isTrue =>
          cases hi
          refine ⟨h.items, fun hr => ?_, nofun⟩
          obtain ⟨rfl, rfl⟩ := read.inj hr
          exact ⟨load_follows ho ht, le_rfl⟩
    case plan => exact .plain h.items rfl
    case next =>
      cases hitems : c.items with
      | nil => exact .plain (fun _ => nofun) (by dsimp only; split <;> rfl)
      | cons i rest =>
        have hi := h.items i (hitems ▸ .head _)
        refine ⟨fun j hj => h.items j (hitems ▸ .tail _ hj), fun hr => ?_, nofun⟩
        obtain ⟨rfl, rfl⟩ := read.inj hr
        exact ⟨hi, hi.loaded⟩
    case read i s =>
      refine ⟨h.items, nofun, fun hr => ?_⟩
      obtain ⟨rfl, rfl, rfl, rfl⟩ := persist.inj hr
      exact ⟨(h.read hp).1, (h.read hp).2, le_rfl, fun _ _ _ r hr _ => (ho.bounds r hr).2.2⟩
    case persist i f' s began =>
      split
      · exact .plain ((c.accepted_items i f').1 ▸ h.items) (c.accepted_items i f').2
      · exact .plain ((c.rejected_items i).1 ▸ h.items) (c.rejected_items i).2
    case evaluate i =>
      split
      · exact .plain h.items rfl
      · exact hsettle i
    case invalidate i => exact hsettle i
    case writeCursor => exact hstop

end Call

namespace TicketWorld

variable (sum256 : EvidenceDomain → Nat) {w : TicketWorld}

/-- Verdicts are ordered, and every call follows the tables. -/
structure Ordered (w : TicketWorld) : Prop where
  store : w.store.Ordered w.store.step
  calls : ∀ n, (w.calls n).Follows w.store

/-- Every action is a step of one call on the tables. -/
theorem move_step (w : TicketWorld) (a : TicketAction) :
    ∃ n, Step sum256 w.store (w.calls n) (w.move sum256 a).store := by
  cases a with
  | wait d => exact ⟨0, .quiet rfl (by simp only [move]; omega) rfl rfl rfl rfl⟩
  | detect k d => exact ⟨0, .inserted k d⟩
  | replace k d => exact ⟨0, .changed ..⟩
  | transition k to' =>
    refine ⟨0, ?_⟩
    simp only [move]
    split
    · exact .same
    · exact .update k to'
  | close k now tolerance =>
    refine ⟨0, ?_⟩
    simp only [move, closeDiscrepancy]
    split
    · exact .update k .closed
    · exact .same
  | verify | sweep =>
    refine ⟨0, ?_⟩
    simp only [move]
    split <;> exact .same
  | select => exact ⟨0, .same⟩
  | proceed n a f => exact ⟨n, (w.calls n).proceed_step sum256 w.store a f⟩

/-- Every action keeps the order of verdicts and changes. -/
theorem Ordered.next (h : w.Ordered) (a : TicketAction) : (w.next sum256 a).Ordered := by
  obtain ⟨n, hstep⟩ := w.move_step sum256 a
  have ho := hstep.ordered h.store (h.calls n)
  have he : w.store.Extends (w.next sum256 a).store := ⟨le_succ _, hstep.extends.clock, hstep.extends.rows⟩
  refine ⟨⟨ho.changes, ho.verdicts, ho.bounds, ho.logged, ho.read⟩, fun m => ?_⟩
  suffices hcall : ((w.move sum256 a).calls m).Follows w.store from hcall.extends he
  have hupdate {c : Call} {n : Nat} (hc : c.Follows w.store) : (Function.update w.calls n c m).Follows w.store := by
    rw [update_apply]
    split
    · exact hc
    · exact h.calls m
  cases a with
  | verify | sweep =>
    simp only [move]
    split
    · exact hupdate (.start rfl)
    · exact h.calls m
  | select n source k => exact hupdate ((h.calls n).select h.store k)
  | proceed n a f => exact hupdate (Call.proceed_holds sum256 a f h.store (h.calls n))
  | _ => exact h.calls m

theorem initial_ordered : initial.Ordered := ⟨⟨nofun, .nil, nofun, nofun, nofun⟩, fun _ => .start rfl⟩

theorem run_ordered (actions : List TicketAction) : (run (next sum256) initial actions).Ordered :=
  Reachable.invariant ⟨actions, rfl⟩ initial_ordered fun _ a h => h.next sum256 a

end TicketWorld

/-- The latest row by date and id is the row accepted last. -/
theorem TicketStore.Ordered.latest (h : b.Ordered n) (k : Nat) :
    b.readLatestReverify k = (b.verdicts.filter (·.discrepancyID = k)).head? := by
  have hsorted := h.verdicts.filter (·.discrepancyID = k)
  have hmem : ∀ r ∈ b.verdicts.filter (·.discrepancyID = k), r.discrepancyID = k := fun r hr => by
    simpa using (mem_filter.mp hr).2
  unfold readLatestReverify
  cases hl : b.verdicts.filter (·.discrepancyID = k) with
  | nil => rfl
  | cons r rest =>
    rw [hl] at hsorted hmem
    rw [find?_cons_of_pos, head?_cons]
    refine all_eq_true.mpr fun q hq => ?_
    obtain rfl | hq := mem_cons.mp hq
    · simp [Reverify.before]
    · obtain ⟨hid, -, hdate⟩ := (pairwise_cons.mp hsorted).1 q hq
      have hdate := (hdate ((hmem q (.tail _ hq)).trans (hmem r (.head _)).symm)).1
      simp only [Reverify.before, not_eq_true', or_eq_false_iff, and_eq_false_imp,
        decide_eq_false_iff_not, decide_eq_true_eq]
      exact ⟨by omega, fun _ => by omega⟩

/-- The verdict that is read last was accepted last. -/
theorem TicketStore.Ordered.latest_last (h : b.Ordered n) {q : Reverify} (hq : q ∈ b.verdicts) :
    ∃ r ∈ b.verdicts, b.readLatestReverify q.discrepancyID = some r ∧
      r.discrepancyID = q.discrepancyID ∧ (q = r ∨ q.accepted < r.accepted) := by
  have hsorted := h.verdicts.filter (·.discrepancyID = q.discrepancyID)
  have hmem : q ∈ b.verdicts.filter (·.discrepancyID = q.discrepancyID) := mem_filter.mpr ⟨hq, by simp⟩
  rw [h.latest]
  cases hl : b.verdicts.filter (·.discrepancyID = q.discrepancyID) with
  | nil => rw [hl] at hmem; cases hmem
  | cons r rest =>
    have hr : r ∈ b.verdicts.filter (·.discrepancyID = q.discrepancyID) := hl ▸ .head _
    rw [hl] at hsorted hmem
    obtain ⟨hr, hid⟩ := mem_filter.mp hr
    refine ⟨r, hr, rfl, by simpa using hid, ?_⟩
    obtain rfl | hmem := mem_cons.mp hmem
    · exact .inl rfl
    · exact .inr ((pairwise_cons.mp hsorted).1 q hmem).2.1

/-- A rejected outcome leaves its discard audit and blocks the cursor of its sweep. -/
theorem Call.proceed_rejected (sum256 : EvidenceDomain → Nat) {f : ReverifyFinding} {s : Nat}
    (hp : c.phase = .persist i f s began) (htoken : b.tokenMatches sum256 i = false) (a : Answer)
    (g : ReverifyFinding) :
    ((c.proceed sum256 b a g).1 = b ∨ (c.proceed sum256 b a g).1 = b.discard i) ∧
      (c.proceed sum256 b a g).2.cursor = c.cursor ∧
      ((c.proceed sum256 b a g).2.cursorBlocked = true ∨ (c.proceed sum256 b a g).2.phase = .idle) := by
  cases a with
  | ok =>
    simp only [proceed, hp, htoken, persistReverifyOutcome, rejected]
    refine ⟨.inr rfl, ?_⟩
    simp only [false_eq_true, if_false]
    split <;> simp
  | lost => exact ⟨.inr (by simp [proceed, hp, htoken, persistReverifyOutcome]), by simp [proceed, hp, stop]⟩
  | error | halt => simp [proceed, hp, stop]

/-- Of one ticket, newer verdicts have larger ids and are dated in that order, and each was accepted with a change of the
ticket. -/
theorem verdicts_in_order (sum256 : EvidenceDomain → Nat) (actions : List TicketAction) :
    let b := (run (next sum256) .initial actions).store
    (b.verdicts.Pairwise fun r q =>
        q.discrepancyID = r.discrepancyID → q.reverifyID < r.reverifyID ∧ q.createdAt ≤ r.createdAt) ∧
      ∀ r ∈ b.verdicts, ∃ ch ∈ b.changes, ch.discrepancyID = r.discrepancyID ∧ ch.step = r.accepted := by
  have hb := (run_ordered sum256 actions).store
  exact ⟨hb.verdicts.imp fun h hid => ⟨h.1, (h.2.2 hid).1⟩, hb.logged⟩

/-- The ticket `k` has been re-verified since it last entered `pending_verify` and since its evidence
was last replaced. -/
def TicketStore.Rechecked (b : TicketStore) (k : Nat) : Prop := ∃ q ∈ b.verdicts, q.discrepancyID = k ∧
    ∀ ch ∈ b.changes, ch.discrepancyID = k → ch.entered ∨ ch.replaced → ch.step < q.accepted

instance (b : TicketStore) (k : Nat) : Decidable (b.Rechecked k) :=
  inferInstanceAs (Decidable (∃ q ∈ b.verdicts, q.discrepancyID = k ∧
    ∀ ch ∈ b.changes, ch.discrepancyID = k → ch.entered ∨ ch.replaced → ch.step < q.accepted))

variable {k : Nat} {now tolerance : Int} {r : Reverify}

theorem TicketStore.closesOn_latest (h : b.closesOn k now tolerance = some r) :
    b.readLatestReverify k = some r ∧ r.verdict = .consistent := by
  unfold closesOn at h
  split at h
  · split at h
    case isTrue hr hclose =>
      cases h
      simp only [canClose, and_eq_true, decide_eq_true_eq] at hclose
      exact ⟨hr, hclose.2.1.1.1⟩
    case isFalse => cases h
  · cases h

/-- A close of a ticket re-verified since its last change is made on a consistent verdict newer than
that change, and newer than every other verdict of the ticket. -/
theorem closes_on_newer_verdict (sum256 : EvidenceDomain → Nat) (actions : List TicketAction)
    (hclose : (run (TicketWorld.next sum256) .initial actions).store.closesOn k now tolerance = some r)
    (hchecked : (run (TicketWorld.next sum256) .initial actions).store.Rechecked k) :
    let b := (run (next sum256) .initial actions).store
    r ∈ b.verdicts ∧ r.discrepancyID = k ∧ r.verdict = .consistent ∧
      (∀ ch ∈ b.changes, ch.discrepancyID = k → ch.entered ∨ ch.replaced → ch.step < r.accepted) ∧
      ∀ q ∈ b.verdicts, q.discrepancyID = k → q = r ∨ q.accepted < r.accepted := by
  have hw := (run_ordered sum256 actions).store
  generalize (run (next sum256) .initial actions).store = b at hclose hchecked hw ⊢
  have hlatest := closesOn_latest hclose
  obtain ⟨q, hq, rfl, hchanged⟩ := hchecked
  have hlast : ∀ p ∈ b.verdicts, p.discrepancyID = q.discrepancyID → p = r ∨ p.accepted < r.accepted := by
    intro p hp hid
    obtain ⟨r', -, hr', -, h⟩ := hw.latest_last hp
    rw [hid, hlatest.1] at hr'
    exact some.inj hr' ▸ h
  obtain ⟨r', hmem, hr', hid, -⟩ := hw.latest_last hq
  rw [hlatest.1] at hr'
  cases hr'
  refine ⟨hmem, hid, hlatest.2, fun ch hch hk hkind => ?_, hlast⟩
  have hle : q.accepted ≤ r.accepted := (hlast q hq rfl).elim (fun h => h ▸ le_rfl) le_of_lt
  exact (hchanged ch hch hk hkind).trans_le hle

/-- A digest of the evidence. -/
def sampleDigest (d : EvidenceDomain) : Nat := d.blockNumber

def sampleDomain : EvidenceDomain := ⟨some ⟨.height, 1, 9⟩, 5, "0xa", some 50⟩

/-- An evaluator found the ticket consistent at 60. -/
def sampleFinding : ReverifyFinding := ⟨.consistent, "receipt", some 60, none⟩

/-- Ticket 1 is detected, disposed of and re-verified. -/
def rechecking : List TicketAction :=
  [.detect 1 sampleDomain, .transition 1 .claimed, .transition 1 .disposing, .transition 1 .pendingVerify,
    .verify 0 7 1, .proceed 0 .ok sampleFinding, .proceed 0 .ok sampleFinding, .proceed 0 .ok sampleFinding]

theorem closes_on_newer_verdict_rechecked :
    let b := (run (next sampleDigest) .initial rechecking).store
    ∃ r, b.closesOn 1 65 10 = some r ∧ b.Rechecked 1 ∧
      ∀ ch ∈ b.changes, ch.discrepancyID = 1 → ch.entered ∨ ch.replaced → ch.step < r.accepted := by
  have hclose : (run (next sampleDigest) .initial rechecking).store.closesOn 1 65 10 =
      some ⟨1, .consistent, "receipt", some 60, 0, 0, 5, 7⟩ := by decide +kernel
  have hchecked : (run (next sampleDigest) .initial rechecking).store.Rechecked 1 := by
    decide +kernel
  exact ⟨_, hclose, hchecked, (closes_on_newer_verdict sampleDigest rechecking hclose hchecked).2.2.2.1⟩

/-- A ticket that was closed and then invalidated is closed again on the verdict of before. -/
theorem invalidated_ticket_closes_on_old_verdict :
    let b := (run (next sampleDigest) .initial (rechecking ++ [.close 1 65 10, .transition 1 .pendingVerify])).store
    ∃ r, b.closesOn 1 66 10 = some r ∧
      ∃ ch ∈ b.changes, ch.discrepancyID = 1 ∧ ch.entered = true ∧ r.accepted < ch.step := by
  refine ⟨⟨1, .consistent, "receipt", some 60, 0, 0, 5, 7⟩, ?_, ⟨1, 9, true, false⟩, ?_⟩ <;> decide +kernel

end TxHarbor.Reconciliation
