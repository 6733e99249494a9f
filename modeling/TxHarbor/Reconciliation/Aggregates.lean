import TxHarbor.Reconciliation.Tickets

open Transition List Option

namespace TxHarbor.Reconciliation

/-! The ticket of a missing transfer. A scan looks its ticket up and writes in one transaction, and the
transactions of different tasks share no lock. -/

abbrev TxID := Nat × String × Nat × String × Nat

/-- A tx-aggregate group: what one scan detects of a transaction. Hashes are in the normal form they are
compared in; `version` is the rest of the version domain, which nothing compares; `refs` are the
references of the member logs, or that of the detection when it has none. -/
structure TxGroup where
  scope : Nat
  txHash : String
  contentHash : Nat
  blockHash : String
  version : Nat
  refs : List String
  deriving DecidableEq

/-- `Identity.ID`: the digest of the scope, the business key and the evidence. -/
def TxGroup.id (g : TxGroup) : TxID := (g.scope, g.txHash, g.contentHash, g.blockHash, g.version)

/-- What a group is about: one transfer of one scope. -/
def TxGroup.slot (g : TxGroup) : Option Nat × String := (some g.scope, g.txHash)

/-- `discrepancy`, of category missing and keyed by a tx hash. Rows without a scope marker are old. -/
structure TxTicket where
  id : TxID
  scope : Option Nat
  txHash : String
  contentHash : Nat
  blockHash : String
  state : DiscrepancyState
  createdAt : Int
  deriving DecidableEq

def TxTicket.slot (t : TxTicket) : Option Nat × String := (t.scope, t.txHash)

/-- The chain evidence of the group is not that of the ticket. -/
def TxTicket.Differs (t : TxTicket) (g : TxGroup) : Prop := t.contentHash ≠ g.contentHash ∨ t.blockHash ≠ g.blockHash

/-- A transaction of a scan after its lookup: the ticket it found, and whether its evidence changed. -/
structure TxPlan where
  group : TxGroup
  root : Option TxID
  changed : Bool
  began : Int
  deriving DecidableEq

structure TxWorld where
  clock : Int
  rows : List TxTicket
  occurrences : List (TxID × String)
  plans : Nat → Option TxPlan

open TxWorld Function

namespace TxWorld

/-- `scanAggregateRootsSQL`. -/
def scanAggregateRoots (w : TxWorld) (txHash : String) : List TxTicket :=
  ((w.rows.filter (·.txHash = txHash)).insertionSort fun r q => r.createdAt ≤ q.createdAt).take 64

/-- `findTxAggregateRootTx`: the ticket of the scope, or the first old one. -/
def findTxAggregateRoot (w : TxWorld) (g : TxGroup) : Option TxTicket :=
  ((w.scanAggregateRoots g.txHash).find? (·.scope = some g.scope)).or
    ((w.scanAggregateRoots g.txHash).find? (·.scope = none))

/-- `persistTicketGroup` up to its writes; `changed` is `txAggregateEvidenceChanged`. -/
def plan (w : TxWorld) (g : TxGroup) : TxPlan :=
  let root := w.findTxAggregateRoot g
  ⟨g, root.map (·.id), root.any fun r => r.contentHash ≠ g.contentHash ∨ r.blockHash ≠ g.blockHash, w.clock⟩

/-- `invalidateTxAggregateSQL`. -/
def invalidate (p : TxPlan) (r : TxTicket) : TxTicket :=
  if p.changed ∧ p.root = some r.id then
    { r with state := TicketStore.moved r.state, scope := some p.group.scope,
             contentHash := p.group.contentHash, blockHash := p.group.blockHash }
  else r

/-- The writes and the COMMIT: a new ticket unless its id exists, or the found one brought up to date;
then the occurrences. -/
def persist (w : TxWorld) (p : TxPlan) : TxWorld :=
  let g := p.group
  let row : TxTicket := ⟨g.id, some g.scope, g.txHash, g.contentHash, g.blockHash, .openClaimable, p.began⟩
  { w with
    rows := match p.root with
      | none => if w.rows.any (·.id = g.id) then w.rows else w.rows ++ [row]
      | some _ => w.rows.map (invalidate p)
    occurrences := g.refs.map (p.root.getD g.id, ·) ++ w.occurrences }

inductive Action where
  | wait (d : Nat)
  | look (n : Nat) (g : TxGroup)
  | commit (n : Nat)
  | abort (n : Nat)
  | transition (id : TxID) (to' : DiscrepancyState)

def next (w : TxWorld) : Action → TxWorld
  | .wait d => { w with clock := w.clock + d }
  | .look n g => if (w.plans n).isSome then w else { w with plans := Function.update w.plans n (some (w.plan g)) }
  | .commit n => match w.plans n with
    | none => w
    | some p => { w.persist p with plans := Function.update w.plans n none }
  | .abort n => { w with plans := Function.update w.plans n none }
  | .transition id to' =>
    { w with rows := w.rows.map fun r =>
        if r.id = id ∧ canTransitionDiscrepancy r.state to' then { r with state := to' } else r }

def initial : TxWorld := ⟨0, [], [], fun _ => none⟩

/-- A lookup overlaps no other transaction on its transfer, and the transfer has at most 64 rows. -/
def Apart (w : TxWorld) : Action → Prop
  | .look _ g => (∀ m p, w.plans m = some p → p.group.slot ≠ g.slot) ∧ (w.rows.filter (·.txHash = g.txHash)).length ≤ 64
  | _ => True

/-- One ticket for a slot, and every plan still sees what it looked up. -/
structure Single (w : TxWorld) : Prop where
  marked : ∀ r ∈ w.rows, r.scope = some r.id.1 ∧ r.txHash = r.id.2.1
  once : (w.rows.map TxTicket.slot).Nodup
  apart : ∀ n m p q, w.plans n = some p → w.plans m = some q → n ≠ m → p.group.slot ≠ q.group.slot
  fresh : ∀ n p, w.plans n = some p → p.root = none → p.group.slot ∉ w.rows.map TxTicket.slot
  known : ∀ n p k, w.plans n = some p → p.root = some k →
    k.1 = p.group.scope ∧ k.2.1 = p.group.txHash ∧ ∃ r ∈ w.rows, r.id = k
  changed : ∀ n p r, w.plans n = some p → r ∈ w.rows → p.root = some r.id → (p.changed = true ↔ r.Differs p.group)

variable {w : TxWorld} {g : TxGroup} {p : TxPlan} {n : Nat}

theorem mem_scanAggregateRoots (h : (w.rows.filter (·.txHash = g.txHash)).length ≤ 64) {r : TxTicket} :
    r ∈ w.scanAggregateRoots g.txHash ↔ r ∈ w.rows ∧ r.txHash = g.txHash := by
  rw [scanAggregateRoots, take_of_length_le (by rwa [length_insertionSort]), mem_insertionSort]
  simp

theorem plans_update {m : Nat} {o : Option TxPlan} {q : TxPlan} (h : update w.plans n o m = some q) :
    m = n ∧ o = some q ∨ m ≠ n ∧ w.plans m = some q := by
  rw [update_apply] at h
  split at h
  case isTrue hm => exact .inl ⟨hm, h⟩
  case isFalse hm => exact .inr ⟨hm, h⟩

namespace Single

variable (h : w.Single)
include h

/-- A step that keeps the id and the slot of every row, and adds no plan. -/
theorem rewrite {w' : TxWorld} (f : TxTicket → TxTicket) (hrows : w'.rows = w.rows.map f)
    (hkept : ∀ r ∈ w.rows, (f r).id = r.id ∧ (f r).slot = r.slot)
    (hplans : ∀ m q, w'.plans m = some q → w.plans m = some q)
    (hevidence : ∀ m q r, w'.plans m = some q → r ∈ w.rows → q.root = some r.id →
      (f r).contentHash = r.contentHash ∧ (f r).blockHash = r.blockHash) : w'.Single := by
  have hslots : w'.rows.map TxTicket.slot = w.rows.map TxTicket.slot := by
    rw [hrows, List.map_map]
    exact map_congr_left fun r hr => (hkept r hr).2
  refine ⟨fun r hr => ?_, hslots ▸ h.once, fun n m p q hp hq => h.apart n m p q (hplans n p hp) (hplans m q hq),
    fun n p hp hroot => hslots ▸ h.fresh n p (hplans n p hp) hroot, fun n p k hp hroot => ?_, fun n p r hp hr hroot => ?_⟩
  · rw [hrows] at hr
    obtain ⟨q, hq, rfl⟩ := mem_map.mp hr
    obtain ⟨hid, hslot⟩ := hkept q hq
    obtain ⟨hscope, htx⟩ := Prod.mk.inj hslot
    rw [hscope, htx, hid]
    exact h.marked q hq
  · obtain ⟨h₁, h₂, r, hr, rfl⟩ := h.known n p k (hplans n p hp) hroot
    exact ⟨h₁, h₂, f r, hrows ▸ mem_map_of_mem hr, (hkept r hr).1⟩
  · rw [hrows] at hr
    obtain ⟨q, hq, rfl⟩ := mem_map.mp hr
    rw [(hkept q hq).1] at hroot
    obtain ⟨hcontent, hblock⟩ := hevidence n p q hp hq hroot
    rw [TxTicket.Differs, hcontent, hblock]
    exact h.changed n p q (hplans n p hp) hq hroot

/-- One row for an id. -/
theorem row_unique {r q : TxTicket} (hr : r ∈ w.rows) (hq : q ∈ w.rows) (hid : r.id = q.id) : r = q := by
  refine inj_on_of_nodup_map h.once hr hq ?_
  rw [TxTicket.slot, TxTicket.slot, (h.marked r hr).1, (h.marked r hr).2, (h.marked q hq).1, (h.marked q hq).2, hid]

/-- Another plan on the ticket would be one on the same transfer. -/
theorem root_ne {m : Nat} {q : TxPlan} {k : TxID} (hp : w.plans n = some p) (hq : w.plans m = some q) (hm : m ≠ n)
    (hk : q.root = some k) : k.1 ≠ p.group.scope ∨ k.2.1 ≠ p.group.txHash := by
  by_contra hsame
  push Not at hsame
  obtain ⟨hscope, htx, -⟩ := h.known m q k hq hk
  refine h.apart m n q p hq hp hm ?_
  rw [TxGroup.slot, TxGroup.slot, ← hscope, ← htx, hsame.1, hsame.2]

/-- The rows an invalidation rewrites are those of its transfer. -/
theorem invalidate_kept (hp : w.plans n = some p) {r : TxTicket} (hr : r ∈ w.rows) :
    (invalidate p r).id = r.id ∧ (invalidate p r).slot = r.slot := by
  unfold invalidate
  split
  case isTrue hroot =>
    have hscope := (h.known n p r.id hp hroot.2).1
    exact ⟨rfl, by simp [TxTicket.slot, (h.marked r hr).1, hscope]⟩
  case isFalse => exact ⟨rfl, rfl⟩

/-- A transfer that was not found gets its row. -/
theorem insert (hp : w.plans n = some p) (hroot : p.root = none) :
    (w.persist p).rows = w.rows ++ [⟨p.group.id, some p.group.scope, p.group.txHash, p.group.contentHash,
      p.group.blockHash, .openClaimable, p.began⟩] := by
  have hnew : ¬ w.rows.any (·.id = p.group.id) = true := by
    simp only [List.any_eq_true, decide_eq_true_eq, not_exists, not_and]
    intro r hr hid
    refine h.fresh n p hp hroot (mem_map.mpr ⟨r, hr, ?_⟩)
    simp [TxTicket.slot, TxGroup.slot, h.marked r hr, hid, TxGroup.id]
  simp only [persist, hroot, if_neg hnew]

/-- A lookup that is apart from the others plans on the only ticket of its transfer. -/
theorem look (ha : w.Apart (.look n g)) : (w.next (.look n g)).Single := by
  obtain ⟨hothers, hfew⟩ := ha
  simp only [next]
  split
  · exact h
  refine ⟨h.marked, h.once, fun i j p q hi hj hne => ?_, fun m p hm hroot => ?_, fun m p k hm hroot => ?_,
    fun m p r hm hr hroot => ?_⟩
  · rcases plans_update hi with ⟨hi', ⟨⟩⟩ | ⟨-, hi⟩ <;> rcases plans_update hj with ⟨hj', ⟨⟩⟩ | ⟨-, hj⟩
    · exact absurd (hi'.trans hj'.symm) hne
    · exact (hothers j q hj).symm
    · exact hothers i p hi
    · exact h.apart i j p q hi hj hne
  · rcases plans_update hm with ⟨rfl, ⟨⟩⟩ | ⟨-, hm⟩
    · intro hmem
      obtain ⟨r, hr, hslot⟩ := mem_map.mp hmem
      obtain ⟨hscope, htx⟩ := Prod.mk.inj hslot
      obtain ⟨hnone, -⟩ := or_eq_none_iff.mp (map_eq_none_iff.mp hroot)
      exact find?_eq_none.mp hnone r ((mem_scanAggregateRoots hfew).mpr ⟨hr, htx⟩) (decide_eq_true hscope)
    · exact h.fresh m p hm hroot
  · rcases plans_update hm with ⟨rfl, ⟨⟩⟩ | ⟨-, hm⟩
    · obtain ⟨r, hr, rfl⟩ := map_eq_some_iff.mp hroot
      have hfound : r ∈ w.scanAggregateRoots g.txHash ∧ (r.scope = some g.scope ∨ r.scope = none) := by
        rcases or_eq_some_iff.mp hr with hr | ⟨-, hr⟩
        · exact ⟨mem_of_find?_eq_some hr, .inl (by simpa using find?_some hr)⟩
        · exact ⟨mem_of_find?_eq_some hr, .inr (by simpa using find?_some hr)⟩
      obtain ⟨hmem, htx⟩ := (mem_scanAggregateRoots hfew).mp hfound.1
      obtain ⟨hscope, htx'⟩ := h.marked r hmem
      exact ⟨by simpa [hscope, plan] using hfound.2, htx'.symm.trans htx, r, hmem, rfl⟩
    · exact h.known m p k hm hroot
  · rcases plans_update hm with ⟨rfl, ⟨⟩⟩ | ⟨-, hm⟩
    · obtain ⟨q, hq, hid⟩ := map_eq_some_iff.mp hroot
      have hmem : q ∈ w.scanAggregateRoots g.txHash := by
        rcases or_eq_some_iff.mp hq with hq | ⟨-, hq⟩ <;> exact mem_of_find?_eq_some hq
      obtain rfl := h.row_unique ((mem_scanAggregateRoots hfew).mp hmem).1 hr hid
      simp [plan, hq, TxTicket.Differs]
    · exact h.changed m p r hm hr hroot

/-- The commit of a plan keeps one ticket for each transfer. -/
theorem commit (hp : w.plans n = some p) : Single { w.persist p with plans := update w.plans n none } := by
  have hplans m q (hq : update w.plans n none m = some q) : m ≠ n ∧ w.plans m = some q :=
    (plans_update hq).resolve_left nofun
  cases hroot : p.root with
  | some k =>
    refine h.rewrite (invalidate p) (by simp [persist, hroot]) (fun r hr => h.invalidate_kept hp hr)
      (fun m q hq => (hplans m q hq).2) fun m q r hq hr hk => ?_
    obtain ⟨hm, hq⟩ := hplans m q hq
    rw [invalidate, if_neg]
    · exact ⟨rfl, rfl⟩
    · rintro ⟨-, hsame⟩
      obtain ⟨hscope, htx, -⟩ := h.known n p r.id hp hsame
      rcases h.root_ne hp hq hm hk with hne | hne
      · exact hne hscope
      · exact hne htx
  | none =>
    have hrows := h.insert hp hroot
    have hslots : (w.persist p).rows.map TxTicket.slot = w.rows.map TxTicket.slot ++ [p.group.slot] := by
      rw [hrows, map_append]
      rfl
    refine ⟨fun r hr => ?_, ?_, fun i j p' q hi hj => h.apart i j p' q (hplans i p' hi).2 (hplans j q hj).2,
      fun m q hq hnone => ?_, fun m q k hq hk => ?_, fun m q r hq hr hk => ?_⟩
    · rw [hrows] at hr
      rcases mem_concat_cases hr with hr | rfl
      · exact h.marked r hr
      · exact ⟨rfl, rfl⟩
    · change ((w.persist p).rows.map TxTicket.slot).Nodup
      rw [hslots]
      exact nodup_append.mpr ⟨h.once, nodup_singleton _, fun x hx y hy hxy =>
        h.fresh n p hp hroot (by rw [hxy, mem_singleton.mp hy] at hx; exact hx)⟩
    · obtain ⟨hm, hq⟩ := hplans m q hq
      change _ ∉ (w.persist p).rows.map TxTicket.slot
      rw [hslots, mem_append, mem_singleton]
      exact not_or.mpr ⟨h.fresh m q hq hnone, h.apart m n q p hq hp hm⟩
    · obtain ⟨h₁, h₂, r, hr, hid⟩ := h.known m q k (hplans m q hq).2 hk
      exact ⟨h₁, h₂, r, by rw [hrows]; exact mem_append_left _ hr, hid⟩
    · obtain ⟨hm, hq⟩ := hplans m q hq
      change r ∈ (w.persist p).rows at hr
      rw [hrows] at hr
      rcases mem_concat_cases hr with hr | rfl
      · exact h.changed m q r hq hr hk
      · rcases h.root_ne hp hq hm hk with hne | hne <;> exact absurd rfl hne

theorem next (a : Action) (ha : w.Apart a) : (w.next a).Single := by
  cases a with
  | look n g => exact h.look ha
  | wait d =>
    exact h.rewrite id (map_id _).symm (fun _ _ => ⟨rfl, rfl⟩) (fun _ _ hq => hq) fun _ _ _ _ _ _ => ⟨rfl, rfl⟩
  | abort n =>
    exact h.rewrite id (map_id _).symm (fun _ _ => ⟨rfl, rfl⟩)
      (fun m q hq => ((plans_update hq).resolve_left nofun).2) fun _ _ _ _ _ _ => ⟨rfl, rfl⟩
  | commit n =>
    simp only [TxWorld.next]
    cases hp : w.plans n with
    | none => exact h
    | some p => exact h.commit hp
  | transition k to' =>
    refine h.rewrite _ rfl (fun r _ => ?_) (fun _ _ hq => hq) fun _ _ r _ _ _ => ?_ <;> split <;> exact ⟨rfl, rfl⟩

end Single

end TxWorld

/-- While lookups of one transfer do not overlap and its key has at most 64 rows: a transfer has at most one
ticket in a scope; the transaction of a scan appends its members to that ticket; and a ticket that the
transfer has before and whose evidence differs gets the new evidence and moves to `pending_verify`, unless
it is claimed or disposing. -/
theorem one_ticket_per_transfer {actions : List TxWorld.Action}
    (h : Along TxWorld.next TxWorld.Apart .initial actions) :
    let w := run next .initial actions
    (w.rows.map TxTicket.slot).Nodup ∧ ∀ n p, w.plans n = some p → ∃ r ∈ (w.persist p).rows, r.slot = p.group.slot ∧
        (∀ m ∈ p.group.refs, (r.id, m) ∈ (w.persist p).occurrences) ∧
        ∀ old ∈ w.rows, old.slot = p.group.slot → r.id = old.id ∧ (old.Differs p.group →
          r.contentHash = p.group.contentHash ∧ r.blockHash = p.group.blockHash ∧
          (old.state ≠ .claimed → old.state ≠ .disposing → r.state = .pendingVerify)) := by
  have hw : (run next .initial actions).Single := invariant_of_along h ⟨nofun, .nil, nofun, nofun,
      nofun, nofun⟩ fun w a ha hw => hw.next a ha
  refine ⟨hw.once, fun n p hp => ?_⟩
  cases hroot : p.root with
  | none =>
    refine ⟨_, by rw [hw.insert hp hroot]; exact mem_append_right _ (mem_singleton_self _), rfl,
      fun m hm => ?_, fun old hold hslot => absurd (hslot ▸ mem_map_of_mem hold) (hw.fresh n p hp hroot)⟩
    simp [persist, hroot, hm]
  | some k =>
    obtain ⟨hscope, htx, r, hr, rfl⟩ := hw.known n p k hp hroot
    obtain ⟨hid, hslot⟩ := hw.invalidate_kept hp hr
    have hown : r.slot = p.group.slot := by
      rw [TxTicket.slot, (hw.marked r hr).1, (hw.marked r hr).2, hscope, htx, TxGroup.slot]
    refine ⟨invalidate p r, by simpa [persist, hroot] using mem_map_of_mem hr, hslot.trans hown,
      fun m hm => ?_, fun old hold hsame => ?_⟩
    · simp [persist, hroot, hid, hm]
    · obtain rfl : old = r := inj_on_of_nodup_map hw.once hold hr (hsame.trans hown.symm)
      refine ⟨hid, fun hdiffers => ?_⟩
      rw [invalidate, if_pos ⟨(hw.changed n p old hp hr hroot).mpr hdiffers, hroot⟩]
      refine ⟨rfl, rfl, fun hclaimed hdisposing => ?_⟩
      dsimp only
      revert hclaimed hdisposing
      cases old.state <;> decide

/-- A transfer seen in a block, and then in another one. -/
def sampleGroup (block : String) : TxGroup := ⟨0, "0xaa", 1, block, 0, ["log:0"]⟩

theorem one_ticket_per_transfer_reincluded :
    let actions := [.look 0 (sampleGroup "0x01"), .commit 0, .look 1 (sampleGroup "0x02")]
    Along next TxWorld.Apart .initial actions ∧
      ∃ r ∈ ((run next .initial actions).persist ⟨sampleGroup "0x02", some (sampleGroup "0x01").id, true, 0⟩).rows,
        r.slot = (some 0, "0xaa") ∧ r.blockHash = "0x02" := by
  have h : Along next TxWorld.Apart .initial
      [.look 0 (sampleGroup "0x01"), .commit 0, .look 1 (sampleGroup "0x02")] := by
    refine ⟨⟨nofun, by decide⟩, trivial, ⟨fun m p hp => ?_, by decide +kernel⟩, trivial⟩
    simp [TxWorld.next, initial] at hp
  obtain ⟨r, hr, hslot, -, hchanged⟩ := (one_ticket_per_transfer h).2 1 _ rfl
  have hold := hchanged ⟨(sampleGroup "0x01").id, some 0, "0xaa", 1, "0x01", .openClaimable, 0⟩ (by decide +kernel) rfl
  exact ⟨h, r, hr, hslot, (hold.2 (.inr (show "0x01" ≠ "0x02" by decide))).2.1⟩

/-- Two scans look a transfer up before either commits, in different blocks: it gets two tickets. -/
theorem overlapping_scans_mint_two_tickets :
    ((run TxWorld.next .initial [.look 0 (sampleGroup "0x01"), .look 1 (sampleGroup "0x02"), .commit 0, .commit 1]).rows.map
      TxTicket.slot) = [(some 0, "0xaa"), (some 0, "0xaa")] := by
  decide +kernel

end TxHarbor.Reconciliation
