import TxHarbor.Indexer.ReplayProgress
import TxHarbor.Indexer.Revival

open Relational List Option

namespace TxHarbor.Indexer

/-! What the header checkpoint stands on, between recovery rounds and inside them. -/

/-- What the hash of a header commits to. -/
structure Lineage where
  number : Hash → Int
  parent : Hash → Hash

/-- The stored rows are headers of the lineage, and an observation names the height of its block. -/
structure Described (node : Lineage) (s : Store) : Prop where
  number : ∀ b ∈ s.blocks.rows, b.number = node.number b.hash
  parent : ∀ b ∈ s.blocks.rows, b.parentHash = node.parent b.hash
  height : ∀ o ∈ s.observations.rows, o.blockNumber = node.number o.blockHash

/-- The chain below a header checkpoint: a stored row for every height from the scan start on, each
on top of the one before. No other row up to the checkpoint is canonical. -/
structure Spine (s : Store) (c : BlockCheckpoint) (chain : Int → Hash) : Prop where
  ordered : c.startHeight ≤ c.height
  low : ∀ b ∈ s.blocks.rows, c.startHeight ≤ b.number
  tip : chain c.height = c.blockHash
  stored : ∀ k, c.startHeight ≤ k → k ≤ c.height → ∃ b ∈ s.blocks.rows, b.number = k ∧
    b.hash = chain k ∧ (c.startHeight < k → b.parentHash = chain (k - 1))
  only : ∀ k ≤ c.height, ∀ hash, canonicalHashAt s k = some hash → hash = chain k

/-- The rows of the chain are canonical up to a height. -/
def CanonicalTo (s : Store) (c : BlockCheckpoint) (chain : Int → Hash) (top : Int) : Prop :=
  ∀ k, c.startHeight ≤ k → k ≤ top → canonicalHashAt s k = some (chain k)

/-- The observation is pending or confirmed exactly when its block is canonical. -/
def DepositObservation.Settled (s : Store) (o : DepositObservation) : Prop :=
  o.status.effective = true ↔ canonicalBlock s o.blockHash = true

/-- The block of the observation is stored. -/
def DepositObservation.Anchored (s : Store) (o : DepositObservation) : Prop := ∃ b ∈ s.blocks.rows, b.hash = o.blockHash

/-- The state of the chain while no ancestor is confirmed. -/
structure Grounded (s : Store) : Prop where
  empty : s.checkpoint = none → s.blocks.rows = []
  spine : ∀ c, s.checkpoint = some c → ∃ chain, Spine s c chain ∧ CanonicalTo s c chain c.height
  retired : ∀ c, s.checkpoint = some c → ∀ b ∈ s.blocks.rows, b.canonical = false → b.number ≤ c.height
  settled : ∀ o ∈ s.observations.rows, o.Settled s
  anchored : ∀ o ∈ s.observations.rows, o.Anchored s

/-- The chain of a round on a confirmed ancestor. What is canonical above the ancestor comes and
goes, but up to the checkpoint it is always a part of one chain. -/
structure Swaying (s : Store) (row : RecoveryRow) (a : Ancestor) (c : BlockCheckpoint) (chain : Int → Hash) : Prop where
  checkpoint : s.checkpoint = some c
  spine : Spine s c chain
  nonneg : 0 ≤ a.number
  low : c.startHeight ≤ a.number
  high : a.number ≤ c.height
  kept : CanonicalTo s c chain a.number
  frontier : ∀ f, row.blockFrontier = some f → f = c.height

/-- The phases in which nothing has been replayed yet. -/
def RecoveryPhase.opening : RecoveryPhase → Bool
  | .detected => true
  | .ancestorConfirmed => true
  | .invalidated => true
  | .replaying => false
  | .completePending => false
  | .reconcileRequired => false

/-- What every transaction keeps, inside rounds and between them. -/
structure ChainInv (node : Lineage) (s : Store) : Prop where
  described : Described node s
  orphans : ∀ o ∈ s.observations.rows, o.status = .orphaned → o.Anchored s
  grounded : (∀ row, s.recovery = some row → row.ancestor = none) → Grounded s
  swaying : ∀ row a, s.recovery = some row → row.ancestor = some a →
    (∃ c chain, Swaying s row a c chain) ∧ ∀ o ∈ s.observations.rows, o.blockNumber ≤ a.number → o.Settled s
  opening : ∀ row, s.recovery = some row → row.phase.opening = true →
    row.blockFrontier = none ∧ ∀ o ∈ s.observations.rows, o.Anchored s
  unconfirmed : ∀ row, s.recovery = some row → row.ancestor = none →
    row.phase = .detected ∨ row.phase = .reconcileRequired
  searching : ∀ row, s.recovery = some row → row.phase = .detected → row.ancestor = none

theorem canonicalBlock_eq_true {s : Store} {hash : Hash} :
    canonicalBlock s hash = true ↔ ∃ b ∈ s.blocks.rows, b.hash = hash ∧ b.canonical = true := by
  simp [canonicalBlock]

section Rows

variable {s s' : Store} {c : BlockCheckpoint} {chain : Int → Hash}

variable {k : Int} {hash : Hash} {top : Int}

/-- A canonical row stays one when rows are only added. -/
theorem canonicalHashAt_grow (hgrow : ∀ b ∈ s.blocks.rows, b ∈ s'.blocks.rows) (h : canonicalHashAt s k = some hash) :
    canonicalHashAt s' k = some hash := by
  obtain ⟨b, hb, hrow⟩ := canonicalHashAt_eq_some.mp h
  exact canonicalHashAt_eq_some.mpr ⟨b, hgrow b hb, hrow⟩

theorem CanonicalTo.grow (h : CanonicalTo s c chain top) (hgrow : ∀ b ∈ s.blocks.rows, b ∈ s'.blocks.rows) :
    CanonicalTo s' c chain top :=
  fun k hlow hhigh => canonicalHashAt_grow hgrow (h k hlow hhigh)

/-- The stored rows with other flags. -/
theorem Spine.reflag {flag : ChainBlock → ChainBlock} (h : Spine s c chain)
    (hrows : s'.blocks.rows = s.blocks.rows.map flag)
    (hkeys : ∀ b, (flag b).number = b.number ∧ (flag b).hash = b.hash ∧ (flag b).parentHash = b.parentHash)
    (honly : ∀ k ≤ c.height, ∀ hash, canonicalHashAt s' k = some hash → hash = chain k) : Spine s' c chain := by
  refine ⟨h.ordered, fun b hb => ?_, h.tip, fun k hlow hhigh => ?_, honly⟩
  · rw [hrows] at hb
    obtain ⟨d, hd, rfl⟩ := mem_map.mp hb
    rw [(hkeys d).1]
    exact h.low d hd
  · obtain ⟨b, hb, hnumber, hhash, hparent⟩ := h.stored k hlow hhigh
    refine ⟨flag b, ?_, ?_⟩
    · rw [hrows]
      exact mem_map_of_mem hb
    · rw [(hkeys b).1, (hkeys b).2.1, (hkeys b).2.2]
      exact ⟨hnumber, hhash, hparent⟩

/-- The chain with the canonical rows above a height on top. -/
def grownChain (s : Store) (top : Int) (chain : Int → Hash) (k : Int) : Hash :=
  if k ≤ top then chain k else (canonicalHashAt s k).getD 0

theorem grownChain_below (h : k ≤ top) : grownChain s top chain k = chain k := if_pos h

theorem grownChain_above (h : top < k) (hhash : canonicalHashAt s k = some hash) : grownChain s top chain k = hash := by
  rw [grownChain, if_neg (by omega), hhash, getD_some]

/-- The checkpoint moves over rows that are canonical and linked. -/
theorem Spine.extend (h : Spine s c chain) (hi : Int) (hhi : c.height ≤ hi)
    (hgrow : ∀ b ∈ s.blocks.rows, b ∈ s'.blocks.rows)
    (hnew : ∀ b ∈ s'.blocks.rows, b ∈ s.blocks.rows ∨ c.height < b.number)
    (hbase : canonicalHashAt s' c.height = some c.blockHash)
    (hlinked : ∀ k, c.height < k → k ≤ hi → ∃ b ∈ s'.blocks.rows, b.number = k ∧ b.canonical = true ∧
      canonicalHashAt s' (k - 1) = some b.parentHash) (htip : canonicalHashAt s' hi = some hash) :
    Spine s' { c with height := hi, blockHash := hash } (grownChain s' c.height chain) := by
  have hstart := h.ordered
  refine ⟨hstart.trans hhi, fun b hb => ?_, ?_, fun k hlow hhigh => ?_, fun k hk hash' hhash' => ?_⟩
  · rcases hnew b hb with hold | habove
    · exact h.low b hold
    · exact (hstart.trans_lt habove).le
  · change grownChain s' c.height chain hi = hash
    by_cases hsame : hi = c.height
    · subst hsame
      rw [hbase, some.injEq] at htip
      rw [grownChain_below (le_refl _), h.tip, htip]
    · exact grownChain_above (by omega) htip
  · by_cases hold : k ≤ c.height
    · obtain ⟨b, hb, hnumber, hhash, hparent⟩ := h.stored k hlow hold
      rw [grownChain_below hold, grownChain_below (by omega)]
      exact ⟨b, hgrow b hb, hnumber, hhash, hparent⟩
    · obtain ⟨b, hb, hnumber, hcanonical, hbelow⟩ := hlinked k (by omega) hhigh
      refine ⟨b, hb, hnumber, ?_, fun _ => ?_⟩
      · exact (grownChain_above (by omega) (canonicalHashAt_eq_some.mpr ⟨b, hb, hnumber, hcanonical, rfl⟩)).symm
      · by_cases hnext : k - 1 ≤ c.height
        · have hk : k - 1 = c.height := by omega
          rw [hk, hbase, some.injEq] at hbelow
          rw [hk, grownChain_below (le_refl _), h.tip, hbelow]
        · exact (grownChain_above (by omega) hbelow).symm
  · by_cases hold : k ≤ c.height
    · rw [grownChain_below hold]
      obtain ⟨b, hb, hnumber, hcanonical, hhash⟩ := canonicalHashAt_eq_some.mp hhash'
      rcases hnew b hb with hstored | habove
      · exact h.only k hold hash' (canonicalHashAt_eq_some.mpr ⟨b, hstored, hnumber, hcanonical, hhash⟩)
      · omega
    · exact (grownChain_above (by omega) hhash').symm

end Rows

section Observations

variable {s s' : Store} {o : DepositObservation}

/-- New rows under other hashes change nothing for an observation. -/
theorem DepositObservation.Settled.grow (h : o.Settled s) (hgrow : ∀ b ∈ s.blocks.rows, b ∈ s'.blocks.rows)
    (hnew : ∀ b ∈ s'.blocks.rows, b ∈ s.blocks.rows ∨ b.hash ≠ o.blockHash) : o.Settled s' := by
  refine h.trans ?_
  simp only [canonicalBlock_eq_true]
  constructor
  · rintro ⟨b, hb, hhash, hcanonical⟩
    exact ⟨b, hgrow b hb, hhash, hcanonical⟩
  · rintro ⟨b, hb, hhash, hcanonical⟩
    exact ⟨b, (hnew b hb).resolve_right fun hne => hne hhash, hhash, hcanonical⟩

variable {flag : ChainBlock → ChainBlock}

/-- Other flags on the rows of other blocks change nothing for an observation. -/
theorem DepositObservation.Settled.reflag (h : o.Settled s) (hrows : s'.blocks.rows = s.blocks.rows.map flag)
    (hkeys : ∀ b, (flag b).hash = b.hash) (hsame : ∀ b ∈ s.blocks.rows, b.hash = o.blockHash → flag b = b) :
    o.Settled s' := by
  refine h.trans ?_
  simp only [canonicalBlock_eq_true, hrows, List.mem_map]
  constructor
  · rintro ⟨b, hb, hhash, hcanonical⟩
    exact ⟨b, ⟨b, hb, hsame b hb hhash⟩, hhash, hcanonical⟩
  · rintro ⟨-, ⟨b, hb, rfl⟩, hhash, hcanonical⟩
    rw [hkeys] at hhash
    rw [hsame b hb hhash] at hcanonical
    exact ⟨b, hb, hhash, hcanonical⟩

theorem DepositObservation.Anchored.grow (h : o.Anchored s)
    (hgrow : ∀ b ∈ s.blocks.rows, b ∈ s'.blocks.rows) : o.Anchored s' := by
  obtain ⟨b, hb, hhash⟩ := h
  exact ⟨b, hgrow b hb, hhash⟩

theorem DepositObservation.Anchored.reflag (h : o.Anchored s) (hrows : s'.blocks.rows = s.blocks.rows.map flag)
    (hkeys : ∀ b, (flag b).hash = b.hash) : o.Anchored s' := by
  obtain ⟨b, hb, hhash⟩ := h
  exact ⟨flag b, hrows ▸ mem_map_of_mem hb, (hkeys b).trans hhash⟩

/-- The row of an observation's block is at the observation's height. -/
theorem Described.row_number {node : Lineage} (h : Described node s) (ho : o ∈ s.observations.rows)
    {b : ChainBlock} (hb : b ∈ s.blocks.rows) (hhash : b.hash = o.blockHash) : b.number = o.blockNumber := by
  rw [h.number b hb, h.height o ho, hhash]

end Observations

section Ordinary

variable {node : Lineage} {s s' : Store} {w : BlockWrite}

theorem Headed.described (h : Headed s w s') (hd : Described node s) (hnumber : w.number = node.number w.hash)
    (hparent : w.parent = node.parent w.hash) : Described node s' := by
  refine ⟨fun b hb => ?_, fun b hb => ?_, by rw [h.observations]; exact hd.height⟩
  · rcases h.added b hb with hold | ⟨rfl, -⟩
    · exact hd.number b hold
    · exact hnumber
  · rcases h.added b hb with hold | ⟨rfl, -⟩
    · exact hd.parent b hold
    · exact hparent

/-- A new header is not the block of any observation. -/
theorem Headed.settled (h : Headed s w s') (hg : Grounded s) :
    ∀ o ∈ s'.observations.rows, o.Settled s' ∧ o.Anchored s' := by
  intro o ho
  rw [h.observations] at ho
  refine ⟨(hg.settled o ho).grow h.grown fun b hb => ?_, (hg.anchored o ho).grow h.grown⟩
  refine (h.added b hb).imp_right ?_
  rintro ⟨rfl, hfresh⟩ hhash
  obtain ⟨r, hr, hrhash⟩ := hg.anchored o ho
  exact hfresh r hr (hrhash.trans hhash.symm)

variable {startHeight : Int}

/-- The first header of a scan. -/
theorem Headed.grounded_first (h : Headed s w s') (hg : Grounded s) (hempty : s.checkpoint = none)
    (hstart : w.number = startHeight) (hcheckpoint : s'.checkpoint = some ⟨w.number, w.hash, startHeight⟩) :
    Grounded s' := by
  have hone : ∀ b ∈ s'.blocks.rows, b = ⟨w.number, w.hash, w.parent, true⟩ := by
    intro b hb
    rcases h.added b hb with hold | ⟨heq, -⟩
    · rw [hg.empty hempty] at hold
      cases hold
    · exact heq
  obtain ⟨row, hrow, -⟩ := h.present
  rw [hone row hrow] at hrow
  have htip : canonicalHashAt s' w.number = some w.hash := canonicalHashAt_eq_some.mpr ⟨_, hrow, rfl, rfl, rfl⟩
  refine ⟨fun hnone => ?_, fun c hc => ?_, fun c hc b hb hretired => ?_,
    fun o ho => (h.settled hg o ho).1, fun o ho => (h.settled hg o ho).2⟩
  · cases hcheckpoint.symm.trans hnone
  · rw [hcheckpoint, some.injEq] at hc
    subst hc hstart
    refine ⟨fun _ => w.hash, ⟨le_refl _, fun b hb => by rw [hone b hb], rfl, fun k hlow hhigh => ?_,
      fun k _ hash hhash => ?_⟩, fun k hlow hhigh => ?_⟩
    · exact ⟨_, hrow, le_antisymm hlow hhigh, rfl, fun hlt => absurd hhigh (not_le.mpr hlt)⟩
    · obtain ⟨b, hb, -, -, rfl⟩ := canonicalHashAt_eq_some.mp hhash
      rw [hone b hb]
    · rwa [show k = w.number from le_antisymm hhigh hlow]
  · rw [hone b hb] at hretired
    cases hretired

/-- A header on top of the checkpoint. Above it every stored row is canonical, and the header's own
row has the parent it was stored with. -/
theorem Headed.grounded_next (h : Headed s w s') (hg : Grounded s) (hd : Described node s') {c : BlockCheckpoint}
    (hc : s.checkpoint = some c) (hheight : c.height = w.number - 1) (hhash : c.blockHash = w.parent)
    (hparent : w.parent = node.parent w.hash)
    (hcheckpoint : s'.checkpoint = some { c with height := w.number, blockHash := w.hash }) : Grounded s' := by
  obtain ⟨chain, hspine, hcanonical⟩ := hg.spine c hc
  have hbelow : canonicalHashAt s' c.height = some c.blockHash :=
    canonicalHashAt_grow h.grown (hspine.tip ▸ hcanonical c.height hspine.ordered (le_refl _))
  have hretired : ∀ b ∈ s'.blocks.rows, b.canonical = false → b.number ≤ c.height := by
    intro b hb hretired
    rcases h.added b hb with hold | ⟨rfl, -⟩
    · exact hg.retired c hc b hold hretired
    · cases hretired
  obtain ⟨b, hb, hbnumber, hbhash⟩ := h.present
  have hbcanonical : b.canonical = true := by
    by_contra hfalse
    have hlow := hretired b hb (by simpa using hfalse)
    omega
  have hbparent : b.parentHash = c.blockHash := by rw [hd.parent b hb, hbhash, ← hparent, hhash]
  have htip : canonicalHashAt s' w.number = some w.hash :=
    canonicalHashAt_eq_some.mpr ⟨b, hb, hbnumber, hbcanonical, hbhash⟩
  have hspine' := hspine.extend w.number (by omega) h.grown
    (fun d hd' => (h.added d hd').imp_right fun heq => by rw [heq.1]; change c.height < w.number; omega)
    hbelow (fun k hlow hhigh => ?_) htip
  · refine ⟨fun hnone => ?_, fun c' hc' => ?_, fun c' hc' d hd' hflag => ?_,
      fun o ho => (h.settled hg o ho).1, fun o ho => (h.settled hg o ho).2⟩
    · cases hcheckpoint.symm.trans hnone
    · rw [hcheckpoint, some.injEq] at hc'
      subst hc'
      refine ⟨_, hspine', fun k hlow hhigh => ?_⟩
      by_cases hold : k ≤ c.height
      · rw [grownChain_below hold]
        exact canonicalHashAt_grow h.grown (hcanonical k hlow hold)
      · have hk : k = w.number := by
          have hhigh : k ≤ w.number := hhigh
          omega
        rwa [hk, grownChain_above (by omega) htip]
    · rw [hcheckpoint, some.injEq] at hc'
      subst hc'
      change d.number ≤ w.number
      have hle := hretired d hd' hflag
      omega
  · have hk : k = w.number := by omega
    refine ⟨b, hb, by rw [hk, hbnumber], hbcanonical, ?_⟩
    rwa [hbparent, hk, ← hheight]

/-- A header commit keeps the chain grounded. -/
theorem Headed.grounded (h : Headed s w s') (hg : Grounded s) (hd : Described node s')
    {checkpoint : BlockCheckpoint} (hadvance : w.advance startHeight s.checkpoint = some checkpoint)
    (hfirst : w.first = true → w.number = startHeight) (hparent : w.parent = node.parent w.hash)
    (hcheckpoint : s'.checkpoint = some checkpoint) : Grounded s' := by
  cases hc : s.checkpoint with
  | none =>
    rw [hc] at hadvance
    simp only [BlockWrite.advance] at hadvance
    split at hadvance
    · next hw =>
      cases hadvance
      exact h.grounded_first hg hc (hfirst hw) hcheckpoint
    · cases hadvance
  | some c =>
    rw [hc] at hadvance
    simp only [BlockWrite.advance] at hadvance
    split at hadvance
    · next hguard =>
      cases hadvance
      exact h.grounded_next hg hd hc hguard.2.1 hguard.2.2 hparent hcheckpoint
    · cases hadvance

end Ordinary

section Deposits

variable {node : Lineage} {s s' : Store}

/-- New flags of observations and new observations of canonical blocks keep the chain grounded. -/
theorem Grounded.observe (hg : Grounded s) (hd : Described node s) (hblocks : s'.blocks = s.blocks)
    (hcheckpoint : s'.checkpoint = s.checkpoint) (hobs : ∀ o ∈ s'.observations.rows,
      (∃ p ∈ s.observations.rows, o.blockHash = p.blockHash ∧ o.blockNumber = p.blockNumber ∧
        o.status.effective = p.status.effective) ∨
      o.status = .pending ∧ canonicalHashAt s o.blockNumber = some o.blockHash) :
    Described node s' ∧ Grounded s' := by
  have hcanonical : ∀ hash, canonicalBlock s' hash = canonicalBlock s hash := fun hash => by
    unfold canonicalBlock
    rw [hblocks]
  refine ⟨⟨hblocks ▸ hd.number, hblocks ▸ hd.parent, fun o ho => ?_⟩,
    ⟨hblocks ▸ hcheckpoint ▸ hg.empty, fun c hc => ?_, hblocks ▸ hcheckpoint ▸ hg.retired, fun o ho => ?_,
      fun o ho => ?_⟩⟩
  · rcases hobs o ho with ⟨p, hp, hhash, hnumber, -⟩ | ⟨-, hrow⟩
    · rw [hhash, hnumber]
      exact hd.height p hp
    · obtain ⟨b, hb, hnumber, -, hhash⟩ := canonicalHashAt_eq_some.mp hrow
      rw [← hnumber, ← hhash]
      exact hd.number b hb
  · obtain ⟨chain, hspine, hall⟩ := hg.spine c (hcheckpoint ▸ hc)
    refine ⟨chain, ⟨hspine.ordered, hblocks ▸ hspine.low, hspine.tip, hblocks ▸ hspine.stored, ?_⟩, ?_⟩
    · intro k hk hash hhash
      rw [canonicalHashAt_congr hblocks] at hhash
      exact hspine.only k hk hash hhash
    · intro k hlow hhigh
      rw [canonicalHashAt_congr hblocks]
      exact hall k hlow hhigh
  · unfold DepositObservation.Settled
    rw [hcanonical]
    rcases hobs o ho with ⟨p, hp, hhash, -, hstatus⟩ | ⟨hpending, hrow⟩
    · rw [hhash, hstatus]
      exact hg.settled p hp
    · obtain ⟨b, hb, -, hlive, hhash⟩ := canonicalHashAt_eq_some.mp hrow
      exact iff_of_true (by rw [hpending]; rfl) (canonicalBlock_eq_true.mpr ⟨b, hb, hhash, hlive⟩)
  · unfold DepositObservation.Anchored
    rw [hblocks]
    rcases hobs o ho with ⟨p, hp, hhash, -, -⟩ | ⟨-, hrow⟩
    · rw [hhash]
      exact hg.anchored p hp
    · obtain ⟨b, hb, -, -, hhash⟩ := canonicalHashAt_eq_some.mp hrow
      exact ⟨b, hb, hhash⟩

end Deposits

section Rounds

variable {node : Lineage} {s s' : Store} {row row' : RecoveryRow} {a : Ancestor} {c : BlockCheckpoint}
  {chain : Int → Hash}

variable {flag : ChainBlock → ChainBlock} {k ancestor : Int} {b : ChainBlock} {hash : Hash}

/-- Flags of other heights do not matter for the canonical row of a height. -/
theorem canonicalHashAt_reflag (hrows : s'.blocks.rows = s.blocks.rows.map flag)
    (hnumber : ∀ b, (flag b).number = b.number) (hsame : ∀ b ∈ s.blocks.rows, b.number = k → flag b = b) :
    canonicalHashAt s' k = canonicalHashAt s k := by
  have hiff : ∀ hash, canonicalHashAt s' k = some hash ↔ canonicalHashAt s k = some hash := by
    intro hash
    simp only [canonicalHashAt_eq_some, hrows, List.mem_map]
    constructor
    · rintro ⟨-, ⟨b, hb, rfl⟩, hk, hrest⟩
      rw [hnumber] at hk
      rw [hsame b hb hk] at hrest
      exact ⟨b, hb, hk, hrest⟩
    · rintro ⟨b, hb, hk, hrest⟩
      exact ⟨b, ⟨b, hb, hsame b hb hk⟩, hk, hrest⟩
  exact Option.ext hiff

/-- A round opens its sway where the chain is canonical up to the ancestor. -/
theorem Grounded.confirm (hg : Grounded s) (hcanonical : canonicalHashAt s a.number = some a.hash)
    (hnonneg : 0 ≤ a.number) (hcovered : ∀ c, s.checkpoint = some c → a.number ≤ c.height)
    (hfrontier : row.blockFrontier = none) : ∃ c chain, Swaying s row a c chain := by
  obtain ⟨b, hb, hnumber, -, -⟩ := canonicalHashAt_eq_some.mp hcanonical
  cases hc : s.checkpoint with
  | none =>
    rw [hg.empty hc] at hb
    cases hb
  | some c =>
    obtain ⟨chain, hspine, hall⟩ := hg.spine c hc
    have hhigh := hcovered c hc
    refine ⟨c, chain, hc, hspine, hnonneg, hnumber ▸ hspine.low b hb, hhigh,
      fun k hlow hk => hall k hlow (by omega), fun f hf => ?_⟩
    cases hfrontier.symm.trans hf

/-- Other flags above the ancestor keep the sway, as long as nothing foreign becomes canonical. -/
theorem Swaying.reflag (h : Swaying s row a c chain) (hcheckpoint : s'.checkpoint = s.checkpoint)
    (hrows : s'.blocks.rows = s.blocks.rows.map flag)
    (hkeys : ∀ b, (flag b).number = b.number ∧ (flag b).hash = b.hash ∧ (flag b).parentHash = b.parentHash)
    (hbelow : ∀ b ∈ s.blocks.rows, b.number ≤ a.number → flag b = b)
    (honly : ∀ k ≤ c.height, ∀ hash, canonicalHashAt s' k = some hash → hash = chain k) : Swaying s' row a c chain := by
  refine ⟨hcheckpoint.trans h.checkpoint, h.spine.reflag hrows hkeys honly, h.nonneg, h.low, h.high,
    fun k hlow hhigh => ?_, h.frontier⟩
  rw [canonicalHashAt_reflag hrows (fun b => (hkeys b).1) fun b hb hk => hbelow b hb (hk ▸ hhigh)]
  exact h.kept k hlow hhigh

/-- The flags of a sweep. -/
def sweptFlag (s : Store) (ancestor : Int) (b : ChainBlock) : ChainBlock :=
  if b.canonicalIn (ancestor + 1) (max (persistedTip s) (ancestor + 1 - 1)) then b.retire else b

theorem sweptFlag_keys (s : Store) (ancestor : Int) (b : ChainBlock) :
    (sweptFlag s ancestor b).number = b.number ∧ (sweptFlag s ancestor b).hash = b.hash ∧
      (sweptFlag s ancestor b).parentHash = b.parentHash := by
  unfold sweptFlag
  split <;> exact ⟨rfl, rfl, rfl⟩

theorem sweptFlag_below (h : b.number ≤ ancestor) : sweptFlag s ancestor b = b := by
  refine if_neg fun hin => ?_
  have := (ChainBlock.canonicalIn_eq_true.mp hin).1.1
  omega

/-- A sweep only takes canonical rows away. -/
theorem canonicalHashAt_swept (hrows : s'.blocks.rows = s.blocks.rows.map (sweptFlag s ancestor))
    (h : canonicalHashAt s' k = some hash) : canonicalHashAt s k = some hash := by
  obtain ⟨d, hd, hnumber, hcanonical, hhash⟩ := canonicalHashAt_eq_some.mp h
  rw [hrows] at hd
  obtain ⟨b, hb, rfl⟩ := mem_map.mp hd
  unfold sweptFlag at hnumber hcanonical hhash
  split at hcanonical
  · cases hcanonical
  · next hout =>
    rw [if_neg hout] at hnumber hhash
    exact canonicalHashAt_eq_some.mpr ⟨b, hb, hnumber, hcanonical, hhash⟩

/-- The checkpoint goes back onto the ancestor. -/
theorem Swaying.rollBack (h : Swaying s row a c chain) (hfrontier : row.blockFrontier = none)
    (hhash : canonicalHashAt s a.number = some hash) (hblocks : s'.blocks = s.blocks)
    (hcheckpoint : s'.checkpoint = some { c with height := a.number, blockHash := hash }) :
    Swaying s' row a { c with height := a.number, blockHash := hash } chain := by
  have hchain : chain a.number = hash := by
    rw [h.kept a.number h.low (le_refl _), some.injEq] at hhash
    exact hhash
  refine ⟨hcheckpoint, ⟨h.low, hblocks ▸ h.spine.low, hchain, fun k hlow hhigh => ?_, fun k hk hash' hhash' => ?_⟩,
    h.nonneg, h.low, le_refl _, fun k hlow hhigh => ?_, fun f hf => ?_⟩
  · rw [hblocks]
    exact h.spine.stored k hlow (le_trans hhigh h.high)
  · rw [canonicalHashAt_congr hblocks] at hhash'
    exact h.spine.only k (le_trans hk h.high) hash' hhash'
  · rw [canonicalHashAt_congr hblocks]
    exact h.kept k hlow hhigh
  · cases hfrontier.symm.trans hf

/-- A replayed header range moves the checkpoint over canonical rows that are linked. -/
theorem Swaying.extend (h : Swaying s row a c chain) {lo hi : Int} (hordered : lo ≤ hi) (hmeets : c.height = lo - 1)
    (hgrow : ∀ b ∈ s.blocks.rows, b ∈ s'.blocks.rows) (hnew : ∀ b ∈ s'.blocks.rows, b ∈ s.blocks.rows ∨ lo ≤ b.number)
    (hcovered : ∀ n, lo ≤ n → n ≤ hi → (canonicalHashAt s' n).isSome) (hlinked : checkParentLinkage s' lo hi = 0)
    (hbase : canonicalHashAt s' (lo - 1) = some c.blockHash) (htip : canonicalHashAt s' hi = some hash)
    (hcheckpoint : s'.checkpoint = some { c with height := hi, blockHash := hash })
    (hfrontier : row'.blockFrontier = some hi) :
    Swaying s' row' a { c with height := hi, blockHash := hash } (grownChain s' c.height chain) := by
  have hhigh := h.high
  have hnonneg := h.nonneg
  have hspine := h.spine.extend hi (by omega) hgrow
    (fun b hb => (hnew b hb).imp_right fun hlo => by omega) (hmeets ▸ hbase)
    (fun k hlow hk => ?_) htip
  · refine ⟨hcheckpoint, hspine, h.nonneg, h.low, ?_, fun k hlow hk => ?_, fun f hf => ?_⟩
    · change a.number ≤ hi
      omega
    · rw [grownChain_below (by omega)]
      exact h.kept.grow hgrow k hlow hk
    · rw [hfrontier, some.injEq] at hf
      exact hf.symm
  · obtain ⟨hash', hhash'⟩ := isSome_iff_exists.mp (hcovered k (by omega) hk)
    obtain ⟨b, hb, hnumber, hcanonical, -⟩ := canonicalHashAt_eq_some.mp hhash'
    have hbelow := checkParentLinkage_eq_zero.mp hlinked b hb (by omega) (by omega) hcanonical (by omega)
    exact ⟨b, hb, hnumber, hcanonical, hnumber ▸ hbelow⟩

theorem recanonicalized_keys (height : Int) (oldHash : Hash) (b : ChainBlock) :
    (recanonicalized height oldHash b).number = b.number ∧ (recanonicalized height oldHash b).hash = b.hash ∧
      (recanonicalized height oldHash b).parentHash = b.parentHash := by
  have hkeys : ∀ (p : Prop) [Decidable p] (d e : ChainBlock),
      (d.number = b.number ∧ d.hash = b.hash ∧ d.parentHash = b.parentHash) →
      (e.number = b.number ∧ e.hash = b.hash ∧ e.parentHash = b.parentHash) →
      ((if p then d else e).number = b.number ∧ (if p then d else e).hash = b.hash ∧
        (if p then d else e).parentHash = b.parentHash) := by
    intro p _ d e hd he
    split
    · exact hd
    · exact he
  have hcleared := hkeys (b.foreignAt height oldHash = true) b.retire b ⟨rfl, rfl, rfl⟩ ⟨rfl, rfl, rfl⟩
  exact hkeys _ _ _ hcleared hcleared

/-- A flip of a height whose only row is a retained one brings back a row of the chain. -/
theorem Swaying.flip (h : Swaying s row a c chain) {height : Int} {oldHash : Hash} (habove : a.number < height)
    (hview : localBlockView s height = some (some oldHash, false)) (hcheckpoint : s'.checkpoint = s.checkpoint)
    (hrows : s'.blocks.rows = s.blocks.rows.map (recanonicalized height oldHash)) : Swaying s' row a c chain := by
  refine h.reflag hcheckpoint hrows (recanonicalized_keys height oldHash)
    (fun b _ hb => recanonicalized_of_ne (by omega)) fun k hk hash hhash => ?_
  by_cases hheight : k = height
  · subst hheight
    obtain ⟨d, hd, hnumber, -, rfl⟩ := canonicalHashAt_eq_some.mp hhash
    rw [hrows] at hd
    obtain ⟨b, hb, rfl⟩ := mem_map.mp hd
    rw [(recanonicalized_keys k oldHash b).1] at hnumber
    rw [(recanonicalized_keys k oldHash b).2.1]
    obtain ⟨only, honly, -⟩ := localBlockView_retained.mp hview
    obtain ⟨e, he, henumber, hehash, -⟩ := h.spine.stored k (by have := h.low; omega) hk
    have hbo := mem_rowsAt.mpr ⟨hb, hnumber⟩
    have heo := mem_rowsAt.mpr ⟨he, henumber⟩
    rw [honly, mem_singleton] at hbo heo
    rw [hbo, ← heo, hehash]
  · rw [canonicalHashAt_reflag hrows (fun b => (recanonicalized_keys height oldHash b).1)
      fun b _ hb => recanonicalized_of_ne (by omega)] at hhash
    exact h.spine.only k hk hash hhash

/-- Everything that is stored above the ancestor but not canonical lies below the sweep end. -/
theorem le_sweepEnd (ancestor : Int) (hb : b ∈ s.blocks.rows) (habove : ancestor < b.number)
    (hretired : b.canonical = false) : b.number ≤ sweepEnd s ancestor :=
  (Table.le_foldl_max (fun b : ChainBlock => b.number) _ _).2 b (mem_filter.mpr ⟨hb, by simp [habove, hretired]⟩)

/-- What a verified completion says about the rows above the ancestor. -/
structure Complete (s : Store) (row : RecoveryRow) (a : Ancestor) : Prop where
  canonical : ∀ k, a.number < k → k ≤ sweepEnd s a.number → (canonicalHashAt s k).isSome
  settled : ∀ o ∈ s.observations.rows, a.number < o.blockNumber → o.Settled s
  reached : ∀ stream, ∃ f, row.frontier stream = some f ∧ sweepEnd s a.number ≤ f

theorem verifyCompletionReady_complete {sweptTo : Int} (h : verifyCompletionReady s row = .ok sweptTo)
    (hancestor : row.ancestor = some a) : Complete s row a := by
  unfold verifyCompletionReady at h
  simp only [hancestor] at h
  split_ifs at h with hgaps hstale hstranded
  split at h
  · cases h
  next hshort =>
  refine ⟨fun k hlow hhigh => ?_, fun o ho habove => ?_, fun stream => ?_⟩
  · have hcount : (countCanonicalRange s (a.number + 1) (sweepEnd s a.number) : Int) =
        sweepEnd s a.number - (a.number + 1) + 1 := by
      by_contra hne
      exact hgaps ⟨by omega, by omega⟩
    exact (countCanonicalRange_eq_iff (by omega)).mp hcount k (by omega) hhigh
  · rw [not_not] at hstale hstranded
    have hfresh := countP_eq_zero.mp hstale o ho
    have hrevived := countP_eq_zero.mp hstranded o ho
    unfold DepositObservation.Settled
    cases hstatus : o.status <;> cases hblock : canonicalBlock s o.blockHash <;>
      simp [habove, hstatus, hblock, ObservationStatus.effective] at hfresh hrevived ⊢
  · have hnone := find?_eq_none.mp hshort stream (by cases stream <;> simp)
    obtain ⟨f, hf, hle⟩ := (any_eq_true _ _).mp (by simpa using hnone)
    exact ⟨f, hf, by simpa using hle⟩

/-- A released round leaves a grounded chain. -/
theorem Swaying.released (h : Swaying s row a c chain) (hcomplete : Complete s row a)
    (hbelow : ∀ o ∈ s.observations.rows, o.blockNumber ≤ a.number → o.Settled s)
    (horphans : ∀ o ∈ s.observations.rows, o.status = .orphaned → o.Anchored s) : Grounded s := by
  obtain ⟨f, hf, hend⟩ := hcomplete.reached .block
  have hf : f = c.height := h.frontier f hf
  have hsettled : ∀ o ∈ s.observations.rows, o.Settled s := by
    intro o ho
    by_cases hlow : o.blockNumber ≤ a.number
    · exact hbelow o ho hlow
    · exact hcomplete.settled o ho (by omega)
  refine ⟨fun hnone => ?_, fun c' hc' => ?_, fun c' hc' b hb hretired => ?_, hsettled, fun o ho => ?_⟩
  · rw [h.checkpoint] at hnone
    cases hnone
  · rw [h.checkpoint, some.injEq] at hc'
    subst hc'
    refine ⟨chain, h.spine, fun k hlow hhigh => ?_⟩
    by_cases hk : k ≤ a.number
    · exact h.kept k hlow hk
    · -- a height without a canonical row would be a retained one, hence below the sweep end
      have hsome : (canonicalHashAt s k).isSome := by
        by_cases hswept : k ≤ sweepEnd s a.number
        · exact hcomplete.canonical k (by omega) hswept
        · obtain ⟨b, hb, hnumber, -⟩ := h.spine.stored k hlow hhigh
          have hcanonical : b.canonical = true := by
            by_contra hfalse
            have hle := le_sweepEnd a.number hb (by omega) (by simpa using hfalse)
            omega
          rw [canonicalHashAt_eq_some.mpr ⟨b, hb, hnumber, hcanonical, rfl⟩]
          rfl
      obtain ⟨hash, hhash⟩ := isSome_iff_exists.mp hsome
      rw [hhash, h.spine.only k hhigh hash hhash]
  · rw [h.checkpoint, some.injEq] at hc'
    subst hc'
    by_cases hlow : b.number ≤ a.number
    · exact hlow.trans h.high
    · have hle := le_sweepEnd a.number hb (by omega) hretired
      omega
  · cases hstatus : o.status with
    | orphaned => exact horphans o ho hstatus
    | pending | confirmed =>
      obtain ⟨b, hb, hhash, -⟩ := canonicalBlock_eq_true.mp ((hsettled o ho).mp (by rw [hstatus]; rfl))
      exact ⟨b, hb, hhash⟩

end Rounds

section Congruence

variable {node : Lineage} {s s' : Store} {row row' : RecoveryRow} {a : Ancestor} {c : BlockCheckpoint}
  {chain : Int → Hash}

theorem Described.congr (h : Described node s) (hblocks : s'.blocks = s.blocks)
    (hobs : s'.observations = s.observations) : Described node s' :=
  ⟨hblocks ▸ h.number, hblocks ▸ h.parent, hobs ▸ h.height⟩

variable {o : DepositObservation}

theorem DepositObservation.Settled.congr (h : o.Settled s) (hblocks : s'.blocks = s.blocks) : o.Settled s' := by
  unfold DepositObservation.Settled canonicalBlock
  rwa [hblocks]

theorem DepositObservation.Anchored.congr (h : o.Anchored s) (hblocks : s'.blocks = s.blocks) : o.Anchored s' := by
  unfold DepositObservation.Anchored
  rwa [hblocks]

theorem Spine.congr (h : Spine s c chain) (hblocks : s'.blocks = s.blocks) : Spine s' c chain := by
  refine ⟨h.ordered, hblocks ▸ h.low, h.tip, hblocks ▸ h.stored, fun k hk hash hhash => ?_⟩
  rw [canonicalHashAt_congr hblocks] at hhash
  exact h.only k hk hash hhash

theorem CanonicalTo.congr {top : Int} (h : CanonicalTo s c chain top) (hblocks : s'.blocks = s.blocks) :
    CanonicalTo s' c chain top := fun k hlow hhigh => by
  rw [canonicalHashAt_congr hblocks]
  exact h k hlow hhigh

theorem Grounded.congr (h : Grounded s) (hblocks : s'.blocks = s.blocks)
    (hcheckpoint : s'.checkpoint = s.checkpoint) (hobs : s'.observations = s.observations) : Grounded s' := by
  refine ⟨hblocks ▸ hcheckpoint ▸ h.empty, fun c hc => ?_, hblocks ▸ hcheckpoint ▸ h.retired,
    fun o ho => (h.settled o (hobs ▸ ho)).congr hblocks, fun o ho => (h.anchored o (hobs ▸ ho)).congr hblocks⟩
  obtain ⟨chain, hspine, hall⟩ := h.spine c (hcheckpoint ▸ hc)
  exact ⟨chain, hspine.congr hblocks, hall.congr hblocks⟩

theorem Swaying.congr (h : Swaying s row a c chain) (hblocks : s'.blocks = s.blocks)
    (hcheckpoint : s'.checkpoint = s.checkpoint) (hfrontier : row'.blockFrontier = row.blockFrontier) :
    Swaying s' row' a c chain :=
  ⟨hcheckpoint.trans h.checkpoint, h.spine.congr hblocks, h.nonneg, h.low, h.high, h.kept.congr hblocks,
    fun f hf => h.frontier f (hfrontier ▸ hf)⟩

theorem ChainInv.of_ground (hd : Described node s) (hg : Grounded s)
    (hrow : ∀ row, s.recovery = some row → row.ancestor = none ∧
      (row.phase = .detected ∧ row.blockFrontier = none ∨ row.phase = .reconcileRequired)) :
    ChainInv node s where
  described := hd
  orphans o ho _ := hg.anchored o ho
  grounded _ := hg
  swaying row a hr ha := by
    rw [(hrow row hr).1] at ha
    cases ha
  opening row hr hphase := by
    rcases (hrow row hr).2 with ⟨-, hfrontier⟩ | hheld
    · exact ⟨hfrontier, hg.anchored⟩
    · rw [hheld] at hphase
      cases hphase
  unconfirmed row hr _ := (hrow row hr).2.imp_left And.left
  searching row hr _ := (hrow row hr).1

theorem ChainInv.of_round (hrow : s.recovery = some row) (ha : row.ancestor = some a) (hd : Described node s)
    (horphans : ∀ o ∈ s.observations.rows, o.status = .orphaned → o.Anchored s)
    (hsway : ∃ c chain, Swaying s row a c chain)
    (hbelow : ∀ o ∈ s.observations.rows, o.blockNumber ≤ a.number → o.Settled s)
    (hopening : row.phase.opening = true → row.blockFrontier = none ∧ ∀ o ∈ s.observations.rows, o.Anchored s)
    (hphase : row.phase ≠ .detected) : ChainInv node s where
  described := hd
  orphans := horphans
  grounded hnone := by
    rw [hnone row hrow] at ha
    cases ha
  swaying row' a' hr ha' := by
    rw [hrow, some.injEq] at hr
    subst hr
    rw [ha, some.injEq] at ha'
    subst ha'
    exact ⟨hsway, hbelow⟩
  opening row' hr := by
    rw [hrow, some.injEq] at hr
    subst hr
    exact hopening
  unconfirmed row' hr hnone := by
    rw [hrow, some.injEq] at hr
    subst hr
    cases ha.symm.trans hnone
  searching row' hr hdetected := by
    rw [hrow, some.injEq] at hr
    subst hr
    exact absurd hdetected hphase

section

variable (h : ChainInv node s) (hblocks : s'.blocks = s.blocks) (hcheckpoint : s'.checkpoint = s.checkpoint)
  (hobs : s'.observations = s.observations)
include h hblocks hcheckpoint hobs

/-- A round that only changes its phase, or nothing at all. -/
theorem ChainInv.move (hrow : s.recovery = some row) (hrow' : s'.recovery = some row') (hround : SameRound row row')
    (hfrontier : row'.blockFrontier = row.blockFrontier)
    (hopening : row'.phase.opening = true → row.phase.opening = true)
    (hphase : row.ancestor = none → row'.phase = .detected ∨ row'.phase = .reconcileRequired)
    (hsearching : row'.phase = .detected → row.phase = .detected) : ChainInv node s' := by
  have hd := h.described.congr hblocks hobs
  have hearly : row'.phase.opening = true → row'.blockFrontier = none ∧ ∀ o ∈ s'.observations.rows, o.Anchored s' := by
    intro hphase'
    obtain ⟨hnone, hanchored⟩ := h.opening row hrow (hopening hphase')
    exact ⟨hfrontier.trans hnone, fun o ho => (hanchored o (hobs ▸ ho)).congr hblocks⟩
  cases ha : row.ancestor with
  | none =>
    have hg : Grounded s := h.grounded fun r hr => by
      rw [hrow, some.injEq] at hr
      rw [← hr, ha]
    refine .of_ground hd (hg.congr hblocks hcheckpoint hobs) fun r hr => ?_
    rw [hrow', some.injEq] at hr
    subst hr
    refine ⟨hround.ancestor.trans ha, (hphase ha).imp_left fun hdetected => ⟨hdetected, ?_⟩⟩
    exact (hearly (by rw [hdetected]; rfl)).1
  | some a =>
    obtain ⟨⟨c, chain, hsway⟩, hbelow⟩ := h.swaying row a hrow ha
    exact .of_round hrow' (hround.ancestor.trans ha) hd
      (fun o ho hstatus => (h.orphans o (hobs ▸ ho) hstatus).congr hblocks)
      ⟨c, chain, hsway.congr hblocks hcheckpoint hfrontier⟩
      (fun o ho hlow => (hbelow o (hobs ▸ ho) hlow).congr hblocks) hearly fun hdetected => by
        rw [h.searching row hrow (hsearching hdetected)] at ha
        cases ha

/-- A step that touches neither headers nor observations nor the round. -/
theorem ChainInv.quiet (hrow : s'.recovery = s.recovery) : ChainInv node s' := by
  cases hactive : s.recovery with
  | none =>
    refine .of_ground (h.described.congr hblocks hobs) ((h.grounded fun r hr => ?_).congr hblocks hcheckpoint hobs)
      fun r hr => ?_
    · cases hactive.symm.trans hr
    · rw [hrow, hactive] at hr
      cases hr
  | some row =>
    exact h.move hblocks hcheckpoint hobs hactive (hrow.trans hactive) (.refl row) rfl id (h.unconfirmed row hactive) id

end

end Congruence

/-! What the callers of the transactions bring along, and what a run needs beyond it. -/

/-- The height lies above the ancestor of the active round. -/
def Store.AboveAncestor (s : Store) (height : Int) : Prop :=
  ∀ row, s.recovery = some row → ∀ a, row.ancestor = some a → a.number < height

/-- What the callers bring along: headers and logs of the node, matches of the unit's own rows,
ranges above the ancestor, and flips of heights above it whose only row is a retained one. -/
def Call.Genuine (node : Lineage) (s : Store) : Call → Prop
  | .commitBlock _ _ w _ => w.number = node.number w.hash ∧ w.parent = node.parent w.hash
  | .commitDepositUnit _ _ _ batch _ range _ => ∀ m ∈ batch.matched,
      m.blockNumber ∈ range.heights ∧ batch.canonical m.blockNumber = some m.blockHash
  | .replayRange _ _ _ lo _ blocks _ observations => s.AboveAncestor lo ∧
      (∀ b ∈ blocks, b.number = node.number b.hash) ∧
      ∀ o ∈ observations, o.blockNumber = node.number o.blockHash
  | .recanonicalize _ _ height oldHash => s.AboveAncestor height ∧ localBlockView s height = some (some oldHash, false)
  | _ => True

/-- A confirmed ancestor lies on the scanned chain, and a replayed header comes with its own
parent. -/
def Call.Aligned (node : Lineage) (s : Store) : Call → Prop
  | .confirmAncestor _ _ a => ∀ c, s.checkpoint = some c → a.number ≤ c.height
  | .replayRange _ _ _ _ _ blocks _ _ => ∀ b ∈ blocks, ∀ parent, b.parentHash = some parent →
      parent = node.parent b.hash
  | _ => True

end TxHarbor.Indexer
