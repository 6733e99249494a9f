import TxHarbor.Indexer.Loop

open Relational Constrained Tx Transition List

namespace TxHarbor.Indexer

open Table

/-! The pass of `recanonicalizeHeight`: a flip and the revivals of the orphans on the block. -/

/-- What a revival checks of an orphan besides its canonical block. -/
structure ReviveReady (s : Store) (row : RecoveryRow) (o : DepositObservation) : Prop where
  round : o.orphanRecoveryID = some row.recoveryID
  log : ∃ l ∈ s.logs.rows, l.toIdentity = o.toIdentity
  version : ∃ v ∈ s.versions.rows, v.versionSeq = o.versionSeq
  first : revivalTransition o.toIdentity row.recoveryID ∉ s.transitions.rows

instance (s : Store) (row : RecoveryRow) (o : DepositObservation) : Decidable (ReviveReady s row o) :=
  decidable_of_iff (o.orphanRecoveryID = some row.recoveryID ∧ (∃ l ∈ s.logs.rows, l.toIdentity = o.toIdentity) ∧
      (∃ v ∈ s.versions.rows, v.versionSeq = o.versionSeq) ∧
      revivalTransition o.toIdentity row.recoveryID ∉ s.transitions.rows)
    ⟨fun h => ⟨h.1, h.2.1, h.2.2.1, h.2.2.2⟩, fun h => ⟨h.round, h.log, h.version, h.first⟩⟩

variable {s : Store}

theorem observation_eq {o o' : DepositObservation} (ho : o ∈ s.observations.rows) (ho' : o' ∈ s.observations.rows)
    (h : o.toIdentity = o'.toIdentity) : o = o' :=
  s.observations.eq_of_clash ho ho' (by simp [clash, h])

theorem block_eq {b c : ChainBlock} (hb : b ∈ s.blocks.rows) (hc : c ∈ s.blocks.rows) (h : b.hash = c.hash) : b = c :=
  s.blocks.eq_of_clash hb hc (by simp [clash, h])

open Call Client DepositObservation List

section Revive

variable {cap : RecoveryCapture} {s : Store} {row : RecoveryRow} {o : DepositObservation}

/-- A revival goes through for an orphan that passes its checks. -/
theorem revive_commits (hgate : OwnedGate cap [.invalidated, .replaying] s row) (ho : o ∈ s.observations.rows)
    (horphaned : o.status = .orphaned) (hblock : ∃ b ∈ s.blocks.rows, b.hash = o.blockHash ∧ b.canonical = true)
    (hready : ReviveReady s row o) : ∃ s', (revive true cap o.toIdentity).body s = .ok (true, s') := by
  obtain ⟨b, hb, hhash, hcanonical⟩ := hblock
  have hselect : s.observations.select (fun p => p.toIdentity == o.toIdentity) = some o :=
    select_eq_some (fun p q hp hq => by simp_all [clash]) ho (by simp)
  have hselectBlock : s.blocks.select (fun c => c.hash == o.blockHash) = some b :=
    select_eq_some (fun p q hp hq => by simp_all [clash]) hb (by simp [hhash])
  cases hinsert : s.transitions.insert? (revivalTransition o.toIdentity row.recoveryID) with
  | none =>
    obtain ⟨r, hr, hclash⟩ := insert?_eq_none hinsert
    have heq : r = revivalTransition o.toIdentity row.recoveryID := by
      simpa [clash] using hclash
    exact absurd (heq ▸ hr) hready.first
  | some transitions =>
    obtain ⟨events, hevent⟩ := appendRecoveryEvent_ok row .observationRevived
      { s with transitions := transitions,
               observations := revivedObservations s o.toIdentity row.recoveryID }
    refine ⟨{ s with transitions := transitions,
                     observations := revivedObservations s o.toIdentity row.recoveryID, recoveryEvents := events }, ?_⟩
    change reviveRecoveryObservation true cap o.toIdentity s = .ok (true, _)
    simp only [reviveRecoveryObservation, eq_ok, ite_apply_eq_ok]
    exact ⟨row, s, hgate.openOwned, s, s, ⟨rfl, rfl⟩, o, s, ⟨hselect, rfl⟩,
      .inr ⟨by simp [horphaned], (), s, ⟨⟨horphaned, hready.round⟩, rfl⟩, b, s, ⟨hselectBlock, rfl⟩,
        (), s, ⟨hcanonical, rfl⟩, (), s, ⟨hready.log, rfl⟩, (), s, ⟨hready.version, rfl⟩, transitions,
        s, ⟨hinsert, rfl⟩, (), _, rfl, (), _, hevent, trivial, rfl⟩⟩

/-- A revival of an orphan that does not pass its checks is refused. -/
theorem revive_refused (cap : RecoveryCapture) (hactive : s.recovery = some row) (ho : o ∈ s.observations.rows)
    (horphaned : o.status = .orphaned) (hready : ¬ ReviveReady s row o) :
    ∃ err, (revive true cap o.toIdentity).body s = .error err := by
  cases hbody : (revive true cap o.toIdentity).body s with
  | error err => exact ⟨err, rfl⟩
  | ok result =>
    obtain ⟨converted, s'⟩ := result
    rcases reviveRecoveryObservation_spec hbody with ⟨-, -, o', ho', hid, hpending⟩ |
      ⟨-, row', o', transitions, events, hgate, htarget, -⟩
    · rw [observation_eq ho' ho hid, horphaned] at hpending
      cases hpending
    · have hrow : row' = row := Option.some.inj (hgate.active.symm.trans hactive)
      subst hrow
      have heq : o' = o := observation_eq htarget.stored ho htarget.identity
      subst heq
      exact absurd ⟨htarget.round, htarget.log, htarget.version, htarget.first⟩ hready

/-- The observation with this identity is pending. -/
def PendingAt (s : Store) (id : Identity) : Prop := ∃ o ∈ s.observations.rows, o.toIdentity = id ∧ o.status = .pending

instance (s : Store) (id : Identity) : Decidable (PendingAt s id) := by
  unfold PendingAt
  infer_instance

/-- What a committed revival changes: one observation becomes pending, one transition row says so. -/
structure Revived (s s' : Store) (row : RecoveryRow) (o : DepositObservation) : Prop where
  recovery : s'.recovery = s.recovery
  blocks : s'.blocks = s.blocks
  logs : s'.logs = s.logs
  versions : s'.versions = s.versions
  transitions : s'.transitions.rows = s.transitions.rows ++ [revivalTransition o.toIdentity row.recoveryID]
  observations : s'.observations.rows = s.observations.rows.map fun p =>
    if p.toIdentity = o.toIdentity then p.revive else p

variable {s' : Store}

theorem revive_revived (hactive : s.recovery = some row) (ho : o ∈ s.observations.rows)
    (hbody : (revive true cap o.toIdentity).body s = .ok (true, s')) : Revived s s' row o := by
  rcases reviveRecoveryObservation_spec hbody with ⟨hfalse, -⟩ |
    ⟨-, row', o', transitions, events, hgate, htarget, hgrown, -, rfl⟩
  · cases hfalse
  have hrow : row' = row := Option.some.inj (hgate.active.symm.trans hactive)
  subst hrow
  have heq : o' = o := observation_eq htarget.stored ho htarget.identity
  subst heq
  refine ⟨rfl, rfl, rfl, rfl, hgrown, ?_⟩
  change (s.observations.rows.map fun p =>
    if p.orphanAt o'.toIdentity row'.recoveryID then p.revive else p) = _
  apply map_congr_left
  intro p hp
  by_cases hid : p.toIdentity = o'.toIdentity
  · have hpo : p = o' := observation_eq hp ho hid
    subst hpo
    simp [orphanAt, htarget.orphaned, htarget.round]
  · simp [orphanAt, hid]

variable {p : DepositObservation}

section

variable (h : Revived s s' row o)
include h

theorem Revived.mem_of_ne (hp : p.toIdentity ≠ o.toIdentity) : p ∈ s'.observations.rows ↔ p ∈ s.observations.rows := by
  rw [h.observations, mem_map]
  constructor
  · rintro ⟨q, hq, rfl⟩
    split at hp
    · next hid => exact absurd hid hp
    · next hid => rwa [if_neg hid]
  · intro hmem
    exact ⟨p, hmem, if_neg hp⟩

theorem Revived.revive_mem (ho : o ∈ s.observations.rows) : o.revive ∈ s'.observations.rows := by
  rw [h.observations]
  exact mem_map.mpr ⟨o, ho, if_pos rfl⟩

theorem Revived.identities :
    s'.observations.rows.map (fun p => p.toIdentity) = s.observations.rows.map (fun p => p.toIdentity) := by
  rw [h.observations, map_map]
  apply map_congr_left
  intro p _
  simp only [Function.comp_apply]
  split <;> rfl

theorem Revived.ready_iff (hp : p.toIdentity ≠ o.toIdentity) : ReviveReady s' row p ↔ ReviveReady s row p := by
  have hfirst : revivalTransition p.toIdentity row.recoveryID ∈ s'.transitions.rows ↔
      revivalTransition p.toIdentity row.recoveryID ∈ s.transitions.rows := by
    rw [h.transitions, mem_append, mem_singleton, or_iff_left]
    intro heq
    exact hp (congrArg (fun t => t.toIdentity) heq)
  constructor
  · intro hready
    exact ⟨hready.round, h.logs ▸ hready.log, h.versions ▸ hready.version, fun hmem => hready.first (hfirst.mpr hmem)⟩
  · intro hready
    exact ⟨hready.round, h.logs ▸ hready.log, h.versions ▸ hready.version, fun hmem => hready.first (hfirst.mp hmem)⟩

/-- What the first `n` revivals of a block's orphans leave. -/
structure RevivedFirst (n : Nat) (ids : List Identity) (row : RecoveryRow) (s t : Store) : Prop where
  recovery : t.recovery = s.recovery
  blocks : t.blocks = s.blocks
  identities : t.observations.rows.map (fun o => o.toIdentity) = s.observations.rows.map (fun o => o.toIdentity)
  others : ∀ o ∈ s.observations.rows, o.toIdentity ∉ ids → o ∈ t.observations.rows
  pending_iff : (∀ id ∈ ids, PendingAt t id) ↔
    ids.length ≤ n ∧ ∀ o ∈ s.observations.rows, o.toIdentity ∈ ids → ReviveReady s row o

/-- One revival, then `n` more. -/
theorem Revived.first {t : Store} {n : Nat} {rest : List Identity}
    (ho : o ∈ s.observations.rows) (hready : ReviveReady s row o) (hfresh : o.toIdentity ∉ rest)
    (hrest : RevivedFirst n rest row s' t) : RevivedFirst (n + 1) (o.toIdentity :: rest) row s t := by
  have hne : ∀ p : DepositObservation, p.toIdentity ∈ rest → p.toIdentity ≠ o.toIdentity :=
    fun p hp heq => hfresh (heq ▸ hp)
  refine ⟨hrest.recovery.trans h.recovery, hrest.blocks.trans h.blocks,
    hrest.identities.trans h.identities, fun p hp hid => ?_, ?_⟩
  · rw [mem_cons, not_or] at hid
    exact hrest.others p ((h.mem_of_ne hid.1).mpr hp) hid.2
  · constructor
    · intro hpending
      obtain ⟨hlength, hall⟩ := hrest.pending_iff.mp fun id hid => hpending id (by simp [hid])
      refine ⟨by simpa using hlength, fun p hp hid => ?_⟩
      rcases mem_cons.mp hid with hid | hid
      · rwa [observation_eq hp ho hid]
      · exact (h.ready_iff (hne p hid)).mp (hall p ((h.mem_of_ne (hne p hid)).mpr hp) hid)
    · rintro ⟨hlength, hall⟩ id hid
      rcases mem_cons.mp hid with rfl | hid
      · exact ⟨o.revive, hrest.others _ (h.revive_mem ho) hfresh, rfl, rfl⟩
      · refine hrest.pending_iff.mpr ⟨by simpa using hlength, fun p hp hp' => ?_⟩ id hid
        have hp := (h.mem_of_ne (hne p hp')).mp hp
        exact (h.ready_iff (hne p hp')).mpr (hall p hp (by simp [hp']))

end

/-- The revivals run into the end of the script or into an orphan that is refused; either leaves
an orphan behind. -/
theorem revivals_run {blockHash : Hash} {ids : List Identity} (hnodup : ids.Nodup) (n : Nat)
    (hgate : OwnedGate cap [.invalidated, .replaying] s row)
    (hblock : ∃ b ∈ s.blocks.rows, b.hash = blockHash ∧ b.canonical = true)
    (horphans : ∀ id ∈ ids, ∃ o ∈ s.observations.rows, o.toIdentity = id ∧ o.blockHash = blockHash ∧
      o.status = .orphaned) :
    RevivedFirst n ids row s ((inOrder (ids.map (revive true cap))).run body (replicate n .none) s).1 := by
  induction ids generalizing s n with
  | nil => exact ⟨rfl, rfl, rfl, fun o ho _ => ho, by simp⟩
  | cons id rest ih =>
    obtain ⟨o, ho, rfl, hhash, horphaned⟩ := horphans id (by simp)
    obtain ⟨hfresh, hnodup⟩ := nodup_cons.mp hnodup
    -- where the pass ends in `s` itself, the first orphan is still one
    have hended : (n = 0 ∨ ¬ ReviveReady s row o) → RevivedFirst n (o.toIdentity :: rest) row s s := by
      intro hend
      refine ⟨rfl, rfl, rfl, fun o ho _ => ho, ?_⟩
      constructor
      · intro hpending
        obtain ⟨p, hp, hid, hstatus⟩ := hpending o.toIdentity (by simp)
        rw [observation_eq hp ho hid, horphaned] at hstatus
        cases hstatus
      · rintro ⟨hlength, hready⟩
        rcases hend with rfl | hnot
        · simp at hlength
        · exact absurd (hready o ho (by simp)) hnot
    cases n with
    | zero => exact hended (.inl rfl)
    | succ n =>
      change RevivedFirst (n + 1) (o.toIdentity :: rest) row s ((call (revive true cap o.toIdentity) >>= fun _ =>
          inOrder (rest.map (revive true cap))).run body (.none :: replicate n .none) s).1
      rw [run_call_bind]
      by_cases hready : ReviveReady s row o
      · obtain ⟨s', hbody⟩ := revive_commits hgate ho horphaned
          (by obtain ⟨b, hb, hbh, hc⟩ := hblock; exact ⟨b, hb, hbh.trans hhash.symm, hc⟩) hready
        have hrevived := revive_revived hgate.active ho hbody
        have hattempt : attempt .none (revive true cap o.toIdentity).body id s =
            (.committed true, s') := attempt_none_ok hbody rfl
        simp only [hattempt]
        apply hrevived.first ho hready hfresh
        apply ih hnodup n
        · exact ⟨hrevived.recovery.trans hgate.active, hgate.owner, hgate.version, hgate.phase⟩
        · rwa [hrevived.blocks]
        · intro id hid
          obtain ⟨p, hp, rfl, hrest⟩ := horphans id (by simp [hid])
          exact ⟨p, (hrevived.mem_of_ne fun heq => hfresh (heq ▸ hid)).mpr hp, rfl, hrest⟩
      · obtain ⟨err, hbody⟩ := revive_refused cap hgate.active ho horphaned hready
        have hattempt : attempt .none (revive true cap o.toIdentity).body id s =
            (.failed err, s) := attempt_none_error hbody
        simp only [hattempt]
        exact hended (.inr hready)

end Revive

open ChainBlock Bool

section Flip

variable {cap : RecoveryCapture} {s : Store} {row : RecoveryRow} {height : Int} {oldHash : Hash} {b : ChainBlock}

variable {c : ChainBlock} {s' : Store}

/-- On a height without a canonical row, a flip touches the retained row of its hash only. -/
theorem recanonicalized_eq (hc : c.number = height → c.canonical = false) :
    recanonicalized height oldHash c = if c.retiredAt height oldHash then c.restore else c := by
  have hforeign : c.foreignAt height oldHash = false := by
    by_cases hnumber : c.number = height
    · simp [foreignAt, hc hnumber]
    · simp [foreignAt, hnumber]
  simp [recanonicalized, hforeign]

/-- The columns of a row under a flip of a swept height. -/
theorem flipped_columns (oldHash : Hash) (hc : c.number = height → c.canonical = false) :
    let d := if c.retiredAt height oldHash then c.restore else c
    d.hash = c.hash ∧ d.number = c.number ∧
      (d.canonical = true → c.number = height ∧ c.hash = oldHash ∨ c.number ≠ height ∧ c.canonical = true) := by
  intro d
  by_cases hretired : c.retiredAt height oldHash = true
  · have hd : d = c.restore := if_pos hretired
    simp only [retiredAt, and_eq_true, beq_iff_eq] at hretired
    rw [hd]
    exact ⟨rfl, rfl, fun _ => .inl hretired.1⟩
  · have hd : d = c := if_neg hretired
    rw [hd]
    refine ⟨rfl, rfl, fun hcanonical => .inr ⟨fun hnumber => ?_, hcanonical⟩⟩
    rw [hc hnumber] at hcanonical
    cases hcanonical

/-- Two rows of different hash cannot both become canonical on a swept height. -/
theorem flipped_unique {d : ChainBlock} (hc : c.number = height → c.canonical = false)
    (hd : d.number = height → d.canonical = false) (hcd : clash c d = false) :
    clash (if c.retiredAt height oldHash then c.restore else c)
      (if d.retiredAt height oldHash then d.restore else d) = false := by
  obtain ⟨hcHash, hcNumber, hcCanonical⟩ := flipped_columns oldHash hc
  obtain ⟨hdHash, hdNumber, hdCanonical⟩ := flipped_columns oldHash hd
  simp only [clash, or_eq_false_iff, beq_eq_false_iff_ne, and_eq_false_imp, beq_iff_eq] at hcd ⊢
  rw [hcHash, hdHash, hcNumber, hdNumber]
  refine ⟨hcd.1, fun hnumber hcanonical => ?_⟩
  by_contra hboth
  rw [not_eq_false] at hboth
  rcases hcCanonical hcanonical with ⟨hat, hhash⟩ | ⟨hoff, hold⟩
  · rcases hdCanonical hboth with ⟨-, hhash'⟩ | ⟨hoff, -⟩
    · exact hcd.1 (hhash.trans hhash'.symm)
    · exact hoff (hnumber ▸ hat)
  · rcases hdCanonical hboth with ⟨hat, -⟩ | ⟨-, hold'⟩
    · exact hoff (hnumber.trans hat)
    · rw [hcd.2 hnumber hold] at hold'
      cases hold'

/-- A flip goes through on a swept height that stores the block. -/
theorem recanonicalize_commits (hgate : OwnedGate cap [.invalidated, .replaying] s row)
    (hb : b ∈ s.blocks.rows) (hretired : b.retiredAt height oldHash = true)
    (hswept : ∀ c ∈ s.blocks.rows, c.number = height → c.canonical = false) :
    ∃ s', (recanonicalize true cap height oldHash).body s = .ok (true, s') := by
  have hforeign : ∀ c ∈ s.blocks.rows, c.foreignAt height oldHash = false := by
    intro c hc
    by_cases hnumber : c.number = height
    · simp [foreignAt, hswept c hc hnumber]
    · simp [foreignAt, hnumber]
  have hcanonical : canonicalHashAt s height = none := by
    rw [canonicalHashAt, Option.map_eq_none_iff, select_eq_none]
    intro c hc
    by_cases hnumber : c.number = height
    · simp [hswept c hc hnumber]
    · simp [hnumber]
  have hcleared : s.blocks.update (foreignAt height oldHash) retire retire_keepsKeys = s.blocks := by
    apply Table.ext
    rw [rows_update]
    conv_rhs => rw [← map_id s.blocks.rows]
    apply map_congr_left
    intro c hc
    simp [hforeign c hc]
  have hunique : ∀ c ∈ s.blocks.rows, ∀ d ∈ s.blocks.rows, clash c d = false →
      clash (if c.retiredAt height oldHash then c.restore else c)
        (if d.retiredAt height oldHash then d.restore else d) = false :=
    fun c hc d hd hcd => flipped_unique (hswept c hc) (hswept d hd) hcd
  obtain ⟨restored, hrestored⟩ := update?_isSome hunique
  have hone : s.blocks.affected (retiredAt height oldHash) = 1 :=
    affected_eq_one (fun c d hc hd => by simp_all [retiredAt, clash]) hb hretired
  obtain ⟨events, hevent⟩ := appendRecoveryEvent_ok row .replayProgress { s with blocks := restored }
  refine ⟨{ s with blocks := restored, recoveryEvents := events }, ?_⟩
  simp only [body, committing, recanonicalizeRecoveryBlock, eq_ok]
  exact ⟨(), _, ⟨row, s, hgate.openOwned, s, s, ⟨rfl, rfl⟩, (), s, ⟨.inr hcanonical, rfl⟩, restored, s,
    ⟨by rwa [hcleared], rfl⟩, (), s, ⟨by rwa [hcleared], rfl⟩, (), _, rfl,
    hevent⟩, trivial, rfl⟩

theorem orphansAtBlock_nodup (s : Store) (blockHash : Hash) : (orphansAtBlock s blockHash).Nodup := by
  unfold orphansAtBlock
  rw [(perm_insertionSort _ _).nodup_iff]
  refine pairwise_map.mpr ((s.observations.unique.filter _).imp fun hfree heq => ?_)
  simp [clash, heq] at hfree

/-- What a pass leaves of which the flip and the first `n` revivals have gone through. -/
structure FlippedFirst (n : Nat) (row : RecoveryRow) (height : Int) (oldHash : Hash) (s t : Store) :
    Prop where
  recovery : t.recovery = s.recovery
  canonical : ∃ c ∈ t.blocks.rows, c.hash = oldHash ∧ c.number = height ∧ c.canonical = true
  identities : t.observations.rows.map (fun o => o.toIdentity) = s.observations.rows.map (fun o => o.toIdentity)
  pending_iff : (∀ id ∈ orphansAtBlock s oldHash, PendingAt t id) ↔ (orphansAtBlock s oldHash).length ≤ n ∧
      ∀ o ∈ s.observations.rows, o.blockHash = oldHash → o.status = .orphaned → ReviveReady s row o

/-- What a committed flip leaves: the block is canonical, and only blocks have changed. -/
structure Flipped (height : Int) (oldHash : Hash) (s s' : Store) : Prop where
  recovery : s'.recovery = s.recovery
  observations : s'.observations = s.observations
  logs : s'.logs = s.logs
  versions : s'.versions = s.versions
  transitions : s'.transitions = s.transitions
  canonical : ∃ c ∈ s'.blocks.rows, c.hash = oldHash ∧ c.number = height ∧ c.canonical = true

theorem recanonicalize_flipped (hb : b ∈ s.blocks.rows) (hretired : b.retiredAt height oldHash = true)
    (hswept : ∀ c ∈ s.blocks.rows, c.number = height → c.canonical = false)
    (hbody : (recanonicalize true cap height oldHash).body s = .ok (true, s')) : Flipped height oldHash s s' := by
  have hflip := of_committing hbody
  obtain ⟨row', blocks, events, -, hrows, -, -, rfl⟩ := recanonicalizeRecoveryBlock_spec hflip
  refine ⟨rfl, rfl, rfl, rfl, rfl, b.restore, ?_, ?_⟩
  · change b.restore ∈ blocks.rows
    rw [hrows]
    refine mem_map.mpr ⟨b, hb, ?_⟩
    rw [recanonicalized_eq (hswept b hb), if_pos hretired]
  · simp only [retiredAt, and_eq_true, beq_iff_eq] at hretired
    exact ⟨hretired.1.2, hretired.1.1, rfl⟩

theorem Flipped.ready_iff (h : Flipped height oldHash s s') {o : DepositObservation} :
    ReviveReady s' row o ↔ ReviveReady s row o := by
  constructor
  · exact fun hready => ⟨hready.round, h.logs ▸ hready.log, h.versions ▸ hready.version, h.transitions ▸ hready.first⟩
  · exact fun hready => ⟨hready.round, h.logs ▸ hready.log, h.versions ▸ hready.version, h.transitions ▸ hready.first⟩

/-- The revivals that follow a flip are those of the orphans the block had before it. -/
theorem Flipped.pass {t : Store} {n : Nat} (h : Flipped height oldHash s s')
    (hpass : RevivedFirst n (orphansAtBlock s oldHash) row s' t) : FlippedFirst n row height oldHash s t := by
  refine ⟨hpass.recovery.trans h.recovery, hpass.blocks ▸ h.canonical, ?_, ?_⟩
  · rw [hpass.identities, h.observations]
  · rw [hpass.pending_iff, h.observations]
    refine and_congr_right fun _ => forall₂_congr fun o ho => ?_
    have hmem : o.toIdentity ∈ orphansAtBlock s oldHash ↔ o.blockHash = oldHash ∧ o.status = .orphaned := by
      rw [mem_orphansAtBlock]
      constructor
      · rintro ⟨p, hp, hblock, hstatus, hid⟩
        rw [← observation_eq hp ho hid]
        exact ⟨hblock, hstatus⟩
      · exact fun ⟨hblock, hstatus⟩ => ⟨o, ho, hblock, hstatus, rfl⟩
    rw [hmem, h.ready_iff, and_imp]

/-- A pass of `n + 1` transactions on a swept height that stores the block: the flip, and as many
revivals as fit. -/
theorem recanonicalizeHeight_run (n : Nat) (hgate : OwnedGate cap [.invalidated, .replaying] s row)
    (hb : b ∈ s.blocks.rows) (hretired : b.retiredAt height oldHash = true)
    (hswept : ∀ c ∈ s.blocks.rows, c.number = height → c.canonical = false) :
    FlippedFirst n row height oldHash s
      ((recanonicalizeHeight cap height oldHash).run body (replicate (n + 1) .none) s).1 := by
  obtain ⟨s', hbody⟩ := recanonicalize_commits hgate hb hretired hswept
  have hattempt : attempt .none (recanonicalize true cap height oldHash).body id s =
      (.committed true, s') := attempt_none_ok hbody rfl
  have hflipped := recanonicalize_flipped hb hretired hswept hbody
  change FlippedFirst n row height oldHash s
    ((call (recanonicalize true cap height oldHash) >>= fun _ => get >>= fun t =>
      inOrder ((orphansAtBlock t oldHash).map (.revive true cap))).run body (.none :: replicate n .none) s).1
  rw [run_call_bind]
  simp only [hattempt]
  have horphans : orphansAtBlock s' oldHash = orphansAtBlock s oldHash := by
    simp only [orphansAtBlock, hflipped.observations]
  change FlippedFirst n row height oldHash s
    ((inOrder ((orphansAtBlock s' oldHash).map (.revive true cap))).run body (replicate n .none) s').1
  rw [horphans]
  apply hflipped.pass
  apply revivals_run (orphansAtBlock_nodup s oldHash)
  · exact ⟨hflipped.recovery.trans hgate.active, hgate.owner, hgate.version, hgate.phase⟩
  · obtain ⟨c, hc, hhash, -, hcanonical⟩ := hflipped.canonical
    exact ⟨c, hc, hhash, hcanonical⟩
  · intro id hid
    obtain ⟨o, ho, hblock, hstatus, hid⟩ := mem_orphansAtBlock.mp hid
    exact ⟨o, hflipped.observations ▸ ho, hid, hblock, hstatus⟩

end Flip

variable {height : Int}

theorem mem_rowsAt {b : ChainBlock} : b ∈ rowsAt s height ↔ b ∈ s.blocks.rows ∧ b.number = height := by
  simp [rowsAt]

theorem localBlockView_retained {hash : Hash} : localBlockView s height = some (some hash, false) ↔
      ∃ b, rowsAt s height = [b] ∧ b.hash = hash ∧ b.canonical = false := by
  have hperm := perm_insertionSort (fun a b : ChainBlock => a.hash ≤ b.hash) (rowsAt s height)
  unfold localBlockView
  generalize (rowsAt s height).insertionSort (fun a b => a.hash ≤ b.hash) = sorted at hperm
  match sorted with
  | [] => simp [blockView, hperm.symm.eq_nil]
  | [b] =>
    have hrows : rowsAt s height = [b] := (singleton_perm.mp hperm).symm
    simp [blockView, hrows]
  | b :: c :: rest =>
    have hlength := hperm.length_eq
    constructor
    · intro h
      simp only [blockView] at h
      split at h
      · cases h
      · cases hcanonical : canonicalHashAt s height <;> simp [hcanonical] at h
    · rintro ⟨d, hd, -⟩
      simp [hd] at hlength

section Kept

variable {s₁ : Store} {blockHash : Hash}

/-- The block is canonical, and its observations are as they were in `s₁`. -/
def SettledBlock (s₁ : Store) (blockHash : Hash) (s : Store) : Prop :=
  (∃ c ∈ s.blocks.rows, c.hash = blockHash ∧ c.canonical = true) ∧
    ∀ o ∈ s₁.observations.rows, o.blockHash = blockHash → o ∈ s.observations.rows

variable {s s' : Store} {lo hi : Int} {stream : RecoveryStream}

variable {headers : List ReplayBlock}

theorem ReplayedRows.mem (h : ReplayedRows s lo hi headers stream s') :
    (∀ b ∈ s.blocks.rows, b ∈ s'.blocks.rows) ∧ ∀ o ∈ s.observations.rows, o ∈ s'.observations.rows := by
  cases h with
  | block blocks added rows fresh =>
    refine ⟨fun b hb => ?_, fun o ho => ho⟩
    change b ∈ blocks.rows
    rw [rows]
    exact mem_append_left _ hb
  | log => exact ⟨fun b hb => hb, fun o ho => ho⟩
  | deposit observations added rows pending =>
    refine ⟨fun b hb => hb, fun o ho => ?_⟩
    change o ∈ observations.rows
    rw [rows]
    exact mem_append_left _ ho

/-- A block of a replayed range was stored before or is one of the assembled headers. -/
theorem ReplayedRows.block_cases (h : ReplayedRows s lo hi headers stream s') {b : ChainBlock}
    (hb : b ∈ s'.blocks.rows) : b ∈ s.blocks.rows ∨ ReplayedHeader s lo hi headers b := by
  cases h with
  | block blocks added rows fresh =>
    change b ∈ blocks.rows at hb
    rw [rows, mem_append] at hb
    exact hb.imp_right (fresh b)
  | log | deposit => exact .inl hb

theorem ReplayedProgress.tables (h : ReplayedProgress s lo hi stream s') :
    s'.blocks = s.blocks ∧ s'.observations = s.observations := by
  cases h with
  | block => exact ⟨rfl, rfl⟩
  | unit u => cases u <;> exact ⟨rfl, rfl⟩

/-- The loop never touches the observations of a block that is canonical again: it flips back only
retained rows, and revives only what it has just flipped. -/
theorem settledBlock_keeps : Keeps (SettledBlock s₁ blockHash) (fun _ _ => True) (fun hash => hash ≠ blockHash) where
  step := by
    rintro s c s' ⟨⟨b, hb, hhash, hcanonical⟩, hkept⟩ hlate hcommitted
    cases hcommitted with
    | replayed row row' events s₂ s₃ gate ordered rows covered progress =>
      obtain ⟨hblocks, hobservations⟩ := progress.tables
      refine ⟨⟨b, ?_, hhash, hcanonical⟩, fun o ho hblock => ?_⟩
      · change b ∈ s₃.blocks.rows
        rw [hblocks]
        exact rows.mem.1 b hb
      · change o ∈ s₃.observations.rows
        rw [hobservations]
        exact rows.mem.2 o (hkept o ho hblock)
    | recanonicalized row blocks events gate rows =>
      obtain ⟨d, hrows, -, hd⟩ := localBlockView_retained.mp hlate
      refine ⟨⟨b, ?_, hhash, hcanonical⟩, hkept⟩
      change b ∈ blocks.rows
      rw [rows]
      refine mem_map.mpr ⟨b, hb, recanonicalized_of_ne fun hnumber => ?_⟩
      have hmem := mem_rowsAt.mpr ⟨hb, hnumber⟩
      rw [hrows, mem_singleton] at hmem
      rw [hmem, hd] at hcanonical
      cases hcanonical
    | revived row o transitions events gate target grown =>
      refine ⟨⟨b, hb, hhash, hcanonical⟩, fun p hp hblock => ?_⟩
      refine mem_map.mpr ⟨p, hkept p hp hblock, if_neg fun horphan => hlate ?_⟩
      simp only [orphanAt, and_eq_true, beq_iff_eq] at horphan
      rw [← horphan.1.1, hblock]
    | signalled | released => exact ⟨⟨b, hb, hhash, hcanonical⟩, hkept⟩
    | audited note => obtain ⟨_, _, rfl⟩ | ⟨_, _, _, rfl⟩ := note <;> cases hlate
    | _ => cases hlate
  flip := by
    rintro s height hash ⟨⟨b, hb, hhash, hcanonical⟩, -⟩ hview rfl
    obtain ⟨d, hrows, hdhash, hretained⟩ := localBlockView_retained.mp hview
    have hd : d ∈ rowsAt s height := by simp [hrows]
    rw [block_eq hb (mem_rowsAt.mp hd).1 (hhash.trans hdhash.symm), hretained] at hcanonical
    cases hcanonical

end Kept

/-- Stopping `recanonicalizeHeight` after its flip and restarting the loop. However long the round
goes on, the orphans of the block are pending exactly when the stop came after the last of their
revivals and each of them passes its checks. -/
theorem orphans_revived_iff_pass_whole (e : RecoveryExecutor) {s : Store} {row : RecoveryRow}
    (hactive : s.recovery = some row) (hphase : row.phase ∈ [RecoveryPhase.invalidated, .replaying])
    {height : Int} {hash : Hash} {b : ChainBlock} (hb : b ∈ s.blocks.rows) (hretired : b.retiredAt height hash = true)
    (hswept : ∀ c ∈ s.blocks.rows, c.number = height → c.canonical = false) (n : Nat)
    (resumed : List Iteration) {t : Store}
    (ht : t = run e.serve ((recanonicalizeHeight row.capture height hash).run Call.body
      (List.replicate (n + 1) .none) s).1 resumed) (hround : InRound row t) :
    (∀ id ∈ orphansAtBlock s hash, PendingAt t id) ↔ (orphansAtBlock s hash).length ≤ n ∧
        ∀ o ∈ s.observations.rows, o.blockHash = hash → o.status = .orphaned → ReviveReady s row o := by
  have hgate : OwnedGate row.capture [.invalidated, .replaying] s row := ⟨hactive, rfl, rfl, hphase⟩
  have hpass := recanonicalizeHeight_run n hgate hb hretired hswept
  generalize ((recanonicalizeHeight row.capture height hash).run body (replicate (n + 1) .none) s).1 = s₁ at hpass ht
  have hkept : SettledBlock s₁ hash t := by
    obtain ⟨c, hc, hhash, -, hcanonical⟩ := hpass.canonical
    exact serve_run_kept settledBlock_keeps e (fun _ _ _ _ _ _ => trivial) (hpass.recovery.trans hactive) hphase
      ⟨⟨c, hc, hhash, hcanonical⟩, fun o ho _ => ho⟩ ht hround
  have hsame : ∀ id ∈ orphansAtBlock s hash, PendingAt t id ↔ PendingAt s₁ id := by
    intro id hid
    obtain ⟨o, ho, hblock, -, rfl⟩ := mem_orphansAtBlock.mp hid
    -- the row of this identity is in `s₁` already, and the loop leaves it as it is
    have hmem : o.toIdentity ∈ s₁.observations.rows.map (fun p => p.toIdentity) := by
      rw [hpass.identities]
      exact mem_map.mpr ⟨o, ho, rfl⟩
    obtain ⟨p, hp, hpid⟩ := mem_map.mp hmem
    have hpblock : p.blockHash = hash := by
      rw [← hblock]
      exact congrArg (fun id => id.blockHash) hpid
    have hpt := hkept.2 p hp hpblock
    constructor
    · rintro ⟨q, hq, hqid, hpending⟩
      exact ⟨p, hp, hpid, observation_eq hq hpt (hqid.trans hpid.symm) ▸ hpending⟩
    · rintro ⟨q, hq, hqid, hpending⟩
      exact ⟨p, hpt, hpid, observation_eq hq hp (hqid.trans hpid.symm) ▸ hpending⟩
  rw [← hpass.pending_iff]
  exact forall₂_congr hsame

namespace Sample

/-- The first fork has lost height 1, and the round has swept it. -/
def swept : Store := run Store.next .empty (firstFork ++ establish 1 1 101 :: rewind 1 1 0 100)

/-- The round that has swept it. -/
def round : RecoveryRow := swept.recovery.get (by decide +kernel)

theorem round_active : swept.recovery = some round := (Option.some_get _).symm

/-- The node is back on the first fork: the flip of height 1, then `n` transactions more. -/
def flipped (n : Nat) : Store :=
  ((recanonicalizeHeight round.capture 1 (hash 101)).run Call.body (List.replicate (n + 1) .none) swept).1

end Sample

open Sample

/-- One orphan, one revival, and the loop has gone on since. -/
theorem orphans_revived_iff_pass_whole_one : (orphansAtBlock swept (hash 101)).length = 1 ∧
      ∀ id ∈ orphansAtBlock swept (hash 101),
        PendingAt (run executor.serve (flipped 1) [iteration [(1, 101, 100)] 3]) id := by
  have hlength : (orphansAtBlock swept (hash 101)).length = 1 := by decide +kernel
  exact ⟨hlength, (orphans_revived_iff_pass_whole executor round_active
    (by decide +kernel) (b := ⟨1, hash 101, hash 100, false⟩) (by decide +kernel)
    (by decide +kernel) (by decide +kernel) 1 [iteration [(1, 101, 100)] 3] rfl
    (by decide +kernel)).mpr ⟨hlength.le, by decide +kernel⟩⟩

/-- Stopped right after the flip, the loop takes height 1 for settled and brings the round to
`complete_pending` with the orphan still on a canonical block, where it stays. -/
theorem orphan_stranded_at_complete_pending :
    let t := run executor.serve (flipped 0) [iteration [(1, 101, 100)] 3, iteration [(1, 101, 100)] 1]
    t.recovery.map (fun row => row.phase) = some .completePending ∧ canonicalBlock t (hash 101) = true ∧
      ∃ id ∈ orphansAtBlock swept (hash 101), ¬ PendingAt t id := by
  decide +kernel

end TxHarbor.Indexer
