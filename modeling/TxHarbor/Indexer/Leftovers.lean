import TxHarbor.Indexer.DepositWorld

open Relational

namespace TxHarbor.Indexer

/-! A round retires blocks and keeps their log rows. Both readers of a height range select by
height, so a retained row of a retired block stands in their way. -/

/-- A covered range can be read, and re-proven, exactly when no log row of it was left behind by a
block that is no longer canonical; what is read then are the rows of the canonical blocks. -/
theorem range_readable_iff_no_leftover {scanner : DepositScanner} {s : Store} {lo hi : Int}
    (hcovered : CoveredUnit scanner s lo hi) :
    ((∃ unit, scanner.readCoveredUnit s lo hi = .ok unit ∧
        ∀ row, row ∈ unit.rows ↔ row ∈ s.logs.rows ∧ lo ≤ row.blockNumber ∧ row.blockNumber ≤ hi ∧
          canonicalHashAt s row.blockNumber = some row.blockHash) ∧
      authReproveRange s lo hi = .ok ()) ↔ ∀ row, ¬ Leftover s lo hi row := by
  constructor
  · rintro ⟨-, hproved⟩
    exact (authReproveRange_eq_ok.mp hproved).2
  · intro hclean
    refine ⟨⟨_, DepositScanner.readCoveredUnit_eq_ok.mpr ⟨hcovered, hclean, rfl⟩, fun row => ?_⟩,
      authReproveRange_eq_ok.mpr ⟨hcovered.canonical, hclean⟩⟩
    rw [mem_sourceRows]
    constructor
    · rintro ⟨hmem, hlo, hhi⟩
      refine ⟨hmem, hlo, hhi, ?_⟩
      by_contra hne
      exact hclean row ⟨hmem, hlo, hhi, hne⟩
    · rintro ⟨hmem, hlo, hhi, -⟩
      exact ⟨hmem, hlo, hhi⟩

namespace Sample

/-- Heights 0 and 1 of the first fork, consumed with the transfer in block 101. -/
def paidFork : List Action := [header 0 0 100 99, header 0 1 101 100,
   logUnit 0 ⟨0, 1, Int.one_nonneg⟩ true [(0, 100), (1, 101)] [paidTransfer 1 101],
   does (.commitDepositUnit (watcher [⟨10, 0⟩]).toDepositConfig (hash 1) true
     ⟨headers [(0, 100), (1, 101)], [(paidTransfer 1 101).toIdentity], [(paidTransfer 1 101).deposit],
       0, 0⟩ none ⟨0, 1, Int.one_nonneg⟩ (ordinary 0))]

/-- The store after the first fork, and after the round that replaced height 1. -/
def beforeRound : Store := Transition.run Store.next .empty paidFork

def afterRound : Store := Transition.run Store.next .empty (paidFork ++ secondFork)

theorem covered_beforeRound : CoveredUnit (watcher [⟨10, 0⟩]) beforeRound 0 1 where
  ordered := by decide
  upstream := ⟨⟨0, hash 1, 2, by decide⟩, by decide +kernel, by decide +kernel, by decide, by decide⟩
  indexed := by decide +kernel
  unpaused := by decide +kernel
  canonical := by
    intro n hlo hhi
    have hall : ∀ n ∈ heightsBetween 0 1, (canonicalHashAt beforeRound n).isSome := by decide +kernel
    exact hall n (mem_heightsBetween.mpr ⟨hlo, hhi⟩)

theorem covered_afterRound : CoveredUnit (watcher [⟨10, 0⟩]) afterRound 0 1 where
  ordered := by decide
  upstream := ⟨⟨0, hash 1, 2, by decide⟩, by decide +kernel, by decide +kernel, by decide, by decide⟩
  indexed := by decide +kernel
  unpaused := by decide +kernel
  canonical := by
    intro n hlo hhi
    have hall : ∀ n ∈ heightsBetween 0 1, (canonicalHashAt afterRound n).isSome := by decide +kernel
    exact hall n (mem_heightsBetween.mpr ⟨hlo, hhi⟩)

end Sample

open Sample

/-- Before the round both heights can be read, with the one row of height 1. -/
theorem range_readable_before_round : ((∃ unit, (watcher [⟨10, 0⟩]).readCoveredUnit beforeRound 0 1 = .ok unit ∧
        ∀ row, row ∈ unit.rows ↔ row ∈ beforeRound.logs.rows ∧ 0 ≤ row.blockNumber ∧ row.blockNumber ≤ 1 ∧
          canonicalHashAt beforeRound row.blockNumber = some row.blockHash) ∧
      authReproveRange beforeRound 0 1 = .ok ()) := by
  refine (range_readable_iff_no_leftover covered_beforeRound).mpr ?_
  rintro row ⟨hmem, -, -, hne⟩
  have hrows : beforeRound.logs.rows = [paidTransfer 1 101] := by decide +kernel
  rw [hrows, List.mem_singleton] at hmem
  subst hmem
  exact hne (by decide +kernel)

/-- After the completed round the transfer of the retired block 101 blocks both readers. -/
theorem range_blocked_after_round : afterRound.Reachable ∧ afterRound.recovery = none ∧
      CoveredUnit (watcher [⟨10, 0⟩]) afterRound 0 1 ∧
      ((watcher [⟨10, 0⟩]).readCoveredUnit afterRound 0 1).map (·.rows) =
        .error (.chainView 1 (some (hash 201)) (some (hash 101))) ∧
      authReproveRange afterRound 0 1 = .error (.chainView 1 (some (hash 201)) (some (hash 101))) :=
  ⟨⟨_, rfl⟩, by decide +kernel, covered_afterRound, by decide +kernel, by decide +kernel⟩

end TxHarbor.Indexer
