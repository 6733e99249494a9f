import Mathlib

namespace TxHarbor.Nonce

/-- `MaxNonceBig`: 2^64 - 1, the upper bound of the account-nonce range. -/
def maxNonceBig : Int := 18446744073709551615

def maxNonceDecimal : String := "18446744073709551615"

/-- `ValidateNonceRange`. A missing value is refused, never read as zero. -/
def validateNonceRange : Option Int → Except String Unit
  | none => .error "missing numeric value"
  | some n =>
    if n < 0 ∨ maxNonceBig < n then
      .error (toString n ++ " is outside the nonce range 0.." ++ maxNonceDecimal)
    else .ok ()

/-- `NextNonce`: the successor, refused at the end of the nonce space. -/
def nextNonce (n : Option Int) : Except String Int := do
  validateNonceRange n
  let next := n.getD 0 + 1
  if maxNonceBig < next then
    .error ("nonce space exhausted at " ++ maxNonceDecimal)
  else .ok next

/-- `MaxBig`: a missing value sorts below every number. -/
def maxBig : Option Int → Option Int → Option Int
  | none, none => none
  | none, some b => some b
  | some a, none => some a
  | some a, some b => if b ≤ a then some a else some b

def formatDecimal : Option Int → String
  | none => ""
  | some n => toString n

private def hexDigit (c : Char) : Option Int :=
  if '0' ≤ c ∧ c ≤ '9' then some (c.toNat - '0'.toNat)
  else if 'a' ≤ c ∧ c ≤ 'f' then some (c.toNat - 'a'.toNat + 10)
  else if 'A' ≤ c ∧ c ≤ 'F' then some (c.toNat - 'A'.toNat + 10)
  else none

private def parseHexDigits (acc : Int) : List Char → Option Int
  | [] => some acc
  | c :: rest => (hexDigit c).bind fun d => parseHexDigits (acc * 16 + d) rest

/-- `ParseHexQuantity`. Its callers keep only the fact that parsing failed, so the error text
is not modelled. -/
def parseHexQuantity (s : String) : Option Int :=
  match s.toList with
  | '0' :: 'x' :: digits =>
    if digits = [] then none
    else
      (parseHexDigits 0 digits).bind fun n =>
        match validateNonceRange (some n) with
        | .ok () => some n
        | .error _ => none
  | _ => none

theorem validateNonceRange_eq_ok {n : Int} : validateNonceRange (some n) = .ok () ↔ 0 ≤ n ∧ n ≤ maxNonceBig := by
  by_cases hout : n < 0 ∨ maxNonceBig < n
  · simp only [validateNonceRange, if_pos hout, reduceCtorEq, false_iff]
    omega
  · simp only [validateNonceRange, if_neg hout, true_iff]
    omega

theorem nextNonce_eq_ok {n m : Int} : nextNonce (some n) = .ok m ↔ 0 ≤ n ∧ n < maxNonceBig ∧ m = n + 1 := by
  unfold nextNonce
  cases hrange : validateNonceRange (some n) with
  | error e =>
    have hout : ¬ (0 ≤ n ∧ n ≤ maxNonceBig) := by
      rw [← validateNonceRange_eq_ok, hrange]
      simp
    simp only [bind, Except.bind]
    constructor
    · intro h
      cases h
    · rintro ⟨hlow, hhigh, -⟩
      exact absurd ⟨hlow, Int.le_of_lt hhigh⟩ hout
  | ok u =>
    have hin := validateNonceRange_eq_ok.mp hrange
    simp only [bind, Except.bind, Option.getD_some]
    split
    · simp
      omega
    · simp
      omega

/-- The larger of a present value and an optional one. -/
theorem maxBig_some_left (a : Int) (b : Option Int) :
    ∃ c, maxBig (some a) b = some c ∧ a ≤ c ∧ (∀ x, b = some x → x ≤ c) ∧ (c = a ∨ b = some c) := by
  cases b with
  | none => exact ⟨a, rfl, le_refl a, by simp, .inl rfl⟩
  | some b =>
    unfold maxBig
    by_cases h : b ≤ a
    · exact ⟨a, by simp [h], le_refl a, by simpa using h, .inl rfl⟩
    · exact ⟨b, by simp [h], by omega, by simp, .inr rfl⟩

example : parseHexQuantity "0x1F" = some 31 := by decide

end TxHarbor.Nonce
