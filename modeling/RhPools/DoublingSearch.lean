import Mathlib.Algebra.Order.Group.Nat
import Mathlib.Data.Nat.Size

/-! The greatest number that fits: double a bound until it no longer fits, then halve the gap.
A test may refuse to answer, and the doubling gives up on a bound of too many bits. -/

namespace RhPools.DoublingSearch

variable {Refusal : Type} (fits : Nat → Except Refusal Bool) (bits : Nat) (tooLarge : Refusal)

theorem double_closer {bits high : Nat} (positive : 0 < high) (short : ¬ bits < (2 * high).size) :
    2 ^ bits - 2 * high < 2 ^ bits - high := by
  have below := Nat.size_le.mp (not_lt.mp short)
  omega

def double (high : Nat) (positive : 0 < high) : Except Refusal Nat :=
  match fits high with
  | .error refusal => .error refusal
  | .ok false => .ok high
  | .ok true =>
    if long : bits < (2 * high).size then .error tooLarge
    else double (2 * high) (Nat.mul_pos (by decide) positive)
termination_by 2 ^ bits - high
decreasing_by exact double_closer positive long

def halve (low high : Nat) : Except Refusal Nat :=
  if low + 1 < high then
    match fits ((low + high) / 2) with
    | .error refusal => .error refusal
    | .ok true => halve ((low + high) / 2) high
    | .ok false => halve low ((low + high) / 2)
  else .ok low
termination_by high - low

def greatest : Except Refusal Nat := do
  let high ← double fits bits tooLarge 1 Nat.one_pos
  halve fits (high / 2) high

variable {fits} (good : Nat → Bool)

theorem halve_finds (answers : ∀ number, fits number = .ok (good number)) (low high : Nat)
    (order : low < high) (inside : good low = true) (outside : good high = false) :
    ∃ found, halve fits low high = .ok found ∧ found < high ∧
      good found = true ∧ good (found + 1) = false := by
  induction width : high - low using Nat.strong_induction_on generalizing low high with
  | _ width ih =>
    rw [halve]
    split
    · rename_i apart
      rw [answers]
      cases tested : good ((low + high) / 2) with
      | true => exact ih _ (by omega) _ high (by omega) tested outside rfl
      | false =>
        obtain ⟨found, ends, below, rest⟩ := ih _ (by omega) low _ (by omega) inside tested rfl
        exact ⟨found, ends, by omega, rest⟩
    · rename_i adjacent
      have next : low + 1 = high := by omega
      exact ⟨low, rfl, order, inside, next ▸ outside⟩

theorem double_stops (answers : ∀ number, fits number = .ok (good number)) (power : Nat)
    (few : power < bits) (before : good (2 ^ power / 2) = true) :
    (double fits bits tooLarge (2 ^ power) (Nat.two_pow_pos power) = .error tooLarge ∧
      good (2 ^ (bits - 1)) = true) ∨
    ∃ last < bits, double fits bits tooLarge (2 ^ power) (Nat.two_pow_pos power) =
      .ok (2 ^ last) ∧ good (2 ^ last / 2) = true ∧ good (2 ^ last) = false := by
  induction left : bits - power generalizing power with
  | zero => omega
  | succ left ih =>
    rw [double, answers]
    cases tested : good (2 ^ power) with
    | false => exact .inr ⟨power, few, rfl, before, tested⟩
    | true =>
      have twice : 2 * 2 ^ power = 2 ^ (power + 1) := by rw [pow_succ, mul_comm]
      have size : (2 * 2 ^ power).size = power + 2 := by rw [twice, Nat.size_pow]
      by_cases long : bits < power + 2
      · left
        have final : power = bits - 1 := by omega
        dsimp only
        rw [dif_pos (size ▸ long)]
        exact ⟨rfl, final ▸ tested⟩
      · dsimp only
        rw [dif_neg (size ▸ long)]
        simp only [twice]
        apply ih (power + 1) (by omega) _ (by omega)
        rw [← twice, Nat.mul_div_cancel_left _ (by decide)]
        exact tested

/-- Either every bound of as many bits fits, or a number is found that fits and whose successor
does not. -/
theorem greatest_finds (answers : ∀ number, fits number = .ok (good number)) (enough : 0 < bits)
    (zero : good 0 = true) :
    (greatest fits bits tooLarge = .error tooLarge ∧ good (2 ^ (bits - 1)) = true) ∨
    ∃ found, greatest fits bits tooLarge = .ok found ∧ found < 2 ^ (bits - 1) ∧
      good found = true ∧ good (found + 1) = false := by
  rcases double_stops bits tooLarge good answers 0 enough zero with
    ⟨gaveUp, fit⟩ | ⟨last, few, stopped, inside, outside⟩
  · left
    refine ⟨?_, fit⟩
    rw [greatest, show double fits bits tooLarge 1 Nat.one_pos = .error tooLarge from gaveUp]
    rfl
  · right
    have positive := Nat.two_pow_pos last
    obtain ⟨found, ends, below, rest⟩ :=
      halve_finds good answers (2 ^ last / 2) (2 ^ last) (by omega) inside outside
    refine ⟨found, ?_, ?_, rest⟩
    · rw [greatest, show double fits bits tooLarge 1 Nat.one_pos = .ok (2 ^ last) from stopped]
      exact ends
    · exact lt_of_lt_of_le below (Nat.pow_le_pow_right (by decide) (by omega))

end RhPools.DoublingSearch
