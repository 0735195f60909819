import Mathlib.Tactic.Ring
import Mathlib.Algebra.Order.Ring.Int

/-! Powers in fixed point. A number below one is raised to an exponent by its
factors at the exponent's set bits, lowest first, truncated after each product.
Whether the truncated powers still fall by a given ratio from each exponent to
the next is decided on the factors alone. -/

namespace RhPools.TruncatedPowers

/-- The ratio times the factors of the exponent's set bits; `one` is the unit. -/
def scale (one : Nat) : List Nat → Nat → Nat → Nat
  | [], _, ratio => ratio
  | factor :: rest, exponent, ratio =>
    scale one rest (exponent / 2) (if exponent % 2 = 1 then ratio * factor / one else ratio)

def least (one : Nat) (factors : List Nat) (ratio : Nat) : Nat :=
  factors.foldl (fun ratio factor => ratio * factor / one) ratio

/-- At each bit the factor falls by the ratio against all lower factors together,
which is where a carry into the bit drops them. -/
def Falls (one wide narrow : Nat) : List Nat → Nat → Nat → Prop
  | [], _, _ => True
  | factor :: rest, lower, unit =>
    wide * (unit * factor / one) ≤ narrow * lower ∧
      Falls one wide narrow rest (lower * factor / one) unit

instance (one wide narrow : Nat) (factors : List Nat) (lower unit : Nat) :
    Decidable (Falls one wide narrow factors lower unit) := by
  induction factors generalizing lower with
  | nil => exact inferInstanceAs (Decidable True)
  | cons factor rest ih =>
    have := ih (lower * factor / one)
    exact inferInstanceAs (Decidable (_ ∧ _))

theorem scale_eq_foldl (one : Nat) (factors : List Nat) (exponent ratio : Nat) (start : Nat) :
    (factors.zipIdx start).foldl
        (fun ratio (factor, bit) => if exponent.testBit bit then ratio * factor / one else ratio)
        ratio =
      scale one factors (exponent / 2 ^ start) ratio := by
  induction factors generalizing ratio start with
  | nil => rfl
  | cons factor rest ih =>
    have bit : exponent.testBit start = decide (exponent / 2 ^ start % 2 = 1) := by
      rw [Nat.testBit_eq_decide_div_mod_eq]
    rw [List.zipIdx_cons, List.foldl_cons, ih, scale, Nat.div_div_eq_div_mul, ← pow_succ]
    simp only [bit, decide_eq_true_eq]

theorem truncated_le {one factor : Nat} (proper : factor ≤ one) (ratio : Nat) :
    ratio * factor / one ≤ ratio := by
  apply Nat.div_le_of_le_mul
  rw [Nat.mul_comm one]
  exact Nat.mul_le_mul_left ratio proper

section Bounds
variable {one : Nat} {factors : List Nat} (proper : ∀ factor ∈ factors, factor ≤ one)
include proper

theorem scale_le (exponent ratio : Nat) : scale one factors exponent ratio ≤ ratio := by
  induction factors generalizing exponent ratio with
  | nil => exact le_rfl
  | cons factor rest ih =>
    have below := ih fun other member => proper other (.tail _ member)
    apply (below _ _).trans
    split
    · exact truncated_le (proper factor (.head _)) ratio
    · exact le_rfl

theorem least_le (exponent : Nat) {small large : Nat} (below : small ≤ large) :
    least one factors small ≤ scale one factors exponent large := by
  induction factors generalizing exponent small large with
  | nil => exact below
  | cons factor rest ih =>
    apply ih fun other member => proper other (.tail _ member)
    split
    · exact Nat.div_le_div_right (Nat.mul_le_mul_right factor below)
    · exact (truncated_le (proper factor (.head _)) small).trans below

theorem scale_keeps (unit : 0 < one) (wide narrow exponent : Nat) {upper lower slack : Nat}
    (apart : wide * lower ≤ narrow * (upper + slack)) :
    wide * scale one factors exponent lower ≤
      narrow * (scale one factors exponent upper + (slack + factors.length)) := by
  induction factors generalizing exponent upper lower slack with
  | nil => exact apart
  | cons factor rest ih =>
    have tail := fun other member => proper other (List.Mem.tail _ member)
    have head := proper factor (.head _)
    rw [List.length_cons, show slack + (rest.length + 1) = slack + 1 + rest.length by omega]
    apply ih tail
    split
    · have floored : upper * factor < one * (upper * factor / one + 1) :=
        Nat.lt_mul_div_succ _ unit
      apply Nat.le_of_mul_le_mul_left _ unit
      calc one * (wide * (lower * factor / one))
          = wide * (one * (lower * factor / one)) := by ring
        _ ≤ wide * (lower * factor) := Nat.mul_le_mul_left _ (Nat.mul_div_le _ _)
        _ = wide * lower * factor := by ring
        _ ≤ narrow * (upper + slack) * factor := Nat.mul_le_mul_right _ apart
        _ = narrow * (upper * factor + slack * factor) := by ring
        _ ≤ narrow * (one * (upper * factor / one + 1) + slack * one) := by
            apply Nat.mul_le_mul_left
            exact Nat.add_le_add (le_of_lt floored) (Nat.mul_le_mul_left _ head)
        _ = one * (narrow * (upper * factor / one + (slack + 1))) := by ring
    · exact apart.trans (Nat.mul_le_mul_left _ (by omega))

/-- From an exponent to the next the power falls by the ratio, up to truncation.
The induction follows the carry through the low set bits. -/
theorem scale_falls (unit : 0 < one) (wide narrow : Nat) {lower : Nat} {start : Nat}
    (falls : Falls one wide narrow factors lower start) (exponent : Nat)
    (inside : exponent + 1 < 2 ^ factors.length) :
    wide * scale one factors (exponent + 1) start ≤
      narrow * (scale one factors exponent lower + factors.length) := by
  induction factors generalizing exponent lower with
  | nil => simp at inside
  | cons factor rest ih =>
    have tail := fun other member => proper other (List.Mem.tail _ member)
    obtain ⟨here, above⟩ := falls
    have half : exponent / 2 + 1 < 2 ^ rest.length ∨ exponent % 2 = 0 := by
      rw [List.length_cons, pow_succ] at inside
      omega
    rcases Nat.mod_two_eq_zero_or_one exponent with even | odd
    · have same : (exponent + 1) / 2 = exponent / 2 := by omega
      have low : (exponent + 1) % 2 = 1 := by omega
      rw [scale, scale, same, if_pos low, if_neg (by omega), List.length_cons, Nat.add_comm _ 1]
      apply scale_keeps tail unit
      exact here.trans (Nat.mul_le_mul_left _ (by omega))
    · have carried : (exponent + 1) / 2 = exponent / 2 + 1 := by omega
      rw [scale, scale, carried, if_neg (by omega), if_pos odd]
      have rest_falls := ih tail above (exponent / 2) (half.resolve_right (by omega))
      apply rest_falls.trans
      apply Nat.mul_le_mul_left
      exact Nat.add_le_add_left (Nat.le_succ _) _

end Bounds

end RhPools.TruncatedPowers
