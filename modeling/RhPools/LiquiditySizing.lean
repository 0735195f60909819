import RhPools.TickMath

/-! Liquidity for given amounts and the amounts that liquidity costs. Sizing
rounds down, charging rounds up, in three regions of the price. -/

namespace RhPools.LiquiditySizing
open TxChain TickMath

def floorDiv (numerator denominator : Int) : Try Int :=
  if denominator = 0 then .error .division else .ok (numerator.fdiv denominator)

def ceilDiv (numerator denominator : Int) : Try Int :=
  floorDiv (numerator + denominator - 1) denominator

def sorted (sqrtA sqrtB : Int) : Int × Int := if sqrtA > sqrtB then (sqrtB, sqrtA) else (sqrtA, sqrtB)

def amount0Delta (sqrtAX96 sqrtBX96 liquidity : Int) (up : Bool) : Try Int := do
  let (low, high) := sorted sqrtAX96 sqrtBX96
  let numerator1 := liquidity * 2 ^ 96
  let numerator2 := high - low
  if up then
    let inner ← ceilDiv (numerator1 * numerator2) high
    ceilDiv inner low
  else
    let inner ← floorDiv (numerator1 * numerator2) high
    floorDiv inner low

def amount1Delta (sqrtAX96 sqrtBX96 liquidity : Int) (up : Bool) : Try Int :=
  let (low, high) := sorted sqrtAX96 sqrtBX96
  let numerator := liquidity * (high - low)
  if up then ceilDiv numerator Q96 else floorDiv numerator Q96

def liq0 (amount0 low high : Int) : Try Int := do
  let product ← floorDiv (low * high) Q96
  floorDiv (amount0 * product) (high - low)

def liq1 (amount1 low high : Int) : Try Int := floorDiv (amount1 * Q96) (high - low)

def liquidityForAmounts (sqrtP sqrtA sqrtB amount0 amount1 : Int) : Try Int := do
  let (low, high) := sorted sqrtA sqrtB
  if sqrtP ≤ low then liq0 amount0 low high
  else if sqrtP < high then
    let first ← liq0 amount0 sqrtP high
    let second ← liq1 amount1 low sqrtP
    return min first second
  else liq1 amount1 low high

/-- `principal_for_liquidity` once it has the prices of its ticks. -/
def principalBetween (sqrtP sqrtA sqrtB liquidity : Int) (up : Bool) : Try (Int × Int) :=
  if sqrtP ≤ sqrtA then do
    let amount0 ← amount0Delta sqrtA sqrtB liquidity up
    return (amount0, 0)
  else if sqrtP < sqrtB then do
    let amount0 ← amount0Delta sqrtP sqrtB liquidity up
    let amount1 ← amount1Delta sqrtA sqrtP liquidity up
    return (amount0, amount1)
  else do
    let amount1 ← amount1Delta sqrtA sqrtB liquidity up
    return (0, amount1)

def principalForLiquidity (sqrtP lower upper liquidity : Int) (up : Bool) : Try (Int × Int) := do
  let sqrtA ← sqrtRatioAtTick lower
  let sqrtB ← sqrtRatioAtTick upper
  principalBetween sqrtP sqrtA sqrtB liquidity up

theorem floorDiv_ok (numerator : Int) {denominator : Int} (positive : 0 < denominator) :
    floorDiv numerator denominator = .ok (numerator / denominator) := by
  rw [floorDiv, if_neg (by omega), Int.fdiv_eq_ediv_of_nonneg _ (by omega)]

theorem ceilDiv_le {numerator denominator bound : Int} (positive : 0 < denominator)
    (within : numerator ≤ bound * denominator) :
    ∃ quotient, ceilDiv numerator denominator = .ok quotient ∧ quotient ≤ bound := by
  refine ⟨_, floorDiv_ok _ positive, ?_⟩
  apply Int.lt_add_one_iff.mp
  apply (Int.ediv_lt_iff_lt_mul positive).mpr
  have : (bound + 1) * denominator = bound * denominator + denominator := by ring
  omega

theorem sorted_lt {low high : Int} (order : low < high) : sorted low high = (low, high) :=
  if_neg (by omega)

section Regions
variable {low high : Int} (positive : 0 < low) (order : low < high)
include order

theorem liq0_ok (amount0 : Int) :
    liq0 amount0 low high = .ok (amount0 * (low * high / Q96) / (high - low)) := by
  have inner := floorDiv_ok (low * high) (show 0 < Q96 by decide)
  have outer := floorDiv_ok (amount0 * (low * high / Q96)) (show 0 < high - low by omega)
  rw [liq0, inner]
  exact outer

theorem liq1_ok (amount1 : Int) :
    liq1 amount1 low high = .ok (amount1 * Q96 / (high - low)) :=
  floorDiv_ok _ (by omega)

theorem amount1Delta_le {liquidity amount1 : Int}
    (sized : liquidity ≤ amount1 * Q96 / (high - low)) :
    ∃ charged, amount1Delta low high liquidity true = .ok charged ∧ charged ≤ amount1 := by
  have paid : liquidity * (high - low) ≤ amount1 * Q96 :=
    (Int.le_ediv_iff_mul_le (by omega)).mp sized
  obtain ⟨charged, done, within⟩ := ceilDiv_le (show 0 < Q96 by decide) paid
  refine ⟨charged, ?_, within⟩
  simp only [amount1Delta, sorted_lt order, if_true]
  exact done

include positive

theorem amount0Delta_le {liquidity amount0 : Int} (spare : 0 ≤ amount0)
    (sized : liquidity ≤ amount0 * (low * high / Q96) / (high - low)) :
    ∃ charged, amount0Delta low high liquidity true = .ok charged ∧ charged ≤ amount0 := by
  have width : 0 < high - low := by omega
  have paid : liquidity * (high - low) ≤ amount0 * (low * high / Q96) :=
    (Int.le_ediv_iff_mul_le width).mp sized
  have product : low * high / Q96 * Q96 ≤ low * high := Int.ediv_mul_le _ (by decide)
  have cost : liquidity * 2 ^ 96 * (high - low) ≤ amount0 * low * high := by
    calc liquidity * 2 ^ 96 * (high - low)
        = liquidity * (high - low) * Q96 := by rw [Q96]; ring
      _ ≤ amount0 * (low * high / Q96) * Q96 := mul_le_mul_of_nonneg_right paid (by decide)
      _ = amount0 * (low * high / Q96 * Q96) := by ring
      _ ≤ amount0 * (low * high) := mul_le_mul_of_nonneg_left product spare
      _ = amount0 * low * high := by ring
  obtain ⟨inner, first, bound⟩ := ceilDiv_le (show 0 < high by omega) cost
  obtain ⟨charged, second, within⟩ := ceilDiv_le positive bound
  refine ⟨charged, ?_, within⟩
  simp only [amount0Delta, sorted_lt order, if_true]
  rw [first]
  exact second

theorem principalBetween_within {sqrtP amount0 amount1 : Int} (priced : 0 < sqrtP)
    (spare0 : 0 ≤ amount0) (spare1 : 0 ≤ amount1) :
    ∃ liquidity charged0 charged1,
      liquidityForAmounts sqrtP low high amount0 amount1 = .ok liquidity ∧
      principalBetween sqrtP low high liquidity true = .ok (charged0, charged1) ∧
      charged0 ≤ amount0 ∧ charged1 ≤ amount1 := by
  simp only [liquidityForAmounts, sorted_lt order]
  rcases le_or_gt sqrtP low with below | above
  · obtain ⟨charged, cost, within⟩ := amount0Delta_le positive order spare0 le_rfl
    refine ⟨amount0 * (low * high / Q96) / (high - low), charged, 0,
      (if_pos below).trans (liq0_ok order amount0), ?_, within, spare1⟩
    rw [principalBetween, if_pos below, cost]
    rfl
  rcases lt_or_ge sqrtP high with inside | beyond
  · -- Both amounts are charged for the smaller of the two liquidities.
    obtain ⟨charged0, cost0, within0⟩ := amount0Delta_le priced inside spare0
      (min_le_left _ (amount1 * Q96 / (sqrtP - low)))
    obtain ⟨charged1, cost1, within1⟩ := amount1Delta_le above
      (min_le_right (amount0 * (sqrtP * high / Q96) / (high - sqrtP)) _)
    refine ⟨min (amount0 * (sqrtP * high / Q96) / (high - sqrtP)) (amount1 * Q96 / (sqrtP - low)),
      charged0, charged1, ?_, ?_, within0, within1⟩
    · rw [if_neg (by omega), if_pos inside, liq0_ok inside, liq1_ok above]
      rfl
    · rw [principalBetween, if_neg (by omega), if_pos inside, cost0, cost1]
      rfl
  · have sized : amount1 * Q96 / (high - low) ≤ amount1 * Q96 / (high - low) := le_rfl
    obtain ⟨charged, cost, within⟩ := amount1Delta_le order sized
    refine ⟨amount1 * Q96 / (high - low), 0, charged, ?_, ?_, spare0, within⟩
    · rw [if_neg (by omega), if_neg (by omega)]
      exact liq1_ok order amount1
    · rw [principalBetween, if_neg (by omega), if_neg (by omega), cost]
      rfl

end Regions

theorem sqrtRatio_pos (tick : Int) (lower : MIN_TICK ≤ tick) (upper : tick ≤ MAX_TICK) :
    0 < (sqrtRatio tick : Int) := by
  have least := sqrtRatio_mono le_rfl lower upper
  have first := sqrtRatio_min
  simp only [ MIN_SQRT_RATIO] at first
  omega

/-- The liquidity sized from two amounts never costs more than they are, and no
division on the way is by zero. -/
theorem principalForLiquidity_within (sqrtP lower upper amount0 amount1 : Int)
    (first : MIN_TICK ≤ lower) (order : lower < upper) (last : upper ≤ MAX_TICK)
    (priced : 0 < sqrtP) (spare0 : 0 ≤ amount0) (spare1 : 0 ≤ amount1) :
    ∃ sqrtA sqrtB liquidity charged0 charged1,
      sqrtRatioAtTick lower = .ok sqrtA ∧ sqrtRatioAtTick upper = .ok sqrtB ∧
      liquidityForAmounts sqrtP sqrtA sqrtB amount0 amount1 = .ok liquidity ∧
      principalForLiquidity sqrtP lower upper liquidity true = .ok (charged0, charged1) ∧
      charged0 ≤ amount0 ∧ charged1 ≤ amount1 := by
  have lowerRatio := sqrtRatioAtTick_ok lower first (by omega)
  have upperRatio := sqrtRatioAtTick_ok upper (by omega) last
  have positive := sqrtRatio_pos lower first (by omega)
  have apart : (sqrtRatio lower : Int) < sqrtRatio upper := by
    exact_mod_cast sqrtRatio_strictMono first order last
  obtain ⟨liquidity, charged0, charged1, sized, cost, within⟩ :=
    principalBetween_within positive apart priced spare0 spare1
  refine ⟨_, _, liquidity, charged0, charged1, lowerRatio, upperRatio, sized, ?_, within⟩
  rw [principalForLiquidity, lowerRatio, upperRatio]
  exact cost

theorem principalForLiquidity_within_unit :
    ∃ sqrtA sqrtB liquidity charged0 charged1,
      sqrtRatioAtTick (-60) = .ok sqrtA ∧ sqrtRatioAtTick 60 = .ok sqrtB ∧
      liquidityForAmounts (2 ^ 96) sqrtA sqrtB 1000 2000 = .ok liquidity ∧
      principalForLiquidity (2 ^ 96) (-60) 60 liquidity true = .ok (charged0, charged1) ∧
      charged0 ≤ 1000 ∧ charged1 ≤ 2000 :=
  principalForLiquidity_within (2 ^ 96) (-60) 60 1000 2000 (by decide) (by decide) (by decide)
    (by decide) (by decide) (by decide)

example : principalForLiquidity (2 ^ 96) (-60) 60 333850 true = .ok (1000, 1000) := by
  decide

end RhPools.LiquiditySizing
