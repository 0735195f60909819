import RhPools.DoublingSearch
import RhPools.LiquiditySizing
import RhPools.PoolInventory

/-! The liquidity that a budget in the stable token buys. The stable value of a principal is
rounded down twice, and the greatest liquidity whose value the budget covers is searched. -/

namespace RhPools.BudgetLiquidity
open TxChain TickMath LiquiditySizing PoolInventory DoublingSearch

def Q192 : Int := 2 ^ 192

inductive StableSide where
  | token0 | token1
  deriving DecidableEq, Repr

def stableLegValuesRaw (amount0 amount1 sqrtPriceX96 : Int) : StableSide → Try (Int × Int)
  | .token1 => .ok ((amount0 * (sqrtPriceX96 * sqrtPriceX96)).fdiv Q192, amount1)
  | .token0 => do
    let leg1 ← floorDiv (amount1 * Q192) (sqrtPriceX96 * sqrtPriceX96)
    return (amount0, leg1)

def stableValueRaw (amount0 amount1 sqrtPriceX96 : Int) (stableSide : StableSide) : Try Int := do
  let (leg0, leg1) ← stableLegValuesRaw amount0 amount1 sqrtPriceX96 stableSide
  return leg0 + leg1

section
variable (sqrtPriceX96 tickLower tickUpper : Int) (stableSide : StableSide)

def principalValue (liquidity : Int) : Try Int := do
  let (amount0, amount1) ← principalRaw liquidity sqrtPriceX96 tickLower tickUpper
  stableValueRaw amount0 amount1 sqrtPriceX96 stableSide

def fits (budgetRaw : Int) (liquidity : Nat) : Try Bool := do
  let value ← principalValue sqrtPriceX96 tickLower tickUpper stableSide liquidity
  return decide (value ≤ budgetRaw)

end

def MAX_LIQUIDITY_BITS : Nat := 256

def outsideBounds : Failure := .value "capital produces liquidity outside uint256 bounds"

def liquidityForBudget (budgetRaw sqrtPriceX96 tickLower tickUpper : Int)
    (stableSide : StableSide) : Try (Int × Int × Int) :=
  if budgetRaw ≤ 0 then .ok (0, 0, 0)
  else do
    let low ← greatest (fits sqrtPriceX96 tickLower tickUpper stableSide budgetRaw)
      MAX_LIQUIDITY_BITS outsideBounds
    let (amount0, amount1) ← principalRaw low sqrtPriceX96 tickLower tickUpper
    return (low, amount0, amount1)

def Grows (amount : Int → Int) : Prop :=
  ∀ ⦃less more⦄, less ≤ more → amount less ≤ amount more

theorem fdiv_grows {scale divisor : Int} (scales : 0 ≤ scale) (positive : 0 < divisor) :
    Grows fun amount => (amount * scale).fdiv divisor := by
  intro less more order
  simp only
  rw [Int.fdiv_eq_ediv_of_nonneg _ (le_of_lt positive),
    Int.fdiv_eq_ediv_of_nonneg _ (le_of_lt positive)]
  exact Int.ediv_le_ediv positive (Int.mul_le_mul_of_nonneg_right order scales)

theorem fdiv_grows_one {divisor : Int} (positive : 0 < divisor) :
    Grows fun amount => amount.fdiv divisor := by
  have scaled := fdiv_grows Int.one_nonneg positive
  simpa only [Int.mul_one] using scaled

/-- A range of ticks and a price that `principal_raw` takes. -/
structure Priced (sqrtPriceX96 tickLower tickUpper : Int) : Prop where
  first : MIN_TICK ≤ tickLower
  order : tickLower < tickUpper
  last : tickUpper ≤ MAX_TICK
  positive : 0 < sqrtPriceX96

variable {sqrtPriceX96 tickLower tickUpper : Int}

theorem principalRaw_grows (priced : Priced sqrtPriceX96 tickLower tickUpper) :
    ∃ amount0 amount1 : Int → Int, Grows amount0 ∧ Grows amount1 ∧
      amount0 0 = 0 ∧ amount1 0 = 0 ∧
      ∀ liquidity, principalRaw liquidity sqrtPriceX96 tickLower tickUpper =
        .ok (amount0 liquidity, amount1 liquidity) := by
  obtain ⟨first, order, last, positive⟩ := priced
  have lowerRatio := sqrtRatioAtTick_ok tickLower first (by omega)
  have upperRatio := sqrtRatioAtTick_ok tickUpper (by omega) last
  have least := sqrtRatio_pos tickLower first (by omega)
  have apart : (sqrtRatio tickLower : Int) < sqrtRatio tickUpper := by
    exact_mod_cast sqrtRatio_strictMono first order last
  have unit : (0 : Int) < Q96 := by decide
  -- the first token's amount between two prices, and the second's
  have amount0 (low high : Int) (above : 0 < low) (rise : low ≤ high) :
      Grows fun liquidity => ((liquidity * Q96 * (high - low)).fdiv high).fdiv low := by
    intro less more grows
    apply fdiv_grows_one above
    apply fdiv_grows (by omega : 0 ≤ high - low) (by omega : 0 < high)
    exact Int.mul_le_mul_of_nonneg_right grows (le_of_lt unit)
  have amount1 (low high : Int) (rise : low ≤ high) :
      Grows fun liquidity => (liquidity * (high - low)).fdiv Q96 :=
    fdiv_grows (by omega) unit
  simp only [principalRaw, lowerRatio, upperRatio, Try.ok_bind]
  by_cases below : sqrtPriceX96 ≤ sqrtRatio tickLower
  · refine ⟨_, fun _ => 0, amount0 _ _ least (le_of_lt apart), (fun _ _ _ => le_rfl), ?_, rfl, ?_⟩
    · simp
    · intro liquidity
      rw [if_pos below]
      rfl
  · by_cases above : (sqrtRatio tickUpper : Int) ≤ sqrtPriceX96
    · refine ⟨fun _ => 0, _, (fun _ _ _ => le_rfl), amount1 _ _ (le_of_lt apart), rfl, ?_, ?_⟩
      · simp
      · intro liquidity
        rw [if_neg below, if_pos above]
        rfl
    · refine ⟨_, _, amount0 sqrtPriceX96 (sqrtRatio tickUpper) positive (by omega),
        amount1 (sqrtRatio tickLower) sqrtPriceX96 (by omega), ?_, ?_, ?_⟩
      · simp
      · simp
      · intro liquidity
        rw [if_neg below, if_neg above]
        rfl

theorem principalValue_grows (priced : Priced sqrtPriceX96 tickLower tickUpper)
    (stableSide : StableSide) :
    ∃ value : Int → Int, Grows value ∧ value 0 = 0 ∧
      ∀ liquidity, principalValue sqrtPriceX96 tickLower tickUpper stableSide liquidity =
        .ok (value liquidity) := by
  obtain ⟨amount0, amount1, grows0, grows1, zero0, zero1, amounts⟩ := principalRaw_grows priced
  have square : 0 < sqrtPriceX96 * sqrtPriceX96 := Int.mul_pos priced.positive priced.positive
  have unit : (0 : Int) < Q192 := by decide
  cases stableSide with
  | token0 =>
    refine ⟨fun liquidity => amount0 liquidity +
      (amount1 liquidity * Q192) / (sqrtPriceX96 * sqrtPriceX96), ?_, ?_, ?_⟩
    · intro less more order
      have second : amount1 less * Q192 / (sqrtPriceX96 * sqrtPriceX96) ≤
          amount1 more * Q192 / (sqrtPriceX96 * sqrtPriceX96) :=
        Int.ediv_le_ediv square (Int.mul_le_mul_of_nonneg_right (grows1 order) (le_of_lt unit))
      exact Int.add_le_add (grows0 order) second
    · simp [zero0, zero1]
    · intro liquidity
      simp only [principalValue, amounts, Try.ok_bind, stableValueRaw, stableLegValuesRaw,
        floorDiv_ok _ square]
      rfl
  | token1 =>
    refine ⟨fun liquidity => (amount0 liquidity * (sqrtPriceX96 * sqrtPriceX96)).fdiv Q192 +
      amount1 liquidity, ?_, ?_, ?_⟩
    · intro less more order
      have first : (amount0 less * (sqrtPriceX96 * sqrtPriceX96)).fdiv Q192 ≤
          (amount0 more * (sqrtPriceX96 * sqrtPriceX96)).fdiv Q192 :=
        fdiv_grows (le_of_lt square) unit (grows0 order)
      exact Int.add_le_add first (grows1 order)
    · simp [zero0, zero1]
    · intro liquidity
      simp only [principalValue, amounts, Try.ok_bind, stableValueRaw, stableLegValuesRaw]
      rfl

section
variable (budgetRaw sqrtPriceX96 tickLower tickUpper : Int) (stableSide : StableSide)

def Within (liquidity : Int) : Prop :=
  ∃ value, principalValue sqrtPriceX96 tickLower tickUpper stableSide liquidity = .ok value ∧
    value ≤ budgetRaw

def Beyond (liquidity : Int) : Prop :=
  ∃ value, principalValue sqrtPriceX96 tickLower tickUpper stableSide liquidity = .ok value ∧
    budgetRaw < value

/-- The greatest liquidity within the budget is returned with its principal, or the search gives
up on a budget that every liquidity of 256 bits is within. -/
def Sized : Prop :=
  (liquidityForBudget budgetRaw sqrtPriceX96 tickLower tickUpper stableSide =
      .error outsideBounds ∧
    ∀ liquidity < 2 ^ MAX_LIQUIDITY_BITS,
      Within budgetRaw sqrtPriceX96 tickLower tickUpper stableSide liquidity) ∨
  ∃ liquidity amount0 amount1,
    liquidityForBudget budgetRaw sqrtPriceX96 tickLower tickUpper stableSide =
      .ok (liquidity, amount0, amount1) ∧
    principalRaw liquidity sqrtPriceX96 tickLower tickUpper = .ok (amount0, amount1) ∧
    Within budgetRaw sqrtPriceX96 tickLower tickUpper stableSide liquidity ∧
    Beyond budgetRaw sqrtPriceX96 tickLower tickUpper stableSide (liquidity + 1) ∧
    ∀ other, Within budgetRaw sqrtPriceX96 tickLower tickUpper stableSide other →
      Beyond budgetRaw sqrtPriceX96 tickLower tickUpper stableSide (other + 1) →
      other = liquidity

end

variable {budgetRaw : Int} {stableSide : StableSide}

theorem not_within (priced : Priced sqrtPriceX96 tickLower tickUpper) (liquidity : Int) :
    ¬ Within budgetRaw sqrtPriceX96 tickLower tickUpper stableSide liquidity ↔
      Beyond budgetRaw sqrtPriceX96 tickLower tickUpper stableSide liquidity := by
  obtain ⟨value, -, -, values⟩ := principalValue_grows priced stableSide
  simp [Within, Beyond, values]

theorem Within.less (priced : Priced sqrtPriceX96 tickLower tickUpper) {less more : Int}
    (order : less ≤ more)
    (within : Within budgetRaw sqrtPriceX96 tickLower tickUpper stableSide more) :
    Within budgetRaw sqrtPriceX96 tickLower tickUpper stableSide less := by
  obtain ⟨value, grows, -, values⟩ := principalValue_grows priced stableSide
  obtain ⟨worth, same, fit⟩ := within
  rw [values] at same
  cases same
  exact ⟨value less, values less, le_trans (grows order) fit⟩

theorem liquidityForBudget_finds (stableSide : StableSide)
    (priced : Priced sqrtPriceX96 tickLower tickUpper)
    (funded : 0 < budgetRaw) :
    (liquidityForBudget budgetRaw sqrtPriceX96 tickLower tickUpper stableSide =
        .error outsideBounds ∧
      Within budgetRaw sqrtPriceX96 tickLower tickUpper stableSide (2 ^ 255)) ∨
    ∃ liquidity amount0 amount1, liquidity < 2 ^ 255 ∧
      liquidityForBudget budgetRaw sqrtPriceX96 tickLower tickUpper stableSide =
        .ok (liquidity, amount0, amount1) ∧
      principalRaw liquidity sqrtPriceX96 tickLower tickUpper = .ok (amount0, amount1) ∧
      Within budgetRaw sqrtPriceX96 tickLower tickUpper stableSide liquidity ∧
      Beyond budgetRaw sqrtPriceX96 tickLower tickUpper stableSide (liquidity + 1) := by
  obtain ⟨value, grows, zero, values⟩ := principalValue_grows priced stableSide
  obtain ⟨amount0, amount1, -, -, -, -, amounts⟩ := principalRaw_grows priced
  have answers (liquidity : Nat) :
      fits sqrtPriceX96 tickLower tickUpper stableSide budgetRaw liquidity =
        .ok (decide (value liquidity ≤ budgetRaw)) := by
    rw [fits, values]
    rfl
  have found := greatest_finds MAX_LIQUIDITY_BITS outsideBounds
    (fun liquidity => decide (value liquidity ≤ budgetRaw)) answers (by decide)
    (decide_eq_true (by rw [Nat.cast_zero, zero]; omega))
  rw [liquidityForBudget, if_neg (by omega)]
  rcases found with ⟨gaveUp, fit⟩ | ⟨liquidity, ends, below, inside, outside⟩
  · left
    rw [gaveUp]
    have within := of_decide_eq_true fit
    rw [Nat.cast_pow] at within
    exact ⟨rfl, value (2 ^ 255), values _, within⟩
  · right
    have beyond := of_decide_eq_false outside
    rw [Nat.cast_add, Nat.cast_one] at beyond
    refine ⟨liquidity, amount0 liquidity, amount1 liquidity, ?_, ?_, amounts _,
      ⟨_, values _, of_decide_eq_true inside⟩, _, values _, not_le.mp beyond⟩
    · exact_mod_cast below
    · rw [ends, Try.ok_bind, amounts]
      rfl

theorem liquidityForBudget_within (stableSide : StableSide)
    (priced : Priced sqrtPriceX96 tickLower tickUpper) (funded : 0 ≤ budgetRaw) :
    liquidityForBudget budgetRaw sqrtPriceX96 tickLower tickUpper stableSide =
      .error outsideBounds ∨
    ∃ liquidity amount0 amount1 value,
      liquidityForBudget budgetRaw sqrtPriceX96 tickLower tickUpper stableSide =
        .ok (liquidity, amount0, amount1) ∧
      principalRaw liquidity sqrtPriceX96 tickLower tickUpper = .ok (amount0, amount1) ∧
      principalValue sqrtPriceX96 tickLower tickUpper stableSide liquidity = .ok value ∧
      value ≤ budgetRaw := by
  by_cases broke : budgetRaw ≤ 0
  · obtain ⟨amount0, amount1, -, -, zero0, zero1, amounts⟩ := principalRaw_grows priced
    obtain ⟨value, -, zero, values⟩ := principalValue_grows priced stableSide
    refine .inr ⟨0, 0, 0, 0, ?_, ?_, ?_, funded⟩
    · rw [liquidityForBudget, if_pos broke]
    · rw [amounts, zero0, zero1]
    · rw [values, zero]
  · rcases liquidityForBudget_finds stableSide priced (not_le.mp broke) with
      ⟨gaveUp, -⟩ | ⟨liquidity, amount0, amount1, -, returned, principal, ⟨value, valued, fit⟩, -⟩
    · exact .inl gaveUp
    · exact .inr ⟨liquidity, amount0, amount1, value, returned, principal, valued, fit⟩

/-- The search does what it is for unless it gives up on a budget that the first liquidity of
256 bits is within and the last is not. -/
theorem liquidity_sized_iff (budgetRaw sqrtPriceX96 tickLower tickUpper : Int)
    (stableSide : StableSide) (funded : 0 < budgetRaw) (positive : 0 < sqrtPriceX96)
    (first : MIN_TICK ≤ tickLower) (order : tickLower < tickUpper) (last : tickUpper ≤ MAX_TICK) :
    Sized budgetRaw sqrtPriceX96 tickLower tickUpper stableSide ↔
      Beyond budgetRaw sqrtPriceX96 tickLower tickUpper stableSide (2 ^ 255) ∨
      Within budgetRaw sqrtPriceX96 tickLower tickUpper stableSide (2 ^ 256 - 1) := by
  have priced : Priced sqrtPriceX96 tickLower tickUpper := ⟨first, order, last, positive⟩
  constructor
  · rintro (⟨-, every⟩ | ⟨liquidity, amount0, amount1, returned, -, -, beyond, -⟩)
    · exact .inr (every _ (by decide))
    · left
      rcases liquidityForBudget_finds stableSide priced funded with
        ⟨gaveUp, -⟩ | ⟨found, _, _, below, same, -⟩
      · rw [gaveUp] at returned
        cases returned
      · rw [same] at returned
        cases returned
        rw [← not_within priced] at beyond ⊢
        exact fun within => beyond (within.less priced (by omega))
  · intro decided
    rcases liquidityForBudget_finds stableSide priced funded with
      ⟨gaveUp, within⟩ | ⟨liquidity, amount0, amount1, -, returned, principal, within, beyond⟩
    · left
      refine ⟨gaveUp, fun liquidity below => ?_⟩
      rcases decided with beyond | every
      · exact absurd within ((not_within priced _).mpr beyond)
      · exact every.less priced (Int.le_sub_one_of_lt below)
    · right
      refine ⟨liquidity, amount0, amount1, returned, principal, within, beyond, ?_⟩
      intro other inside outside
      rw [← not_within priced] at beyond outside
      have notLess : ¬ other < liquidity := fun less => outside (within.less priced less)
      have notMore : ¬ liquidity < other := fun more => beyond (inside.less priced more)
      omega

theorem liquidity_sized_iff_unit :
    Sized 1000 (2 ^ 96) (-60) 60 .token1 ↔
      Beyond 1000 (2 ^ 96) (-60) 60 .token1 (2 ^ 255) ∨
      Within 1000 (2 ^ 96) (-60) 60 .token1 (2 ^ 256 - 1) :=
  liquidity_sized_iff 1000 (2 ^ 96) (-60) 60 .token1 (by decide) (by decide) (by decide)
    (by decide) (by decide)

/-! A budget of six hundred million in a stable first token, far above its range. -/

def sampleBudget : Int := 600000000000000

def samplePrice : Int := MAX_SQRT_RATIO - 1

theorem samplePrice_priced : Priced samplePrice MIN_TICK (MIN_TICK + 1) where
  first := le_refl _
  order := by decide
  last := by decide
  positive := by decide

theorem liquidity_given_up : ¬ Sized sampleBudget samplePrice MIN_TICK (MIN_TICK + 1) .token0 := by
  have covered : Within sampleBudget samplePrice MIN_TICK (MIN_TICK + 1) .token0 (2 ^ 255) :=
    ⟨461208931402398, by decide +kernel, by decide⟩
  have more : Beyond sampleBudget samplePrice MIN_TICK (MIN_TICK + 1) .token0 (2 ^ 256 - 1) :=
    ⟨922417862804797, by decide +kernel, by decide⟩
  rintro (⟨-, every⟩ | ⟨liquidity, amount0, amount1, returned, -⟩)
  · exact (not_within samplePrice_priced _).mpr more (every _ (by decide))
  · have funded : 0 < sampleBudget := by decide
    rcases liquidityForBudget_finds .token0 samplePrice_priced funded with
      ⟨gaveUp, -⟩ | ⟨found, _, _, below, -, -, -, beyond⟩
    · rw [gaveUp] at returned
      cases returned
    · exact (not_within samplePrice_priced _).mpr beyond
        (covered.less samplePrice_priced (by omega))

end RhPools.BudgetLiquidity
