import RhPools.TruncatedPowers
import RhPools.TxChain

/-! Square root prices of ticks in Q96. A tick's price is a power in Q128 of
twenty truncated factors, inverted above zero and rounded up to Q96; the tick of
a price is found by bisection. -/

namespace RhPools.TickMath
open TxChain TruncatedPowers

def Q96 : Int := 2 ^ 96
def MIN_TICK : Int := -887272
def MAX_TICK : Int := 887272
def MIN_SQRT_RATIO : Int := 4295128739
def MAX_SQRT_RATIO : Int := 1461446703485210103287273052203988822378723970342

def TICK_MULTIPLIERS : List Nat := [
  0xfffcb933bd6fad37aa2d162d1a594001,
  0xfff97272373d413259a46990580e213a,
  0xfff2e50f5f656932ef12357cf3c7fdcc,
  0xffe5caca7e10e4e61c3624eaa0941cd0,
  0xffcb9843d60f6159c9db58835c926644,
  0xff973b41fa98c081472e6896dfb254c0,
  0xff2ea16466c96a3843ec78b326b52861,
  0xfe5dee046a99a2a811c461f1969c3053,
  0xfcbe86c7900a88aedcffc83b479aa3a4,
  0xf987a7253ac413176f2b074cf7815e54,
  0xf3392b0822b70005940c7a398e4b70f3,
  0xe7159475a2c29b7443b29c7fa6e889d9,
  0xd097f3bdfd2022b8845ad8f792aa5825,
  0xa9f746462d870fdf8a65dc1f90e061e5,
  0x70d869a156d2a1b890bb3df62baf32f7,
  0x31be135f97d08fd981231505542fcfa6,
  0x9aa508b5b7a84e1c677de54f3e99bc9,
  0x5d6af8dedb81196699c329225ee604,
  0x2216e584f5fa1ea926041bedfe98,
  0x48a170391f7dc42444e8fa2]

/-- The loop of `sqrt_ratio_at_tick` over the bits of the absolute tick. -/
def tickRatio (absolute : Nat) : Nat :=
  TICK_MULTIPLIERS.zipIdx.foldl (fun ratio (multiplier, bit) =>
    if absolute.testBit bit then (ratio * multiplier) >>> 128 else ratio) (1 <<< 128)

def roundUp (ratio : Nat) : Nat :=
  (ratio >>> 32) + if ratio &&& (1 <<< 32 - 1) ≠ 0 then 1 else 0

def sqrtRatioAtTick (tick : Int) : Try Int := do
  if (tick.natAbs : Int) > MAX_TICK then
    throw (.value s!"tick outside V3 domain: {tick}")
  let ratio := tickRatio tick.natAbs
  let ratio ← if tick > 0 then
      if ratio = 0 then throw .division else pure (MAX_UINT256.toNat / ratio)
    else pure ratio
  return roundUp ratio

/-- The `while` loop of `tick_at_sqrt_price_x96`. -/
def searchTick (sqrtPrice low high : Int) : Try Int :=
  if low ≤ high then do
    let middle := (low + high) / 2
    let ratio ← sqrtRatioAtTick middle
    if ratio ≤ sqrtPrice then searchTick sqrtPrice (middle + 1) high
    else searchTick sqrtPrice low (middle - 1)
  else .ok high
termination_by (high + 1 - low).toNat

/-- `tick_at_sqrt_price_x96` on a price that `wire_int` took as it is. -/
def tickAtSqrtPriceX96 (sqrtPrice : Int) : Try Int :=
  if ¬( MIN_SQRT_RATIO < sqrtPrice ∧ sqrtPrice < MAX_SQRT_RATIO) then
    .error (.value "sqrt_price_x96 is outside the protocol range")
  else searchTick sqrtPrice MIN_TICK MAX_TICK

variable (absolute : Nat)

theorem tickRatio_eq_scale :
    tickRatio absolute = scale (2 ^ 128) TICK_MULTIPLIERS absolute (2 ^ 128) := by
  have loop := scale_eq_foldl (2 ^ 128) TICK_MULTIPLIERS absolute (2 ^ 128) 0
  rw [pow_zero, Nat.div_one] at loop
  simpa only [tickRatio, Nat.shiftRight_eq_div_pow, Nat.one_shiftLeft] using loop

theorem multipliers_proper : ∀ multiplier ∈ TICK_MULTIPLIERS, multiplier ≤ 2 ^ 128 := by
  decide

theorem tickRatio_le : tickRatio absolute ≤ 2 ^ 128 := by
  rw [tickRatio_eq_scale]
  exact scale_le multipliers_proper absolute _

theorem tickRatio_ge : 2 ^ 52 ≤ tickRatio absolute := by
  have every : 2 ^ 52 ≤ least (2 ^ 128) TICK_MULTIPLIERS (2 ^ 128) := by decide
  rw [tickRatio_eq_scale]
  exact every.trans (least_le multipliers_proper absolute le_rfl)

theorem tickRatio_falls (inside : absolute < 887272) :
    100004 * tickRatio (absolute + 1) ≤ 100000 * (tickRatio absolute + 20) := by
  have falls : Falls (2 ^ 128) 100004 100000 TICK_MULTIPLIERS (2 ^ 128) (2 ^ 128) := by
    decide
  have width : absolute + 1 < 2 ^ TICK_MULTIPLIERS.length := by
    have : (887272 : Nat) < 2 ^ TICK_MULTIPLIERS.length := by decide
    omega
  rw [tickRatio_eq_scale, tickRatio_eq_scale]
  exact scale_falls multipliers_proper (by decide) 100004 100000 falls absolute width

theorem tickRatio_gap (inside : absolute < 887272) :
    tickRatio (absolute + 1) + 2 ^ 32 ≤ tickRatio absolute := by
  have falls := tickRatio_falls absolute inside
  have large := tickRatio_ge (absolute + 1)
  omega

theorem inverse_gap (inside : absolute < 887272) :
    (2 ^ 256 - 1) / tickRatio absolute + 2 ^ 32 ≤ (2 ^ 256 - 1) / tickRatio (absolute + 1) := by
  have falls := tickRatio_falls absolute inside
  have large := tickRatio_ge absolute
  have small := tickRatio_le absolute
  have next := tickRatio_ge (absolute + 1)
  generalize tickRatio absolute = upper at *
  generalize tickRatio (absolute + 1) = lower at *
  set inverse := (2 ^ 256 - 1) / upper with quotient
  have whole : inverse * upper ≤ 2 ^ 256 - 1 := Nat.div_mul_le_self _ _
  have bound : inverse * 2 ^ 52 ≤ inverse * upper := Nat.mul_le_mul_left _ large
  apply (Nat.le_div_iff_mul_le (by omega)).mpr
  refine Nat.le_of_mul_le_mul_left (c := 100004) ?_ (by decide)
  calc 100004 * ((inverse + 2 ^ 32) * lower)
      = (inverse + 2 ^ 32) * (100004 * lower) := by ring
    _ ≤ (inverse + 2 ^ 32) * (100000 * (upper + 20)) := Nat.mul_le_mul_left _ falls
    _ = 100000 * (inverse * upper) + 2000000 * inverse + 100000 * 2 ^ 32 * upper +
          2000000 * 2 ^ 32 := by ring
    _ ≤ 100004 * (2 ^ 256 - 1) := by omega

theorem roundUp_eq (ratio : Nat) : roundUp ratio = (ratio + (2 ^ 32 - 1)) / 2 ^ 32 := by
  have mask : ratio &&& (1 <<< 32 - 1) = ratio % 2 ^ 32 := Nat.and_two_pow_sub_one_eq_mod ratio 32
  rw [roundUp, mask, Nat.shiftRight_eq_div_pow]
  split <;> omega

theorem roundUp_lt {small large : Nat} (apart : small + 2 ^ 32 ≤ large) :
    roundUp small < roundUp large := by
  rw [roundUp_eq, roundUp_eq]
  omega

def sqrtRatio (tick : Int) : Nat :=
  roundUp (if tick > 0 then (2 ^ 256 - 1) / tickRatio tick.natAbs else tickRatio tick.natAbs)

theorem sqrtRatioAtTick_ok (tick : Int) (lower : MIN_TICK ≤ tick) (upper : tick ≤ MAX_TICK) :
    sqrtRatioAtTick tick = .ok (sqrtRatio tick : Int) := by
  have inside : ¬(tick.natAbs : Int) > MAX_TICK := by
    simp only [MIN_TICK, MAX_TICK] at *
    omega
  have positive : tickRatio tick.natAbs ≠ 0 := by
    have := tickRatio_ge tick.natAbs
    omega
  unfold sqrtRatioAtTick sqrtRatio
  simp only [inside, positive, if_false]
  split <;> rfl

theorem sqrtRatio_negative {tick : Int} (negative : tick ≤ 0) :
    sqrtRatio tick = roundUp (tickRatio tick.natAbs) := by
  rw [sqrtRatio, if_neg (by omega)]

theorem sqrtRatio_positive {tick : Int} (positive : 0 ≤ tick) :
    sqrtRatio tick = roundUp ((2 ^ 256 - 1) / tickRatio tick.natAbs) := by
  rcases Int.le_iff_lt_or_eq.mp positive with above | zero
  · rw [sqrtRatio, if_pos above]
  · subst zero
    decide

theorem sqrtRatio_succ (tick : Int) (lower : MIN_TICK ≤ tick) (upper : tick < MAX_TICK) :
    sqrtRatio tick < sqrtRatio (tick + 1) := by
  simp only [MIN_TICK, MAX_TICK] at lower upper
  rcases lt_or_ge tick 0 with negative | positive
  · rw [sqrtRatio_negative (by omega), sqrtRatio_negative (by omega)]
    have next : tick.natAbs = (tick + 1).natAbs + 1 := by omega
    rw [next]
    exact roundUp_lt (tickRatio_gap _ (by omega))
  · rw [sqrtRatio_positive positive, sqrtRatio_positive (by omega)]
    have next : (tick + 1).natAbs = tick.natAbs + 1 := by omega
    rw [next]
    exact roundUp_lt (inverse_gap _ (by omega))

theorem sqrtRatio_strictMono {low high : Int} (lower : MIN_TICK ≤ low) (order : low < high)
    (upper : high ≤ MAX_TICK) : sqrtRatio low < sqrtRatio high := by
  induction high, (Int.add_one_le_iff.mpr order) using Int.leInduction with
  | base => exact sqrtRatio_succ low lower (by omega)
  | succ high before ih =>
    have step := sqrtRatio_succ high (by omega) (by omega)
    exact (ih (by omega) (by omega)).trans step

theorem sqrtRatio_mono {low high : Int} (lower : MIN_TICK ≤ low) (order : low ≤ high)
    (upper : high ≤ MAX_TICK) : sqrtRatio low ≤ sqrtRatio high := by
  rcases Int.le_iff_lt_or_eq.mp order with less | rfl
  · exact le_of_lt (sqrtRatio_strictMono lower less upper)
  · exact le_rfl

theorem sqrtRatio_min : (sqrtRatio MIN_TICK : Int) = MIN_SQRT_RATIO := by decide

theorem sqrtRatio_max : (sqrtRatio MAX_TICK : Int) = MAX_SQRT_RATIO := by decide

structure Window (sqrtPrice low high : Int) : Prop where
  lower : MIN_TICK ≤ low
  upper : high ≤ MAX_TICK
  reached : ∀ tick, MIN_TICK ≤ tick → tick < low → (sqrtRatio tick : Int) ≤ sqrtPrice
  above : ∀ tick, high < tick → tick ≤ MAX_TICK → sqrtPrice < sqrtRatio tick
  ordered : low ≤ high + 1

theorem Window.rise {sqrtPrice low high middle : Int} (window : Window sqrtPrice low high)
    (inside : middle ≤ high) (hit : (sqrtRatio middle : Int) ≤ sqrtPrice) (start : low ≤ middle) :
    Window sqrtPrice (middle + 1) high := by
  have first := window.lower
  have last := window.upper
  refine ⟨by omega, last, ?_, window.above, by omega⟩
  intro tick from_min before
  have order : sqrtRatio tick ≤ sqrtRatio middle := sqrtRatio_mono from_min (by omega) (by omega)
  omega

theorem Window.sink {sqrtPrice low high middle : Int} (window : Window sqrtPrice low high)
    (inside : low ≤ middle) (missed : sqrtPrice < sqrtRatio middle) (stop : middle ≤ high) :
    Window sqrtPrice low (middle - 1) := by
  have first := window.lower
  have last := window.upper
  refine ⟨first, by omega, window.reached, ?_, by omega⟩
  intro tick after to_max
  have order : sqrtRatio middle ≤ sqrtRatio tick := sqrtRatio_mono (by omega) (by omega) to_max
  omega

def Inverts (sqrtPrice tick : Int) : Prop :=
  ∀ other, MIN_TICK ≤ other → other ≤ MAX_TICK →
    ((sqrtRatio other : Int) ≤ sqrtPrice ↔ other ≤ tick)

theorem searchTick_inverts (sqrtPrice low high : Int) (window : Window sqrtPrice low high) :
    ∃ tick, searchTick sqrtPrice low high = .ok tick ∧ Inverts sqrtPrice tick := by
  fun_induction searchTick sqrtPrice low high with
  | case1 low high inside middle raised lowered =>
    have start : low ≤ middle := by omega
    have stop : middle ≤ high := by omega
    have first := window.lower
    have last := window.upper
    rw [sqrtRatioAtTick_ok middle (by omega) (by omega)]
    by_cases hit : (sqrtRatio middle : Int) ≤ sqrtPrice
    · obtain ⟨tick, found, inverts⟩ := raised (window.rise stop hit start)
      refine ⟨tick, ?_, inverts⟩
      rw [← found]
      exact if_pos hit
    · obtain ⟨tick, found, inverts⟩ := lowered (window.sink start (by omega) stop)
      refine ⟨tick, ?_, inverts⟩
      rw [← found]
      exact if_neg hit
  | case2 low high outside =>
    refine ⟨high, rfl, ?_⟩
    intro other from_min to_max
    constructor
    · intro below
      by_contra beyond
      have := window.above other (by omega) to_max
      omega
    · intro below
      have ordered := window.ordered
      exact window.reached other from_min (by omega)

/-- Every price inside the range has its tick, the one whose price it has reached
while it has not reached the next. -/
theorem tickAtSqrtPriceX96_inverts (sqrtPrice : Int) (above : MIN_SQRT_RATIO < sqrtPrice)
    (below : sqrtPrice < MAX_SQRT_RATIO) :
    ∃ tick here next, tickAtSqrtPriceX96 sqrtPrice = .ok tick ∧
      MIN_TICK ≤ tick ∧ tick < MAX_TICK ∧
      sqrtRatioAtTick tick = .ok here ∧ here ≤ sqrtPrice ∧
      sqrtRatioAtTick (tick + 1) = .ok next ∧ sqrtPrice < next := by
  have whole : Window sqrtPrice MIN_TICK MAX_TICK := by
    refine ⟨le_rfl, le_rfl, ?_, ?_, by decide⟩
    · intro tick from_min before
      omega
    · intro tick after to_max
      omega
  obtain ⟨tick, found, inverts⟩ := searchTick_inverts sqrtPrice MIN_TICK MAX_TICK whole
  have first : MIN_TICK ≤ tick := by
    apply (inverts MIN_TICK le_rfl (by decide)).mp
    rw [sqrtRatio_min]
    exact le_of_lt above
  have last : tick < MAX_TICK := by
    by_contra beyond
    have reached := (inverts MAX_TICK (by decide) le_rfl).mpr (by omega)
    rw [sqrtRatio_max] at reached
    omega
  refine ⟨tick, sqrtRatio tick, sqrtRatio (tick + 1), ?_, first, last,
    sqrtRatioAtTick_ok tick first (by omega), (inverts tick first (by omega)).mpr le_rfl,
    sqrtRatioAtTick_ok (tick + 1) (by omega) (by omega), ?_⟩
  · rw [tickAtSqrtPriceX96, if_neg (not_not.mpr ⟨above, below⟩)]
    exact found
  · by_contra reached
    have := (inverts (tick + 1) (by omega) (by omega)).mp (by omega)
    omega

theorem tickAtSqrtPriceX96_inverts_unit :
    ∃ tick here next, tickAtSqrtPriceX96 (2 ^ 96) = .ok tick ∧
      MIN_TICK ≤ tick ∧ tick < MAX_TICK ∧
      sqrtRatioAtTick tick = .ok here ∧ here ≤ 2 ^ 96 ∧
      sqrtRatioAtTick (tick + 1) = .ok next ∧ 2 ^ 96 < next :=
  tickAtSqrtPriceX96_inverts (2 ^ 96) (by decide) (by decide)

end RhPools.TickMath
