import Mathlib.Algebra.Order.BigOperators.Group.List
import RhPools.BudgetLiquidity
import RhPools.CumulativeCuts

/-! The bands of an allocation: a range of ticks cut in bands, the capital cut in budgets by the
weights of a shape, and the liquidity each budget buys. Amounts are raw; the texts that show
them and the prices of the bounds are left out. -/

namespace RhPools.BandPlans
open TxChain TickMath LiquiditySizing PoolInventory BudgetLiquidity CumulativeCuts

def MAX_BANDS : Int := 12

inductive Shape where
  | uniform | curve | bidAsk
  deriving DecidableEq, Repr

/-- What a plan reads of its pool; `_pool_context` refuses a pool without spacing or price. -/
structure Context where
  tick : Int
  tickSpacing : Int
  sqrtPriceX96 : Int
  decimals0 : Nat
  decimals1 : Nat
  stableSide : Option StableSide
  spaced : 0 < tickSpacing
  positive : 0 < sqrtPriceX96

def Context.stableDecimals (context : Context) : Option Nat :=
  context.stableSide.map fun side => match side with
    | .token0 => context.decimals0
    | .token1 => context.decimals1

structure Rounding where
  round : ℚ → ℚ
  nonneg : ∀ value, 0 ≤ value → 0 ≤ round value

def rawUnits (rounding : Rounding) (value : ℚ) (decimals : Nat) : Try Int :=
  let scaled := rounding.round (value * rounding.round (10 ^ decimals))
  if (scaled.floor : ℚ) = scaled then .ok scaled.floor
  else .error (.value ("capital_usd has more than " ++ toString decimals ++ " USDG decimals"))

def partition (tickLower tickUpper requested spacing : Int) : List (Int × Int) :=
  let units := (tickUpper - tickLower).fdiv spacing
  let count := max 1 (min requested (min units MAX_BANDS))
  let boundaries := ((List.range count.toNat).map fun index : Nat =>
    tickLower + (units * index).fdiv count * spacing) ++ [tickUpper]
  (boundaries.zip boundaries.tail).filter fun range => range.1 < range.2

def weights (shape : Shape) (count : Nat) : List Int :=
  if shape = .uniform ∨ count = 1 then List.replicate count 1
  else
    let center : Int := count - 1
    if shape = .curve then
      (List.range count).map fun index : Nat => (count : Int) - |2 * (index : Int) - center|
    else (List.range count).map fun index : Nat => 1 + |2 * (index : Int) - center|

/-- The loop of `_budgets`. -/
def budgetsFrom (total denominator : Int) : (assigned cumulative : Int) → List Int → List Int
  | _, _, [] => []
  | assigned, cumulative, weight :: rest =>
    let cumulative := cumulative + weight
    let target := if rest = [] then total else (total * cumulative).fdiv denominator
    (target - assigned) :: budgetsFrom total denominator target cumulative rest

def budgets (total : Int) (weights : List Int) : List Int :=
  budgetsFrom total weights.sum 0 0 weights

inductive Side where
  | token0Only | token1Only | twoSided
  deriving DecidableEq, Repr

structure Sizing where
  liquidity : Int
  amount0 : Int
  amount1 : Int
  deriving DecidableEq

structure Band where
  index : Nat
  tickLower : Int
  tickUpper : Int
  weight : Int
  capitalRaw : Option Int
  sizing : Option Sizing
  inRange : Bool
  side : Side
  deriving DecidableEq

def Band.range (band : Band) : Int × Int := (band.tickLower, band.tickUpper)

structure Totals where
  total0 : Int := 0
  total1 : Int := 0
  totalLiquidity : Int := 0
  totalLeg0 : Int := 0
  totalLeg1 : Int := 0
  deriving DecidableEq

def Totals.allocated (totals : Totals) : Int := totals.totalLeg0 + totals.totalLeg1

def Totals.add (totals : Totals) (sizing : Sizing) (legs : Int × Int) : Totals where
  total0 := totals.total0 + sizing.amount0
  total1 := totals.total1 + sizing.amount1
  totalLiquidity := totals.totalLiquidity + sizing.liquidity
  totalLeg0 := totals.totalLeg0 + legs.1
  totalLeg1 := totals.totalLeg1 + legs.2

def sizeBand (sqrtPriceX96 : Int) (stableSide : StableSide) (budget lower upper : Int)
    (totals : Totals) : Try (Sizing × Totals) := do
  let (liquidity, amount0, amount1) ←
    liquidityForBudget budget sqrtPriceX96 lower upper stableSide
  let legs ← stableLegValuesRaw amount0 amount1 sqrtPriceX96 stableSide
  return (⟨liquidity, amount0, amount1⟩, totals.add ⟨liquidity, amount0, amount1⟩ legs)

structure Row where
  lower : Int
  upper : Int
  weight : Int
  funds : Option (StableSide × Int)

def Row.band (row : Row) (tick : Int) (index : Nat) (sizing : Option Sizing) : Band where
  index := index
  tickLower := row.lower
  tickUpper := row.upper
  weight := row.weight
  capitalRaw := row.funds.map Prod.snd
  sizing := sizing
  inRange := row.lower ≤ tick ∧ tick < row.upper
  side :=
    if tick < row.lower then .token0Only
    else if tick ≥ row.upper then .token1Only
    else .twoSided

/-- The loop of `_band_plan`. -/
def placeBands (sqrtPriceX96 tick : Int) : Nat → Totals → List Row → Try (List Band × Totals)
  | _, totals, [] => .ok ([], totals)
  | index, totals, row :: rest => do
    let (sizing, totals) ← match row.funds with
      | none => .ok (none, totals)
      | some (stableSide, budget) => do
        let (sizing, totals) ←
          sizeBand sqrtPriceX96 stableSide budget row.lower row.upper totals
        .ok (some sizing, totals)
    let (bands, totals) ← placeBands sqrtPriceX96 tick (index + 1) totals rest
    .ok (row.band tick index sizing :: bands, totals)

def rows (ranges : List (Int × Int)) (weights : List Int)
    (funds : List (Option (StableSide × Int))) : List Row :=
  (ranges.zip (weights.zip funds)).map fun row =>
    ⟨row.1.1, row.1.2, row.2.1, row.2.2⟩

def capitalRaw (rounding : Rounding) (context : Context) (capital : ℚ) :
    Try (Option (StableSide × Int)) :=
  match context.stableSide, context.stableDecimals with
  | some side, some decimals => do
    let total ← rawUnits rounding capital decimals
    .ok (some (side, total))
  | _, _ => .ok none

def spread (weights : List Int) (count : Nat) :
    Option (StableSide × Int) → List (Option (StableSide × Int))
  | some (stableSide, total) =>
    (budgets total weights).map fun budget => some (stableSide, budget)
  | none => List.replicate count none

/-- The price a plan is made at: that of the context, where no other is given. -/
def planPrice (context : Context) (sqrtPriceX96 : Option Nat) : Int :=
  match sqrtPriceX96 with
  | some (price + 1) => price + 1
  | _ => context.sqrtPriceX96

def bandPlan (rounding : Rounding) (context : Context) (capital : ℚ) (tickLower tickUpper : Int)
    (shape : Shape) (requestedBands : Int) (sqrtPriceX96 : Option Nat) :
    Try (List Band × Totals) := do
  let ranges := partition tickLower tickUpper
    (if shape = .uniform then 1 else requestedBands) context.tickSpacing
  let weights := weights shape ranges.length
  let funded ← capitalRaw rounding context capital
  placeBands (planPrice context sqrtPriceX96) context.tick 1 {}
    (rows ranges weights (spread weights ranges.length funded))

theorem partition_between {tickLower tickUpper spacing : Int} (requested : Int)
    (spaced : 0 < spacing) (whole : spacing ∣ tickUpper - tickLower)
    (room : tickLower + spacing ≤ tickUpper) :
    ∃ units count : Int, 0 < count ∧ count ≤ units ∧
      tickLower + units * spacing = tickUpper ∧
      partition tickLower tickUpper requested spacing =
        between (fun index => tickLower + cut units count index * spacing) count.toNat := by
  obtain ⟨units, same⟩ := whole
  have measured : (tickUpper - tickLower).fdiv spacing = units := by
    rw [Int.fdiv_eq_ediv_of_nonneg _ spaced.le, same, Int.mul_ediv_cancel_left _ spaced.ne']
  have enough : 1 ≤ units := by
    by_contra short
    have empty : spacing * units ≤ 0 := by nlinarith
    omega
  set count := max 1 (min requested (min units MAX_BANDS)) with counted
  have positive : 0 < count := by omega
  have enough : count ≤ units := by omega
  have reaches : tickLower + units * spacing = tickUpper := by
    rw [mul_comm]
    omega
  refine ⟨units, count, positive, enough, reaches, ?_⟩
  set mark : Nat → Int := fun index => tickLower + cut units count index * spacing with marked
  have last : mark count.toNat = tickUpper := by
    rw [marked]
    simp only
    rw [Int.toNat_of_nonneg positive.le, cut_whole positive, reaches]
  have boundaries : ((List.range count.toNat).map fun index : Nat =>
      tickLower + (units * index).fdiv count * spacing) ++ [tickUpper] =
      (List.range (count.toNat + 1)).map mark := by
    rw [List.range_succ, List.map_append, List.map_singleton, last]
    rfl
  rw [partition, measured, ← counted]
  simp only [boundaries]
  rw [zip_tail_between mark count.toNat, List.filter_eq_self]
  intro range member
  obtain ⟨index, -, rfl⟩ := mem_between.mp member
  have rises := cut_succ positive enough index
  simp only [marked, decide_eq_true_eq, Nat.cast_add, Nat.cast_one]
  nlinarith

theorem partition_tiles {tickLower tickUpper spacing : Int} (requested : Int)
    (spaced : 0 < spacing) (lowerAligned : spacing ∣ tickLower)
    (upperAligned : spacing ∣ tickUpper) (room : tickLower + spacing ≤ tickUpper) :
    Tiles spacing tickLower tickUpper (partition tickLower tickUpper requested spacing) := by
  obtain ⟨units, count, positive, enough, reaches, same⟩ :=
    partition_between requested spaced (Int.dvd_sub upperAligned lowerAligned) room
  have tiles : Tiles spacing _ _ _ := between_tiles
    (fun index => tickLower + cut units count index * spacing) count.toNat (by omega)
    (fun index _ => by
      have rises := cut_succ positive enough index
      simp only [Nat.cast_add, Nat.cast_one]
      nlinarith)
    (fun index _ => Int.dvd_add lowerAligned (Int.dvd_mul_left _ _))
  simp only [Nat.cast_zero, cut_zero positive, Int.zero_mul, Int.add_zero,
    Int.toNat_of_nonneg positive.le, cut_whole positive, reaches] at tiles
  rw [same]
  exact tiles

/-- How far a place is from the middle, in halves: less than the count, and the same from both
ends. -/
theorem off_center {index count : Nat} (inside : index < count) :
    |2 * (index : Int) - (count - 1)| < count ∧
      |2 * ((count - 1 - index : Nat) : Int) - (count - 1)| = |2 * (index : Int) - (count - 1)| := by
  constructor
  · rw [abs_lt]
    omega
  · have mirrored : 2 * ((count - 1 - index : Nat) : Int) - (count - 1) =
        -(2 * (index : Int) - (count - 1)) := by omega
    rw [mirrored, abs_neg]

variable (shape : Shape) (count : Nat)

theorem weights_places :
    ∃ weight : Nat → Int, weights shape count = (List.range count).map weight ∧
      ∀ index < count, 0 < weight index ∧ weight (count - 1 - index) = weight index := by
  unfold weights
  split
  · refine ⟨fun _ => 1, ?_, fun index _ => ⟨Int.one_pos, rfl⟩⟩
    rw [List.map_const', List.length_range]
  · split
    · refine ⟨_, rfl, fun index inside => ?_⟩
      obtain ⟨near, mirrored⟩ := off_center inside
      exact ⟨Int.sub_pos_of_lt near, by rw [mirrored]⟩
    · refine ⟨_, rfl, fun index inside => ?_⟩
      obtain ⟨near, mirrored⟩ := off_center inside
      exact ⟨by positivity, by rw [mirrored]⟩

theorem length_weights : (weights shape count).length = count := by
  obtain ⟨weight, same, -⟩ := weights_places shape count
  rw [same, List.length_map, List.length_range]

theorem weights_positive :
    ∀ weight ∈ weights shape count, 0 < weight := by
  obtain ⟨weight, same, places⟩ := weights_places shape count
  intro chosen member
  rw [same] at member
  obtain ⟨index, inside, rfl⟩ := List.mem_map.mp member
  exact (places index (List.mem_range.mp inside)).1

theorem weights_symmetric :
    (weights shape count).reverse = weights shape count := by
  obtain ⟨weight, same, places⟩ := weights_places shape count
  rw [same]
  apply List.ext_getElem
  · rw [List.length_reverse]
  · intro index _ inside
    rw [List.length_map, List.length_range] at inside
    rw [List.getElem_reverse, List.getElem_map, List.getElem_map, List.getElem_range,
      List.getElem_range, List.length_map, List.length_range]
    exact (places index inside).2

theorem length_budgetsFrom (total denominator assigned cumulative : Int) (weights : List Int) :
    (budgetsFrom total denominator assigned cumulative weights).length = weights.length := by
  induction weights generalizing assigned cumulative with
  | nil => rfl
  | cons weight rest ih => rw [budgetsFrom, List.length_cons, List.length_cons, ih]

theorem sum_budgetsFrom (total denominator assigned cumulative : Int) (weights : List Int)
    (enough : weights ≠ []) :
    (budgetsFrom total denominator assigned cumulative weights).sum = total - assigned := by
  induction weights generalizing assigned cumulative with
  | nil => exact absurd rfl enough
  | cons weight rest ih =>
    rw [budgetsFrom, List.sum_cons]
    by_cases last : rest = []
    · subst last
      simp [budgetsFrom]
    · rw [ih _ _ last]
      ring

theorem budgetsFrom_nonneg {total denominator : Int} (nonneg : 0 ≤ total)
    (positive : 0 < denominator) (assigned cumulative : Int) (weights : List Int)
    (weighty : ∀ weight ∈ weights, 0 < weight) (whole : cumulative + weights.sum = denominator)
    (behind : assigned ≤ cut total denominator cumulative) :
    ∀ budget ∈ budgetsFrom total denominator assigned cumulative weights, 0 ≤ budget := by
  induction weights generalizing assigned cumulative with
  | nil =>
    intro budget member
    cases member
  | cons weight rest ih =>
    have heavier := weighty weight List.mem_cons_self
    have rises : cut total denominator cumulative ≤ cut total denominator (cumulative + weight) :=
      cut_le nonneg positive (by omega)
    rw [List.sum_cons, ← Int.add_assoc] at whole
    have target : (if rest = [] then total else
        (total * (cumulative + weight)).fdiv denominator) =
        cut total denominator (cumulative + weight) := by
      split
      · rename_i last
        rw [last, List.sum_nil, Int.add_zero] at whole
        rw [whole, cut_whole positive]
      · rfl
    rw [budgetsFrom, target]
    intro budget member
    rcases List.mem_cons.mp member with rfl | later
    · omega
    · exact ih _ _ (fun weight inside => weighty weight (List.mem_cons_of_mem _ inside)) whole
        le_rfl budget later

theorem budgets_split {total : Int} (nonneg : 0 ≤ total) (weights : List Int)
    (enough : weights ≠ []) (weighty : ∀ weight ∈ weights, 0 < weight) :
    (∀ budget ∈ budgets total weights, 0 ≤ budget) ∧ (budgets total weights).sum = total := by
  have positive : 0 < weights.sum := List.sum_pos weights weighty enough
  constructor
  · exact budgetsFrom_nonneg nonneg positive 0 0 weights weighty (Int.zero_add _)
      (by rw [cut_zero positive])
  · rw [budgets, sum_budgetsFrom _ _ _ _ _ enough, Int.sub_zero]

section
variable {sqrtPriceX96 : Int}

def Afforded (sqrtPriceX96 : Int) (stableSide : StableSide) (band : Band) : Prop :=
  ∃ sizing budget value, band.sizing = some sizing ∧ band.capitalRaw = some budget ∧
    principalRaw sizing.liquidity sqrtPriceX96 band.tickLower band.tickUpper =
      .ok (sizing.amount0, sizing.amount1) ∧
    stableValueRaw sizing.amount0 sizing.amount1 sqrtPriceX96 stableSide = .ok value ∧
    value ≤ budget

theorem sizeBand_fits {lower upper budget : Int} (priced : Priced sqrtPriceX96 lower upper)
    (stableSide : StableSide) (funded : 0 ≤ budget) (totals : Totals) :
    sizeBand sqrtPriceX96 stableSide budget lower upper totals = .error outsideBounds ∨
    ∃ sizing value after,
      sizeBand sqrtPriceX96 stableSide budget lower upper totals = .ok (sizing, after) ∧
      principalRaw sizing.liquidity sqrtPriceX96 lower upper =
        .ok (sizing.amount0, sizing.amount1) ∧
      stableValueRaw sizing.amount0 sizing.amount1 sqrtPriceX96 stableSide = .ok value ∧
      value ≤ budget ∧ after.allocated = totals.allocated + value := by
  rcases liquidityForBudget_within stableSide priced funded with
    gaveUp | ⟨liquidity, amount0, amount1, worth, returned, principal, valued, fit⟩
  · left
    rw [sizeBand, gaveUp]
    rfl
  · right
    simp only [principalValue, principal, Try.ok_bind, stableValueRaw] at valued
    rw [Try.bind_ok] at valued
    obtain ⟨⟨leg0, leg1⟩, legs, total⟩ := valued
    refine ⟨⟨liquidity, amount0, amount1⟩, worth,
      totals.add ⟨liquidity, amount0, amount1⟩ (leg0, leg1), ?_, principal, ?_, fit, ?_⟩
    · rw [sizeBand, returned]
      simp only [Try.ok_bind, legs]
      rfl
    · rw [stableValueRaw, legs]
      exact total
    · cases total
      simp only [Totals.allocated, Totals.add]
      omega

structure Row.Sound (sqrtPriceX96 : Int) (row : Row) : Prop where
  priced : Priced sqrtPriceX96 row.lower row.upper
  funded : ∀ funds ∈ row.funds, 0 ≤ funds.2

theorem placeBands_ok (tick : Int) (rows : List Row) (index : Nat) (totals : Totals)
    (sound : ∀ row ∈ rows, row.Sound sqrtPriceX96) :
    placeBands sqrtPriceX96 tick index totals rows = .error outsideBounds ∨
    ∃ bands after, placeBands sqrtPriceX96 tick index totals rows = .ok (bands, after) ∧
      bands.map (fun band => (band.range, band.weight, band.capitalRaw)) =
        rows.map (fun row => ((row.lower, row.upper), row.weight, row.funds.map Prod.snd)) ∧
      ∀ (stableSide : StableSide) (budgets : List Int),
        rows.map Row.funds = budgets.map (fun budget => some (stableSide, budget)) →
        (∀ band ∈ bands, Afforded sqrtPriceX96 stableSide band) ∧
        after.allocated ≤ totals.allocated + budgets.sum := by
  induction rows generalizing index totals with
  | nil =>
    refine .inr ⟨[], totals, rfl, rfl, fun stableSide budgets same => ⟨?_, ?_⟩⟩
    · intro band member
      cases member
    · rw [List.map_nil, eq_comm, List.map_eq_nil_iff] at same
      rw [same, List.sum_nil, Int.add_zero]
  | cons row rest ih =>
    have here := sound row List.mem_cons_self
    have later := fun other member => sound other (List.mem_cons_of_mem row member)
    cases funds : row.funds with
    | none =>
      rcases ih (index + 1) totals later with gaveUp | ⟨bands, after, placed, shown, fits⟩
      · left
        rw [placeBands, funds]
        simp only [Try.ok_bind, gaveUp]
        rfl
      · refine .inr ⟨row.band tick index none :: bands, after, ?_, ?_, ?_⟩
        · rw [placeBands, funds]
          simp only [Try.ok_bind, placed]
        · rw [List.map_cons, List.map_cons, shown]
          rfl
        · intro stableSide budgets same
          cases budgets with
          | nil => cases same
          | cons budget budgets =>
            rw [List.map_cons, List.map_cons, funds] at same
            cases same
    | some fund =>
      obtain ⟨side, budget⟩ := fund
      have funded := here.funded (side, budget) funds
      rcases sizeBand_fits here.priced side funded totals with
        gaveUp | ⟨sizing, value, middle, sized, principal, valued, fit, allocated⟩
      · left
        rw [placeBands, funds]
        simp only [gaveUp]
        rfl
      · rcases ih (index + 1) middle later with gaveUp | ⟨bands, after, placed, shown, fits⟩
        · left
          rw [placeBands, funds]
          simp only [sized, Try.ok_bind, gaveUp]
          rfl
        · refine .inr ⟨row.band tick index (some sizing) :: bands, after, ?_, ?_, ?_⟩
          · rw [placeBands, funds]
            simp only [sized, Try.ok_bind, placed]
          · rw [List.map_cons, List.map_cons, shown]
            rfl
          · intro stableSide budgets same
            cases budgets with
            | nil => cases same
            | cons first budgets =>
              rw [List.map_cons, List.map_cons, funds] at same
              obtain ⟨own, others⟩ := List.cons.inj same
              cases own
              obtain ⟨afforded, within⟩ := fits side budgets others
              constructor
              · intro band member
                rcases List.mem_cons.mp member with rfl | member
                · exact ⟨sizing, budget, value, rfl, congrArg (Option.map Prod.snd) funds,
                    principal, valued, fit⟩
                · exact afforded band member
              · rw [List.sum_cons]
                omega

end

theorem rawUnits_nonneg (rounding : Rounding) {value : ℚ} (decimals : Nat) (nonneg : 0 ≤ value)
    {total : Int} (measured : rawUnits rounding value decimals = .ok total) : 0 ≤ total := by
  simp only [rawUnits] at measured
  split at measured
  · rename_i whole
    cases measured
    have scaled : 0 ≤ rounding.round (value * rounding.round (10 ^ decimals)) :=
      rounding.nonneg _ (mul_nonneg nonneg (rounding.nonneg _ (by positivity)))
    rw [← whole] at scaled
    exact_mod_cast scaled
  · cases measured

theorem rows_columns (ranges : List (Int × Int)) (weights : List Int)
    (funds : List (Option (StableSide × Int))) (weighed : weights.length = ranges.length)
    (covered : funds.length = ranges.length) :
    (rows ranges weights funds).map (fun row => (row.lower, row.upper)) = ranges ∧
      (rows ranges weights funds).map Row.weight = weights ∧
      (rows ranges weights funds).map Row.funds = funds := by
  have inner : (weights.zip funds).length = ranges.length := by
    rw [List.length_zip]
    omega
  refine ⟨?_, ?_, ?_⟩
  · rw [rows, List.map_map]
    exact List.map_fst_zip inner.ge
  · rw [rows, List.map_map]
    calc (ranges.zip (weights.zip funds)).map (fun row => row.2.1)
        = ((ranges.zip (weights.zip funds)).map Prod.snd).map Prod.fst := by
          rw [List.map_map]
          rfl
      _ = weights := by rw [List.map_snd_zip inner.le, List.map_fst_zip (by omega)]
  · rw [rows, List.map_map]
    calc (ranges.zip (weights.zip funds)).map (fun row => row.2.2)
        = ((ranges.zip (weights.zip funds)).map Prod.snd).map Prod.snd := by
          rw [List.map_map]
          rfl
      _ = funds := by rw [List.map_snd_zip inner.le, List.map_snd_zip (by omega)]

theorem capitalRaw_nonneg (rounding : Rounding) (context : Context) {capital : ℚ}
    (funded : 0 ≤ capital) {stableSide : StableSide} {total : Int}
    (measured : capitalRaw rounding context capital = .ok (some (stableSide, total))) :
    0 ≤ total := by
  unfold capitalRaw at measured
  split at measured
  · rw [Try.bind_ok] at measured
    obtain ⟨units, counted, same⟩ := measured
    cases same
    exact rawUnits_nonneg rounding _ funded counted
  · cases measured

theorem spread_solvent {count : Nat} (weights : List Int) (weighed : weights.length = count)
    (several : weights ≠ []) (weighty : ∀ weight ∈ weights, 0 < weight)
    (funding : Option (StableSide × Int))
    (funded : ∀ stableSide total, funding = some (stableSide, total) → 0 ≤ total) :
    (spread weights count funding).length = count ∧
      ∀ fund, some fund ∈ spread weights count funding → 0 ≤ fund.2 := by
  cases funding with
  | none =>
    refine ⟨List.length_replicate, fun fund member => ?_⟩
    have impossible := List.eq_of_mem_replicate member
    cases impossible
  | some capital =>
    obtain ⟨stableSide, total⟩ := capital
    obtain ⟨paid, -⟩ := budgets_split (funded stableSide total rfl) weights several weighty
    constructor
    · rw [spread, List.length_map, budgets, length_budgetsFrom, weighed]
    · intro fund member
      obtain ⟨budget, inside, same⟩ := List.mem_map.mp member
      cases same
      exact paid budget inside

theorem rows_sound {price : Int} {ranges : List (Int × Int)} {weights : List Int}
    {funds : List (Option (StableSide × Int))} (weighed : weights.length = ranges.length)
    (covered : funds.length = ranges.length)
    (priced : ∀ range ∈ ranges, Priced price range.1 range.2)
    (funded : ∀ fund, some fund ∈ funds → 0 ≤ fund.2) :
    ∀ row ∈ rows ranges weights funds, row.Sound price := by
  obtain ⟨ticks, -, budgets⟩ := rows_columns ranges weights funds weighed covered
  intro row member
  constructor
  · apply priced (row.lower, row.upper)
    rw [← ticks]
    exact List.mem_map_of_mem member
  · intro fund there
    apply funded fund
    rw [← budgets, ← show row.funds = some fund from there]
    exact List.mem_map_of_mem member

/-- The bands tile the range and their weights are positive and the same from both ends; in a
pool with a stable token the budgets make up the capital, and what the bands are worth is within
them. -/
structure Planned (rounding : Rounding) (context : Context) (capital : ℚ)
    (tickLower tickUpper price : Int) (bands : List Band) (totals : Totals) : Prop where
  tiles : Tiles context.tickSpacing tickLower tickUpper (bands.map Band.range)
  symmetric : (bands.map Band.weight).reverse = bands.map Band.weight
  weighty : ∀ band ∈ bands, 0 < band.weight
  budgeted : ∀ stableSide total,
    capitalRaw rounding context capital = .ok (some (stableSide, total)) →
      ∃ budgets : List Int, bands.map Band.capitalRaw = budgets.map some ∧
        (∀ budget ∈ budgets, 0 ≤ budget) ∧ budgets.sum = total
  afforded : ∀ stableSide total,
    capitalRaw rounding context capital = .ok (some (stableSide, total)) →
      (∀ band ∈ bands, Afforded price stableSide band) ∧ totals.allocated ≤ total

def exactRounding : Rounding := ⟨id, fun _ nonneg => nonneg⟩

def sampleContext : Context where
  tick := 0
  tickSpacing := 60
  sqrtPriceX96 := 2 ^ 96
  decimals0 := 18
  decimals1 := 6
  stableSide := some .token1
  spaced := by decide
  positive := by decide

example : partition (-600) 600 7 60 =
    [(-600, -480), (-480, -300), (-300, -120), (-120, 60), (60, 240), (240, 420), (420, 600)] := by
  decide

example : budgets 1000 (weights .curve 3) = [200, 600, 200] := by decide

end RhPools.BandPlans
