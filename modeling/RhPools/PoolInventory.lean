import RhPools.CountedRemoval
import RhPools.PositionEvents
import RhPools.PyValues
import RhPools.TickMath
import Mathlib.Algebra.BigOperators.Group.List.Basic

/-! What a pool's open positions add up to: their principal at the pool's mark, the part of
it in range, and how many there are. Positions that queued events have superseded are taken
out of the scan by their liquidity and bounds, which is all that the covering scan reads. -/

namespace RhPools.PoolInventory
open OrderedTables CountedRemoval PyValues TxChain TickMath PositionEvents

def POOL_INVENTORY_CACHE_POSITIONS : Nat := 100000

structure Order where
  block : Int
  txIndex : Int
  logIndex : Int
  deriving DecidableEq

/-- The columns of a published position that the inventory reads or that decide its changes. -/
structure Position where
  poolId : Option String
  protocol : Option String
  owner : Option String
  custody : Option String
  liquidity : Option String
  liquidityKnown : Bool
  tickLower : Option Int
  tickUpper : Option Int
  activeEpisodeId : Option String
  historyComplete : Bool
  lastOrder : Order
  valuationBasis : String
  deriving DecidableEq

/-- A row of `lp_pool_state`. -/
structure Mark where
  tick : Option Int
  sqrtPriceX96 : Option String
  price0Usd : Option ℚ
  price1Usd : Option ℚ
  deriving DecidableEq

/-- A row of `pools`. -/
structure Metadata where
  createdBlock : Option Int
  decimals0 : Option Int
  decimals1 : Option Int
  deriving DecidableEq

def noMark : Mark := ⟨none, none, none, none⟩
def noMetadata : Metadata := ⟨none, none, none⟩

def decimal (digits : List Char) : Option Nat :=
  if digits = [] then none
  else digits.foldlM (fun value char =>
    ((digitValue char).filter (· < 10)).map (value * 10 + ·)) 0

/-- `_raw_int` of a text. -/
def rawInt (text : String) : Option Int :=
  match (text.toList.dropWhile isSpace).rdropWhile isSpace with
  | '-' :: digits => (decimal digits).map fun value => -(value : Int)
  | digits => (decimal digits).map fun value => (value : Int)

abbrev Span := Option Int × Option Int × Option Int

/-- `_pool_inventory_position`. -/
def span (row : Position) : Span :=
  let protocol := row.protocol.getD ""
  (if row.liquidityKnown ∧ (protocol = "v3" ∨ protocol = "v4") then row.liquidity.bind rawInt
    else none, row.tickLower, row.tickUpper)

def principalRaw (liquidity sqrt lo hi : Int) : Try (Int × Int) := do
  let lower ← sqrtRatioAtTick lo
  let upper ← sqrtRatioAtTick hi
  if sqrt ≤ lower then
    return (((liquidity * Q96 * (upper - lower)).fdiv upper).fdiv lower, 0)
  if sqrt ≥ upper then return (0, (liquidity * (upper - lower)).fdiv Q96)
  let amount0 := ((liquidity * Q96 * (upper - sqrt)).fdiv upper).fdiv sqrt
  let amount1 := (liquidity * (sqrt - lower)).fdiv Q96
  return (amount0, amount1)

/-- The value of a position's principal; errors of `principal_raw` leave it unknown. -/
def principalUsd (mark : Mark) (metadata : Metadata) (position : Span) : Option ℚ :=
  position.1.bind fun liquidity => (mark.sqrtPriceX96.bind rawInt).bind fun sqrt =>
    position.2.1.bind fun lower => position.2.2.bind fun upper =>
      match principalRaw liquidity sqrt lower upper with
      | .error _ => none
      | .ok (amount0, amount1) =>
        (legValue amount0 mark.price0Usd metadata.decimals0).bind fun value0 =>
          (legValue amount1 mark.price1Usd metadata.decimals1).map (value0 + ·)

def inRange (mark : Mark) (position : Span) : Option Bool :=
  position.2.1.bind fun lower => position.2.2.bind fun upper => mark.tick.map fun tick =>
    decide (lower ≤ tick ∧ tick < upper)

structure Compensated where
  known : Bool
  total : ℚ
  error : ℚ

def Compensated.add (sum : Compensated) (value : ℚ) : Compensated :=
  let total := sum.total + value
  { known := true
    total := total
    error := sum.error +
      if |sum.total| ≥ |value| then (sum.total - total) + value
      else (value - total) + sum.total }

def Compensated.value (sum : Compensated) : ℚ := sum.total + sum.error

structure Loop where
  excluded : OrderedTable Span Nat
  stalePositions : Nat
  openPositions : Nat
  retained : Option (List Span)
  classified : Nat
  activePositions : Nat
  principal : Compensated
  active : Compensated

/-- `retained` is given up as soon as one pool exceeds the budget of the whole cache. -/
def retain (retained : Option (List Span)) (position : Span) : Option (List Span) :=
  retained.bind fun kept =>
    if kept.length < POOL_INVENTORY_CACHE_POSITIONS then some (kept ++ [position]) else none

def takeIn (mark : Mark) (metadata : Metadata) (loop : Loop) (position : Span) : Loop :=
  let active := inRange mark position = some true
  let principal := principalUsd mark metadata position
  { loop with
    openPositions := loop.openPositions + 1
    retained := retain loop.retained position
    classified := loop.classified + if (inRange mark position).isSome then 1 else 0
    activePositions := loop.activePositions + if active then 1 else 0
    principal := principal.elim loop.principal loop.principal.add
    active := if active then principal.elim loop.active loop.active.add else loop.active }

def visit (mark : Mark) (metadata : Metadata) (loop : Loop) (position : Span) : Loop :=
  if 0 < times loop.excluded position then
    { loop with excluded := spend loop.excluded position
                stalePositions := loop.stalePositions + 1 }
  else takeIn mark metadata loop position

/-- `_PoolInventory`. -/
structure Inventory where
  positions : List Span
  lpCount : Nat
  historyComplete : Bool
  stalePositions : Nat
  deriving DecidableEq

structure Stats where
  observedPrincipalUsd : Option ℚ
  observedActiveTvlUsd : Option ℚ
  lpCount : Nat
  openPositions : Nat
  stalePositions : Nat
  completeInventory : Bool
  deriving DecidableEq

structure Setting where
  mark : Mark
  metadata : Metadata
  historyFrom : Option Int
  backfillDone : Bool
  deriving DecidableEq

def inventoryComplete (setting : Setting) (historyComplete : Bool) : Bool :=
  match setting.metadata.createdBlock, setting.historyFrom with
  | some created, some first =>
    decide (first ≤ created) && setting.backfillDone && historyComplete
  | _, _ => false

def finish (setting : Setting) (lpCount : Nat) (historyComplete : Bool) (loop : Loop) : Stats :=
  let complete := inventoryComplete setting historyComplete
  let vacant := if loop.openPositions = 0 ∧ complete then some 0 else none
  { observedPrincipalUsd := if loop.principal.known then some loop.principal.value else vacant
    observedActiveTvlUsd :=
      if loop.active.known then some loop.active.value
      else if loop.activePositions ≠ 0 then none
      else if loop.classified = loop.openPositions then some 0
      else vacant
    lpCount := lpCount
    openPositions := loop.openPositions
    stalePositions := loop.stalePositions
    completeInventory := complete }

/-- `_reduce_pool_inventory`. -/
def reducePoolInventory (positions : List Span) (lpCount : Nat) (historyComplete : Bool)
    (setting : Setting) (retainInventory : Bool) (excluded : OrderedTable Span Nat)
    (stalePositions : Nat) : Stats × Option Inventory :=
  let start : Loop := ⟨excluded, stalePositions, 0, if retainInventory then some [] else none,
    0, 0, ⟨false, 0, 0⟩, ⟨false, 0, 0⟩⟩
  let loop := positions.foldl (visit setting.mark setting.metadata) start
  (finish setting lpCount historyComplete loop,
    loop.retained.map fun kept => ⟨kept, lpCount, historyComplete, loop.stalePositions⟩)

theorem add_exact (sum : Compensated) (value : ℚ) :
    sum.add value = ⟨true, sum.total + value, sum.error⟩ := by
  have lost : (if |sum.total| ≥ |value| then (sum.total - (sum.total + value)) + value
      else (value - (sum.total + value)) + sum.total) = 0 := by
    split <;> ring
  simp only [Compensated.add, lost, add_zero]

theorem foldl_add (values : List ℚ) (sum : Compensated) :
    values.foldl Compensated.add sum =
      ⟨sum.known || !values.isEmpty, sum.total + values.sum, sum.error⟩ := by
  induction values generalizing sum with
  | nil => simp
  | cons value rest ih =>
    rw [List.foldl_cons, ih, add_exact]
    simp [add_assoc]

theorem foldl_retain_none (kept : List Span) : kept.foldl retain none = none := by
  induction kept with
  | nil => rfl
  | cons position rest ih => exact ih

theorem foldl_retain (kept front : List Span)
    (fits : front.length ≤ POOL_INVENTORY_CACHE_POSITIONS) :
    kept.foldl retain (some front) =
      if front.length + kept.length ≤ POOL_INVENTORY_CACHE_POSITIONS then some (front ++ kept)
      else none := by
  induction kept generalizing front with
  | nil => simp [fits]
  | cons position rest ih =>
    rw [List.foldl_cons]
    by_cases room : front.length < POOL_INVENTORY_CACHE_POSITIONS
    · have step : retain (some front) position = some (front ++ [position]) := if_pos room
      have longer : (front ++ [position]).length ≤ POOL_INVENTORY_CACHE_POSITIONS := by
        rw [List.length_append, List.length_singleton]
        exact room
      rw [step, ih _ longer]
      simp [Nat.add_assoc, Nat.add_comm 1]
    · have step : retain (some front) position = none := if_neg room
      rw [step, foldl_retain_none, if_neg]
      rw [List.length_cons]
      omega

def principals (setting : Setting) (kept : List Span) : List ℚ :=
  kept.filterMap (principalUsd setting.mark setting.metadata)

def inside (setting : Setting) (position : Span) : Bool :=
  inRange setting.mark position = some true

variable (setting : Setting)

theorem foldl_takeIn (kept : List Span) (loop : Loop) :
    kept.foldl (takeIn setting.mark setting.metadata) loop =
      { loop with
        openPositions := loop.openPositions + kept.length
        retained := kept.foldl retain loop.retained
        classified := loop.classified +
          kept.countP fun position => (inRange setting.mark position).isSome
        activePositions := loop.activePositions + kept.countP (inside setting)
        principal := (principals setting kept).foldl Compensated.add loop.principal
        active := (principals setting (kept.filter (inside setting))).foldl Compensated.add
          loop.active } := by
  induction kept generalizing loop with
  | nil => simp [principals]
  | cons position rest ih =>
    rw [List.foldl_cons, ih]
    simp only [takeIn, principals, List.length_cons, List.foldl_cons, List.countP_cons,
      List.filterMap_cons, List.filter_cons, inside, decide_eq_true_eq]
    congr 1
    · omega
    · omega
    · omega
    · cases principalUsd setting.mark setting.metadata position <;> rfl
    · split
      · rw [List.filterMap_cons]
        cases principalUsd setting.mark setting.metadata position <;> rfl
      · rfl

theorem foldl_visit (positions : List Span) (loop : Loop) :
    ∃ left, positions.foldl (visit setting.mark setting.metadata) loop =
      { (unspent loop.excluded positions).foldl (takeIn setting.mark setting.metadata) loop with
        excluded := left
        stalePositions := loop.stalePositions +
          (positions.length - (unspent loop.excluded positions).length) } := by
  induction positions generalizing loop with
  | nil => exact ⟨loop.excluded, rfl⟩
  | cons position rest ih =>
    rw [List.foldl_cons, visit, unspent]
    by_cases counted : 0 < times loop.excluded position
    · rw [if_pos counted, if_pos counted]
      obtain ⟨left, same⟩ := ih { loop with
        excluded := spend loop.excluded position, stalePositions := loop.stalePositions + 1 }
      refine ⟨left, ?_⟩
      have fewer := (unspent_sublist rest (spend loop.excluded position)).length_le
      rw [same, foldl_takeIn, foldl_takeIn]
      simp only [List.length_cons, Loop.mk.injEq, true_and, and_true]
      omega
    · rw [if_neg counted, if_neg counted]
      obtain ⟨left, same⟩ := ih (takeIn setting.mark setting.metadata loop position)
      refine ⟨left, ?_⟩
      rw [same]
      simp only [takeIn, List.foldl_cons, List.length_cons, Nat.add_sub_add_right]

def totals (setting : Setting) (kept : List Span) (stale : Nat) : Loop where
  excluded := .empty
  stalePositions := stale
  openPositions := kept.length
  retained := none
  classified := kept.countP fun position => (inRange setting.mark position).isSome
  activePositions := kept.countP (inside setting)
  principal := ⟨!(principals setting kept).isEmpty, (principals setting kept).sum, 0⟩
  active := ⟨!(principals setting (kept.filter (inside setting))).isEmpty,
    (principals setting (kept.filter (inside setting))).sum, 0⟩

theorem reduce_eq (positions : List Span) (lpCount : Nat) (historyComplete : Bool)
    (setting : Setting) (retainInventory : Bool) (excluded : OrderedTable Span Nat)
    (stalePositions : Nat) :
    let kept := unspent excluded positions
    let stale := stalePositions + (positions.length - kept.length)
    reducePoolInventory positions lpCount historyComplete setting retainInventory excluded
        stalePositions =
      (finish setting lpCount historyComplete (totals setting kept stale),
        if retainInventory = true ∧ kept.length ≤ POOL_INVENTORY_CACHE_POSITIONS then
          some ⟨kept, lpCount, historyComplete, stale⟩
        else none) := by
  intro kept stale
  obtain ⟨left, same⟩ := foldl_visit setting positions ⟨excluded, stalePositions, 0,
    if retainInventory then some [] else none, 0, 0, ⟨false, 0, 0⟩, ⟨false, 0, 0⟩⟩
  unfold reducePoolInventory
  dsimp only
  rw [same, foldl_takeIn, foldl_add, foldl_add]
  refine Prod.ext ?_ ?_
  · simp only [finish, totals, Bool.false_or, zero_add]
    rfl
  · cases retainInventory with
    | false => simp [foldl_retain_none]
    | true =>
      have budget := foldl_retain kept [] (Nat.zero_le _)
      simp only [List.length_nil, Nat.zero_add, List.nil_append] at budget
      simp only [if_true, true_and]
      rw [show (unspent excluded positions).foldl retain (some []) = _ from budget]
      split <;> rfl

theorem totals_perm {kept other : List Span} (same : kept.Perm other) (stale : Nat) :
    totals setting kept stale = totals setting other stale := by
  have sums : (principals setting kept).Perm (principals setting other) := same.filterMap _
  have inner : (principals setting (kept.filter (inside setting))).Perm
      (principals setting (other.filter (inside setting))) := (same.filter _).filterMap _
  unfold totals
  rw [same.length_eq, same.countP_eq, same.countP_eq, sums.sum_eq, inner.sum_eq]
  rw [sums.isEmpty_eq, inner.isEmpty_eq]

structure Inventory.Alike (inventory other : Inventory) : Prop where
  positions : inventory.positions.Perm other.positions
  lpCount : inventory.lpCount = other.lpCount
  historyComplete : inventory.historyComplete = other.historyComplete
  stalePositions : inventory.stalePositions = other.stalePositions

theorem Inventory.Alike.refl (inventory : Inventory) : inventory.Alike inventory :=
  ⟨List.Perm.refl _, rfl, rfl, rfl⟩

/-- The same totals, and inventories to keep that differ in order only. -/
structure Alike (reduced other : Stats × Option Inventory) : Prop where
  stats : reduced.1 = other.1
  kept : Option.Rel Inventory.Alike reduced.2 other.2

theorem reduce_alike (lpCount : Nat) (historyComplete retainInventory : Bool)
    {positions others : List Span} {excluded except : OrderedTable Span Nat} {before after : Nat}
    (same : (unspent excluded positions).Perm (unspent except others))
    (stale : before + (positions.length - (unspent excluded positions).length) =
      after + (others.length - (unspent except others).length)) :
    Alike
      (reducePoolInventory positions lpCount historyComplete setting retainInventory excluded
        before)
      (reducePoolInventory others lpCount historyComplete setting retainInventory except
        after) := by
  have first := reduce_eq positions lpCount historyComplete setting retainInventory excluded before
  have second := reduce_eq others lpCount historyComplete setting retainInventory except after
  dsimp only at first second
  rw [first, second, totals_perm setting same, stale, same.length_eq]
  refine ⟨rfl, ?_⟩
  dsimp only
  split
  · exact .some ⟨same, rfl, rfl, rfl⟩
  · exact .none

/-- Taking superseded rows out by their liquidity and bounds gives the totals of the other
rows: the scan may drop another row of the same liquidity and bounds, which counts the same. -/
theorem reduce_superseded {Row : Type} (read : Row → Span) (gone : Row → Bool) (rows : List Row)
    (setting : Setting) (lpCount : Nat) (historyComplete retainInventory : Bool) :
    Alike
      (reducePoolInventory (rows.map read) lpCount historyComplete setting retainInventory
        (tally ((rows.filter gone).map read)) 0)
      (reducePoolInventory ((rows.filter fun row => !gone row).map read) lpCount historyComplete
        setting retainInventory .empty (rows.filter gone).length) := by
  have parts : (rows.map read).Perm
      ((rows.filter gone).map read ++ (rows.filter fun row => !gone row).map read) := by
    rw [← List.map_append]
    exact (List.filter_append_perm gone rows).symm.map read
  have left := unspent_perm _ _ _ parts
  refine reduce_alike setting lpCount historyComplete retainInventory ?_ ?_
  · rw [unspent_empty]
    exact left
  · have whole := parts.length_eq
    simp only [List.length_map, List.length_append] at whole
    rw [unspent_empty, left.length_eq]
    simp only [List.length_map]
    omega

theorem reduce_kept (inventory : Inventory) (positions : List Span)
    (setting : Setting) (excluded : OrderedTable Span Nat) (lpCount : Nat) (historyComplete : Bool)
    (alike : Option.Rel Inventory.Alike (some inventory)
      (reducePoolInventory positions lpCount historyComplete setting true excluded 0).2)
    (other : Setting) :
    (reducePoolInventory inventory.positions inventory.lpCount inventory.historyComplete other
      false .empty inventory.stalePositions).1 =
    (reducePoolInventory positions lpCount historyComplete other true excluded 0).1 := by
  have whole := reduce_eq positions lpCount historyComplete setting true excluded 0
  have there := reduce_eq positions lpCount historyComplete other true excluded 0
  have here := reduce_eq inventory.positions inventory.lpCount inventory.historyComplete other
    false .empty inventory.stalePositions
  dsimp only at whole there here
  rw [whole] at alike
  rw [here, there, unspent_empty]
  dsimp only at alike ⊢
  split at alike
  · cases alike with
    | some same =>
      have order := same.positions
      have stale := same.stalePositions
      dsimp only at order stale
      rw [totals_perm other order, same.lpCount, same.historyComplete, stale]
      simp
  · cases alike

end RhPools.PoolInventory
