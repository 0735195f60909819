import Mathlib.Data.ZMod.Basic
import RhPools.GrowthLedgers
import RhPools.ParticipantClaims

/-! What `fee_claim` and `_uncollected_fees` tell of a position, over any run of a pool: the
fees that grew while the price was in its range. Every subtraction wraps, so that the words
of the pool stand for residues, and only the total since the last record has to fit. -/

namespace RhPools.EarnedFees
open PriceWalks GrowthLedgers
open PositionFees (Storage wrappedSub feeGrowthAmount)
open ParticipantClaims (Claim feeClaim growthInside)
open PoolHistories (wrapped)

/-- `_uncollected_fees`, with the words that its calls read: the two global growths, and the
outside growths of each tick. -/
def uncollectedFees (position : Storage) (global lowerState upperState : Nat × Nat)
    (tick lower upper : Int) : Nat × Nat :=
  if position.liquidity = 0 then (position.owed0, position.owed1)
  else
    let below0 := if tick ≥ lower then lowerState.1 else wrappedSub global.1 lowerState.1
    let below1 := if tick ≥ lower then lowerState.2 else wrappedSub global.2 lowerState.2
    let above0 := if tick < upper then upperState.1 else wrappedSub global.1 upperState.1
    let above1 := if tick < upper then upperState.2 else wrappedSub global.2 upperState.2
    let inside0 := (((global.1 : Int) - below0 - above0) % 2 ^ 256).toNat
    let inside1 := (((global.2 : Int) - below1 - above1) % 2 ^ 256).toNat
    let delta0 := wrappedSub inside0 position.feeGrowth0Last
    let delta1 := wrappedSub inside1 position.feeGrowth1Last
    (position.owed0 + position.liquidity * delta0 / 2 ^ 128,
     position.owed1 + position.liquidity * delta1 / 2 ^ 128)

theorem uncollectedFees_eq (position : Storage) (global lowerState upperState : Nat × Nat)
    (tick lower upper : Int) :
    let claim := feeClaim position global lowerState upperState tick lower upper
    uncollectedFees position global lowerState upperState tick lower upper =
      (claim.claim0, claim.claim1) := by
  by_cases closed : position.liquidity = 0
  · simp only [uncollectedFees, if_pos closed, ParticipantClaims.feeClaim_closed _ _ _ _ _ _ _ closed]
  · simp only [uncollectedFees, if_neg closed]
    rfl

structure Accumulators where
  tick : Int
  global : Nat × Nat
  outside : Int → Nat × Nat

inductive FeeEvent where
  | accrue (growth : Nat × Nat)
  | move (tick : Int) (initialized : Int → Bool)

def FeeEvent.Keeps (boundary : Int) : FeeEvent → Prop
  | .accrue _ => True
  | .move _ initialized => initialized boundary = true

def Accumulators.apply (pool : Accumulators) : FeeEvent → Accumulators
  | .accrue growth => { pool with
      global := ((pool.global.1 + growth.1) % 2 ^ 256, (pool.global.2 + growth.2) % 2 ^ 256) }
  | .move tick initialized => { pool with
      tick := tick
      outside := fun boundary =>
        if initialized boundary = true ∧ Crosses pool.tick tick boundary then
          wrapped pool.global (pool.outside boundary)
        else pool.outside boundary }

def Accumulators.run (pool : Accumulators) (events : List FeeEvent) : Accumulators :=
  events.foldl Accumulators.apply pool

def Accumulators.inside (pool : Accumulators) (lower upper : Int) : Nat × Nat :=
  (growthInside pool.global.1 (pool.outside lower).1 (pool.outside upper).1 pool.tick lower upper,
   growthInside pool.global.2 (pool.outside lower).2 (pool.outside upper).2 pool.tick lower upper)

def Accumulators.earned (pool : Accumulators) (lower upper : Int) : List FeeEvent → Nat × Nat
  | [] => (0, 0)
  | .accrue growth :: rest =>
    let later := (pool.apply (.accrue growth)).earned lower upper rest
    if lower ≤ pool.tick ∧ pool.tick < upper then (growth.1 + later.1, growth.2 + later.2)
    else later
  | .move tick initialized :: rest =>
    (pool.apply (.move tick initialized)).earned lower upper rest

inductive Side where
  | token0
  | token1

def Side.of : Side → Nat × Nat → Nat
  | .token0, pair => pair.1
  | .token1, pair => pair.2

abbrev Residue := ZMod (2 ^ 256)

theorem cast_emod (value : Int) : (((value % 2 ^ 256).toNat : Nat) : Residue) = value := by
  have nonneg : 0 ≤ value % 2 ^ 256 := Int.emod_nonneg value (by decide)
  rw [← Int.cast_natCast, Int.toNat_of_nonneg nonneg]
  exact ZMod.intCast_mod value (2 ^ 256)

theorem cast_wrappedSub (left right : Nat) :
    (wrappedSub left right : Residue) = (left : Residue) - right := by
  rw [wrappedSub, cast_emod]
  push_cast
  rfl

def ledger (side : Side) (pool : Accumulators) : Ledger Int Residue where
  point := pool.tick
  total := side.of pool.global
  outside := fun boundary => side.of (pool.outside boundary)

def change (side : Side) : FeeEvent → Change Int Residue
  | .accrue growth => .grow (side.of growth)
  | .move tick initialized => .move tick initialized

theorem change_keeps {side : Side} {event : FeeEvent} {boundary : Int}
    (keeps : event.Keeps boundary) : (change side event).Keeps boundary := by
  cases event with
  | accrue growth => trivial
  | move tick initialized => exact keeps

variable (side : Side)

theorem side_wrapped (left right : Nat × Nat) :
    (side.of (wrapped left right) : Residue) = (side.of left : Residue) - side.of right := by
  cases side with
  | token0 => exact cast_wrappedSub left.1 right.1
  | token1 => exact cast_wrappedSub left.2 right.2

variable (pool : Accumulators)

theorem ledger_apply (event : FeeEvent) :
    ledger side (pool.apply event) = (ledger side pool).apply (change side event) := by
  cases event with
  | accrue growth =>
    have total : (side.of (pool.apply (.accrue growth)).global : Residue) =
        (side.of pool.global : Residue) + side.of growth := by
      rw [← Nat.cast_add]
      cases side with
      | token0 => exact ZMod.natCast_mod _ _
      | token1 => exact ZMod.natCast_mod _ _
    exact congrArg (fun total => Ledger.mk pool.tick total _) total
  | move tick initialized =>
    have outside : ∀ boundary,
        (side.of ((pool.apply (.move tick initialized)).outside boundary) : Residue) =
          ((ledger side pool).apply (.move tick initialized)).outside boundary := by
      intro boundary
      by_cases flips : initialized boundary = true ∧ Crosses pool.tick tick boundary
      · have flipped : (pool.apply (.move tick initialized)).outside boundary =
            wrapped pool.global (pool.outside boundary) := if_pos flips
        rw [flipped, side_wrapped]
        exact (if_pos flips).symm
      · have same : (pool.apply (.move tick initialized)).outside boundary =
            pool.outside boundary := if_neg flips
        rw [same]
        exact (if_neg flips).symm
    exact congrArg (Ledger.mk tick _) (funext outside)

theorem ledger_run (events : List FeeEvent) :
    ledger side (pool.run events) = (ledger side pool).run (events.map (change side)) := by
  induction events generalizing pool with
  | nil => rfl
  | cons event rest ih =>
    rw [Accumulators.run, List.foldl_cons, List.map_cons, Ledger.run, List.foldl_cons,
      ← ledger_apply]
    exact ih (pool.apply event)

theorem cast_growthInside (global lowerOutside upperOutside : Nat) (tick lower upper : Int) :
    (growthInside global lowerOutside upperOutside tick lower upper : Residue) =
      (global : Residue) -
        (if lower ≤ tick then (lowerOutside : Residue) else global - lowerOutside) -
        (if tick < upper then (upperOutside : Residue) else global - upperOutside) := by
  rw [growthInside, cast_emod]
  push_cast
  simp only [cast_wrappedSub]

theorem ledger_inside (lower upper : Int) :
    (side.of (pool.inside lower upper) : Residue) = (ledger side pool).inside lower upper := by
  cases side with
  | token0 => exact cast_growthInside _ _ _ _ _ _
  | token1 => exact cast_growthInside _ _ _ _ _ _

theorem ledger_earned (lower upper : Int) (events : List FeeEvent) :
    (side.of (pool.earned lower upper events) : Residue) =
      (ledger side pool).earned lower upper (events.map (change side)) := by
  induction events generalizing pool with
  | nil => cases side <;> exact Nat.cast_zero
  | cons event rest ih =>
    have later := ih (pool.apply event)
    rw [ledger_apply] at later
    rw [List.map_cons, Ledger.earned, ← later]
    cases event with
    | accrue growth =>
      by_cases within : lower ≤ pool.tick ∧ pool.tick < upper
      · rw [Accumulators.earned, if_pos within, change, Ledger.gain]
        rw [if_pos (show lower ≤ (ledger side pool).point ∧ (ledger side pool).point < upper
          from within)]
        cases side <;> exact Nat.cast_add _ _
      · rw [Accumulators.earned, if_neg within, change, Ledger.gain]
        rw [if_neg (show ¬(lower ≤ (ledger side pool).point ∧
          (ledger side pool).point < upper) from within), zero_add]
    | move tick initialized => exact (zero_add _).symm

theorem inside_moves (events : List FeeEvent) {lower upper : Int} (ordered : lower ≤ upper)
    (keeps : ∀ event ∈ events, event.Keeps lower ∧ event.Keeps upper) :
    (side.of ((pool.run events).inside lower upper) : Residue) =
      (side.of (pool.inside lower upper) : Residue) +
        side.of (pool.earned lower upper events) := by
  rw [ledger_inside, ledger_run, ledger_inside, ledger_earned]
  apply inside_run _ _ ordered
  intro changed member
  obtain ⟨event, inside, rfl⟩ := List.mem_map.mp member
  obtain ⟨keepsLower, keepsUpper⟩ := keeps event inside
  exact ⟨change_keeps keepsLower, change_keeps keepsUpper⟩

theorem wrappedSub_moved {now last total : Nat}
    (moved : (now : Residue) = (last : Residue) + total) (fits : total < 2 ^ 256) :
    wrappedSub now last = total := by
  have below : wrappedSub now last < 2 ^ 256 := by
    have small : ((now : Int) - last) % 2 ^ 256 < 2 ^ 256 := Int.emod_lt_of_pos _ (by decide)
    unfold wrappedSub
    omega
  have same : (wrappedSub now last : Residue) = total := by
    rw [cast_wrappedSub, moved, add_sub_cancel_left]
  rw [ZMod.natCast_eq_natCast_iff', Nat.mod_eq_of_lt below, Nat.mod_eq_of_lt fits] at same
  exact same

theorem feeGrowthAmount_moved (liquidity : Nat) {now last total : Nat}
    (moved : (now : Residue) = (last : Residue) + total) (fits : total < 2 ^ 256) :
    feeGrowthAmount liquidity now last = liquidity * total / 2 ^ 128 := by
  rw [feeGrowthAmount, wrappedSub_moved moved fits]

/-- A position whose inside growth was recorded after some events is told the fees that grew
in its range since, by both implementations. -/
theorem fees_true (pool : Accumulators) (before since : List FeeEvent) (lower upper : Int)
    (ordered : lower ≤ upper) (position : Storage)
    (recorded : (position.feeGrowth0Last, position.feeGrowth1Last) =
      (pool.run before).inside lower upper)
    (keeps : ∀ event ∈ since, event.Keeps lower ∧ event.Keeps upper)
    (fits0 : ((pool.run before).earned lower upper since).1 < 2 ^ 256)
    (fits1 : ((pool.run before).earned lower upper since).2 < 2 ^ 256) :
    let now := pool.run (before ++ since)
    let growth := (pool.run before).earned lower upper since
    let lazy0 := position.liquidity * growth.1 / 2 ^ 128
    let lazy1 := position.liquidity * growth.2 / 2 ^ 128
    feeClaim position now.global (now.outside lower) (now.outside upper) now.tick lower upper =
        ⟨position.owed0 + lazy0, position.owed1 + lazy1, lazy0, lazy1⟩ ∧
      uncollectedFees position now.global (now.outside lower) (now.outside upper) now.tick
        lower upper = (position.owed0 + lazy0, position.owed1 + lazy1) := by
  intro now growth lazy0 lazy1
  have later : now = (pool.run before).run since := List.foldl_append
  have moved0 := inside_moves .token0 (pool.run before) since ordered keeps
  have moved1 := inside_moves .token1 (pool.run before) since ordered keeps
  rw [← later, ← recorded] at moved0 moved1
  have claim : feeClaim position now.global (now.outside lower) (now.outside upper) now.tick
      lower upper = ⟨position.owed0 + lazy0, position.owed1 + lazy1, lazy0, lazy1⟩ := by
    have same0 := feeGrowthAmount_moved position.liquidity moved0 fits0
    have same1 := feeGrowthAmount_moved position.liquidity moved1 fits1
    simp only [Side.of, Accumulators.inside] at same0 same1
    simp only [feeClaim, same0, same1]
    rfl
  refine ⟨claim, ?_⟩
  rw [uncollectedFees_eq, claim]

/-! A position that is left and entered again, while a global growth wraps. -/

def samplePool : Accumulators where
  tick := 0
  global := (2 ^ 256 - 5, 7)
  outside boundary := (boundary.natAbs, 2 ^ 256 - 1)

def sampleSince : List FeeEvent :=
  [.accrue (3 * 2 ^ 128, 0), .move 100 fun _ => true, .accrue (2 ^ 128, 2 ^ 130),
    .move 5 fun _ => true, .accrue (2 ^ 128, 2 ^ 129)]

def sampleNow : Accumulators := samplePool.run ([] ++ sampleSince)

def samplePosition : Storage :=
  ⟨1000, (samplePool.inside (-10) 10).1, (samplePool.inside (-10) 10).2, 1, 2⟩

theorem sample_keeps (boundary : Int) : ∀ event ∈ sampleSince, event.Keeps boundary := by
  simp [sampleSince, FeeEvent.Keeps]

theorem sample_earned :
    ((samplePool.run []).earned (-10) 10 sampleSince) = (2 ^ 130, 2 ^ 129) := by
  decide

theorem fees_true_sample :
    feeClaim samplePosition sampleNow.global (sampleNow.outside (-10)) (sampleNow.outside 10)
        sampleNow.tick (-10) 10 = ⟨4001, 2002, 4000, 2000⟩ ∧
      uncollectedFees samplePosition sampleNow.global (sampleNow.outside (-10))
        (sampleNow.outside 10) sampleNow.tick (-10) 10 = (4001, 2002) := by
  have told := fees_true samplePool [] sampleSince (-10) 10 (by decide) samplePosition rfl
    (fun event member => ⟨sample_keeps _ event member, sample_keeps _ event member⟩)
    (by rw [sample_earned]; decide) (by rw [sample_earned]; decide)
  simp only [sample_earned] at told
  exact told

end RhPools.EarnedFees
