import Mathlib.Algebra.Order.BigOperators.Group.List
import Mathlib.Algebra.Order.Group.Nat
import RhPools.PositionFees
import RhPools.PriceWalks
import RhPools.SqlTables

/-! What the fees of a V3 pool depend on, over its blocks: the price moves and flips the
outside growth of the ticks that it crosses, fees grow modulo `2 ^ 256`, and positions are
minted, burned and collected. The outside growth at an end of an open position changes in
no other way than by a crossing. -/

namespace RhPools.PoolHistories
open OrderedTables PriceWalks
open PositionFees (Key Storage wrappedSub feeGrowthAmount)

def unopened : Storage := ⟨0, 0, 0, 0, 0⟩

structure Pool where
  tick : Int
  growth : Nat × Nat
  outside : Int → Nat × Nat
  positions : OrderedTable Key Storage

inductive PoolEvent where
  | move (tick : Int)
  | grow (growth0 growth1 : Nat)
  | mint (key : Key) (liquidity : Nat)
  | burn (key : Key) (liquidity amount0 amount1 : Nat)
  | collect (key : Key) (amount0 amount1 : Nat)

def PoolEvent.changes : PoolEvent → Option Key
  | .move _ => none
  | .grow _ _ => none
  | .mint key _ => some key
  | .burn key _ _ _ => some key
  | .collect key _ _ => some key

def Bounds (key : Key) (boundary : Int) : Prop := key.2.1 = boundary ∨ key.2.2 = boundary

instance (key : Key) (boundary : Int) : Decidable (Bounds key boundary) :=
  inferInstanceAs (Decidable (_ ∨ _))

def wrapped (left right : Nat × Nat) : Nat × Nat :=
  (wrappedSub left.1 right.1, wrappedSub left.2 right.2)

def Pool.storage (pool : Pool) (key : Key) : Storage :=
  (pool.positions.get key).getD unopened

/-- The liquidity of all positions that end at a tick; the tick is initialized while there
is some. -/
def Pool.gross (pool : Pool) (boundary : Int) : Nat :=
  ((pool.positions.entries.filter fun entry => decide (Bounds entry.1 boundary)).map
    fun entry => entry.2.liquidity).sum

def Pool.inside (pool : Pool) (key : Key) : Nat × Nat :=
  let below :=
    if key.2.1 ≤ pool.tick then pool.outside key.2.1
    else wrapped pool.growth (pool.outside key.2.1)
  let above :=
    if pool.tick < key.2.2 then pool.outside key.2.2
    else wrapped pool.growth (pool.outside key.2.2)
  wrapped (wrapped pool.growth below) above

def Pool.entered (pool : Pool) (key : Key) (boundary : Int) : Nat × Nat :=
  if Bounds key boundary ∧ pool.gross boundary = 0 then
    if boundary ≤ pool.tick then pool.growth else (0, 0)
  else pool.outside boundary

def accrue (storage : Storage) (inside : Nat × Nat) : Storage :=
  { storage with
    feeGrowth0Last := inside.1
    feeGrowth1Last := inside.2
    owed0 := (storage.owed0 +
      feeGrowthAmount storage.liquidity inside.1 storage.feeGrowth0Last) % 2 ^ 128
    owed1 := (storage.owed1 +
      feeGrowthAmount storage.liquidity inside.2 storage.feeGrowth1Last) % 2 ^ 128 }

def Pool.step (pool : Pool) : PoolEvent → Option Pool
  | .move tick => some { pool with
      tick := tick
      outside := fun boundary =>
        if Crosses pool.tick tick boundary ∧ pool.gross boundary ≠ 0 then
          wrapped pool.growth (pool.outside boundary)
        else pool.outside boundary }
  | .grow growth0 growth1 => some { pool with
      growth := ((pool.growth.1 + growth0) % 2 ^ 256, (pool.growth.2 + growth1) % 2 ^ 256) }
  | .mint key liquidity =>
    if 0 < liquidity ∧ key.2.1 < key.2.2 then
      let entered := { pool with outside := pool.entered key }
      let accrued := accrue (pool.storage key) (entered.inside key)
      some { entered with
        positions := pool.positions.assign key
          { accrued with liquidity := accrued.liquidity + liquidity } }
    else none
  | .burn key liquidity amount0 amount1 =>
    let storage := pool.storage key
    if 0 < storage.liquidity ∧ liquidity ≤ storage.liquidity then
      let accrued := accrue storage (pool.inside key)
      let left := { pool with
        positions := pool.positions.assign key { accrued with
          liquidity := accrued.liquidity - liquidity
          owed0 := (accrued.owed0 + amount0) % 2 ^ 128
          owed1 := (accrued.owed1 + amount1) % 2 ^ 128 } }
      some { left with
        outside := fun boundary =>
          if Bounds key boundary ∧ left.gross boundary = 0 then (0, 0)
          else pool.outside boundary }
    else none
  | .collect key amount0 amount1 =>
    let storage := pool.storage key
    if amount0 ≤ storage.owed0 ∧ amount1 ≤ storage.owed1 then
      some { pool with
        positions := pool.positions.assign key { storage with
          owed0 := storage.owed0 - amount0
          owed1 := storage.owed1 - amount1 } }
    else none

def Pool.run (pool : Pool) : List PoolEvent → Option Pool
  | [] => some pool
  | event :: rest => (pool.step event).bind (·.run rest)

def Pool.trail (pool : Pool) : List PoolEvent → List Int
  | [] => []
  | event :: rest => (pool.step event).elim [] fun next => next.tick :: next.trail rest

structure History where
  pool : Nat → Pool
  events : Nat → List PoolEvent
  follows : ∀ block, (pool block).run (events (block + 1)) = some (pool (block + 1))

def History.between (history : History) (since through : Nat) : List PoolEvent :=
  (List.range' (since + 1) (through - since)).flatMap history.events

def History.walk (history : History) (since through : Nat) : List Int :=
  (history.pool since).tick :: (history.pool since).trail (history.between since through)

def History.Unchanged (history : History) (key : Key) (since through : Nat) : Prop :=
  ∀ event ∈ history.between since through, event.changes ≠ some key

theorem gross_pos {pool : Pool} {key : Key} {storage : Storage} {boundary : Int}
    (held : pool.positions.get key = some storage) (open' : 0 < storage.liquidity)
    (ends : Bounds key boundary) : 0 < pool.gross boundary := by
  have there : (key, storage) ∈ pool.positions.entries := (get_some _ _ _).mp held
  have counted : storage.liquidity ∈ (pool.positions.entries.filter fun entry =>
      decide (Bounds entry.1 boundary)).map fun entry => entry.2.liquidity :=
    List.mem_map.mpr ⟨(key, storage), List.mem_filter.mpr ⟨there, decide_eq_true ends⟩, rfl⟩
  exact Nat.lt_of_lt_of_le open' (List.single_le_sum (fun _ _ => Nat.zero_le _) _ counted)

theorem step_positions {pool next : Pool} {event : PoolEvent} {key : Key}
    (taken : pool.step event = some next) (apart : event.changes ≠ some key) :
    next.positions.get key = pool.positions.get key := by
  have other : ∀ changed, event.changes = some changed → key ≠ changed := by
    rintro changed named rfl
    exact apart named
  cases event with
  | move tick =>
    cases taken
    rfl
  | grow growth0 growth1 =>
    cases taken
    rfl
  | mint changed liquidity =>
    obtain ⟨_, same⟩ := Option.ite_none_right_eq_some.mp taken
    cases same
    exact (get_assign _ _ _ _).trans (if_neg (other changed rfl))
  | burn changed liquidity amount0 amount1 =>
    obtain ⟨_, same⟩ := Option.ite_none_right_eq_some.mp taken
    cases same
    exact (get_assign _ _ _ _).trans (if_neg (other changed rfl))
  | collect changed amount0 amount1 =>
    obtain ⟨_, same⟩ := Option.ite_none_right_eq_some.mp taken
    cases same
    exact (get_assign _ _ _ _).trans (if_neg (other changed rfl))

/-- The outside growth at an end of an open position is as before an event that neither
changes the position nor crosses that end. -/
theorem step_outside {pool next : Pool} {event : PoolEvent} {key : Key} {storage : Storage}
    {boundary : Int} (taken : pool.step event = some next) (apart : event.changes ≠ some key)
    (held : pool.positions.get key = some storage) (open' : 0 < storage.liquidity)
    (ends : Bounds key boundary) (uncrossed : ¬Crosses pool.tick next.tick boundary) :
    next.outside boundary = pool.outside boundary := by
  have before := gross_pos held open' ends
  have after : 0 < next.gross boundary :=
    gross_pos ((step_positions taken apart).trans held) open' ends
  cases event with
  | move tick =>
    cases taken
    exact if_neg fun moved => uncrossed moved.1
  | grow growth0 growth1 =>
    cases taken
    rfl
  | mint changed liquidity =>
    obtain ⟨_, same⟩ := Option.ite_none_right_eq_some.mp taken
    cases same
    exact if_neg fun fresh => before.ne' fresh.2
  | burn changed liquidity amount0 amount1 =>
    obtain ⟨_, same⟩ := Option.ite_none_right_eq_some.mp taken
    cases same
    exact if_neg fun cleared => after.ne' cleared.2
  | collect changed amount0 amount1 =>
    obtain ⟨_, same⟩ := Option.ite_none_right_eq_some.mp taken
    cases same
    rfl

theorem run_positions {pool last : Pool} {events : List PoolEvent} {key : Key}
    (ran : pool.run events = some last) (apart : ∀ event ∈ events, event.changes ≠ some key) :
    last.positions.get key = pool.positions.get key := by
  induction events generalizing pool with
  | nil =>
    cases ran
    rfl
  | cons event rest ih =>
    obtain ⟨next, taken, ran⟩ := Option.bind_eq_some_iff.mp ran
    have later := ih ran fun event member => apart event (.tail _ member)
    exact later.trans (step_positions taken (apart event List.mem_cons_self))

/-- The walk of the price stays on one side of an end of an open position, and the position
does not change: the outside growth there is as before. -/
theorem run_outside {pool last : Pool} {events : List PoolEvent} {key : Key} {storage : Storage}
    {boundary : Int} (ran : pool.run events = some last)
    (apart : ∀ event ∈ events, event.changes ≠ some key)
    (held : pool.positions.get key = some storage) (open' : 0 < storage.liquidity)
    (ends : Bounds key boundary) (sided : OneSided (pool.tick :: pool.trail events) boundary) :
    last.outside boundary = pool.outside boundary := by
  induction events generalizing pool with
  | nil =>
    cases ran
    rfl
  | cons event rest ih =>
    obtain ⟨next, taken, ran⟩ := Option.bind_eq_some_iff.mp ran
    have here := apart event List.mem_cons_self
    rw [Pool.trail, taken, Option.elim_some] at sided
    have uncrossed := sided.uncrossed List.mem_cons_self (.tail _ List.mem_cons_self)
    have later := ih ran (fun event member => apart event (.tail _ member))
      ((step_positions taken here).trans held) (sided.subset (List.subset_cons_self _ _))
    exact later.trans (step_outside taken here held open' ends uncrossed)

theorem run_append (pool : Pool) (front rest : List PoolEvent) :
    pool.run (front ++ rest) = (pool.run front).bind (·.run rest) := by
  induction front generalizing pool with
  | nil => rfl
  | cons event front ih =>
    rw [List.cons_append, Pool.run, Pool.run, Option.bind_assoc]
    exact Option.bind_congr fun next _ => ih next

variable (history : History)

theorem between_split {since middle through : Nat} (early : since ≤ middle)
    (late : middle ≤ through) : history.between since through =
      history.between since middle ++ history.between middle through := by
  have blocks : List.range' (since + 1) (through - since) =
      List.range' (since + 1) (middle - since) ++ List.range' (middle + 1) (through - middle) := by
    have met : middle + 1 = since + 1 + (middle - since) := by omega
    have whole : through - since = (middle - since) + (through - middle) := by omega
    rw [whole, met, List.range'_append_1]
  rw [History.between, blocks, List.flatMap_append]
  rfl

theorem between_succ (block : Nat) : history.between block (block + 1) =
    history.events (block + 1) := by
  simp [History.between]

theorem run_between {since through : Nat} (ordered : since ≤ through) :
    (history.pool since).run (history.between since through) = some (history.pool through) := by
  induction through, ordered using Nat.le_induction with
  | base => simp [History.between, Pool.run]
  | succ block ordered ih =>
    rw [between_split history ordered (Nat.le_succ block), run_append, ih, between_succ,
      Option.bind_some]
    exact history.follows block

variable {history} {key : Key} {since through : Nat}

theorem History.Unchanged.split (unchanged : history.Unchanged key since through) {middle : Nat}
    (early : since ≤ middle) (late : middle ≤ through) :
    history.Unchanged key since middle ∧ history.Unchanged key middle through := by
  rw [History.Unchanged, between_split history early late, List.forall_mem_append] at unchanged
  exact unchanged

theorem History.Unchanged.storage (unchanged : history.Unchanged key since through)
    (ordered : since ≤ through) :
    (history.pool through).storage key = (history.pool since).storage key := by
  rw [Pool.storage, run_positions (run_between history ordered) unchanged]
  rfl

theorem History.Unchanged.outside (unchanged : history.Unchanged key since through)
    (ordered : since ≤ through) {boundary : Int} (ends : Bounds key boundary)
    (open' : 0 < ((history.pool since).storage key).liquidity)
    (sided : OneSided (history.walk since through) boundary) :
    (history.pool through).outside boundary = (history.pool since).outside boundary := by
  cases held : (history.pool since).positions.get key with
  | none =>
    rw [Pool.storage, held] at open'
    cases open'
  | some storage =>
    rw [Pool.storage, held] at open'
    exact run_outside (run_between history ordered) unchanged held open' ends sided

end RhPools.PoolHistories
