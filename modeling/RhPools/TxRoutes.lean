import RhPools.TxChain

/-! Pools, hops and routes. A route carries the checks of its constructor, so a
route with no hop, a hop off its pool or a broken join cannot be built. -/

namespace RhPools.TxRoutes
open TxChain

inductive Venue where
  | v2
  | v3
  | v4
  deriving DecidableEq, Repr

inductive Side where
  | buy
  | sell
  deriving DecidableEq, Repr

/-- A pool id is a 32-byte hash for V4 and the pool's address otherwise. -/
inductive PoolId where
  | hash (id : BitVec 256)
  | pool (address : Address)
  deriving DecidableEq, Repr

structure Pool where
  venue : Venue
  id : PoolId
  address : Address
  token0 : Address
  token1 : Address
  feePpm : Int
  tickSpacing : Int
  hook : Address
  factory : Address
  deriving DecidableEq, Repr

def Pool.key (pool : Pool) : PoolKey :=
  ⟨pool.token0, pool.token1, pool.feePpm, pool.tickSpacing, pool.hook⟩

/-- The other side of the pair, absent when the currency is not in the pool. -/
def Pool.other (pool : Pool) (currency : Address) : Option Address :=
  if currency = pool.token0 then some pool.token1
  else if currency = pool.token1 then some pool.token0
  else none

def MAX_POOL_FEE_PPM : Int := 100000

/-- The bit test `fee_ppm & DYNAMIC_FEE_FLAG`. -/
def dynamicFee (feePpm : Int) : Bool := feePpm / 0x800000 % 2 = 1

def Pool.swappable (pool : Pool) : Bool :=
  let staticFee := if pool.venue = .v4 ∧ dynamicFee pool.feePpm then 0 else pool.feePpm
  if ¬(pool.venue = .v4 ∧ pool.hook = PONS_HOOK) ∧
      (staticFee > MAX_POOL_FEE_PPM ∨ staticFee < 0) then false
  else match pool.venue with
    | .v2 => pool.factory = UR_V2_FACTORY
    | .v3 => pool.factory ∈
        [UR_V3_FACTORY, GIGA_V3_FACTORY, PANCAKE_V3_FACTORY, SLIPSTREAM_FACTORY]
    | .v4 => pool.hook ∈ [NATIVE, PONS_HOOK]

structure HookPolicy where
  hookFeeBps : Int
  creatorTaxBps : Int
  deriving DecidableEq, Repr

def HookPolicy.isPons (policy : HookPolicy) : Bool :=
  policy.hookFeeBps > 0 ∨ policy.creatorTaxBps > 0

structure Hop where
  pool : Pool
  currencyIn : Address
  currencyOut : Address
  deriving DecidableEq, Repr

def sameAsset (a b : Address) : Prop :=
  a = b ∨ (a = NATIVE ∧ b = WETH) ∨ (a = WETH ∧ b = NATIVE)

instance (a b : Address) : Decidable (sameAsset a b) := by
  unfold sameAsset; infer_instance

/-- The checks of `Route.__post_init__`. -/
def RouteValid (hops : List Hop) : Prop :=
  (1 ≤ hops.length ∧ hops.length ≤ 2) ∧
  (∀ hop ∈ hops, hop.pool.other hop.currencyIn = some hop.currencyOut) ∧
  ∀ pair ∈ hops.zip hops.tail, sameAsset pair.1.currencyOut pair.2.currencyIn

instance (hops : List Hop) : Decidable (RouteValid hops) := by
  unfold RouteValid; infer_instance

structure Route where
  hops : List Hop
  valid : RouteValid hops
  deriving DecidableEq

def routeFailure (hops : List Hop) : Failure :=
  if ¬(1 ≤ hops.length ∧ hops.length ≤ 2) then .value "a route has one or two hops"
  else match hops.find? (fun hop => hop.pool.other hop.currencyIn ≠ some hop.currencyOut) with
    | some hop =>
      if hop.pool.other hop.currencyIn = none then .value "currency is not in the pool"
      else .value "hop currencies do not match its pool"
    | none => .value "route hops are not contiguous"

def Route.build (hops : List Hop) : Try Route :=
  if valid : RouteValid hops then .ok ⟨hops, valid⟩ else .error (routeFailure hops)

variable (route : Route)

@[simp] theorem Route.build_hops : Route.build route.hops = .ok route := by
  simp [Route.build, route.valid]

theorem Route.build_ok (hops : List Hop) (route : Route) :
    Route.build hops = .ok route ↔ hops = route.hops := by
  constructor
  · intro built
    unfold Route.build at built
    split at built
    · cases built
      rfl
    · cases built
  · rintro rfl
    exact Route.build_hops route

theorem Route.cases_hops :
    (∃ first, route.hops = [first]) ∨ ∃ first second, route.hops = [first, second] := by
  obtain ⟨low, high⟩ := route.valid.1
  match shape : route.hops with
  | [] => simp [shape] at low
  | [first] => exact Or.inl ⟨first, rfl⟩
  | [first, second] => exact Or.inr ⟨first, second, rfl⟩
  | _ :: _ :: _ :: _ => simp [shape] at high

theorem Route.ne_nil : route.hops ≠ [] := by
  intro empty
  have low := route.valid.1.1
  simp [empty] at low

def Route.first (route : Route) : Hop := route.hops.head route.ne_nil
def Route.last (route : Route) : Hop := route.hops.getLast route.ne_nil
def Route.currencyIn (route : Route) : Address := route.first.currencyIn
def Route.currencyOut (route : Route) : Address := route.last.currencyOut

theorem Route.hop_currencies (hop : Hop) (member : hop ∈ route.hops) :
    hop.pool.other hop.currencyIn = some hop.currencyOut :=
  route.valid.2.1 hop member

theorem Route.joined (first second : Hop) (two : route.hops = [first, second]) :
    sameAsset first.currencyOut second.currencyIn := by
  have joins := route.valid.2.2
  rw [two] at joins
  exact joins (first, second) (by simp)

/-- `v4_pool`: the pool a key identifies; hashing refuses a key out of range. -/
def v4Pool (eth : Eth) (key : PoolKey) : Option Pool :=
  (key.id eth).map fun id =>
    { venue := .v4, id := .hash id, address := POOL_MANAGER, token0 := key.currency0,
      token1 := key.currency1, feePpm := key.fee, tickSpacing := key.tickSpacing,
      hook := key.hooks, factory := POOL_MANAGER }

/-- The route book as `pool_for` reads it: the bridge pools, then the rows of the
market table that decode to a pool, in table order. -/
structure RouteBook where
  bridges : List Pool
  rows : List Pool

/-- `factory` narrows to one deployer; without it only supported pools match. -/
def accepts (feePpm : Option Int) (factory : Option Address) (tickSpacing : Option Int)
    (pool : Pool) : Bool :=
  (feePpm.all (pool.feePpm = ·)) && (tickSpacing.all (pool.tickSpacing = ·)) &&
    match factory with
    | some factory => pool.factory = factory
    | none => pool.swappable

def RouteBook.poolFor (book : RouteBook) (venue : Venue) (tokenA tokenB : Address)
    (feePpm : Option Int) (factory : Option Address) (tickSpacing : Option Int) : Option Pool :=
  let token0 := if tokenB.toNat < tokenA.toNat then tokenB else tokenA
  let token1 := if tokenB.toNat < tokenA.toNat then tokenA else tokenB
  (book.bridges ++ book.rows).find? fun pool =>
    pool.venue = venue && pool.token0 = token0 && pool.token1 = token1 &&
      accepts feePpm factory tickSpacing pool

end RhPools.TxRoutes
