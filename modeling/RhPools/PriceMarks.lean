import Mathlib.Data.List.MinMax
import RhPools.ActivityBuckets

/-! The price tables of `PriceProjection`: samples, reserve samples, USD marks and the pool
states. An event is priced from its own price, from the pool's state or from a sample, and from
the marks of its tokens; it leaves a sample, a mark and the state behind. Events whose price
changed queue those that were priced from them. What floating point makes of a price is open. -/

namespace RhPools.PriceMarks
open OrderedTables MarketTables MarketStore ActivityBuckets
open TxChain (Address USDG WETH NATIVE)
open EventWords (Hash)

def UNISWAP_V3_FACTORY : Address := 0x1f7d7550b1b028f7571e69a784071f0205fd2efa#160
def WETH_USDG_POOL : Address := 0x52e65b17fb6e5ba00ed806f37afcd2daa50271ca#160
def MIN_TRADEABLE_SQRT : Int := 4295128740
def MAX_TRADEABLE_SQRT : Int := 1461446703485210103287273052203988822378723970341
def MAX_TOKEN_USD : ℚ := 1000000000

abbrev Order := Int ×ₗ Int ×ₗ Int

instance orderLinear : LinearOrder Order :=
  @Prod.Lex.instLinearOrder Int (Int ×ₗ Int) Int.instLinearOrder
    (@Prod.Lex.instLinearOrder Int Int Int.instLinearOrder Int.instLinearOrder)

instance orderPreorder : Preorder Order := orderLinear.toPreorder

/-- `_order`. -/
def Place.order (place : Place) : Order :=
  toLex (place.blockNumber, toLex (place.txIndex, place.logIndex))

def Order.block (order : Order) : Int := (ofLex order).1

/-- `ORDER BY .. DESC LIMIT 1`. -/
def latest {Row : Type} (order : Row → Order) (rows : List Row) : Option Row := rows.argmax order

/-- `ORDER BY .. LIMIT 1`. -/
def earliest {Row : Type} (order : Row → Order) (rows : List Row) : Option Row := rows.argmin order

structure Sample where
  pool : PoolId
  order : Order
  timestamp : Int
  sqrt : Int
  price : Option ℚ

structure ReserveSample where
  pool : PoolId
  order : Order
  timestamp : Int
  reserve0 : String
  reserve1 : String
  price : Option ℚ

structure Mark where
  order : Order
  timestamp : Int
  priceUsd : ℚ
  basis : String
  deriving DecidableEq

/-- A row of `lp_pool_state`. -/
structure PoolState where
  order : Order
  timestamp : Int
  sqrt : Option Int
  tick : Option Int
  liquidity : Option Int
  price0 : Option ℚ
  price1 : Option ℚ
  price : Option ℚ
  feePpm : Option Int
  basis : Option String
  deriving DecidableEq

structure PriceTables where
  samples : OrderedTable EventId Sample
  reserveSamples : OrderedTable EventId ReserveSample
  marks : OrderedTable (Address × EventId) Mark
  states : OrderedTable PoolId PoolState
  samplePruneBlock : Int

def PriceTables.fresh : PriceTables := ⟨.empty, .empty, .empty, .empty, 0⟩

/-- `pool_state_before` of an event's data. -/
structure StateBefore where
  sqrt : Option Int
  tick : Option Int
  liquidity : Option Int
  pinnedBlock : Option Int

structure Arithmetic where
  /-- `_price_from_sqrt`. -/
  sqrtPrice : PoolRow → Int → Option ℚ
  /-- `_v2_sample_ratio`. -/
  reserveRatio : PoolRow → String → String → Option ℚ
  /-- `int` of a reserve. -/
  reserve : String → Int
  stateBefore : Option String → StateBefore
  /-- `_quote`, from the anchors of both tokens. -/
  quote : PoolRow → Option ℚ → Option ℚ → Option ℚ → Option ℚ × Option ℚ × String
  /-- The USD columns and the notes. -/
  value : PoolRow → EventRow → Option ℚ → Option ℚ → Option String → Valuation
  /-- `_value` of gas. -/
  gasUsd : Int → Option ℚ → Option ℚ

variable (arith : Arithmetic)

def EventRow.order (row : EventRow) : Order := Place.order row.place

def EventRow.sqrt (row : EventRow) : Option Int := row.terms.quantity .sqrtPriceX96

def EventRow.reserves (row : EventRow) : Option (String × String) :=
  (row.terms.data "reserve0").bind fun reserve0 =>
    (row.terms.data "reserve1").map fun reserve1 => (reserve0, reserve1)

def Arithmetic.before (row : EventRow) : StateBefore :=
  arith.stateBefore (row.terms.data "pool_state_before")

def isSource (pool : PoolRow) (row : EventRow) : Bool :=
  (EventRow.sqrt row).isSome || pool.protocol = .v2 && (EventRow.reserves row).isSome

/-- `_anchor_token`: the token whose USD price a pool may mark. -/
def anchorToken (id : PoolId) (pool : PoolRow) : Option Address :=
  if pool.protocol ≠ .v3 ∨ (pool.token0 ≠ USDG ∧ pool.token1 ≠ USDG) then none
  else if pool.factory ≠ some UNISWAP_V3_FACTORY ∧ id ≠ .contract WETH_USDG_POOL then none
  else
    let token := if pool.token0 = USDG then pool.token1 else pool.token0
    if token = WETH ∧ id ≠ .contract WETH_USDG_POOL then none else some token

/-- `_sqrt_sample_ratio`: nobody has traded at the price of a creation. -/
def sqrtSampleRatio (pool : PoolRow) (kind : Kind) (sqrt : Int) : Option ℚ :=
  if kind = .create then none else arith.sqrtPrice pool sqrt

def tradeable (sqrt : Option Int) : Bool :=
  sqrt.any fun sqrt => MIN_TRADEABLE_SQRT < sqrt && sqrt < MAX_TRADEABLE_SQRT

def plausibleUsd (price : Option ℚ) : Option ℚ :=
  price.filter fun price => 0 < price && price ≤ MAX_TOKEN_USD

structure PoolSample where
  sqrt : Option Int
  reserves : Option (String × String)
  price : Option ℚ

def sampleEvents (events : Events) (id : PoolId) (pool : PoolRow) : List EventRow :=
  (events.entries.map Prod.snd).filter fun row => row.terms.poolId = some id &&
    if pool.protocol = .v2 then (EventRow.reserves row).isSome else (EventRow.sqrt row).isSome

/-- `_sample_after`. -/
def sampleAfter (events : Events) (tables : PriceTables) (id : PoolId) (pool : PoolRow)
    (order : Order) : Option Order :=
  if tables.samplePruneBlock ≤ order.block then
    if pool.protocol = .v2 then
      (earliest ReserveSample.order ((tables.reserveSamples.entries.map Prod.snd).filter fun row =>
        row.pool = id && order < row.order)).map ReserveSample.order
    else
      (earliest Sample.order ((tables.samples.entries.map Prod.snd).filter fun row =>
        row.pool = id && order < row.order)).map Sample.order
  else
    (earliest EventRow.order ((sampleEvents events id pool).filter fun row =>
      order < EventRow.order row)).map EventRow.order

def sampleAtOrBefore (events : Events) (tables : PriceTables) (id : PoolId) (pool : PoolRow)
    (order : Order) : Option PoolSample :=
  if tables.samplePruneBlock ≤ order.block then
    if pool.protocol = .v2 then
      (latest ReserveSample.order ((tables.reserveSamples.entries.map Prod.snd).filter fun row =>
        row.pool = id && row.order ≤ order)).map fun row =>
          ⟨none, some (row.reserve0, row.reserve1), row.price⟩
    else
      (latest Sample.order ((tables.samples.entries.map Prod.snd).filter fun row =>
        row.pool = id && row.order ≤ order)).map fun row => ⟨some row.sqrt, none, row.price⟩
  else
    (latest EventRow.order ((sampleEvents events id pool).filter fun row =>
      EventRow.order row ≤ order)).map fun row =>
        if pool.protocol = .v2 then
          ⟨none, EventRow.reserves row,
            (EventRow.reserves row).bind fun reserves =>
              arith.reserveRatio pool reserves.1 reserves.2⟩
        else
          ⟨EventRow.sqrt row, none,
            (EventRow.sqrt row).bind (sqrtSampleRatio arith pool row.terms.kind)⟩

abbrev MarkRow := EventId × Mark

/-- The marks that are at hand in `anchor_heads`: the last one of a token, or that it has none. -/
abbrev AnchorHeads := Address → Option (Option MarkRow)

def marksOf (marks : OrderedTable (Address × EventId) Mark) (token : Address) : List MarkRow :=
  (marks.entries.filter fun entry => entry.1.1 = token).map fun entry => (entry.1.2, entry.2)

def lastMark (marks : OrderedTable (Address × EventId) Mark) (token : Address) : Option MarkRow :=
  latest (fun row => row.2.order) (marksOf marks token)

def wrapped (token : Address) : Address := if token = NATIVE then WETH else token

def Mark.current (mark : Mark) (timestamp : Int) : Option ℚ :=
  if 0 ≤ timestamp - mark.timestamp ∧ timestamp - mark.timestamp ≤ 300 then some mark.priceUsd
  else none

/-- `_anchor`. -/
def anchor (marks : OrderedTable (Address × EventId) Mark) (heads : AnchorHeads) (token : Address)
    (row : EventRow) : Option ℚ :=
  if token = USDG then some 1
  else
    let stored := ((latest (fun mark => mark.2.order) ((marksOf marks (wrapped token)).filter
      fun mark => mark.2.order ≤ EventRow.order row)).bind fun mark =>
        mark.2.current row.place.timestamp)
    match heads (wrapped token) with
    | none => stored
    | some none => none
    | some (some head) =>
      if head.2.order < EventRow.order row then head.2.current row.place.timestamp else stored

def moved (row : EventRow) (tick : Option Int) (liquidity : Int) : Int :=
  match tick, row.terms.quantity .liquidityDelta, row.terms.quantity .tickLower,
      row.terms.quantity .tickUpper with
  | some tick, some delta, some lower, some upper =>
    if lower ≤ tick ∧ tick < upper then max 0 (liquidity + delta) else liquidity
  | _, _, _, _ => liquidity

def refreshed (events : Events) (id : PoolId) (old : Option PoolState) (row : EventRow)
    (before : StateBefore) : StateBefore :=
  match before.pinnedBlock with
  | none => before
  | some pinned =>
    match old.filter fun state => pinned < state.order.block with
    | some state => { before with liquidity := state.liquidity, tick := state.tick }
    | none =>
      let later := latest EventRow.order ((events.entries.map Prod.snd).filter fun other =>
        other.terms.poolId = some id && pinned < other.place.blockNumber &&
          EventRow.order other ≤ EventRow.order row &&
            (other.terms.quantity .liquidity).isSome)
      match later with
      | some other =>
        { before with
          liquidity := other.terms.quantity .liquidity, tick := other.terms.quantity .tick }
      | none => before

/-- `_active_liquidity`; `stored` is the pool's state, which may be later than the event. -/
def activeLiquidity (events : Events) (stored : Option PoolState) (id : PoolId) (pool : PoolRow)
    (row : EventRow) : Option Int :=
  if pool.protocol ≠ .v3 ∧ pool.protocol ≠ .v4 then none
  else match row.terms.quantity .liquidity with
    | some liquidity => some liquidity
    | none =>
      let old := stored.filter fun state => state.order ≤ EventRow.order row
      match old.filter fun state => state.order = EventRow.order row && state.liquidity.isSome with
      | some state => state.liquidity
      | none =>
        let before := refreshed events id old row (arith.before row)
        let tick := ((row.terms.quantity .tick).or before.tick).or (old.bind PoolState.tick)
        (before.liquidity.or (old.bind PoolState.liquidity)).map fun liquidity =>
          if old.all fun state => state.order < EventRow.order row then moved row tick liquidity
          else liquidity

/-! `_price`. -/

/-- The price of an event in its pool; `valued` is the one that dollars come from. -/
structure Ratio where
  sqrt : Option Int
  ratio : Option ℚ
  valued : Option ℚ

def positive (reserves : Option (String × String)) : Bool :=
  reserves.any fun pair => 0 < arith.reserve pair.1 && 0 < arith.reserve pair.2

/-- The price before liquidity is looked at; `state` is the cached state, if one may be used. -/
def ratioOf (events : Events) (tables : PriceTables) (state : Option PoolState) (id : PoolId)
    (pool : PoolRow) (row : EventRow) : Ratio :=
  let cached := state.filter fun state => state.order ≤ EventRow.order row
  let sample := sampleAtOrBefore arith events tables id pool (EventRow.order row)
  if pool.protocol = .v2 then
    match EventRow.reserves row with
    | some reserves =>
      let ratio := arith.reserveRatio pool reserves.1 reserves.2
      ⟨EventRow.sqrt row, ratio, if positive arith (some reserves) then ratio else none⟩
    | none =>
      match cached.filter fun state => state.price.isSome, sample with
      | some state, _ => ⟨EventRow.sqrt row, state.price, state.price⟩
      | none, some sample =>
        ⟨EventRow.sqrt row, sample.price,
          if positive arith sample.reserves then sample.price else none⟩
      | none, none => ⟨EventRow.sqrt row, none, none⟩
  else
    match EventRow.sqrt row with
    | some sqrt => ⟨some sqrt, sqrtSampleRatio arith pool row.terms.kind sqrt, none⟩
    | none =>
      match cached.filter fun state => state.sqrt.isSome, sample with
      | some state, _ => ⟨state.sqrt, state.price, none⟩
      | none, some sample => ⟨sample.sqrt, sample.price, none⟩
      | none, none =>
        let sqrt := (arith.before row).sqrt
        ⟨sqrt, sqrt.bind (arith.sqrtPrice pool), none⟩

structure Known where
  id : EventId
  row : EventRow
  poolId : PoolId
  pool : PoolRow

def Known.order (event : Known) : Order := EventRow.order event.row

def Known.token (event : Known) : Option Address :=
  if (EventRow.sqrt event.row).isSome then anchorToken event.poolId event.pool else none

structure Pass where
  tables : PriceTables
  anchorHeads : AnchorHeads
  states : PoolId → Option PoolState
  dirty : List PoolId
  sampleRows : List (EventId × Sample)
  reserveRows : List (EventId × ReserveSample)
  markRows : List ((Address × EventId) × Mark)
  sources : OrderedTable PoolId (List EventRow)
  valuation : EventId → Option Valuation

/-- `DELETE FROM lp_price_marks` before an event is marked once more. -/
def Pass.unmark (pass : Pass) (token : Address) (id : EventId) : Pass :=
  let marks := pass.tables.marks.erase (token, id)
  { pass with
    tables := { pass.tables with marks := marks }
    anchorHeads := fun other =>
      if other = token then (pass.anchorHeads token).map fun head =>
        if head.any fun mark => mark.1 = id then lastMark marks token else head
      else pass.anchorHeads other }

def Pass.addSample (pass : Pass) (forward : Bool) (id : EventId) (sample : Sample) : Pass :=
  if forward then { pass with sampleRows := pass.sampleRows ++ [(id, sample)] }
  else { pass with tables := { pass.tables with samples := pass.tables.samples.put id sample } }

def Pass.addReserves (pass : Pass) (forward : Bool) (id : EventId) (sample : ReserveSample) :
    Pass :=
  if forward then { pass with reserveRows := pass.reserveRows ++ [(id, sample)] }
  else { pass with
    tables := { pass.tables with reserveSamples := pass.tables.reserveSamples.put id sample } }

def Pass.addMark (pass : Pass) (forward : Bool) (token : Address) (id : EventId) (mark : Mark) :
    Pass :=
  let stored := if forward then { pass with markRows := pass.markRows ++ [((token, id), mark)] }
    else { pass with
      tables := { pass.tables with marks := pass.tables.marks.put (token, id) mark } }
  { stored with
    anchorHeads := fun other =>
      if other = token then (pass.anchorHeads token).map fun head =>
        if head.all fun last => last.2.order ≤ mark.order then some (id, mark) else head
      else pass.anchorHeads other }

/-- What `_price` returns, with its writes. -/
structure Priced where
  ratio : Ratio
  anchor : Option (ℚ × String)
  valuation : Valuation
  pass : Pass

def Pass.addSamples (pass : Pass) (forward : Bool) (event : Known) (ratio : Option ℚ) : Pass :=
  let place := event.row.place
  let reserves := if event.pool.protocol = .v2 then EventRow.reserves event.row else none
  let reserved := match reserves with
    | some reserves => pass.addReserves forward event.id
        ⟨event.poolId, event.order, place.timestamp, reserves.1, reserves.2, ratio⟩
    | none => pass
  match EventRow.sqrt event.row with
  | some sqrt =>
    reserved.addSample forward event.id
      ⟨event.poolId, event.order, place.timestamp, sqrt, ratio⟩
  | none => reserved

def valuedRatio (events : Events) (stored : Option PoolState) (event : Known) (ratio : Ratio) :
    Option ℚ :=
  if event.pool.protocol = .v3 ∨ event.pool.protocol = .v4 then
    if (activeLiquidity arith events stored event.poolId event.pool event.row).any (0 < ·) &&
        tradeable ratio.sqrt then ratio.ratio
    else none
  else ratio.valued

/-- `_price` of a delivery. A backfilled event uses no cached state. -/
def price (events : Events) (forward : Bool) (oldAnchor : Option (ℚ × String)) (pass : Pass)
    (event : Known) : Priced :=
  let cached := if forward then pass.states event.poolId else none
  let stored := if forward then pass.states event.poolId
    else pass.tables.states.get event.poolId
  let ratio := ratioOf arith events pass.tables cached event.poolId event.pool event.row
  let valued := valuedRatio arith events stored event ratio
  let cleared := match event.token, oldAnchor with
    | some token, some _ => pass.unmark token event.id
    | _, _ => pass
  let price0 := anchor cleared.tables.marks cleared.anchorHeads event.pool.token0 event.row
  let price1 := anchor cleared.tables.marks cleared.anchorHeads event.pool.token1 event.row
  let quote := arith.quote event.pool valued price0 price1
  let basis := if quote.1.isSome || quote.2.1.isSome then some quote.2.2 else none
  let sampled := cleared.addSamples forward event ratio.ratio
  let usd := match event.token, valued with
    | some token, some _ => plausibleUsd (if token = event.pool.token0 then quote.1 else quote.2.1)
    | _, _ => none
  { ratio := ratio
    anchor := usd.map fun usd => (usd, quote.2.2)
    valuation := arith.value event.pool event.row quote.1 quote.2.1 basis
    pass := match event.token, usd with
      | some token, some usd =>
        sampled.addMark forward token event.id
          ⟨event.order, event.row.place.timestamp, usd, quote.2.2⟩
      | _, _ => sampled }

/-! `_state`. -/

def newState (event : Known) (ratio : Ratio) (valuation : Valuation) (old : Option PoolState) :
    Option PoolState :=
  let row := event.row
  let order := event.order
  if old.any fun state => order < state.order then none
  else if ratio.sqrt.isNone && !(event.pool.protocol = .v2 && ratio.ratio.isSome) then none
  else
    let before := arith.before row
    let tick := (row.terms.quantity .tick).or (match old with
      | some state => state.tick
      | none => before.tick)
    let kept := match old with
      | some state => state.liquidity
      | none => before.liquidity
    some
      { order := order
        timestamp := row.place.timestamp
        sqrt := ratio.sqrt
        tick := tick
        liquidity := (row.terms.quantity .liquidity).or (kept.map fun liquidity =>
          if old.all fun state => state.order < order then moved row tick liquidity else liquidity)
        price0 := valuation.usd .price0
        price1 := valuation.usd .price1
        price := ratio.ratio
        feePpm := (row.terms.quantity .feePpm).or (match old with
          | some state => state.feePpm
          | none => event.pool.feePpm)
        basis := valuation.basis }

/-! `apply`. -/

def oldSource (tables : PriceTables) (event : Known) : Option (Option ℚ) :=
  if event.pool.protocol = .v2 then (tables.reserveSamples.get event.id).map ReserveSample.price
  else (tables.samples.get event.id).map Sample.price

def oldAnchor (tables : PriceTables) (event : Known) : Option (ℚ × String) :=
  event.token.bind fun token =>
    (tables.marks.get (token, event.id)).map fun mark => (mark.priceUsd, mark.basis)

def changedSource (tables : PriceTables) (event : Known) (priced : Priced) : Bool :=
  isSource event.pool event.row &&
    (oldSource tables event ≠ some priced.ratio.ratio || oldAnchor tables event ≠ priced.anchor)

/-- One round of the loop. `tables` are those before the delivery. -/
def applyEvent (events : Events) (forward : Bool) (tables : PriceTables) (pass : Pass)
    (event : Known) : Pass :=
  let priced := price arith events forward (oldAnchor tables event) pass event
  let old := pass.states event.poolId
  let state := newState arith event priced.ratio priced.valuation old
  { priced.pass with
    states := Function.update pass.states event.poolId (state.or old)
    dirty := if state.isSome then event.poolId :: pass.dirty else pass.dirty
    sources := if changedSource tables event priced then
      pass.sources.append event.poolId event.row else pass.sources
    valuation := Function.update pass.valuation event.id (some priced.valuation) }

def inPriceOrder (events : Delivered) : Delivered :=
  events.insertionSort fun left right => EventRow.order left.2 ≤ EventRow.order right.2

section Delivery

variable {Lp : Type}

def knownEvents (db : Db Lp) (events : Delivered) : List Known :=
  (inPriceOrder events).filterMap fun event =>
    event.2.terms.poolId.bind fun poolId =>
      (db.pools.get poolId).map fun pool => ⟨event.1, event.2, poolId, pool⟩

def deliveredRevision (events : Delivered) : Option Nat := events.head?.map fun event => event.2.revision

def priorOrder (events : Events) (revision : Option Nat) : Option Order :=
  (latest EventRow.order ((events.entries.map Prod.snd).filter fun row =>
    some row.revision ≠ revision)).map EventRow.order

def isForward (db : Db Lp) (events : Delivered) : Bool :=
  match priorOrder db.events (deliveredRevision events), (inPriceOrder events).head? with
  | some prior, some first => prior < EventRow.order first.2
  | _, _ => true

def gasRows (db : Db Lp) (known : List Known) : List (Hash × Int × EventRow) :=
  let last : OrderedTable Hash EventRow := known.foldl (fun table event =>
    table.assign event.row.place.txHash event.row) .empty
  last.entries.filterMap fun entry =>
    ((db.transactions.get entry.1).bind TransactionRow.gasNative).map fun gas =>
      (entry.1, gas, entry.2)

def anchorUses (known : List Known) (gas : List (Hash × Int × EventRow)) : List Address :=
  (known.flatMap fun event =>
    ([event.pool.token0, event.pool.token1].filter (· ≠ USDG)).map wrapped) ++
      gas.map fun _ => WETH

def headsAtHand (tables : PriceTables) (uses : List Address) : AnchorHeads := fun token =>
  if 1 < uses.count token then some (lastMark tables.marks token) else none

def Pass.start (tables : PriceTables) (uses : List Address) : Pass :=
  { tables := tables, anchorHeads := headsAtHand tables uses, states := tables.states.get
    dirty := [], sampleRows := [], reserveRows := [], markRows := [], sources := .empty
    valuation := fun _ => none }

def Pass.finish (pass : Pass) : PriceTables :=
  { pass.tables with
    samples := pass.tables.samples.putAll pass.sampleRows
    reserveSamples := pass.tables.reserveSamples.putAll pass.reserveRows
    marks := pass.tables.marks.putAll pass.markRows
    states := pass.tables.states.putAll (pass.dirty.dedup.filterMap fun id =>
      (pass.states id).map fun state => (id, state)) }

/-! `_queue_successors`. -/

/-- `(2**63 - 1, 0, 0)`. -/
def LAST_ORDER : Order := toLex (2 ^ 63 - 1, toLex (0, 0))

def poolSuccessors (events : Events) (tables : PriceTables) (revision : Option Nat) (id : PoolId)
    (pool : PoolRow) (change : EventRow) : EventId → EventRow → Bool :=
  let low := EventRow.order change
  let upper := (sampleAfter events tables id pool low).getD LAST_ORDER
  fun _ row => row.terms.poolId = some id && low < EventRow.order row &&
    EventRow.order row < upper && some row.revision ≠ revision

/-- The events that the token's mark may have priced: those of its cross pools, and for WETH those
whose gas is known. -/
def anchorSuccessors (db : Db Lp) (tables : PriceTables) (revision : Option Nat) (token : Address)
    (change : EventRow) : EventId → EventRow → Bool :=
  let low := EventRow.order change
  let following := earliest (fun mark : MarkRow => mark.2.order)
    ((marksOf tables.marks token).filter fun mark => low < mark.2.order)
  let upper := (following.map fun mark => mark.2.order).getD LAST_ORDER
  let timestamp := change.place.timestamp
  let last := match following with
    | some mark => min (timestamp + 300) mark.2.timestamp
    | none => timestamp + 300
  let leg := fun other => other = token || other = (if token = WETH then NATIVE else token)
  fun _ row => (row.terms.poolId.bind db.pools.get).any fun pool =>
    timestamp ≤ row.place.timestamp && row.place.timestamp ≤ last &&
      low < EventRow.order row && EventRow.order row < upper && some row.revision ≠ revision &&
        (pool.token0 ≠ USDG && pool.token1 ≠ USDG && (leg pool.token0 || leg pool.token1) ||
          token = WETH && ((db.transactions.get row.place.txHash).bind
            TransactionRow.gasNative).isSome)

def queueSuccessors (db : Db Lp) (tables : PriceTables) (revision : Option Nat)
    (sources : OrderedTable PoolId (List EventRow)) : List (EventId → EventRow → Bool) :=
  sources.entries.flatMap fun entry =>
    match db.pools.get entry.1 with
    | none => []
    | some pool =>
      entry.2.map (poolSuccessors db.events tables revision entry.1 pool) ++
        match anchorToken entry.1 pool with
        | none => []
        | some token => entry.2.map (anchorSuccessors db tables revision token)

def applyAll (db : Db Lp) (tables : PriceTables) (events : Delivered) : Pass :=
  let known := knownEvents db events
  known.foldl (applyEvent arith db.events (isForward db events) tables)
    (Pass.start tables (anchorUses known (gasRows db known)))

def gasValue (db : Db Lp) (events : Delivered) (pass : Pass) (hash : Hash) : Option (Option ℚ) :=
  ((gasRows db (knownEvents db events)).find? fun entry => entry.1 = hash).map fun entry =>
    arith.gasUsd entry.2.1 (anchor pass.finish.marks pass.anchorHeads WETH entry.2.2)

/-- `apply`, its buckets aside. -/
def repriceEvents (db : Db Lp) (tables : PriceTables) (events : Delivered) :
    Repricing PriceTables :=
  let pass := applyAll arith db tables events
  { valuation := fun id => (pass.valuation id).getD ⟨fun _ => none, none, fun _ => none⟩
    successors := if isForward db events then []
      else queueSuccessors db pass.finish (deliveredRevision events) pass.sources
    gas := gasValue arith db events pass
    tables := pass.finish }

end Delivery

def PriceTables.cut (tables : PriceTables) (ancestor : Int) : PriceTables :=
  { tables with
    samples := tables.samples.remove fun _ row => ancestor < row.order.block
    reserveSamples := tables.reserveSamples.remove fun _ row => ancestor < row.order.block
    marks := tables.marks.remove fun _ row => ancestor < row.order.block
    states := tables.states.remove fun _ row => ancestor < row.order.block }

def survivors (events : Events) (id : PoolId) (ancestor : Int) : Delivered :=
  inPriceOrder (events.entries.filter fun entry =>
    entry.2.terms.poolId = some id && entry.2.place.blockNumber ≤ ancestor)

def rebuilds (row : EventRow) : Bool :=
  (EventRow.sqrt row).isSome || row.terms.protocol = .v2 && row.terms.kind = .checkpoint

/-- The row of `lp_pool_state`, where `_state` writes it once more. -/
def writeState (event : Known) (ratio : Ratio) (valuation : Valuation)
    (states : OrderedTable PoolId PoolState) : OrderedTable PoolId PoolState :=
  match newState arith event ratio valuation (states.get event.poolId) with
  | some state => states.put event.poolId state
  | none => states

structure Unwound where
  tables : PriceTables
  valuation : EventId → Option Valuation

/-- One affected pool: its last event with a price is priced, and those behind it change the
state at that price. -/
def unwindPool (pools : OrderedTable PoolId PoolRow) (events : Events) (ancestor : Int)
    (unwound : Unwound) (id : PoolId) : Unwound :=
  let stays := survivors events id ancestor
  match (stays.filter fun event => rebuilds event.2).getLast?, pools.get id with
  | some base, some pool =>
    let event : Known := ⟨base.1, base.2, id, pool⟩
    let priced := price arith events false (oldAnchor unwound.tables event)
      (Pass.start unwound.tables []) event
    let following := stays.filter fun other => EventRow.order base.2 < EventRow.order other.2
    let states := following.foldl (fun states other =>
        writeState arith ⟨other.1, other.2, id, pool⟩ priced.ratio other.2.valuation states)
      (writeState arith event priced.ratio priced.valuation priced.pass.tables.states)
    { tables := { priced.pass.tables with states := states }
      valuation := Function.update unwound.valuation base.1 (some priced.valuation) }
  | _, _ => unwound

/-- `rollback`, its buckets aside. -/
def unwindPrices {Lp : Type} (db : Db Lp) (tables : PriceTables) (ancestor : Int) :
    Unwinding PriceTables :=
  let affected := (tables.states.entries.filter fun entry =>
    ancestor < entry.2.order.block).map Prod.fst
  let unwound := affected.foldl (unwindPool arith db.pools db.events ancestor)
    ⟨tables.cut ancestor, fun _ => none⟩
  { valuation := unwound.valuation, tables := unwound.tables }

def markPricing : Pricing PriceTables where
  price db events := .ok (repriceEvents arith db db.lp.rest events)
  unwind db ancestor := .ok (unwindPrices arith db db.lp.rest ancestor)

/-- `PriceProjection`. -/
def priceProjection : PriceProjection (Tables PriceTables) :=
  bucketProjection (markPricing arith)

end RhPools.PriceMarks
