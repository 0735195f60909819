import RhPools.EventWords
import RhPools.SqlTables

/-! The tables of the market store that its write operations read or change. A row of
`events` keeps its coordinates apart from what enrichment may fill in, and both apart from
the valuation that pricing writes. The search catalogue is not here. -/

namespace RhPools.MarketTables
open TxChain EventWords OrderedTables

inductive Protocol where
  | v2 | v3 | v4 | nft
  deriving DecidableEq, Repr

inductive Kind where
  | swap | add | remove | collect | checkpoint | transfer | create | donate | fee
  deriving DecidableEq, Repr

/-- A pair or V3 pool is named by its contract, a V4 pool by the hash of its key. -/
inductive PoolId where
  | contract (address : Address)
  | key (hash : Hash)
  deriving DecidableEq, Repr

abbrev EventId := Nat

structure Header where
  number : Int
  hash : Hash
  parentHash : Hash
  timestamp : Int
  deriving DecidableEq, Repr

structure Place where
  blockNumber : Int
  blockHash : Hash
  txHash : Hash
  txIndex : Int
  logIndex : Int
  timestamp : Int
  deriving DecidableEq, Repr

inductive Quantity where
  | tickLower | tickUpper | liquidityDelta | liquidity | sqrtPriceX96 | tick | feePpm
  | amount0 | amount1 | feeAmount0 | feeAmount1 | cashflow0 | cashflow1
  deriving DecidableEq, Repr

inductive Party where
  | owner | custody
  deriving DecidableEq, Repr

inductive Label where
  | positionKey | tokenId | accountingBasis | identityBasis
  deriving DecidableEq, Repr

structure TransactionRow where
  blockNumber : Int
  blockHash : Hash
  payer : Option Address
  gasUsed : Option Int
  gasPrice : Option Int
  gasNative : Option Int
  gasUsd : Option ℚ
  status : Option Int
  data : Option String

inductive MetaValue where
  | number (value : Int)
  | text (value : String)
  deriving DecidableEq, Repr

abbrev PoolMetadata := OrderedTable String MetaValue

structure PoolRow where
  protocol : Protocol
  address : Address
  token0 : Address
  token1 : Address
  symbol0 : Option String
  symbol1 : Option String
  decimals0 : Option Int
  decimals1 : Option Int
  feePpm : Option Int
  tickSpacing : Option Int
  hook : Option Address
  factory : Option Address
  createdBlock : Option Int
  source : Option String
  metadata : Option PoolMetadata

structure Observation where
  observedBlock : Int
  observedHash : Hash
  basis : String

structure PoolFields where
  id : PoolId
  row : PoolRow
  observation : Option Observation

structure Terms where
  poolId : Option PoolId
  protocol : Protocol
  kind : Kind
  quantity : Quantity → Option Int
  party : Party → Option Address
  label : Label → Option String
  data : String → Option String
  pool : Option PoolFields

inductive UsdColumn where
  | price0 | price1 | volume | fees | deposit | withdrawal
  deriving DecidableEq, Repr

inductive FeeNote where
  | scope | qualification | basis
  deriving DecidableEq, Repr

structure Valuation where
  usd : UsdColumn → Option ℚ
  basis : Option String
  notes : FeeNote → Option String

structure EventRow where
  place : Place
  terms : Terms
  valuation : Valuation
  revision : Nat

structure Token where
  symbol : String
  decimals : Int
  deriving DecidableEq, Repr

structure Coverage where
  lane : String
  startBlock : Int
  endBlock : Int
  startHash : Hash
  endHash : Hash
  deriving DecidableEq, Repr

structure Retry where
  attempts : Nat
  nextAttempt : ℚ
  lastError : Option String
  deriving DecidableEq, Repr

def Retry.fresh : Retry := ⟨0, 0, none⟩

structure EnrichmentJob where
  blockNumber : Int
  blockHash : Hash
  retry : Retry
  generation : Nat

structure ReprojectionJob where
  blockNumber : Int
  txIndex : Int
  logIndex : Int
  retry : Retry

structure BalanceJob where
  blockHash : Hash
  retry : Retry

structure Balance where
  blockHash : Hash
  balance0 : Int
  balance1 : Int
  deriving DecidableEq, Repr

/-- What a lane stores of its cursor; the keys no operation reads are left out. The last ones
are those of the history lane. -/
structure Cursor where
  fromBlock : Option Int
  startBlock : Option Int
  toBlock : Option Int
  endBlock : Option Int
  blockNumber : Option Int
  blockHash : Option Hash
  nextTo : Option Int
  lowBlock : Option Int
  timestamp : Option Int := none
  targetBlock : Option Int := none
  targetTimestamp : Option Int := none
  targetPending : Bool := false
  originHead : Option Int := none
  complete : Bool := false
  hasCoverage : Bool := false

/-- The row counts kept in `metadata`. -/
inductive Counter where
  | indexedEvents | indexedPools | indexedTransactions | pendingEnrichment
  | pendingBalances | pendingMetadata | pendingPoolUnpublish | pendingReprojection
  deriving DecidableEq, Repr

structure RepairState where
  complete : Bool
  resumeAt : Option Int
  throughId : Option EventId
  kindIndex : Nat
  afterId : EventId

/-- The database. `lp` stands for the tables of the price projection. -/
structure Db (Lp : Type) where
  pools : OrderedTable PoolId PoolRow
  provenance : OrderedTable PoolId Observation
  blocks : OrderedTable Int Header
  events : OrderedTable EventId EventRow
  lastEventId : EventId
  transactions : OrderedTable Hash TransactionRow
  coverage : List Coverage
  pendingEnrichment : OrderedTable Hash EnrichmentJob
  tokenMetadata : OrderedTable Address Token
  pendingTokenMetadata : OrderedTable Address Retry
  pendingPoolUnpublish : OrderedTable PoolId Nat
  pendingReprojection : OrderedTable EventId ReprojectionJob
  pendingBalances : OrderedTable (PoolId × Int) BalanceJob
  poolBalances : OrderedTable (PoolId × Int) Balance
  counter : Counter → Int
  revision : Nat
  epoch : Nat
  eventsRevision : Nat
  liveRevision : Nat
  cursor : String → Option Cursor
  repair : RepairState
  lp : Lp

inductive Failure where
  | conflict (detail : String)
  | value (detail : String)
  | integrity
  | pending
  | negative (counter : Counter)
  | projection (detail : String)
  deriving DecidableEq, Repr

abbrev Write := Except Failure

variable {Lp : Type}

def Db.rows (db : Db Lp) : Counter → Nat
  | .indexedEvents => db.events.size
  | .indexedPools => db.pools.size
  | .indexedTransactions => db.transactions.size
  | .pendingEnrichment => db.pendingEnrichment.size
  | .pendingBalances => db.pendingBalances.size
  | .pendingMetadata => db.pendingTokenMetadata.size
  | .pendingPoolUnpublish => db.pendingPoolUnpublish.size
  | .pendingReprojection => db.pendingReprojection.size

def Db.fresh (lp : Lp) : Db Lp :=
  { pools := .empty, provenance := .empty, blocks := .empty, events := .empty
    lastEventId := 0, transactions := .empty, coverage := [], pendingEnrichment := .empty
    tokenMetadata := .empty, pendingTokenMetadata := .empty, pendingPoolUnpublish := .empty
    pendingReprojection := .empty, pendingBalances := .empty, poolBalances := .empty
    counter := fun _ => 0, revision := 0, epoch := 0, eventsRevision := 0, liveRevision := 0
    cursor := fun _ => none, repair := ⟨false, none, none, 0, 0⟩, lp := lp }

/-- `_bump` of a row count. -/
def Db.bump (db : Db Lp) (key : Counter) (amount : Int) : Write (Db Lp) :=
  if db.counter key + amount < 0 then .error (.negative key)
  else .ok { db with counter := Function.update db.counter key (db.counter key + amount) }

/-- `_next_revision`; counting up by one never raises. -/
def Db.nextRevision (db : Db Lp) : Db Lp := { db with revision := db.revision + 1 }

end RhPools.MarketTables
