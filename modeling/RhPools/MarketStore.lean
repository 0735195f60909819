import Mathlib.Data.List.Sort
import Mathlib.Data.Prod.Lex
import RhPools.GuardedRuns
import RhPools.MarketTables

/-! The write operations of the market store. Each is one transaction: where it raises,
the database is the one before it. A raise inside a batch therefore undoes the batch. -/

namespace RhPools.MarketStore
open TxChain (Address)
open OrderedTables MarketTables GuardedRuns
open EventWords (Hash)

variable {Lp : Type}

def addHeader (normalized : OrderedTable Int Header) (header : Header) :
    Write (OrderedTable Int Header) :=
  if header.number < 0 ∨ header.timestamp < 0 then .error (.value "malformed block header")
  else match normalized.get header.number with
    | some prior =>
      if prior ≠ header then .error (.conflict "conflicting supplied headers")
      else .ok normalized
    | none => .ok (normalized.put header.number header)

def broken (previous next : Header) : Bool :=
  next.number = previous.number + 1 && next.parentHash ≠ previous.hash

def contradicts (blocks : OrderedTable Int Header) (header : Header) : Bool :=
  (blocks.get header.number).any fun existing => existing ≠ header

def storeHeader (blocks : OrderedTable Int Header) (header : Header) :
    Write (OrderedTable Int Header) :=
  match blocks.get header.number with
  | some _ => .ok blocks
  | none =>
    if blocks.entries.any fun entry => entry.2.hash = header.hash then .error .integrity
    else .ok (blocks.put header.number header)

def inNumberOrder (headers : OrderedTable Int Header) : List Header :=
  (headers.entries.map Prod.snd).insertionSort fun left right => left.number ≤ right.number

def checkHeaders (blocks : OrderedTable Int Header) (ordered : List Header) : Write Unit :=
  if (ordered.zip ordered.tail).any fun pair => broken pair.1 pair.2 then
    .error (.conflict "block does not extend supplied block")
  else if ordered.any (contradicts blocks) then
    .error (.conflict "conflicts with its stored canonical header")
  else .ok ()

def storeHeaders (db : Db Lp) (headers : List Header) :
    Write (Db Lp × OrderedTable Int Header) := do
  let normalized ← headers.foldlM addHeader .empty
  checkHeaders db.blocks (inNumberOrder normalized)
  let blocks ← (inNumberOrder normalized).foldlM storeHeader db.blocks
  return ({ db with blocks := blocks }, normalized)

def absorb (merged row : Coverage) : Coverage :=
  let left := if row.startBlock < merged.startBlock then
    { merged with startBlock := row.startBlock, startHash := row.startHash } else merged
  if row.endBlock > left.endBlock then
    { left with endBlock := row.endBlock, endHash := row.endHash } else left

def touches (interval row : Coverage) : Bool :=
  row.lane = interval.lane && row.startBlock ≤ interval.endBlock + 1 &&
    row.endBlock ≥ interval.startBlock - 1

def mergeCoverage (coverage : List Coverage) (interval : Coverage) : List Coverage :=
  let overlaps := (coverage.filter (touches interval)).insertionSort fun left right =>
    left.startBlock ≤ right.startBlock
  coverage.filter (fun row => !touches interval row) ++ [overlaps.foldl absorb interval]

/-- `INSERT OR IGNORE INTO pending_reprojection SELECT .. FROM events WHERE`, and the
number of rows it inserted. -/
def queueEvents (db : Db Lp) (chosen : EventId → EventRow → Bool) : Db Lp × Nat :=
  let jobs := (db.events.entries.filter fun entry => chosen entry.1 entry.2).map fun entry =>
    (entry.1, ({ blockNumber := entry.2.place.blockNumber, txIndex := entry.2.place.txIndex
                 logIndex := entry.2.place.logIndex, retry := .fresh } : ReprojectionJob))
  let pending := db.pendingReprojection.insertAll jobs
  ({ db with pendingReprojection := pending }, pending.size - db.pendingReprojection.size)

def requeue (db : Db Lp) (chosen : EventId → EventRow → Bool) : Write (Db Lp) :=
  let (next, queued) := queueEvents db chosen
  next.bump .pendingReprojection queued

def ENRICHMENT_KINDS : List Kind :=
  [.add, .remove, .collect, .checkpoint, .donate, .fee, .transfer]

def queueEnrichment (db : Db Lp) (events : List EventRow) : Write (Db Lp) :=
  let jobs := (events.filter fun row => row.terms.kind ∈ ENRICHMENT_KINDS).map fun row =>
    (row.place.txHash, ({ blockNumber := row.place.blockNumber, blockHash := row.place.blockHash
                          retry := .fresh, generation := 0 } : EnrichmentJob))
  let pending := db.pendingEnrichment.insertAll jobs
  { db with pendingEnrichment := pending }.bump .pendingEnrichment
    ((pending.size - db.pendingEnrichment.size : Nat) : Int)

def poolShape (protocol : Protocol) : PoolId → Bool
  | .key _ => protocol = .v4
  | .contract _ => protocol ≠ .v4

def uint8 (decimals : Option Int) : Bool := decimals.all fun value => 0 ≤ value && value ≤ 255

def poolRow (fields : PoolFields) : Write PoolFields :=
  if !uint8 fields.row.decimals0 then .error (.value "pool decimals0 is outside uint8")
  else if !uint8 fields.row.decimals1 then .error (.value "pool decimals1 is outside uint8")
  else if fields.row.protocol = .nft then .error (.value "pool protocol must be v2, v3, or v4")
  else if !poolShape fields.row.protocol fields.id then
    .error (.value "pool id has the wrong protocol-specific shape")
  else .ok fields

def VERIFIED_BASES : List String :=
  ["factory_creation_event", "verified_workbench_catalog", "pinned_factory_getPair_membership",
    "pinned_factory_getPool_membership", "full_poolKey_hash"]

def verified (metadata : Option PoolMetadata) : Bool :=
  match metadata.bind fun fields => fields.get "discovery_basis" with
  | some (.text basis) => basis ∈ VERIFIED_BASES
  | _ => false

def clashes {Value : Type} [DecidableEq Value] (existing row : Option Value) : Bool :=
  existing.any fun old => row.any fun new => old ≠ new

def conflictingField (existing row : PoolRow) : Option String :=
  if existing.protocol ≠ row.protocol then some "protocol"
  else if existing.address ≠ row.address then some "address"
  else if existing.token0 ≠ row.token0 then some "token0"
  else if existing.token1 ≠ row.token1 then some "token1"
  else if clashes existing.feePpm row.feePpm then some "fee_ppm"
  else if clashes existing.tickSpacing row.tickSpacing then some "tick_spacing"
  else if clashes existing.hook row.hook then some "hook"
  else if clashes existing.factory row.factory then some "factory"
  else none

def OVERWRITTEN : List String :=
  ["discovery_basis", "identity_verified_block", "identity_verified_hash", "pool_family"]

def mergeMetadata (prior incoming : Option PoolMetadata) : Option PoolMetadata :=
  let old := prior.getD .empty
  let new := incoming.getD .empty
  let merged := (new.putAll old.entries).putAll
    (new.entries.filter fun entry => entry.1 ∈ OVERWRITTEN)
  if merged.entries.isEmpty then none else some merged

def earliest : Option Int → Option Int → Option Int
  | none, new => new
  | old, none => old
  | some old, some new => some (min old new)

def coalesce (existing row : PoolRow) : PoolRow :=
  { existing with
    symbol0 := existing.symbol0.or row.symbol0, symbol1 := existing.symbol1.or row.symbol1
    decimals0 := existing.decimals0.or row.decimals0
    decimals1 := existing.decimals1.or row.decimals1
    feePpm := existing.feePpm.or row.feePpm, tickSpacing := existing.tickSpacing.or row.tickSpacing
    hook := existing.hook.or row.hook, factory := existing.factory.or row.factory
    createdBlock := earliest existing.createdBlock row.createdBlock
    source := existing.source.or row.source, metadata := row.metadata.or existing.metadata }

/-- What `token_metadata` knows replaces what the caller said. -/
def knownTokens (db : Db Lp) (row : PoolRow) : PoolRow :=
  let left := match db.tokenMetadata.get row.token0 with
    | some token => { row with symbol0 := some token.symbol, decimals0 := some token.decimals }
    | none => row
  match db.tokenMetadata.get row.token1 with
  | some token => { left with symbol1 := some token.symbol, decimals1 := some token.decimals }
  | none => left

def observe (db : Db Lp) (id : PoolId) : Option Observation → Db Lp
  | none => db
  | some observation =>
    if (db.provenance.get id).all fun prior => observation.observedBlock < prior.observedBlock then
      { db with provenance := db.provenance.put id observation }
    else db

/-- The rows of `pools` with a token take its symbol and decimals where they have none. -/
def nameToken (db : Db Lp) (address : Address) (token : Token) : Db Lp :=
  { db with
    pools := db.pools.modify fun _ row =>
      let left := if row.token0 = address then
        { row with symbol0 := row.symbol0.or (some token.symbol)
                   decimals0 := row.decimals0.or (some token.decimals) } else row
      if left.token1 = address then
        { left with symbol1 := left.symbol1.or (some token.symbol)
                    decimals1 := left.decimals1.or (some token.decimals) } else left }

structure Tally where
  inserted : Nat
  queuedMetadata : Nat
  resolvedMetadata : Nat
  resolvedUnpublish : Nat
  queuedReprojection : Nat

def resolveToken (db : Db Lp) (tally : Tally) (address : Address) (symbol : Option String)
    (decimals : Option Int) : Db Lp × Tally :=
  match db.tokenMetadata.get address with
  | some _ => (db, tally)
  | none =>
    match symbol, decimals with
    | some symbol, some decimals =>
      let token : Token := ⟨symbol, decimals⟩
      let named := nameToken
        { db with tokenMetadata := db.tokenMetadata.put address token } address token
      let pending := named.pendingTokenMetadata.remove fun other _ => other = address
      ({ named with pendingTokenMetadata := pending },
        { tally with
          resolvedMetadata := tally.resolvedMetadata +
            (named.pendingTokenMetadata.size - pending.size) })
    | _, _ =>
      let pending := db.pendingTokenMetadata.insertNew address .fresh
      ({ db with pendingTokenMetadata := pending },
        { tally with
          queuedMetadata := tally.queuedMetadata +
            (pending.size - db.pendingTokenMetadata.size) })

def activate (db : Db Lp) (tally : Tally) (id : PoolId) (activated : Bool) : Db Lp × Tally :=
  if activated then
    let (next, queued) := queueEvents db fun _ row => row.terms.poolId = some id
    (next, { tally with queuedReprojection := tally.queuedReprojection + queued })
  else (db, tally)

def republish (db : Db Lp) (tally : Tally) (id : PoolId) : Db Lp × Tally :=
  let pending := db.pendingPoolUnpublish.remove fun other _ => other = id
  ({ db with pendingPoolUnpublish := pending },
    { tally with
      resolvedUnpublish := tally.resolvedUnpublish +
        (db.pendingPoolUnpublish.size - pending.size) })

def settlePool (db : Db Lp) (tally : Tally) (id : PoolId) (row : PoolRow) (activated : Bool) :
    Db Lp × Tally :=
  let (db, tally) := activate db tally id activated
  let (db, tally) := republish db tally id
  let (db, tally) := resolveToken db tally row.token0 row.symbol0 row.decimals0
  resolveToken db tally row.token1 row.symbol1 row.decimals1

def upsertPool (state : Db Lp × Tally) (fields : PoolFields) : Write (Db Lp × Tally) :=
  let (db, tally) := state
  let row := knownTokens db fields.row
  match db.pools.get fields.id with
  | none =>
    let db := observe db fields.id fields.observation
    let db := { db with pools := db.pools.put fields.id row }
    let (db, tally) := settlePool db tally fields.id row true
    .ok (db, { tally with inserted := tally.inserted + 1 })
  | some existing =>
    match conflictingField existing row with
    | some field => .error (.value ("pool has conflicting " ++ field))
    | none =>
      let activated := (existing.factory.isNone && row.factory.isSome) ||
        (!verified existing.metadata && verified row.metadata)
      let row := { row with metadata := mergeMetadata existing.metadata row.metadata }
      let db := observe db fields.id fields.observation
      let db := { db with pools := db.pools.put fields.id (coalesce existing row) }
      .ok (settlePool db tally fields.id row activated)

/-- `_upsert_pools`; a count that is zero changes nothing. -/
def upsertPools (db : Db Lp) (rows : List PoolFields) : Write (Db Lp) := do
  let normalized ← rows.mapM poolRow
  let (db, tally) ← normalized.foldlM upsertPool (db, ⟨0, 0, 0, 0, 0⟩)
  let db ← db.bump .indexedPools tally.inserted
  let db ← db.bump .pendingMetadata tally.queuedMetadata
  let db ← db.bump .pendingMetadata (-tally.resolvedMetadata)
  let db ← db.bump .pendingPoolUnpublish (-tally.resolvedUnpublish)
  db.bump .pendingReprojection tally.queuedReprojection

def upsertPoolsCall (db : Db Lp) (rows : List PoolFields) : Write (Db Lp) := do
  let db ← upsertPools db rows
  return if rows.isEmpty then db else db.nextRevision

structure EventFields where
  id : Option EventId
  blockNumber : Option Int
  blockHash : Option Hash
  txHash : Option Hash
  txIndex : Option Int
  logIndex : Option Int
  timestamp : Option Int
  poolId : Option (Option PoolId)
  protocol : Option Protocol
  kind : Option Kind
  quantity : Quantity → Option (Option Int)
  party : Party → Option (Option Address)
  label : Label → Option (Option String)
  data : String → Option String
  usd : UsdColumn → Option (Option ℚ)
  basis : Option (Option String)
  notes : FeeNote → Option String
  dataPool : Option PoolFields
  pool : Option PoolFields

def EventRow.fields (id : EventId) (row : EventRow) : EventFields :=
  { id := some id, blockNumber := some row.place.blockNumber
    blockHash := some row.place.blockHash, txHash := some row.place.txHash
    txIndex := some row.place.txIndex, logIndex := some row.place.logIndex
    timestamp := some row.place.timestamp, poolId := some row.terms.poolId
    protocol := some row.terms.protocol, kind := some row.terms.kind
    quantity := fun column => some (row.terms.quantity column)
    party := fun column => some (row.terms.party column)
    label := fun column => some (row.terms.label column), data := row.terms.data
    usd := fun column => some (row.valuation.usd column), basis := some row.valuation.basis
    notes := row.valuation.notes, dataPool := row.terms.pool, pool := none }

/-- `_merge_event`: the keys of the update, then those of the current row. -/
def mergeEvent (current update : EventFields) : EventFields :=
  { id := update.id.or current.id, blockNumber := update.blockNumber.or current.blockNumber
    blockHash := update.blockHash.or current.blockHash, txHash := update.txHash.or current.txHash
    txIndex := update.txIndex.or current.txIndex, logIndex := update.logIndex.or current.logIndex
    timestamp := update.timestamp.or current.timestamp, poolId := update.poolId.or current.poolId
    protocol := update.protocol.or current.protocol, kind := update.kind.or current.kind
    quantity := fun column => (update.quantity column).or (current.quantity column)
    party := fun column => (update.party column).or (current.party column)
    label := fun column => (update.label column).or (current.label column)
    data := fun key => (update.data key).or (current.data key)
    usd := fun column => (update.usd column).or (current.usd column)
    basis := update.basis.or current.basis
    notes := fun note => (update.notes note).or (current.notes note)
    dataPool := update.dataPool.or current.dataPool
    pool := update.pool.or current.pool }

def required {Value : Type} (value : Option Value) (column : String) : Write Value :=
  match value with
  | some value => .ok value
  | none => .error (.value ("event requires " ++ column))

def poolProtocol (protocol : Protocol) (data : String → Option String) : Write Protocol :=
  match protocol with
  | .nft => match data "manager_protocol" with
    | some "v3" => .ok .v3
    | some "v4" => .ok .v4
    | _ => .error (.value "NFT pool identity requires its verified manager protocol")
  | other => .ok other

def checkPoolShape (terms : Terms) : Write Unit :=
  match terms.poolId with
  | none => .ok ()
  | some id => do
    let protocol ← poolProtocol terms.protocol terms.data
    if poolShape protocol id then return ()
    else throw (.value "event pool_id has the wrong protocol-specific shape")

def eventPlace (fields : EventFields) : Write Place := do
  let blockNumber ← required fields.blockNumber "block_number"
  let blockHash ← required fields.blockHash "block_hash"
  let txHash ← required fields.txHash "tx_hash"
  let txIndex ← required fields.txIndex "tx_index"
  let logIndex ← required fields.logIndex "log_index"
  let timestamp ← required fields.timestamp "timestamp"
  if blockNumber < 0 ∨ txIndex < 0 ∨ logIndex < 0 then
    throw (.value "event chain coordinates must be nonnegative")
  return { blockNumber, blockHash, txHash, txIndex, logIndex, timestamp }

def eventTerms (fields : EventFields) : Write Terms := do
  let protocol ← required fields.protocol "protocol"
  let kind ← required fields.kind "kind"
  let terms : Terms :=
    { poolId := fields.poolId.join, protocol, kind
      quantity := fun column => (fields.quantity column).join
      party := fun column => (fields.party column).join
      label := fun column => (fields.label column).join, data := fields.data
      pool := fields.dataPool }
  checkPoolShape terms
  return terms

def eventRow (fields : EventFields) (revision : Nat) : Write EventRow := do
  let place ← eventPlace fields
  let terms ← eventTerms fields
  return { place, terms, revision
           valuation := { usd := fun column => (fields.usd column).join
                          basis := fields.basis.join, notes := fields.notes } }

def samePlace (left right : Place) : Bool :=
  left.blockHash = right.blockHash && left.txHash = right.txHash &&
    left.logIndex = right.logIndex

def findEvent (db : Db Lp) (place : Place) : Option (EventId × EventRow) :=
  db.events.entries.find? fun entry => samePlace entry.2.place place

def insertEvent (db : Db Lp) (row : EventRow) : Db Lp × EventId :=
  ({ db with events := db.events.put (db.lastEventId + 1) row, lastEventId := db.lastEventId + 1 },
    db.lastEventId + 1)

def poolFromEvent (fields : EventFields) : Option PoolFields :=
  (fields.pool.or fields.dataPool).map fun pool =>
    match fields.blockNumber, fields.blockHash with
    | some number, some hash =>
      { pool with
        observation := some ⟨number, hash, pool.row.source.getD "canonical_event"⟩ }
    | _, _ => pool

def poolsFromEvents (events : List EventFields) : List PoolFields :=
  (events.filterMap poolFromEvent).foldl (fun pools pool =>
    if pools.any fun other => other.id = pool.id then pools else pools ++ [pool]) []

def orderKey (entry : EventId × EventRow) : Int ×ₗ Int ×ₗ Int ×ₗ EventId :=
  toLex (entry.2.place.blockNumber, toLex (entry.2.place.txIndex,
    toLex (entry.2.place.logIndex, entry.1)))

def inOrder (events : List (EventId × EventRow)) : List (EventId × EventRow) :=
  events.insertionSort fun left right => orderKey left ≤ orderKey right

def coalesceTransaction (row : TransactionRow) : Option TransactionRow → TransactionRow
  | none => row
  | some old =>
    { blockNumber := row.blockNumber, blockHash := row.blockHash, payer := row.payer.or old.payer
      gasUsed := row.gasUsed.or old.gasUsed, gasPrice := row.gasPrice.or old.gasPrice
      gasNative := row.gasNative.or old.gasNative, gasUsd := row.gasUsd.or old.gasUsd
      status := row.status.or old.status, data := row.data.or old.data }

def canonicalTransaction (db : Db Lp) (row : TransactionRow) : Bool :=
  (db.blocks.get row.blockNumber).any fun header => header.hash = row.blockHash

def upsertTransactions (db : Db Lp) (rows : List (Hash × TransactionRow)) : Write (Db Lp) :=
  if !rows.all fun row => canonicalTransaction db row.2 then
    .error (.conflict "transaction is not in a canonical stored block")
  else
    let inserted := ((rows.map Prod.fst).toFinset.filter fun hash =>
      db.transactions.get hash = none).card
    let transactions := db.transactions.upsertAll
      (rows.map fun row => (row.1, coalesceTransaction row.2))
    { db with transactions := transactions }.bump .indexedTransactions inserted

abbrev Delivered := List (EventId × EventRow)

structure Repricing (Lp : Type) where
  valuation : EventId → Valuation
  successors : List (EventId → EventRow → Bool)
  gas : Hash → Option (Option ℚ)
  tables : Lp

structure Unwinding (Lp : Type) where
  valuation : EventId → Option Valuation
  tables : Lp

def Unwinding.value (unwound : Unwinding Lp) (id : EventId) (row : EventRow) : EventRow :=
  match unwound.valuation id with
  | some valuation => { row with valuation := valuation }
  | none => row

/-- The callbacks of the registered projection, and what the store itself adds to its
tables for events it defers: which values they compute, and which events they queue
again, is open. -/
structure PriceProjection (Lp : Type) where
  reprice : Db Lp → Delivered → Except String (Repricing Lp)
  unwind : Db Lp → Int → Except String (Unwinding Lp)
  rollUp : Db Lp → Delivered → Lp

def known (db : Db Lp) (events : Delivered) : List EventId :=
  (events.filter fun event => (event.2.terms.poolId.bind db.pools.get).isSome).map Prod.fst

def PriceProjection.apply (projection : PriceProjection Lp) (db : Db Lp) (events : Delivered) :
    Write (Db Lp) :=
  match projection.reprice db events with
  | .error detail => .error (.projection detail)
  | .ok repriced => do
    let valued := known db events
    let priced := db.events.modify fun id row =>
      if id ∈ valued then { row with valuation := repriced.valuation id } else row
    let db ← repriced.successors.foldlM requeue { db with events := priced, lp := repriced.tables }
    return { db with
      transactions := db.transactions.modify fun hash row =>
        match repriced.gas hash with
        | some usd => { row with gasUsd := usd }
        | none => row }

def PriceProjection.deliver (projection : PriceProjection Lp) (db : Db Lp) (events : Delivered) :
    Write (Db Lp) :=
  if events.isEmpty then .ok db else projection.apply db events

def PriceProjection.rollback (projection : PriceProjection Lp) (db : Db Lp) (ancestor : Int) :
    Write (Db Lp) :=
  match projection.unwind db ancestor with
  | .error detail => .error (.projection detail)
  | .ok unwound => .ok
      { db with
        events := db.events.modify unwound.value
        lp := unwound.tables }

structure Expected where
  blockNumber : Option Int
  blockHash : Option Hash
  nextTo : Option Int
  epoch : Option Nat

structure IngestCall where
  headers : List Header
  events : List EventFields
  lane : String
  cursor : Option (Cursor × Expected)
  transactions : List (Hash × TransactionRow)
  project : Bool

def checkExpected (db : Db Lp) (lane : String) (expected : Expected) : Write Unit :=
  let prior := db.cursor lane
  if expected.epoch.any fun epoch => epoch ≠ db.epoch then
    .error (.conflict "epoch moved while an interval was fetched")
  else if expected.blockNumber.any fun number =>
      !prior.any fun cursor => cursor.blockNumber.getD (-1) = number then
    .error (.conflict "cursor moved while an interval was fetched")
  else if expected.blockHash.any fun hash => !prior.any fun cursor => cursor.blockHash = some hash then
    .error (.conflict "cursor hash moved while an interval was fetched")
  else if expected.nextTo.any fun next => !prior.any fun cursor => cursor.nextTo.getD (-1) = next then
    .error (.conflict "history cursor moved while an interval was fetched")
  else .ok ()

def Cursor.first (cursor : Cursor) : Option Int := cursor.fromBlock.or cursor.startBlock

def Cursor.last (cursor : Cursor) : Option Int :=
  (cursor.toBlock.or cursor.endBlock).or cursor.blockNumber

def cover (db : Db Lp) (normalized : OrderedTable Int Header) (lane : String) (cursor : Cursor) :
    Write (Db Lp) :=
  match Cursor.first cursor, Cursor.last cursor with
  | some first, some last =>
    if first > last then .error (.value "cursor coverage interval is reversed")
    else match normalized.get first, normalized.get last with
      | some start, some stop =>
        .ok { db with
          coverage := mergeCoverage db.coverage ⟨lane, first, last, start.hash, stop.hash⟩ }
      | _, _ => .error (.value "coverage cursor requires both boundary headers")
  | _, _ => .ok db

def prepareEvent (db : Db Lp) (normalized : OrderedTable Int Header) (fields : EventFields) :
    Write EventRow := do
  let row ← eventRow fields db.revision
  match (normalized.get row.place.blockNumber).or (db.blocks.get row.place.blockNumber) with
  | none => throw (.value "event block has no supplied header")
  | some header =>
    if row.place.blockHash ≠ header.hash ∨ row.place.timestamp ≠ header.timestamp then
      throw (.conflict "event block hash/timestamp does not match stored header")
    return row

/-- `ON CONFLICT DO NOTHING`, with the events that were inserted. -/
def insertNewEvent (state : Db Lp × Delivered) (row : EventRow) : Db Lp × Delivered :=
  match findEvent state.1 row.place with
  | some _ => state
  | none =>
    let (db, id) := insertEvent state.1 row
    (db, state.2 ++ [(id, row)])

def recordInserted (db : Db Lp) (lane : String) (inserted : Delivered) : Write (Db Lp) :=
  if inserted.isEmpty then .ok db
  else do
    let db ← db.bump .indexedEvents inserted.length
    let db ← queueEnrichment { db with eventsRevision := db.revision } (inserted.map Prod.snd)
    return if lane = "live" then { db with liveRevision := db.revision } else db

/-- `project=False` queues every inserted event. -/
def deferInserted (projection : PriceProjection Lp) (db : Db Lp) (inserted : Delivered) :
    Write (Db Lp) := do
  let jobs := inserted.map fun event =>
    (event.1, ({ blockNumber := event.2.place.blockNumber, txIndex := event.2.place.txIndex
                 logIndex := event.2.place.logIndex, retry := .fresh } : ReprojectionJob))
  let pending := db.pendingReprojection.insertAll jobs
  let db ← { db with pendingReprojection := pending }.bump .pendingReprojection
    ((pending.size - db.pendingReprojection.size : Nat) : Int)
  return { db with lp := projection.rollUp db inserted }

def storeCursor (db : Db Lp) (lane : String) (cursor : Cursor) : Db Lp :=
  { db with cursor := Function.update db.cursor lane (some cursor) }

def ingestRows (db : Db Lp) (normalized : OrderedTable Int Header) (call : IngestCall) :
    Write (Db Lp × Delivered) := do
  let db := db.nextRevision
  let db ← upsertPools db (poolsFromEvents call.events)
  let prepared ← call.events.mapM (prepareEvent db normalized)
  let (db, inserted) := prepared.foldl insertNewEvent (db, [])
  let inserted := inOrder inserted
  let db ← recordInserted db call.lane inserted
  let db ← upsertTransactions db call.transactions
  return (db, inserted)

def project (projection : PriceProjection Lp) (db : Db Lp) (call : IngestCall)
    (inserted : Delivered) : Write (Db Lp) :=
  if call.project then projection.deliver db inserted
  else if inserted.isEmpty then .ok db
  else deferInserted projection db inserted

def checkCursor (db : Db Lp) (call : IngestCall) : Write Unit :=
  match call.cursor with
  | some (_, expected) => checkExpected db call.lane expected
  | none => .ok ()

def coverCursor (db : Db Lp) (normalized : OrderedTable Int Header) (call : IngestCall) :
    Write (Db Lp) :=
  match call.cursor with
  | some (cursor, _) => cover db normalized call.lane cursor
  | none => .ok db

def keepCursor (db : Db Lp) (call : IngestCall) : Db Lp :=
  match call.cursor with
  | some (cursor, _) => storeCursor db call.lane cursor
  | none => db

def ingest (projection : PriceProjection Lp) (db : Db Lp) (call : IngestCall) :
    Write (Db Lp × Delivered) :=
  if call.lane = "" then .error (.value "lane must be non-empty")
  else do
    checkCursor db call
    let (db, normalized) ← storeHeaders db call.headers
    let db ← coverCursor db normalized call
    let (db, inserted) ← ingestRows db normalized call
    let db ← project projection (keepCursor db call) call inserted
    return (db, inserted)

def currentEvent (db : Db Lp) (update : EventFields) : Write (Option (EventId × EventRow)) :=
  match update.id with
  | some id =>
    match db.events.get id with
    | some row => .ok (some (id, row))
    | none => .error (.conflict "enrichment target is no longer canonical")
  | none => do
    let blockHash ← required update.blockHash "block_hash"
    let txHash ← required update.txHash "tx_hash"
    let logIndex ← required update.logIndex "log_index"
    return findEvent db ⟨0, blockHash, txHash, 0, logIndex, 0⟩

def receiptOf (transactions : List (Hash × TransactionRow)) (hash : Hash) :
    Option (Int × Hash) :=
  (transactions.reverse.find? fun row => row.1 = hash).map fun row =>
    (row.2.blockNumber, row.2.blockHash)

def canonicalPlace (db : Db Lp) (place : Place) : Bool :=
  (db.blocks.get place.blockNumber).any fun header =>
    header.hash = place.blockHash && header.timestamp = place.timestamp

structure Enriched where
  id : EventId
  row : EventRow
  fields : EventFields

structure EnrichState (Lp : Type) where
  db : Db Lp
  enriched : List Enriched
  inserted : Nat

def enrichEvent (receipts : List (Hash × TransactionRow)) (state : EnrichState Lp)
    (update : EventFields) : Write (EnrichState Lp) := do
  let db := state.db
  match ← currentEvent db update with
  | some (id, current) =>
    let merged := mergeEvent (EventRow.fields id current) update
    let row ← eventRow merged db.revision
    if current.place ≠ row.place then
      throw (.conflict "enrichment changed canonical event identity")
    if !canonicalPlace db row.place then
      throw (.conflict "enrichment belongs to an orphaned block")
    return { state with enriched := state.enriched ++ [⟨id, row, merged⟩] }
  | none =>
    let row ← eventRow update db.revision
    if receiptOf receipts row.place.txHash ≠ some (row.place.blockNumber, row.place.blockHash) then
      throw (.conflict "new enrichment event lacks its canonical transaction receipt")
    if !canonicalPlace db row.place then
      throw (.conflict "enrichment belongs to an orphaned block")
    let (db, id) := insertEvent db row
    return { db, enriched := state.enriched ++ [⟨id, row, update⟩], inserted := state.inserted + 1 }

def companions (db : Db Lp) (transactions : List (Hash × TransactionRow))
    (represented : List Enriched) : List Enriched :=
  (db.events.entries.filter fun entry =>
    entry.2.place.txHash ∈ transactions.map Prod.fst &&
      entry.1 ∉ represented.map Enriched.id).map fun entry =>
        ⟨entry.1, { entry.2 with revision := db.revision }, EventRow.fields entry.1 entry.2⟩

def enrichedOrder (events : List Enriched) : List Enriched :=
  events.insertionSort fun left right => orderKey (left.id, left.row) ≤ orderKey (right.id, right.row)

/-- `_persist_projection_mutations`. -/
def persist (db : Db Lp) (events : List Enriched) : Db Lp :=
  { db with
    eventsRevision := db.revision
    events := events.foldl (fun table event =>
      table.modify fun id row => if id = event.id then event.row else row) db.events }

def dequeueEnrichment (db : Db Lp) (completed : List Hash) : Write (Db Lp) :=
  let pending := db.pendingEnrichment.remove fun hash _ => hash ∈ completed
  { db with pendingEnrichment := pending }.bump .pendingEnrichment
    (-((db.pendingEnrichment.size - pending.size : Nat) : Int))

def publishEnriched (projection : PriceProjection Lp) (db : Db Lp) (enriched : List Enriched)
    (transactions : List (Hash × TransactionRow)) : Write (Db Lp) := do
  let db ← upsertPools db (poolsFromEvents (enriched.map Enriched.fields))
  let db := if enriched.isEmpty then db else persist db enriched
  let db ← upsertTransactions db transactions
  let db ← projection.deliver db (enriched.map fun event => (event.id, event.row))
  dequeueEnrichment db (transactions.map Prod.fst ++
    enriched.map fun event => event.row.place.txHash)

def enrich (projection : PriceProjection Lp) (db : Db Lp) (updates : List EventFields)
    (transactions : List (Hash × TransactionRow)) : Write (Db Lp) := do
  if updates.isEmpty ∧ transactions.isEmpty then return db
  let state ← updates.foldlM (enrichEvent transactions) ⟨db.nextRevision, [], 0⟩
  let db ← state.db.bump .indexedEvents state.inserted
  let enriched := enrichedOrder (state.enriched ++ companions db transactions state.enriched)
  publishEnriched projection db enriched transactions

/-- Jobs of a page of events whose transactions have no row yet; the page was read from an
earlier snapshot. -/
def recoverMissingEnrichment (reader db : Db Lp) (limit : Nat) : Write (Db Lp) :=
  let state := reader.repair
  let resumed := fun (pending : Int) => state.resumeAt.all fun mark => pending ≤ mark
  if state.complete ∨ !resumed (reader.counter .pendingEnrichment) then .ok db
  else if reader.epoch ≠ db.epoch ∨ !resumed (db.counter .pendingEnrichment) then .ok db
  else do
    let through := state.throughId.getD (reader.events.entries.foldl (fun top entry => max top entry.1) 0)
    let kind := ENRICHMENT_KINDS.getD state.kindIndex .add
    let page := ((reader.events.entries.filter fun entry =>
      entry.2.terms.kind = kind && state.afterId < entry.1 && entry.1 ≤ through).insertionSort
        fun left right => left.1 ≤ right.1).take (max 1 (min limit 2048))
    let missing := (page.map Prod.snd).filter fun row =>
      !((reader.transactions.get row.place.txHash).any fun found =>
          found.blockHash = row.place.blockHash) &&
        !((db.transactions.get row.place.txHash).any fun found =>
          found.blockHash = row.place.blockHash)
    let next ← queueEnrichment db missing
    let added := next.counter .pendingEnrichment - db.counter .pendingEnrichment
    let nextKind := if page.isEmpty then state.kindIndex + 1 else state.kindIndex
    return { next with
      repair :=
        { throughId := some through, kindIndex := nextKind
          afterId := (page.getLast?.map Prod.fst).getD 0
          complete := nextKind = ENRICHMENT_KINDS.length
          resumeAt := if added = 0 then none
            else some (max 2048 (db.counter .pendingEnrichment - added)) } }

def reproject (projection : PriceProjection Lp) (db : Db Lp) (ids : List EventId) :
    Write (Db Lp) := do
  if ids.isEmpty then return db
  let db := db.nextRevision
  let events := inOrder ((db.events.entries.filter fun entry => entry.1 ∈ ids).map fun entry =>
    (entry.1, { entry.2 with revision := db.revision }))
  let touched : Db Lp :=
    { db with
      eventsRevision := if events.isEmpty then db.eventsRevision else db.revision
      events := db.events.modify fun id row =>
        if id ∈ ids then { row with revision := db.revision } else row }
  let db ← projection.deliver touched events
  let pending := db.pendingReprojection.remove fun id _ => id ∈ ids
  { db with pendingReprojection := pending }.bump .pendingReprojection
    (-((db.pendingReprojection.size - pending.size : Nat) : Int))

def saveTokenMetadata (db : Db Lp) (address : Address) (symbol : String) (decimals : Int) :
    Write (Db Lp) := do
  if symbol = "" ∨ symbol.length > 256 ∨ decimals < 0 ∨ decimals > 255 then
    throw (.value "token symbol/decimals are invalid")
  let token : Token := ⟨symbol, decimals⟩
  let db := nameToken { db with tokenMetadata := db.tokenMetadata.put address token } address token
  let db ← requeue db fun _ row => (row.terms.poolId.bind db.pools.get).any fun pool =>
    pool.token0 = address || pool.token1 = address
  let pending := db.pendingTokenMetadata.remove fun other _ => other = address
  let db ← { db with pendingTokenMetadata := pending }.bump .pendingMetadata
    (-((db.pendingTokenMetadata.size - pending.size : Nat) : Int))
  return db.nextRevision

def completePoolUnpublishes (db : Db Lp) (pools : List PoolId) : Write (Db Lp) :=
  let pending := db.pendingPoolUnpublish.remove fun id _ => id ∈ pools
  { db with pendingPoolUnpublish := pending }.bump .pendingPoolUnpublish
    (-((db.pendingPoolUnpublish.size - pending.size : Nat) : Int))

def queueV3Balances (db : Db Lp) (pools : List PoolId) (blockNumber : Int) (blockHash : Hash) :
    Write (Db Lp) :=
  let pending := db.pendingBalances.insertAll
    (pools.map fun id => ((id, blockNumber), ⟨blockHash, .fresh⟩))
  { db with pendingBalances := pending }.bump .pendingBalances
    ((pending.size - db.pendingBalances.size : Nat) : Int)

structure BalanceItem where
  pool : PoolId
  blockNumber : Int
  blockHash : Hash
  balance0 : Int
  balance1 : Int
  deriving DecidableEq, Repr

def BalanceItem.key (item : BalanceItem) : PoolId × Int := (item.pool, item.blockNumber)

def malformed (seen : List (PoolId × Int)) (item : BalanceItem) : Option Failure :=
  match item.pool with
  | .key _ => some (.value "pool_id must be a 20-byte address")
  | .contract _ =>
    if item.key ∈ seen then
      some (.value "balance batch contains a duplicate pool and block")
    else none

def normalizeItems : List (PoolId × Int) → List BalanceItem → List (BalanceItem × Option Failure)
  | _, [] => []
  | seen, item :: rest =>
    match malformed seen item with
    | some failure => (item, some failure) :: normalizeItems seen rest
    | none => (item, none) :: normalizeItems (item.key :: seen) rest

def refused (db : Db Lp) (item : BalanceItem) : Option Failure :=
  if !(db.pools.get item.pool).any fun pool => pool.protocol = .v3 then
    some (.value "per-pool balance snapshots are only valid for V3 pools")
  else if !(db.blocks.get item.blockNumber).any fun header => header.hash = item.blockHash then
    some (.conflict "balance snapshot belongs to an orphaned block")
  else if !(db.pendingBalances.get item.key).any fun job => job.blockHash = item.blockHash then
    some (.conflict "balance snapshot work is stale")
  else none

def itemOutcome (db : Db Lp) (entry : BalanceItem × Option Failure) : Option Failure :=
  entry.2.or (refused db entry.1)

def MetaValue.asInt : MetaValue → Option Int
  | .number value => some value
  | .text value => value.toInt?

def balanceBlock (metadata : PoolMetadata) : Option Int :=
  (metadata.get "balance_block").bind MetaValue.asInt

def showBalance (db : Db Lp) (metadata : Option PoolMetadata) (item : BalanceItem) :
    Option PoolMetadata :=
  let fields := metadata.getD .empty
  if (balanceBlock fields).all fun prior => prior ≤ item.blockNumber then
    some (fields.putAll [("balance0", .text (toString item.balance0)),
      ("balance1", .text (toString item.balance1)), ("balance_block", .number item.blockNumber),
      ("balance_timestamp",
        .number (((db.blocks.get item.blockNumber).map Header.timestamp).getD 0))])
  else metadata

def latestItem (items : List BalanceItem) (pool : PoolId) : Option BalanceItem :=
  (items.filter fun item => item.pool = pool).foldl (fun latest item =>
    match latest with
    | some prior => if prior.blockNumber ≤ item.blockNumber then some item else latest
    | none => some item) none

def publishBalances (db : Db Lp) (items : List BalanceItem) : Write (Db Lp) := do
  let balances := db.poolBalances.putAll (items.map fun item =>
    (item.key, ⟨item.blockHash, item.balance0, item.balance1⟩))
  let pools := db.pools.modify fun id row =>
    match latestItem items id with
    | some item => { row with metadata := showBalance db row.metadata item }
    | none => row
  let pending := db.pendingBalances.remove fun key job =>
    items.any fun item => item.key = key && item.blockHash = job.blockHash
  let removed := db.pendingBalances.size - pending.size
  if removed ≠ items.length then throw .pending
  let db ← { db with poolBalances := balances, pools := pools, pendingBalances := pending }.bump
    .pendingBalances (-(removed : Int))
  return db.nextRevision

def saveV3Balances (db : Db Lp) (items : List BalanceItem) :
    Write (Db Lp × List (Option Failure)) := do
  let normalized := normalizeItems [] items
  let outcomes := normalized.map (itemOutcome db)
  let publishable := (normalized.filter fun entry => itemOutcome db entry = none).map Prod.fst
  if publishable.isEmpty then return (db, outcomes)
  let db ← publishBalances db publishable
  return (db, outcomes)

def Retry.fail (retry : Retry) (error : String) (nextAttempt : ℚ) : Retry :=
  ⟨retry.attempts + 1, nextAttempt, some error⟩

def recordEnrichmentFailure (db : Db Lp) (hash : Hash) (error : String) (nextAttempt : ℚ) :
    Db Lp :=
  { db with
    pendingEnrichment := db.pendingEnrichment.modify fun other job =>
      if other = hash then
        { job with retry := Retry.fail job.retry error nextAttempt
                   generation := job.generation + 1 }
      else job }

def markReprojectionError (db : Db Lp) (ids : List EventId) (error : String) (nextAttempt : ℚ) :
    Db Lp :=
  { db with
    pendingReprojection := db.pendingReprojection.modify fun id job =>
      if id ∈ ids then { job with retry := Retry.fail job.retry error nextAttempt } else job }

def markTokenMetadataError (db : Db Lp) (address : Address) (error : String) (nextAttempt : ℚ) :
    Db Lp :=
  { db with
    pendingTokenMetadata := db.pendingTokenMetadata.modify fun other retry =>
      if other = address then Retry.fail retry error nextAttempt else retry }

def markV3BalanceError (db : Db Lp) (key : PoolId × Int) (blockHash : Hash) (error : String)
    (nextAttempt : ℚ) : Db Lp :=
  { db with
    pendingBalances := db.pendingBalances.modify fun other job =>
      if other = key ∧ job.blockHash = blockHash then
        { job with retry := Retry.fail job.retry error nextAttempt }
      else job }

def removable (db : Db Lp) (ancestor : Int) (id : PoolId) (pool : PoolRow) : Bool :=
  match pool.createdBlock with
  | some created => ancestor < created
  | none => (db.provenance.get id).any fun observation => ancestor < observation.observedBlock

def unpublish (db : Db Lp) (ancestor : Int) : Write (Db Lp) :=
  let gone := db.pools.entries.filter fun entry => removable db ancestor entry.1 entry.2
  let pending := db.pendingPoolUnpublish.insertAll (gone.map fun entry => (entry.1, db.epoch + 1))
  { db with pendingPoolUnpublish := pending }.bump .pendingPoolUnpublish
    ((pending.size - db.pendingPoolUnpublish.size : Nat) : Int)

def cutRows (db : Db Lp) (ancestor : Int) : Db Lp :=
  { db with
    pendingReprojection := db.pendingReprojection.remove fun _ job => ancestor < job.blockNumber
    events := db.events.remove fun _ row => ancestor < row.place.blockNumber
    transactions := db.transactions.remove fun _ row => ancestor < row.blockNumber
    pendingEnrichment := db.pendingEnrichment.remove fun _ job => ancestor < job.blockNumber
    poolBalances := db.poolBalances.remove fun key _ => ancestor < key.2
    pendingBalances := db.pendingBalances.remove fun key _ => ancestor < key.2
    pools := db.pools.remove (removable db ancestor) }

def cutOrphans (db : Db Lp) : Db Lp :=
  { db with
    provenance := db.provenance.remove fun id _ => (db.pools.get id).isNone
    pendingTokenMetadata := db.pendingTokenMetadata.remove fun address _ =>
      !db.pools.entries.any fun entry => entry.2.token0 = address || entry.2.token1 = address }

def latestBalance (db : Db Lp) (pool : PoolId) : Option (Int × Balance × Int) :=
  (db.poolBalances.entries.filterMap fun entry =>
    if entry.1.1 = pool then
      (db.blocks.get entry.1.2).map fun header => (entry.1.2, entry.2, header.timestamp)
    else none).foldl (fun latest row =>
      match latest with
      | some prior => if prior.1 < row.1 then some row else latest
      | none => some row) none

def restoreBalance (db : Db Lp) (ancestor : Int) (id : PoolId) (pool : PoolRow) : PoolRow :=
  match pool.metadata with
  | none => pool
  | some metadata =>
    if (balanceBlock metadata).any fun number => ancestor < number then
      let bare := metadata.remove fun key _ =>
        key ∈ ["balance0", "balance1", "balance_block", "balance_timestamp"]
      let restored := match latestBalance db id with
        | none => bare
        | some (number, balance, timestamp) =>
          bare.putAll [("balance0", .text (toString balance.balance0)),
            ("balance1", .text (toString balance.balance1)), ("balance_block", .number number),
            ("balance_timestamp", .number timestamp)]
      { pool with metadata := if restored.entries.isEmpty then none else some restored }
    else pool

def unreadable (pool : PoolRow) : Bool :=
  pool.metadata.any fun metadata =>
    (metadata.get "balance_block").any fun value => (MetaValue.asInt value).isNone

def shorten (ancestor : Int) (hash : Hash) (row : Coverage) : Coverage :=
  if row.endBlock > ancestor then { row with endBlock := ancestor, endHash := hash } else row

def cutCoverage (blocks : OrderedTable Int Header) (ancestor : Int) (coverage : List Coverage) :
    List Coverage :=
  let below := coverage.filter fun row => row.startBlock ≤ ancestor
  match blocks.get ancestor with
  | none => below.filter fun row => row.endBlock ≤ ancestor
  | some header => below.map (shorten ancestor header.hash)

def cutBlocks (db : Db Lp) (ancestor : Int) : Db Lp :=
  let blocks := db.blocks.remove fun number _ => ancestor < number
  { db with blocks := blocks, coverage := cutCoverage blocks ancestor db.coverage }

def cursorBlock (lane : String) (cursor : Cursor) : Option Int :=
  cursor.blockNumber.or (if lane = "live" then cursor.toBlock else cursor.lowBlock)

def rewindCursor (db : Db Lp) (ancestor : Int) (lane : String) : Db Lp :=
  match db.cursor lane with
  | some cursor =>
    if (cursorBlock lane cursor).any fun number => ancestor < number then
      storeCursor db lane
        { fromBlock := none, startBlock := none, toBlock := none, endBlock := none
          blockNumber := some ancestor
          blockHash := (db.blocks.get ancestor).map Header.hash, nextTo := none
          lowBlock := none }
    else db
  | none => db

structure Removed where
  events : Nat
  transactions : Nat
  pending : Nat
  balances : Nat
  reprojections : Nat
  pools : Nat

def countRemoved (db : Db Lp) (ancestor : Int) : Removed :=
  { events := db.events.count fun _ row => ancestor < row.place.blockNumber
    transactions := db.transactions.count fun _ row => ancestor < row.blockNumber
    pending := db.pendingEnrichment.count fun _ job => ancestor < job.blockNumber
    balances := db.pendingBalances.count fun key _ => ancestor < key.2
    reprojections := db.pendingReprojection.count fun _ job => ancestor < job.blockNumber
    pools := db.pools.count (removable db ancestor) }

def lowerCounters (db : Db Lp) (removed : Removed) (tokens : Nat) : Write (Db Lp) := do
  let db ← db.bump .indexedEvents (-removed.events)
  let db ← db.bump .indexedTransactions (-removed.transactions)
  let db ← db.bump .pendingEnrichment (-removed.pending)
  let db ← db.bump .pendingBalances (-removed.balances)
  let db ← db.bump .pendingReprojection (-removed.reprojections)
  let db ← db.bump .pendingMetadata (-tokens)
  db.bump .indexedPools (-removed.pools)

def cut (db : Db Lp) (ancestor : Int) : Write (Db Lp) := do
  let removed := countRemoved db ancestor
  let db ← unpublish db ancestor
  let rows := cutRows db ancestor
  let kept := cutOrphans rows
  let tokens := rows.pendingTokenMetadata.size - kept.pendingTokenMetadata.size
  if kept.pools.entries.any fun entry => unreadable entry.2 then
    throw (.value "invalid literal for int()")
  let restored := { kept with pools := kept.pools.modify (restoreBalance kept ancestor) }
  let db := cutBlocks restored ancestor
  let db := rewindCursor (rewindCursor db ancestor "live") ancestor "history"
  let db ← lowerCounters db removed tokens
  return { db with epoch := db.epoch + 1 }.nextRevision

def rollback (projection : PriceProjection Lp) (db : Db Lp) (ancestor : Int)
    (header : Option Header) : Write (Db Lp) :=
  if ancestor < 0 then .error (.value "ancestor must be nonnegative")
  else if header.any fun header => header.number ≠ ancestor then
    .error (.value "rollback header does not match ancestor")
  else do
    let db ← projection.rollback db ancestor
    let (db, _) ← storeHeaders db header.toList
    cut db ancestor

inductive Call (Lp : Type) where
  | ingest (call : IngestCall)
  | enrich (updates : List EventFields) (transactions : List (Hash × TransactionRow))
  | reproject (ids : List EventId)
  | upsertPools (rows : List PoolFields)
  | saveTokenMetadata (address : Address) (symbol : String) (decimals : Int)
  | queueV3Balances (pools : List PoolId) (blockNumber : Int) (blockHash : Hash)
  | saveV3Balances (items : List BalanceItem)
  | recoverMissingEnrichment (reader : Db Lp) (limit : Nat)
  | completePoolUnpublishes (pools : List PoolId)
  | rollback (ancestor : Int) (header : Option Header)
  | recordEnrichmentFailure (hash : Hash) (error : String) (nextAttempt : ℚ)
  | markReprojectionError (ids : List EventId) (error : String) (nextAttempt : ℚ)
  | markTokenMetadataError (address : Address) (error : String) (nextAttempt : ℚ)
  | markV3BalanceError (key : PoolId × Int) (blockHash : Hash) (error : String)
      (nextAttempt : ℚ)

def perform (projection : PriceProjection Lp) (db : Db Lp) : Call Lp → Write (Db Lp)
  | .ingest call => return (← ingest projection db call).1
  | .enrich updates transactions => enrich projection db updates transactions
  | .reproject ids => reproject projection db ids
  | .upsertPools rows => upsertPoolsCall db rows
  | .saveTokenMetadata address symbol decimals => saveTokenMetadata db address symbol decimals
  | .queueV3Balances pools number hash => queueV3Balances db pools number hash
  | .saveV3Balances items => return (← saveV3Balances db items).1
  | .recoverMissingEnrichment reader limit => recoverMissingEnrichment reader db limit
  | .completePoolUnpublishes pools => completePoolUnpublishes db pools
  | .rollback ancestor header => rollback projection db ancestor header
  | .recordEnrichmentFailure hash error next => .ok (recordEnrichmentFailure db hash error next)
  | .markReprojectionError ids error next => .ok (markReprojectionError db ids error next)
  | .markTokenMetadataError address error next => .ok (markTokenMetadataError db address error next)
  | .markV3BalanceError key hash error next => .ok (markV3BalanceError db key hash error next)

/-- A store and the calls it committed, latest first. A call that raises is rolled back. -/
def store (projection : PriceProjection Lp) : System (Db Lp × List (Call Lp)) (Call Lp) where
  start state := ∃ lp, state = (.fresh lp, [])
  step state call := match perform projection state.1 call with
    | .ok after => some (after, call :: state.2)
    | .error _ => some state

end RhPools.MarketStore
