import Mathlib.Data.Fintype.Pi
import RhPools.GroupedSums
import RhPools.MarketStore

/-! The activity buckets of the price projection: a row for each pool and minute, hour and
day, the queue of totals to restore below the prune mark, and what projecting, deferring
and rolling back write there. USD values are exact; prices, samples and marks are open. -/

namespace RhPools.ActivityBuckets
open OrderedTables MarketTables MarketStore
open EventWords (Hash)

inductive BucketField where
  | events | swaps | adds | removes | collects | volumeUsd | feesUsd | depositUsd
  | withdrawalUsd | pricedSwaps | pricedFees | pricedFlows | flows
  deriving DecidableEq, Repr

instance : Fintype BucketField where
  elems := {.events, .swaps, .adds, .removes, .collects, .volumeUsd, .feesUsd, .depositUsd,
    .withdrawalUsd, .pricedSwaps, .pricedFees, .pricedFlows, .flows}
  complete field := by cases field <;> decide

abbrev Activity := BucketField → ℚ

inductive Resolution where
  | minute | hour | day
  deriving DecidableEq, Repr

def Resolution.seconds : Resolution → Int
  | .minute => 60
  | .hour => 3600
  | .day => 86400

def Resolution.floor (resolution : Resolution) (time : Int) : Int :=
  time / resolution.seconds * resolution.seconds

structure BucketKey where
  resolution : Resolution
  bucket : Int
  pool : PoolId
  deriving DecidableEq, Repr

def bucketAt (resolution : Resolution) (pool : PoolId) (time : Int) : BucketKey :=
  ⟨resolution, resolution.floor time, pool⟩

structure Bucket where
  values : Activity
  maxBlock : Int
  deriving DecidableEq

structure PruneCursor where
  resolution : Resolution
  bucket : Int
  pool : Option PoolId

/-- `lp_pool_buckets`, the generations of `lp_bucket_restore`, and the metadata of pruning.
The times that decide when a restore is due are left out. -/
structure Tables (Rest : Type) where
  buckets : OrderedTable BucketKey Bucket
  restores : OrderedTable BucketKey Nat
  pruneBefore : Option Int
  pruneCursor : PruneCursor
  rest : Rest

variable {Rest : Type}

def Tables.fresh (rest : Rest) : Tables Rest :=
  ⟨.empty, .empty, none, ⟨.minute, -1, none⟩, rest⟩

def Tables.mark (tables : Tables Rest) : Int := tables.pruneBefore.getD 0

def isFlow (row : EventRow) : Bool :=
  row.terms.kind ∈ [.add, .remove, .collect] ||
    row.terms.kind = .checkpoint && (row.terms.label .positionKey).isSome

def one (counted : Bool) : ℚ := if counted then 1 else 0

/-- What one event adds to `_BUCKET_EVENT_SUMS`. -/
def eventActivity (row : EventRow) : Activity
  | .events => 1
  | .swaps => one (row.terms.kind = .swap)
  | .adds => one (row.terms.kind = .add)
  | .removes => one (row.terms.kind = .remove)
  | .collects => one (row.terms.kind = .collect)
  | .volumeUsd => if row.terms.kind = .swap then (row.valuation.usd .volume).getD 0 else 0
  | .feesUsd => if row.terms.kind = .swap then (row.valuation.usd .fees).getD 0 else 0
  | .depositUsd => (row.valuation.usd .deposit).getD 0
  | .withdrawalUsd => (row.valuation.usd .withdrawal).getD 0
  | .pricedSwaps => one (row.terms.kind = .swap && (row.valuation.usd .volume).isSome)
  | .pricedFees => one (row.terms.kind = .swap && (row.valuation.usd .fees).isSome)
  | .pricedFlows => one (isFlow row && (row.valuation.usd .deposit).isSome &&
      (row.valuation.usd .withdrawal).isSome)
  | .flows => one (isFlow row)

abbrev Events := OrderedTable EventId EventRow

/-- `WHERE pool_id=? AND timestamp>=? AND timestamp<?`. -/
def within (key : BucketKey) (row : EventRow) : Bool :=
  row.terms.poolId = some key.pool && key.bucket ≤ row.place.timestamp &&
    row.place.timestamp < key.bucket + key.resolution.seconds

def sumEvents (events : Events) (key : BucketKey) : Activity :=
  events.total fun row => if within key row then eventActivity row else 0

def lastBlock (events : Events) (key : BucketKey) : Int :=
  ((events.entries.filter fun entry => within key entry.2).map fun entry =>
    entry.2.place.blockNumber).foldl max 0

def recount (events : Events) (key : BucketKey) : Option Bucket :=
  if sumEvents events key .events = 0 then none
  else some ⟨sumEvents events key, lastBlock events key⟩

/-- `AND block_number<=?`. -/
def upTo (events : Events) (ancestor : Int) : Events :=
  events.remove fun _ row => ancestor < row.place.blockNumber

/-! Writes. Each write of an hour or day row raises the generation of its restore. -/

/-- The triggers `lp_bucket_restore_insert`, `_update` and `_delete`. -/
def bumpRestore (restores : OrderedTable BucketKey Nat) (key : BucketKey) :
    OrderedTable BucketKey Nat :=
  if key.resolution = .minute then restores
  else restores.modify fun other generation =>
    if other = key then generation + 1 else generation

def putBucket (tables : Tables Rest) (key : BucketKey) (row : Bucket) : Tables Rest :=
  { tables with
    buckets := tables.buckets.put key row, restores := bumpRestore tables.restores key }

/-- A `DELETE` that finds no row triggers nothing. -/
def dropBucket (tables : Tables Rest) (key : BucketKey) : Tables Rest :=
  match tables.buckets.get key with
  | none => tables
  | some _ =>
    { tables with
      buckets := tables.buckets.erase key, restores := bumpRestore tables.restores key }

def writeBucket (tables : Tables Rest) (key : BucketKey) : Option Bucket → Tables Rest
  | some row => putBucket tables key row
  | none => dropBucket tables key

/-- `INSERT .. ON CONFLICT DO UPDATE SET name=name+excluded.name`. -/
def addBucket (tables : Tables Rest) (key : BucketKey) (delta : Bucket) : Tables Rest :=
  putBucket tables key
    (match tables.buckets.get key with
    | none => delta
    | some old => ⟨old.values + delta.values, max old.maxBlock delta.maxBlock⟩)

/-- `DELETE .. AND events<=0`. -/
def dropEmpty (tables : Tables Rest) (key : BucketKey) : Tables Rest :=
  match tables.buckets.get key with
  | none => tables
  | some row => if row.values .events ≤ 0 then dropBucket tables key else tables

def oldValues (tables : Tables Rest) (key : BucketKey) : Activity :=
  match tables.buckets.get key with
  | none => 0
  | some row => row.values

def hourOf (key : BucketKey) : BucketKey := bucketAt .hour key.pool key.bucket

def dayOf (key : BucketKey) : BucketKey := bucketAt .day key.pool key.bucket

def addDelta (tables : Tables Rest) (events : Events) (rollups : OrderedTable BucketKey Bucket)
    (minute : BucketKey) : OrderedTable BucketKey Bucket :=
  let delta := sumEvents events minute - oldValues tables minute
  let block := ((recount events minute).map Bucket.maxBlock).getD 0
  let add := fun (prior : Option Bucket) =>
    match prior with
    | none => (⟨delta, max 0 block⟩ : Bucket)
    | some old => ⟨old.values + delta, max old.maxBlock block⟩
  (rollups.upsert (hourOf minute) add).upsert (dayOf minute) add

/-- The totals to restore for a pruned minute: its day, and its hour where that straddles
the mark. -/
def restoresOf (mark : Int) (minute : BucketKey) : List BucketKey :=
  if (hourOf minute).bucket + Resolution.hour.seconds > mark then [hourOf minute, dayOf minute]
  else [dayOf minute]

/-- `_queue_rollup_restores`. -/
def queueRestores (restores : OrderedTable BucketKey Nat) (keys : List BucketKey) :
    OrderedTable BucketKey Nat :=
  (restores.insertAll (keys.map fun key => (key, 0))).modify fun key generation =>
    if key ∈ keys then generation + 1 else generation

/-- `_buckets`: minutes are written anew; what they changed by is added to their hours and
days, or below the mark queued to be restored. -/
def writeBuckets (events : Events) (tables : Tables Rest) (minutes : List BucketKey) :
    Tables Rest :=
  let kept := minutes.filter fun minute => tables.mark ≤ minute.bucket
  let pruned := minutes.filter fun minute => minute.bucket < tables.mark
  let rollups := kept.foldl (addDelta tables events) .empty
  let written := minutes.foldl (fun tables minute =>
    writeBucket tables minute (recount events minute)) tables
  let added := rollups.entries.foldl (fun tables entry => addBucket tables entry.1 entry.2) written
  let cleared := rollups.entries.foldl (fun tables entry => dropEmpty tables entry.1) added
  { cleared with
    restores := queueRestores cleared.restores (pruned.flatMap (restoresOf tables.mark)) }

def touchedMinutes (db : Db (Tables Rest)) (events : Delivered) : List BucketKey :=
  (events.filterMap fun event =>
    (event.2.terms.poolId.filter fun pool => (db.pools.get pool).isSome).map fun pool =>
      bucketAt .minute pool event.2.place.timestamp).dedup

def bucketOf (resolution : Resolution) (row : EventRow) : Option BucketKey :=
  row.terms.poolId.map fun pool => bucketAt resolution pool row.place.timestamp

/-- `_rollup_buckets` for one resolution: the events of the revision, group by group. -/
def rollUp (resolution : Resolution) (events : Events) (tables : Tables Rest) : Tables Rest :=
  (events.entries.filterMap fun entry => bucketOf resolution entry.2).dedup.foldl
    (fun tables key => addBucket tables key ⟨sumEvents events key, lastBlock events key⟩) tables

def rollUpBuckets (events : Events) (revision : Nat) (tables : Tables Rest) : Tables Rest :=
  let inserted := events.remove fun _ row => row.revision ≠ revision
  rollUp .day inserted (rollUp .hour inserted (rollUp .minute inserted tables))

/-- `_restore_old_rollups`. -/
def restoreOldRollups (events : Events) (tables : Tables Rest) (minute : BucketKey) :
    Tables Rest :=
  let hours := writeBucket tables (hourOf minute) (recount events (hourOf minute))
  writeBucket hours (dayOf minute) (recount events (dayOf minute))

def addCleared (tables : Tables Rest) (key : BucketKey) (delta : Bucket) : Tables Rest :=
  dropEmpty (addBucket tables key delta) key

/-- `_bucket`: one minute, and what it changed by. `events` are those up to the ancestor. -/
def rewriteBucket (events : Events) (tables : Tables Rest) (minute : BucketKey) : Tables Rest :=
  let row := recount events minute
  let delta : Bucket :=
    ⟨sumEvents events minute - oldValues tables minute, (row.map Bucket.maxBlock).getD 0⟩
  let written := writeBucket tables minute row
  let added :=
    if row.isNone ∧ (tables.buckets.get minute).isNone then written
    else addCleared (addCleared written (hourOf minute) delta) (dayOf minute) delta
  if tables.pruneBefore.any fun mark => minute.bucket < mark then
    restoreOldRollups events added minute
  else added

/-- The minutes whose rows reach above the ancestor; below the mark, where rows may be gone,
also those of the events above it. -/
def unwoundMinutes (events : Events) (tables : Tables Rest) (ancestor : Int) : List BucketKey :=
  let rows := (tables.buckets.entries.filter fun entry =>
    entry.1.resolution = .minute && ancestor < entry.2.maxBlock).map Prod.fst
  match tables.pruneBefore with
  | none => rows
  | some mark => rows ++ ((events.entries.filter fun entry =>
    ancestor < entry.2.place.blockNumber && entry.2.place.timestamp < mark).filterMap
      fun entry => bucketOf .minute entry.2).dedup

def unwindBuckets (events : Events) (tables : Tables Rest) (ancestor : Int) : Tables Rest :=
  (unwoundMinutes events tables ancestor).foldl (rewriteBucket (upTo events ancestor)) tables

structure Pricing (Rest : Type) where
  price : Db (Tables Rest) → Delivered → Except String (Repricing Rest)
  unwind : Db (Tables Rest) → Int → Except String (Unwinding Rest)

def valuedEvents (db : Db (Tables Rest)) (events : Delivered) (valuation : EventId → Valuation) :
    Events :=
  db.events.modify fun id row =>
    if id ∈ known db events then { row with valuation := valuation id } else row

def bucketProjection (pricing : Pricing Rest) : PriceProjection (Tables Rest) where
  reprice db events :=
    (pricing.price db events).map fun priced =>
      { valuation := priced.valuation, successors := priced.successors, gas := priced.gas
        tables :=
          { writeBuckets (valuedEvents db events priced.valuation) db.lp
              (touchedMinutes db events) with rest := priced.tables } }
  unwind db ancestor :=
    (pricing.unwind db ancestor).map fun unwound =>
      { valuation := unwound.valuation
        tables := { unwindBuckets db.events db.lp ancestor with rest := unwound.tables } }
  rollUp db _ := rollUpBuckets db.events db.revision db.lp

end RhPools.ActivityBuckets
