import RhPools.PoolInventory
import RhPools.SearchCatalogue

/-! The published position ledger and what changes it: batches of events, the publication of
queued replays and of claims, and rollbacks. Every change moves the generation of each pool
whose open positions, or their place in the queue, it may have changed. What a replay or a
valuation comes to is left open. A ledger that is still being recovered (`_resume_bootstrap`)
queues keys without moving generations; the changes here are those after it. -/

namespace RhPools.PublishedLedger
open OrderedTables PoolInventory SearchCatalogue

/-- `_QUEUED_AFTER_PUBLISHED_SQL`. -/
def queuedAfter (queued published : Order) : Bool :=
  queued.block > published.block || (queued.block = published.block &&
    (queued.txIndex > published.txIndex || (queued.txIndex = published.txIndex &&
      queued.logIndex > published.logIndex)))

/-- `max` of two tuples. -/
def latest (order other : Order) : Order := if queuedAfter other order then other else order

structure Pending where
  generation : Nat
  appendOnly : Bool
  costOnly : Bool
  requestedRevision : Int
  requestedEpoch : Int
  priority : Order
  identitiesReady : Bool
  identityCursor : Int

/-- A row of `lp_accounting_pending_identities`. -/
structure Hint where
  positionKey : String
  kind : String
  identity : String
  protocol : String
  poolId : String
  deriving DecidableEq

structure Effect where
  eventId : Int
  positionKey : String
  block : Int

structure Claim where
  block : Int
  epoch : Int

structure Db where
  positions : OrderedTable String Position
  pending : OrderedTable String Pending
  hints : List Hint
  generations : OrderedTable String Nat
  effects : List Effect
  eventKeys : OrderedTable Int String
  events : OrderedTable Int Int
  claims : OrderedTable String Claim
  poolState : Option (OrderedTable String Mark)
  pools : OrderedTable String Metadata
  eventsRevision : Int
  epoch : Int

/-- An event as `_apply` takes it: its position key, or an empty text; and whether only its
transaction's facts are new. -/
structure Event where
  id : Option Int
  positionKey : String
  poolId : Option String
  order : Order
  transactionOnly : Bool
  hints : List Hint

/-- What the replay of a position's events leaves: its row, and its effects with their
blocks. The row's last order is that of the last event, so that no effect is later. -/
structure Replayed where
  row : Option Position
  effects : List (Int × Int)
  settled : ∀ position ∈ row, ∀ effect ∈ effects, effect.2 ≤ position.lastOrder.block

structure Prepared where
  positionKey : String
  generation : Nat
  epoch : Int
  writes : Option Replayed

variable (casing : Casing)

def raise (generation : Option Nat) : Nat := generation.getD 0 + 1

/-- `_invalidate_cache`. -/
def invalidateCache (db : Db) (poolIds : List String) : Db :=
  { db with
    generations := (poolIds.map casing.lower).dedup.foldl
      (fun table pool => table.upsert pool raise) db.generations }

def poolsOf (db : Db) (keys : List String) : List String :=
  (db.positions.entries.filter fun entry => entry.1 ∈ keys).filterMap fun entry =>
    entry.2.poolId.map casing.lower

structure Request where
  order : Order
  appendOnly : Bool
  costOnly : Bool

def requeue (hinted : Bool) (revision epoch : Int) (request : Request) (row : Pending) : Pending :=
  { generation := row.generation + 1
    appendOnly := row.appendOnly && request.appendOnly
    costOnly := row.costOnly && request.costOnly
    requestedRevision := max row.requestedRevision revision
    requestedEpoch := epoch
    priority := ⟨max row.priority.block request.order.block,
      max row.priority.txIndex request.order.txIndex,
      max row.priority.logIndex request.order.logIndex⟩
    identitiesReady := if hinted then row.identitiesReady else false
    identityCursor := if hinted then row.identityCursor else 0 }

/-- `_queue_position_keys`. -/
def queuePositionKeys (db : Db) (requests : List (String × Request)) (epoch : Int)
    (hinted : Bool) : Db :=
  if requests = [] then db
  else
    let inserted := db.pending.insertAll (requests.map fun request => (request.1,
      ⟨0, request.2.appendOnly, request.2.costOnly, db.eventsRevision, epoch, request.2.order,
        hinted, 0⟩))
    { db with
      pending := requests.foldl (fun table request => table.modify fun key row =>
        if key = request.1 then requeue hinted db.eventsRevision epoch request.2 row else row)
        inserted
      hints := if hinted then db.hints
        else db.hints.filter fun hint => hint.positionKey ∉ requests.map Prod.fst }

def legacyKey (key : String) : Option String :=
  let chars := key.toList
  let raw := if "v3:".toList.isPrefixOf chars || "v4:".toList.isPrefixOf chars then
    (chars.reverse.takeWhile (· ≠ ':')).reverse else chars
  if raw.length = 66 ∧ "0x".toList.isPrefixOf raw then some (String.ofList raw) else none

def unqualify (row : Position) : Position :=
  { row with liquidity := none, liquidityKnown := false, historyComplete := false
             valuationBasis := "unqualified_pool_scope" }

def legacyPositions (db : Db) (keys : List String) : List (String × Position) :=
  db.positions.entries.filter fun entry => entry.1 ∈ keys.filterMap legacyKey ∧
    entry.2.valuationBasis ≠ "unqualified_pool_scope"

/-- `_invalidate_legacy_core_values` on the positions it chose. -/
def invalidateLegacy (db : Db) (legacy : List (String × Position)) : Db :=
  { db with positions := db.positions.modify fun key row =>
      if key ∈ legacy.map Prod.fst then unqualify row else row }

def replay (db : Db) (key : String) (replayed : Replayed) : Db :=
  { db with
    positions := match replayed.row with
      | none => db.positions.erase key
      | some row => db.positions.put key row
    effects := (db.effects.filter fun effect => effect.positionKey ≠ key) ++
      replayed.effects.map fun effect => ⟨effect.1, key, effect.2⟩ }

def replayAll (db : Db) (keys : List String) (replays : String → Replayed) : Db :=
  keys.foldl (fun db key => replay db key (replays key)) db

/-- `_refresh_position_values`, as far as a later change reads them. -/
def revalue (db : Db) (keys : List String) (basis : String → String) : Db :=
  { db with positions := db.positions.modify fun key row =>
      if key ∈ keys then { row with valuationBasis := basis key } else row }

/-! ### `_apply` -/

def oldKey (db : Db) (event : Event) : Option String := event.id.bind db.eventKeys.get

def newKey (event : Event) : Option String :=
  if event.id.isSome ∧ event.positionKey ≠ "" then some event.positionKey else none

/-- `old_keys | new_keys`. -/
def batchKeys (db : Db) (events : List Event) : List String :=
  (events.filterMap (oldKey db) ++ events.filterMap newKey).dedup

def mapEvents (db : Db) (events : List Event) : OrderedTable Int String :=
  let mapped := events.filterMap fun event => event.id.bind fun id =>
    (newKey event).map fun key => (id, key)
  let stale := (events.filterMap Event.id).filter fun id => id ∉ mapped.map Prod.fst
  mapped.foldl (fun table entry => table.put entry.1 entry.2)
    (db.eventKeys.remove fun id _ => id ∈ stale)

/-- One event of the batch in the requests. An existing mapping or effect means that facts of
the same order may have changed, so that only a full replay is safe. -/
def noteEvent (db : Db) (requests : OrderedTable String Request) (event : Event) :
    OrderedTable String Request :=
  match event.id with
  | none => requests
  | some id =>
    let projected := db.effects.any fun effect => effect.eventId = id
    (((oldKey db event).toList ++ [event.positionKey]).filter (· ≠ "")).dedup.foldl
      (fun requests key => requests.upsert key fun prior =>
        { order := prior.elim event.order fun request => latest request.order event.order
          appendOnly := (prior.elim true Request.appendOnly) && (oldKey db event).isNone &&
            !projected && key = event.positionKey
          costOnly := (prior.elim true Request.costOnly) && event.transactionOnly &&
            oldKey db event = some event.positionKey && key = event.positionKey && projected })
      requests

def requestsOf (db : Db) (events : List Event) (legacy : List (String × Position)) :
    List (String × Request) :=
  ((events.foldl (noteEvent db) .empty).modify fun key request =>
    if key ∈ legacy.map Prod.fst then { request with appendOnly := false, costOnly := false }
    else request).entries

def unqueuedLegacy (events : List Event) (legacy : List (String × Position))
    (requests : List (String × Request)) : List (String × Request) :=
  match events with
  | [] => []
  | first :: rest =>
    ((legacy.map Prod.fst).filter fun key => key ∉ requests.map Prod.fst).map fun key =>
      (key, ⟨rest.foldl (fun order event => latest order event.order) first.order, false, false⟩)

def mergeHints (db : Db) (hints : List Hint) : Db :=
  { db with hints := db.hints ++ hints.filter fun hint => hint ∉ db.hints }

def truthy (poolId : Option String) : Option String := poolId.filter (· ≠ "")

/-- `_apply` of a book that queues its replays. -/
def applyDeferred (db : Db) (events : List Event) : Db :=
  if events = [] then db
  else
    let keys := batchKeys db events
    let legacy := legacyPositions db keys
    let requests := requestsOf db events legacy
    let unqueued := unqueuedLegacy events legacy requests
    let cleared := invalidateLegacy { db with eventKeys := mapEvents db events } legacy
    let pools := legacy.filterMap (fun entry => truthy entry.2.poolId) ++
      (events.filter fun event => event.id.isSome).filterMap (fun event =>
        (truthy event.poolId).map casing.lower) ++ poolsOf casing cleared keys
    let queued := queuePositionKeys (queuePositionKeys cleared requests db.epoch true) unqueued
      db.epoch false
    invalidateCache casing (mergeHints queued (events.flatMap Event.hints)) pools

/-- `_apply` of a book that replays at once. -/
def applyNow (db : Db) (events : List Event) (replays : String → Replayed)
    (basis : String → String) : Db :=
  if events = [] then db
  else
    let keys := batchKeys db events
    let legacy := legacyPositions db keys
    let cleared := invalidateLegacy { db with eventKeys := mapEvents db events } legacy
    let replayed := replayAll cleared keys replays
    let pools := legacy.filterMap (fun entry => truthy entry.2.poolId) ++
      poolsOf casing cleared keys ++ poolsOf casing replayed keys
    invalidateCache casing (revalue replayed keys basis) pools

/-- `_publish_pending`: the pools it affects, or nothing. -/
def publishPending (db : Db) (prepared : Prepared) : Option (Db × List String) :=
  if db.epoch ≠ prepared.epoch then none
  else (db.pending.get prepared.positionKey).map fun queued =>
    let before := poolsOf casing db [prepared.positionKey]
    let written := prepared.writes.elim db (replay db prepared.positionKey)
    let after := if prepared.writes.isSome then poolsOf casing written [prepared.positionKey]
      else []
    -- A key that was queued again since the snapshot stays queued.
    let settled := if queued.generation = prepared.generation then
        { written with
          pending := written.pending.erase prepared.positionKey
          hints := written.hints.filter fun hint => hint.positionKey ≠ prepared.positionKey }
      else written
    (settled, before ++ after)

structure Published where
  db : Db
  pools : List String
  /-- The positions that were written. -/
  keys : List String
  any : Bool

def publishNext (published : Published) (prepared : Prepared) : Published :=
  match publishPending casing published.db prepared with
  | none => published
  | some (db, pools) =>
    { db := db
      pools := published.pools ++ pools
      keys := if prepared.writes.isSome then published.keys ++ [prepared.positionKey]
        else published.keys
      any := true }

/-- One transaction of `project_pending`. -/
def publish (db : Db) (batch : List Prepared) (basis : String → String) : Db :=
  let published := batch.foldl (publishNext casing) ⟨db, [], [], false⟩
  if published.any then
    invalidateCache casing (revalue published.db published.keys basis) published.pools
  else published.db

/-- `publish_claims`, of the claims that its checks let through. -/
def publishClaims (db : Db) (accepted : List (String × Claim)) (basis : String → String) : Db :=
  if accepted = [] then db
  else
    let keys := accepted.map Prod.fst
    let pools := keys.filterMap fun key => (db.positions.get key).bind fun row =>
      (truthy row.poolId).map casing.lower
    invalidateCache casing (revalue
      { db with claims := accepted.foldl (fun table entry => table.put entry.1 entry.2) db.claims }
      keys basis) pools

def laterClaim (ancestor nextEpoch : Int) (claim : Claim) : Bool :=
  claim.block > ancestor || claim.epoch ≠ nextEpoch

/-- `_invalidate_claims_after_rollback`, with the pools of the claims it drops. -/
def invalidateClaims (db : Db) (ancestor nextEpoch : Int) : Db × List String :=
  let keys := (db.claims.entries.filter fun entry => laterClaim ancestor nextEpoch entry.2).map
    Prod.fst
  ({ revalue db keys fun _ => "unknown" with
      claims := db.claims.remove fun _ claim => laterClaim ancestor nextEpoch claim },
    poolsOf casing db keys)

def lateEffects (db : Db) (ancestor : Int) : List String :=
  (db.effects.filter fun effect => effect.block > ancestor).map Effect.positionKey

def latePositions (db : Db) (ancestor : Int) : List String :=
  (db.positions.entries.filter fun entry => entry.2.lastOrder.block > ancestor).map Prod.fst

def cutMapping (db : Db) (ancestor : Int) : OrderedTable Int String :=
  db.eventKeys.remove fun id _ => (db.events.get id).elim true fun block => block > ancestor

/-- `_rollback` of a book that replays at once. -/
def rollbackNow (db : Db) (ancestor : Int) (replays : String → Replayed) : Db :=
  let keys := (lateEffects db ancestor ++ latePositions db ancestor).dedup
  let before := poolsOf casing db (latePositions db ancestor)
  let replayed := replayAll db keys replays
  let after := poolsOf casing replayed keys
  let (dropped, claimed) := invalidateClaims casing
    { replayed with eventKeys := cutMapping replayed ancestor } ancestor (db.epoch + 1)
  invalidateCache casing dropped (before ++ after ++ claimed)

/-- `_rollback_deferred`. -/
def rollbackDeferred (db : Db) (ancestor : Int) : Db :=
  let mapped := (db.eventKeys.entries.filter fun entry =>
    (db.events.get entry.1).elim false fun block => block > ancestor).map Prod.snd
  let keys := (mapped ++ lateEffects db ancestor ++ latePositions db ancestor).dedup
  let before := poolsOf casing db keys
  let queued := queuePositionKeys db
    (keys.map fun key => (key, ⟨⟨ancestor + 1, 0, 0⟩, false, false⟩)) (db.epoch + 1) false
  let cleared := { queued with
    eventKeys := cutMapping queued ancestor
    effects := queued.effects.filter fun effect => effect.positionKey ∉ keys
    positions := queued.positions.remove fun key _ => key ∈ keys }
  let (dropped, claimed) := invalidateClaims casing cleared ancestor (db.epoch + 1)
  invalidateCache casing dropped (before ++ claimed)

inductive Change where
  | apply (events : List Event) (replays : String → Replayed) (basis : String → String)
  | publish (batch : List Prepared) (basis : String → String)
  | publishClaims (accepted : List (String × Claim)) (basis : String → String)
  | rollback (ancestor : Int) (replays : String → Replayed)
  | poolState (rows : Option (OrderedTable String Mark))
  | metadata (rows : OrderedTable String Metadata)
  /-- The store's own rows. -/
  | store (events : OrderedTable Int Int) (eventsRevision epoch : Int)
  /-- Hints of queued positions that have been read from their events. -/
  | hinted (keys : List String) (hints : List Hint)

def Change.take (deferred : Bool) (db : Db) : Change → Db
  | .apply events replays basis =>
    if deferred then applyDeferred casing db events else applyNow casing db events replays basis
  | .publish batch basis =>
    if deferred then PublishedLedger.publish casing db batch basis else db
  | .publishClaims accepted basis => PublishedLedger.publishClaims casing db accepted basis
  | .rollback ancestor replays =>
    if deferred then rollbackDeferred casing db ancestor
    else rollbackNow casing db ancestor replays
  | .poolState rows => { db with poolState := rows }
  | .metadata rows => { db with pools := rows }
  | .store events eventsRevision epoch =>
    { db with events := events, eventsRevision := eventsRevision, epoch := epoch }
  | .hinted keys hints =>
    mergeHints { db with pending := db.pending.modify fun key row =>
      if key ∈ keys then { row with identitiesReady := true } else row } hints

def generation (db : Db) (pool : String) : Nat := (db.generations.get pool).getD 0

def Asked (pool : String) : Prop := pool ≠ "" ∧ casing.lower pool = pool

def superseded (queued : Option Pending) (row : Position) : Bool :=
  queued.any fun pending => !pending.costOnly && queuedAfter pending.priority row.lastOrder

def seen (db : Db) (pool key : String) : Option (Position × Bool) :=
  ((db.positions.get key).filter fun row =>
    row.poolId = some pool ∧ row.activeEpisodeId.isSome).map fun row =>
      (row, superseded (db.pending.get key) row)

def Listed (pools : List String) (poolId : Option String) : Prop :=
  ∀ pool, poolId = some pool → pool ≠ "" → casing.lower pool ∈ pools.map casing.lower

/-- What `superseded` reads of the queue. -/
def standing (queued : Option Pending) : Option (Bool × Order) :=
  queued.map fun pending => (pending.costOnly, pending.priority)

theorem superseded_standing {queued other : Option Pending}
    (same : standing queued = standing other) (row : Position) : superseded queued row = superseded other row := by
  have reads : ∀ pending : Option Pending, superseded pending row =
      (standing pending).any fun place => !place.1 && queuedAfter place.2 row.lastOrder := by
    intro pending
    cases pending <;> rfl
  rw [reads, reads, same]

def Covers (pools : List String) (db after : Db) : Prop :=
  ∀ key, (after.positions.get key = db.positions.get key ∧
      standing (after.pending.get key) = standing (db.pending.get key)) ∨
    ((∀ row ∈ db.positions.get key, Listed casing pools row.poolId) ∧
      ∀ row ∈ after.positions.get key, Listed casing pools row.poolId)

variable {casing} {pools : List String} {db middle after : Db}

theorem Listed.more {others : List String} {poolId : Option String}
    (listed : Listed casing pools poolId) (more : ∀ pool ∈ pools, pool ∈ others) :
    Listed casing others poolId := by
  intro pool named filled
  obtain ⟨same, member, lowered⟩ := List.mem_map.mp (listed pool named filled)
  exact List.mem_map.mpr ⟨same, more same member, lowered⟩

theorem Covers.refl (pools : List String) (db : Db) : Covers casing pools db db :=
  fun _ => .inl ⟨rfl, rfl⟩

theorem Covers.more {others : List String} (covers : Covers casing pools db after)
    (more : ∀ pool ∈ pools, pool ∈ others) : Covers casing others db after := by
  intro key
  rcases covers key with same | ⟨before, now⟩
  · exact .inl same
  · exact .inr ⟨fun row member => (before row member).more more,
      fun row member => (now row member).more more⟩

theorem Covers.trans (first : Covers casing pools db middle)
    (second : Covers casing pools middle after) : Covers casing pools db after := by
  intro key
  rcases first key with ⟨row, place⟩ | ⟨before, between⟩
  · rcases second key with ⟨later, further⟩ | ⟨before, now⟩
    · exact .inl ⟨later.trans row, further.trans place⟩
    · exact .inr ⟨row ▸ before, now⟩
  · rcases second key with ⟨later, -⟩ | ⟨-, now⟩
    · exact .inr ⟨before, later ▸ between⟩
    · exact .inr ⟨before, now⟩

theorem Covers.seen (covers : Covers casing pools db after) {pool : String}
    (asked : Asked casing pool) (unlisted : pool ∉ pools.map casing.lower) (key : String) :
    seen after pool key = seen db pool key := by
  have hidden : ∀ (other : Db), (∀ row ∈ other.positions.get key, Listed casing pools row.poolId) →
      PublishedLedger.seen other pool key = none := by
    intro other listed
    rw [PublishedLedger.seen, Option.map_eq_none_iff, Option.filter_eq_none_iff]
    intro row member shown
    have here := (decide_eq_true_eq.mp shown).1
    have inside := listed row member pool here asked.1
    rw [asked.2] at inside
    exact unlisted inside
  rcases covers key with ⟨same, place⟩ | ⟨before, now⟩
  · rw [PublishedLedger.seen, PublishedLedger.seen, same]
    congr 1
    exact funext fun row => by rw [superseded_standing place]
  · rw [hidden after now, hidden db before]

theorem generation_fold (names : List String) (table : OrderedTable String Nat) (pool : String)
    (distinct : names.Nodup) :
    ((names.foldl (fun table pool => table.upsert pool raise) table).get pool).getD 0 =
      (table.get pool).getD 0 + if pool ∈ names then 1 else 0 := by
  induction names generalizing table with
  | nil => simp
  | cons name rest ih =>
    obtain ⟨fresh, distinct⟩ := List.nodup_cons.mp distinct
    rw [List.foldl_cons, ih _ distinct, OrderedTable.upsert, get_put]
    by_cases same : pool = name
    · subst same
      simp [fresh, raise]
    · simp [same]

theorem generation_invalidate (db : Db) (pools : List String) (pool : String) :
    generation (invalidateCache casing db pools) pool =
      generation db pool + if pool ∈ pools.map casing.lower then 1 else 0 := by
  have counted := generation_fold (pools.map casing.lower).dedup db.generations pool
    (List.nodup_dedup _)
  simp only [List.mem_dedup] at counted
  exact counted

structure Shown (casing : Casing) (db after : Db) : Prop where
  rises : ∀ pool, generation db pool ≤ generation after pool
  still : ∀ pool, Asked casing pool → generation after pool = generation db pool →
    ∀ key, PublishedLedger.seen after pool key = PublishedLedger.seen db pool key

theorem Shown.refl (db : Db) : Shown casing db db := ⟨fun _ => le_rfl, fun _ _ _ _ => rfl⟩

theorem Shown.trans (first : Shown casing db middle) (second : Shown casing middle after) :
    Shown casing db after := by
  refine ⟨fun pool => (first.rises pool).trans (second.rises pool), ?_⟩
  intro pool asked same key
  have lower := first.rises pool
  have upper := second.rises pool
  rw [second.still pool asked (by omega) key, first.still pool asked (by omega) key]

theorem Covers.shown (covers : Covers casing pools db after)
    (unmoved : after.generations = db.generations) :
    Shown casing db (invalidateCache casing after pools) := by
  have counted : ∀ pool, generation (invalidateCache casing after pools) pool =
      generation db pool + if pool ∈ pools.map casing.lower then 1 else 0 := by
    intro pool
    rw [generation_invalidate, generation, generation, unmoved]
  refine ⟨fun pool => by rw [counted]; omega, ?_⟩
  intro pool asked same key
  have unlisted : pool ∉ pools.map casing.lower := by
    intro member
    rw [counted, if_pos member] at same
    omega
  exact covers.seen asked unlisted key

theorem shown_apart (rows : after.positions = db.positions)
    (queue : ∀ key, standing (after.pending.get key) = standing (db.pending.get key))
    (unmoved : after.generations = db.generations) : Shown casing db after := by
  have covers : Covers casing [] db after := fun key => .inl ⟨by rw [rows], queue key⟩
  refine ⟨fun pool => by rw [generation, generation, unmoved], ?_⟩
  intro pool asked _ key
  exact covers.seen asked (by simp) key

def Frame (keys : List String) (db after : Db) : Prop :=
  ∀ key ∉ keys, after.positions.get key = db.positions.get key ∧
    standing (after.pending.get key) = standing (db.pending.get key)

def Rewrites (db after : Db) : Prop :=
  ∀ key, ∀ row ∈ after.positions.get key, ∃ old ∈ db.positions.get key,
    old.poolId = row.poolId ∧ old.lastOrder = row.lastOrder

variable (keys : List String)

theorem Frame.refl (db : Db) : Frame keys db db := fun _ _ => ⟨rfl, rfl⟩

theorem Frame.trans {keys others : List String} (first : Frame keys db middle)
    (second : Frame others middle after) : Frame (keys ++ others) db after := by
  intro key apart
  rw [List.mem_append, not_or] at apart
  obtain ⟨row, place⟩ := first key apart.1
  obtain ⟨later, further⟩ := second key apart.2
  exact ⟨later.trans row, further.trans place⟩

theorem Frame.covers {keys : List String} (frame : Frame keys db after)
    (before : ∀ key ∈ keys, ∀ row ∈ db.positions.get key, Listed casing pools row.poolId)
    (now : ∀ key ∈ keys, ∀ row ∈ after.positions.get key, Listed casing pools row.poolId) :
    Covers casing pools db after := by
  intro key
  by_cases touched : key ∈ keys
  · exact .inr ⟨before key touched, now key touched⟩
  · exact .inl (frame key touched)

theorem Rewrites.listed (rewrites : Rewrites db after) {key : String}
    (before : ∀ row ∈ db.positions.get key, Listed casing pools row.poolId) :
    ∀ row ∈ after.positions.get key, Listed casing pools row.poolId := by
  intro row member
  obtain ⟨old, there, pool, -⟩ := rewrites key row member
  exact pool ▸ before old there

theorem listed_poolsOf {keys : List String} {key : String} (named : key ∈ keys) {row : Position}
    (member : row ∈ db.positions.get key) : Listed casing (poolsOf casing db keys) row.poolId := by
  intro pool here _
  refine List.mem_map.mpr ⟨casing.lower pool, ?_, casing.again pool⟩
  refine List.mem_filterMap.mpr ⟨(key, row), ?_, by rw [here, Option.map_some]⟩
  rw [List.mem_filter]
  exact ⟨(get_some _ _ _).mp member, decide_eq_true named⟩

theorem listed_truthy {poolId : Option String} {pools : List String}
    (inside : ∀ pool ∈ truthy poolId, casing.lower pool ∈ pools.map casing.lower) :
    Listed casing pools poolId := by
  intro pool here filled
  refine inside pool ?_
  rw [here, truthy]
  simpa using filled

theorem modify_frame (db : Db) (keys : List String) (change : Position → String → Position)
    {after : Db} (queue : after.pending = db.pending)
    (rows : after.positions = db.positions.modify fun key row =>
      if key ∈ keys then change row key else row) : Frame keys db after := by
  intro key apart
  rw [rows, queue, get_modify]
  simp only [apart, if_false, Option.map_id_fun', id_eq, and_self]

theorem modify_rewrites (db : Db) (keys : List String) (change : Position → String → Position)
    {after : Db} (rows : after.positions = db.positions.modify fun key row =>
      if key ∈ keys then change row key else row)
    (kept : ∀ row key, (change row key).poolId = row.poolId ∧
      (change row key).lastOrder = row.lastOrder) : Rewrites db after := by
  intro key row member
  rw [rows, get_modify] at member
  obtain ⟨old, there, made⟩ := Option.map_eq_some_iff.mp member
  refine ⟨old, there, ?_⟩
  rw [← made]
  split
  · exact ⟨(kept old key).1.symm, (kept old key).2.symm⟩
  · exact ⟨rfl, rfl⟩

theorem invalidateLegacy_frame (db : Db) (legacy : List (String × Position)) :
    Frame (legacy.map Prod.fst) db (invalidateLegacy db legacy) :=
  modify_frame db _ (fun row _ => unqualify row) rfl rfl

theorem invalidateLegacy_rewrites (db : Db) (legacy : List (String × Position)) :
    Rewrites db (invalidateLegacy db legacy) :=
  modify_rewrites db _ (fun row _ => unqualify row) rfl fun _ _ => ⟨rfl, rfl⟩

theorem revalue_frame (db : Db) (keys : List String) (basis : String → String) :
    Frame keys db (revalue db keys basis) :=
  modify_frame db keys (fun row key => { row with valuationBasis := basis key }) rfl rfl

theorem revalue_rewrites (db : Db) (keys : List String) (basis : String → String) :
    Rewrites db (revalue db keys basis) :=
  modify_rewrites db keys (fun row key => { row with valuationBasis := basis key }) rfl
    fun _ _ => ⟨rfl, rfl⟩

theorem queue_positions (db : Db) (requests : List (String × Request)) (epoch : Int)
    (hinted : Bool) : (queuePositionKeys db requests epoch hinted).positions = db.positions ∧
      (queuePositionKeys db requests epoch hinted).effects = db.effects ∧
      (queuePositionKeys db requests epoch hinted).generations = db.generations := by
  unfold queuePositionKeys
  split <;> exact ⟨rfl, rfl, rfl⟩

theorem queue_frame (db : Db) (requests : List (String × Request)) (epoch : Int) (hinted : Bool) :
    Frame (requests.map Prod.fst) db (queuePositionKeys db requests epoch hinted) := by
  intro key apart
  refine ⟨by rw [(queue_positions db requests epoch hinted).1], ?_⟩
  have inserted : ∀ (pairs : List (String × Pending)) (table : OrderedTable String Pending),
      key ∉ pairs.map Prod.fst → (table.insertAll pairs).get key = table.get key := by
    intro pairs
    induction pairs with
    | nil => intro table _; rfl
    | cons pair rest ih =>
      intro table other
      rw [List.map_cons, List.mem_cons, not_or] at other
      have later := ih (table.insertNew pair.1 pair.2) other.2
      rw [get_insertNew, if_neg other.1, Option.or_none] at later
      exact later
  have updated : ∀ (rest : List (String × Request)) (table : OrderedTable String Pending),
      key ∉ rest.map Prod.fst → (rest.foldl (fun table request => table.modify fun key row =>
        if key = request.1 then requeue hinted db.eventsRevision epoch request.2 row else row)
        table).get key = table.get key := by
    intro rest
    induction rest with
    | nil => intro table _; rfl
    | cons request rest ih =>
      intro table other
      rw [List.map_cons, List.mem_cons, not_or] at other
      rw [List.foldl_cons, ih _ other.2, get_modify]
      simp [other.1]
  unfold queuePositionKeys
  split
  · rfl
  · dsimp only
    rw [updated _ _ apart, inserted]
    rw [List.map_map]
    exact apart

theorem replay_frame (db : Db) (key : String) (replayed : Replayed) :
    Frame [key] db (replay db key replayed) := by
  intro other apart
  rw [List.mem_singleton] at apart
  refine ⟨?_, rfl⟩
  unfold replay
  split
  · rw [get_erase, if_neg apart]
  · rw [get_put, if_neg apart]

theorem replayAll_same (db : Db) (replays : String → Replayed) :
    (replayAll db keys replays).pending = db.pending ∧
      (replayAll db keys replays).generations = db.generations ∧
      (replayAll db keys replays).claims = db.claims := by
  induction keys generalizing db with
  | nil => exact ⟨rfl, rfl, rfl⟩
  | cons key rest ih => exact ih (replay db key (replays key))

theorem replayAll_frame (db : Db) (replays : String → Replayed) :
    Frame keys db (replayAll db keys replays) := by
  induction keys generalizing db with
  | nil => exact Frame.refl _ db
  | cons key rest ih =>
    have first := replay_frame db key (replays key)
    exact first.trans (ih (replay db key (replays key)))

def Settled (db : Db) : Prop :=
  ∀ effect ∈ db.effects, ∀ row ∈ db.positions.get effect.positionKey,
    effect.block ≤ row.lastOrder.block

theorem Rewrites.settled (rewrites : Rewrites db after) (fewer : ∀ effect ∈ after.effects,
    effect ∈ db.effects) (settled : Settled db) : Settled after := by
  intro effect member row there
  obtain ⟨old, here, -, order⟩ := rewrites effect.positionKey row there
  exact order ▸ settled effect (fewer effect member) old here

theorem replay_settled (settled : Settled db) (key : String) (replayed : Replayed) :
    Settled (replay db key replayed) := by
  intro effect member row there
  rcases List.mem_append.mp member with old | fresh
  · obtain ⟨inside, apart⟩ := List.mem_filter.mp old
    have other : effect.positionKey ≠ key := of_decide_eq_true apart
    have same := (replay_frame db key replayed effect.positionKey (by simpa using other)).1
    rw [same] at there
    exact settled effect inside row there
  · obtain ⟨pair, inside, rfl⟩ := List.mem_map.mp fresh
    unfold replay at there
    cases written : replayed.row with
    | none =>
      rw [written] at there
      simp [get_erase] at there
    | some last =>
      rw [written] at there
      simp only [get_put, if_true, Option.mem_def, Option.some.injEq] at there
      exact there ▸ replayed.settled last written pair inside

theorem replayAll_settled (settled : Settled db) (keys : List String)
    (replays : String → Replayed) : Settled (replayAll db keys replays) := by
  induction keys generalizing db with
  | nil => exact settled
  | cons key rest ih => exact ih (replay_settled settled key (replays key))

/-! ### `_apply` -/

theorem legacy_listed (db : Db) (keys : List String) (key : String)
    (named : key ∈ (legacyPositions db keys).map Prod.fst) (row : Position)
    (member : row ∈ db.positions.get key) : Listed casing
      ((legacyPositions db keys).filterMap fun entry => truthy entry.2.poolId) row.poolId := by
  obtain ⟨⟨other, held⟩, inside, rfl⟩ := List.mem_map.mp named
  have there := (get_some _ _ _).mpr (List.mem_of_mem_filter inside)
  rw [member] at there
  cases there
  apply listed_truthy
  intro pool here
  exact List.mem_map_of_mem (List.mem_filterMap.mpr ⟨_, inside, here⟩)

theorem mem_batchKeys (db : Db) (events : List Event) (event : Event) (member : event ∈ events)
    (key : String) (named : key ∈ oldKey db event ∨ key ∈ newKey event) :
    key ∈ batchKeys db events := by
  rw [batchKeys, List.mem_dedup, List.mem_append, List.mem_filterMap, List.mem_filterMap]
  rcases named with old | new
  · exact .inl ⟨event, member, old⟩
  · exact .inr ⟨event, member, new⟩

theorem mem_upserts (merge : String → Option Request → Request)
    (table : OrderedTable String Request) (entry : String × Request)
    (member : entry ∈ (keys.foldl (fun table key => table.upsert key (merge key)) table).entries) :
    entry.1 ∈ keys ∨ entry.1 ∈ table.entries.map Prod.fst := by
  induction keys generalizing table with
  | nil => exact .inr (List.mem_map_of_mem member)
  | cons key rest ih =>
    rcases ih (table.upsert key (merge key)) member with late | early
    · exact .inl (List.mem_cons_of_mem key late)
    · obtain ⟨old, there, same⟩ := List.mem_map.mp early
      rcases (mem_put table key _ old).mp there with ⟨kept, -⟩ | rfl
      · exact .inr (same ▸ List.mem_map_of_mem kept)
      · exact .inl (same ▸ List.mem_cons_self)

theorem requests_keys (db : Db) (events : List Event) (legacy : List (String × Position))
    (request : String × Request) (member : request ∈ requestsOf db events legacy) :
    request.1 ∈ batchKeys db events := by
  have gathered : ∀ (front : List Event) (table : OrderedTable String Request),
      (∀ event ∈ front, event ∈ events) →
      (∀ key ∈ table.entries.map Prod.fst, key ∈ batchKeys db events) →
      ∀ key ∈ (front.foldl (noteEvent db) table).entries.map Prod.fst,
        key ∈ batchKeys db events := by
    intro front
    induction front with
    | nil => exact fun table _ inside => inside
    | cons event rest ih =>
      intro table within inside
      refine ih (noteEvent db table event) (fun other later => within other (.tail _ later)) ?_
      intro key named
      unfold noteEvent at named
      split at named
      · exact inside key named
      · rename_i id known
        obtain ⟨entry, there, rfl⟩ := List.mem_map.mp named
        rcases mem_upserts _ _ table entry there with fresh | old
        · rw [List.mem_dedup, List.mem_filter, List.mem_append, List.mem_singleton] at fresh
          refine mem_batchKeys db events event (within event List.mem_cons_self) entry.1 ?_
          obtain ⟨old | same, filled⟩ := fresh
          · exact .inl (Option.mem_toList.mp old)
          · refine .inr ?_
            have filled : event.positionKey ≠ "" := same ▸ of_decide_eq_true filled
            rw [newKey, if_pos ⟨by rw [known]; rfl, filled⟩, same]
            rfl
        · exact inside entry.1 old
  have base := gathered events .empty (fun _ there => there) (fun _ inside => by cases inside)
  apply base
  obtain ⟨old, there, rfl⟩ := List.mem_map.mp member
  exact List.mem_map.mpr ⟨old, there, rfl⟩

theorem cleared_frame (db : Db) (events : List Event) (legacy : List (String × Position)) :
    Frame (legacy.map Prod.fst) db
      (invalidateLegacy { db with eventKeys := mapEvents db events } legacy) :=
  invalidateLegacy_frame { db with eventKeys := mapEvents db events } legacy

theorem cleared_rewrites (db : Db) (events : List Event) (legacy : List (String × Position)) :
    Rewrites db (invalidateLegacy { db with eventKeys := mapEvents db events } legacy) :=
  invalidateLegacy_rewrites { db with eventKeys := mapEvents db events } legacy

theorem unqueued_keys (events : List Event) (legacy : List (String × Position))
    (requests : List (String × Request)) (key : String)
    (member : key ∈ (unqueuedLegacy events legacy requests).map Prod.fst) :
    key ∈ legacy.map Prod.fst := by
  unfold unqueuedLegacy at member
  split at member
  · cases member
  · rw [List.map_map] at member
    obtain ⟨other, there, rfl⟩ := List.mem_map.mp member
    exact List.mem_of_mem_filter there

theorem applyDeferred_shown (db : Db) (events : List Event) :
    Shown casing db (applyDeferred casing db events) := by
  unfold applyDeferred
  split
  · exact Shown.refl db
  · dsimp only
    set legacy := legacyPositions db (batchKeys db events) with chosen
    set cleared := invalidateLegacy { db with eventKeys := mapEvents db events } legacy with start
    set requests := requestsOf db events legacy with asked
    set unqueued := unqueuedLegacy events legacy requests with left
    set queued := queuePositionKeys cleared requests db.epoch true with first
    set last := queuePositionKeys queued unqueued db.epoch false with second
    have positions : last.positions = cleared.positions := by
      rw [second, (queue_positions queued unqueued db.epoch false).1, first,
        (queue_positions cleared requests db.epoch true).1]
    have generations : last.generations = db.generations := by
      rw [second, (queue_positions queued unqueued db.epoch false).2.2, first,
        (queue_positions cleared requests db.epoch true).2.2]
      rfl
    have frame := ((cleared_frame db events legacy).trans
      (queue_frame cleared requests db.epoch true)).trans
      (queue_frame queued unqueued db.epoch false)
    have rewrites : Rewrites db last := by
      intro key row member
      rw [positions] at member
      exact cleared_rewrites db events legacy key row member
    set pools := legacy.filterMap (fun entry => truthy entry.2.poolId) ++
      (events.filter fun event => event.id.isSome).filterMap (fun event =>
        (truthy event.poolId).map casing.lower) ++
      poolsOf casing cleared (batchKeys db events) with listed
    have old : ∀ key ∈ legacy.map Prod.fst, ∀ row ∈ db.positions.get key,
        Listed casing pools row.poolId := by
      intro key inside row member
      refine (legacy_listed db _ key inside row member).more fun pool there => ?_
      exact List.mem_append_left _ (List.mem_append_left _ there)
    have before : ∀ key ∈ legacy.map Prod.fst ++ requests.map Prod.fst ++ unqueued.map Prod.fst,
        ∀ row ∈ db.positions.get key, Listed casing pools row.poolId := by
      intro key named row member
      rw [List.mem_append, List.mem_append] at named
      rcases named with (inside | inside) | inside
      · exact old key inside row member
      · -- A queued key is one of the batch, whose pools are read after the legacy rows
        -- were cleared; clearing keeps them.
        by_cases touched : key ∈ legacy.map Prod.fst
        · exact old key touched row member
        · obtain ⟨request, there, rfl⟩ := List.mem_map.mp inside
          have same := (cleared_frame db events legacy request.1 touched).1
          have here : row ∈ cleared.positions.get request.1 := by
            rw [start, same]
            exact member
          refine (listed_poolsOf (requests_keys db events legacy request there) here).more
            fun pool found => ?_
          exact List.mem_append_right _ found
      · exact old key (unqueued_keys events legacy requests key inside) row member
    have covers : Covers casing pools db last :=
      frame.covers before fun key named => rewrites.listed (before key named)
    have merged : Covers casing pools db (mergeHints last (events.flatMap Event.hints)) := covers
    exact merged.shown generations

theorem applyNow_shown (db : Db) (events : List Event) (replays : String → Replayed)
    (basis : String → String) : Shown casing db (applyNow casing db events replays basis) := by
  unfold applyNow
  split
  · exact Shown.refl db
  · dsimp only
    set keys := batchKeys db events with batch
    set legacy := legacyPositions db keys with chosen
    set cleared := invalidateLegacy { db with eventKeys := mapEvents db events } legacy with start
    set replayed := replayAll cleared keys replays with done
    set pools := legacy.filterMap (fun entry => truthy entry.2.poolId) ++
      poolsOf casing cleared keys ++ poolsOf casing replayed keys with listed
    have old : ∀ key ∈ legacy.map Prod.fst, ∀ row ∈ db.positions.get key,
        Listed casing pools row.poolId := by
      intro key inside row member
      refine (legacy_listed db _ key inside row member).more fun pool there => ?_
      exact List.mem_append_left _ (List.mem_append_left _ there)
    have frame := ((cleared_frame db events legacy).trans
      (replayAll_frame keys cleared replays)).trans (revalue_frame replayed keys basis)
    have valued := revalue_rewrites replayed keys basis
    have generations : (revalue replayed keys basis).generations = db.generations :=
      (replayAll_same keys cleared replays).2.1
    refine Covers.shown (frame.covers ?_ ?_) generations
    · intro key named row member
      by_cases touched : key ∈ legacy.map Prod.fst
      · exact old key touched row member
      · have inside : key ∈ keys := by
          simpa [touched] using named
        have same := (cleared_frame db events legacy key touched).1
        have here : row ∈ cleared.positions.get key := by
          rw [start, same]
          exact member
        refine (listed_poolsOf inside here).more fun pool there => ?_
        exact List.mem_append_left _ (List.mem_append_right _ there)
    · intro key named
      apply valued.listed
      intro row member
      by_cases inside : key ∈ keys
      · refine (listed_poolsOf inside member).more fun pool there => ?_
        exact List.mem_append_right _ there
      · have touched : key ∈ legacy.map Prod.fst := by
          simpa [inside] using named
        rw [done, (replayAll_frame keys cleared replays key inside).1] at member
        exact (cleared_rewrites db events legacy).listed (old key touched) row member

theorem publishPending_touches (db : Db) (prepared : Prepared) (after : Db) (pools : List String)
    (published : publishPending casing db prepared = some (after, pools)) :
    Frame [prepared.positionKey] db after ∧ after.generations = db.generations ∧
      (∀ row ∈ db.positions.get prepared.positionKey, Listed casing pools row.poolId) ∧
      ∀ row ∈ after.positions.get prepared.positionKey, Listed casing pools row.poolId := by
  unfold publishPending at published
  split at published
  · cases published
  · obtain ⟨queued, -, made⟩ := Option.map_eq_some_iff.mp published
    obtain ⟨rfl, rfl⟩ := Prod.mk.inj made
    have before : ∀ row ∈ db.positions.get prepared.positionKey,
        Listed casing (poolsOf casing db [prepared.positionKey]) row.poolId :=
      fun row member => listed_poolsOf List.mem_cons_self member
    cases prepared.writes with
    | none =>
      refine ⟨?_, by split <;> rfl, ?_, ?_⟩
      · intro key apart
        rw [List.mem_singleton] at apart
        split
        · exact ⟨rfl, by dsimp only [Option.elim]; rw [get_erase, if_neg apart]⟩
        · exact ⟨rfl, rfl⟩
      · exact fun row member => (before row member).more fun pool => List.mem_append_left _
      · intro row member
        have here : row ∈ db.positions.get prepared.positionKey := by
          split at member <;> exact member
        exact (before row here).more fun pool => List.mem_append_left _
    | some replayed =>
      have frame := replay_frame db prepared.positionKey replayed
      refine ⟨?_, by split <;> rfl, ?_, ?_⟩
      · intro key apart
        obtain ⟨row, place⟩ := frame key apart
        rw [List.mem_singleton] at apart
        split
        · exact ⟨row, by dsimp only [Option.elim]; rw [get_erase, if_neg apart, place]⟩
        · exact ⟨row, place⟩
      · exact fun row member => (before row member).more fun pool => List.mem_append_left _
      · intro row member
        have here : row ∈ (replay db prepared.positionKey replayed).positions.get
            prepared.positionKey := by
          split at member <;> exact member
        exact (listed_poolsOf List.mem_cons_self here).more fun pool => List.mem_append_right _

structure Gathered (casing : Casing) (db : Db) (published : Published) : Prop where
  covers : Covers casing published.pools db published.db
  unmoved : published.db.generations = db.generations
  written : ∀ key ∈ published.keys, ∀ row ∈ published.db.positions.get key,
    Listed casing published.pools row.poolId
  idle : published.any = false → published.db = db

theorem publishNext_gathers (db : Db) (published : Published) (prepared : Prepared)
    (gathered : Gathered casing db published) :
    Gathered casing db (publishNext casing published prepared) := by
  unfold publishNext
  split
  · exact gathered
  · rename_i after pools done
    obtain ⟨frame, still, before, now⟩ :=
      publishPending_touches published.db prepared after pools done
    have single : ∀ holds : String → Prop, holds prepared.positionKey →
        ∀ key ∈ [prepared.positionKey], holds key := by
      intro holds there key named
      rwa [List.mem_singleton.mp named]
    have further : Covers casing pools published.db after :=
      frame.covers (single _ before) (single _ now)
    refine ⟨?_, still.trans gathered.unmoved, ?_, fun idle => by cases idle⟩
    · exact (gathered.covers.more fun pool => List.mem_append_left _).trans
        (further.more fun pool => List.mem_append_right _)
    · intro key named row member
      by_cases same : key = prepared.positionKey
      · subst same
        exact (now row member).more fun pool => List.mem_append_right _
      · have earlier : key ∈ published.keys := by
          split at named
          · simpa [same] using named
          · exact named
        have kept := (frame key (by simpa using same)).1
        have here : row ∈ published.db.positions.get key := kept ▸ member
        exact (gathered.written key earlier row here).more fun pool => List.mem_append_left _

theorem publish_shown (db : Db) (batch : List Prepared) (basis : String → String) :
    Shown casing db (publish casing db batch basis) := by
  have gathered : ∀ (rest : List Prepared) (published : Published),
      Gathered casing db published →
        Gathered casing db (rest.foldl (publishNext casing) published) := by
    intro rest
    induction rest with
    | nil => exact fun _ gathered => gathered
    | cons prepared rest ih =>
      exact fun published gathered => ih _ (publishNext_gathers db published prepared gathered)
  have last := gathered batch ⟨db, [], [], false⟩
    ⟨Covers.refl [] db, rfl, fun _ listed => absurd listed List.not_mem_nil, fun _ => rfl⟩
  unfold publish
  dsimp only
  split
  · have valued : Covers casing _ _ _ := (revalue_frame _ _ basis).covers last.written
      fun key named => (revalue_rewrites _ _ basis).listed (last.written key named)
    exact (last.covers.trans valued).shown last.unmoved
  · rename_i idle
    rw [last.idle (by simpa using idle)]
    exact Shown.refl db

theorem publishClaims_shown (db : Db) (accepted : List (String × Claim)) (basis : String → String) :
    Shown casing db (publishClaims casing db accepted basis) := by
  unfold publishClaims
  split
  · exact Shown.refl db
  · dsimp only
    set pools := (accepted.map Prod.fst).filterMap fun key =>
      (db.positions.get key).bind fun row => (truthy row.poolId).map casing.lower with listed
    set claimed : Db := { db with
      claims := accepted.foldl (fun table entry => table.put entry.1 entry.2) db.claims }
    have before : ∀ key ∈ accepted.map Prod.fst, ∀ row ∈ db.positions.get key,
        Listed casing pools row.poolId := by
      intro key named row member
      apply listed_truthy
      intro pool here
      refine List.mem_map.mpr ⟨casing.lower pool, ?_, casing.again pool⟩
      refine List.mem_filterMap.mpr ⟨key, named, ?_⟩
      rw [show db.positions.get key = some row from member, Option.bind_some,
        show truthy row.poolId = some pool from here, Option.map_some]
    have covers : Covers casing pools claimed (revalue claimed (accepted.map Prod.fst) basis) :=
      (revalue_frame claimed _ basis).covers before
        fun key named => (revalue_rewrites claimed _ basis).listed (before key named)
    have start : Covers casing pools db (revalue claimed (accepted.map Prod.fst) basis) := covers
    exact start.shown rfl

theorem invalidateClaims_covers (casing : Casing) (db : Db) (ancestor nextEpoch : Int) :
    Covers casing (invalidateClaims casing db ancestor nextEpoch).2 db
        (invalidateClaims casing db ancestor nextEpoch).1 ∧
      Rewrites db (invalidateClaims casing db ancestor nextEpoch).1 ∧
      (invalidateClaims casing db ancestor nextEpoch).1.generations = db.generations := by
  have rewrites := revalue_rewrites db ((db.claims.entries.filter fun entry =>
    laterClaim ancestor nextEpoch entry.2).map Prod.fst) fun _ => "unknown"
  have frame := revalue_frame db ((db.claims.entries.filter fun entry =>
    laterClaim ancestor nextEpoch entry.2).map Prod.fst) fun _ => "unknown"
  have covers : Covers casing _ _ _ := frame.covers
    (fun _ named _ member => listed_poolsOf named member)
    (fun _ named => rewrites.listed fun _ member => listed_poolsOf named member)
  exact ⟨covers, rewrites, rfl⟩

theorem mem_latePositions (db : Db) (ancestor : Int) (key : String) (row : Position)
    (member : row ∈ db.positions.get key) (late : row.lastOrder.block > ancestor) :
    key ∈ latePositions db ancestor := by
  refine List.mem_map.mpr ⟨(key, row), ?_, rfl⟩
  rw [List.mem_filter]
  exact ⟨(get_some _ _ _).mp member, decide_eq_true late⟩

theorem rollbackNow_shown (settled : Settled db) (ancestor : Int) (replays : String → Replayed) :
    Shown casing db (rollbackNow casing db ancestor replays) := by
  set keys := (lateEffects db ancestor ++ latePositions db ancestor).dedup with chosen
  set replayed := replayAll db keys replays with done
  set cut : Db := { replayed with eventKeys := cutMapping replayed ancestor } with mapped
  obtain ⟨covers, -, unmoved⟩ := invalidateClaims_covers casing cut ancestor (db.epoch + 1)
  set claimed := (invalidateClaims casing cut ancestor (db.epoch + 1)).2 with dropped
  set pools := poolsOf casing db (latePositions db ancestor) ++ poolsOf casing replayed keys ++
    claimed with listed
  have first : Covers casing pools db cut := by
    refine (replayAll_frame keys db replays).covers ?_ ?_
    · intro key named row member
      -- An effect above the ancestor shows that its position's row is too.
      have late : key ∈ latePositions db ancestor := by
        rw [chosen, List.mem_dedup, List.mem_append] at named
        rcases named with effects | late
        · obtain ⟨effect, inside, rfl⟩ := List.mem_map.mp effects
          obtain ⟨there, above⟩ := List.mem_filter.mp inside
          have last := settled effect there row member
          have above := of_decide_eq_true above
          exact mem_latePositions db ancestor _ row member (lt_of_lt_of_le above last)
        · exact late
      refine (listed_poolsOf late member).more fun pool there => ?_
      exact List.mem_append_left _ (List.mem_append_left _ there)
    · intro key named row member
      refine (listed_poolsOf named member).more fun pool there => ?_
      exact List.mem_append_left _ (List.mem_append_right _ there)
  have second : Covers casing pools cut
      (invalidateClaims casing cut ancestor (db.epoch + 1)).1 := by
    refine covers.more fun pool there => ?_
    exact List.mem_append_right _ there
  refine (first.trans second).shown ?_
  exact (replayAll_same keys db replays).2.1

theorem rollbackDeferred_shown (db : Db) (ancestor : Int) :
    Shown casing db (rollbackDeferred casing db ancestor) := by
  set keys := ((db.eventKeys.entries.filter fun entry =>
    (db.events.get entry.1).elim false fun block => block > ancestor).map Prod.snd ++
    lateEffects db ancestor ++ latePositions db ancestor).dedup with chosen
  set requests := keys.map fun key =>
    (key, (⟨⟨ancestor + 1, 0, 0⟩, false, false⟩ : Request)) with asked
  set queued := queuePositionKeys db requests (db.epoch + 1) false with first
  set cleared : Db := { queued with
    eventKeys := cutMapping queued ancestor
    effects := queued.effects.filter fun effect => effect.positionKey ∉ keys
    positions := queued.positions.remove fun key _ => key ∈ keys } with emptied
  obtain ⟨covers, -, unmoved⟩ := invalidateClaims_covers casing cleared ancestor (db.epoch + 1)
  obtain ⟨positions, -, generations⟩ := queue_positions db requests (db.epoch + 1) false
  have names : requests.map Prod.fst = keys := by
    rw [asked, List.map_map]
    exact List.map_id keys
  have rows : ∀ key, cleared.positions.get key =
      (db.positions.get key).filter fun _ => !decide (key ∈ keys) := by
    intro key
    rw [← positions]
    exact get_remove _ _ key
  have frame : Frame keys db cleared := by
    intro key apart
    have place := (queue_frame db requests (db.epoch + 1) false key (names ▸ apart)).2
    refine ⟨?_, place⟩
    rw [rows]
    cases db.positions.get key with
    | none => rfl
    | some row => simp [apart]
  have cut : Covers casing (poolsOf casing db keys) db cleared := by
    refine frame.covers (fun _ named _ member => listed_poolsOf named member) ?_
    intro key named row member
    rw [rows] at member
    simp [named] at member
  refine Covers.shown ?_ (unmoved.trans generations)
  exact (cut.more fun pool => List.mem_append_left _).trans
    (covers.more fun pool => List.mem_append_right _)

theorem Change.shown (deferred : Bool) (settled : Settled db) (change : Change) :
    Shown casing db (change.take casing deferred db) := by
  cases change with
  | apply events replays basis =>
    cases deferred with
    | true => exact applyDeferred_shown db events
    | false => exact applyNow_shown db events replays basis
  | publish batch basis =>
    cases deferred with
    | true => exact publish_shown db batch basis
    | false => exact Shown.refl db
  | publishClaims accepted basis => exact publishClaims_shown db accepted basis
  | rollback ancestor replays =>
    cases deferred with
    | true => exact rollbackDeferred_shown db ancestor
    | false => exact rollbackNow_shown settled ancestor replays
  | poolState rows => exact shown_apart rfl (fun _ => rfl) rfl
  | metadata rows => exact shown_apart rfl (fun _ => rfl) rfl
  | store events eventsRevision epoch => exact shown_apart rfl (fun _ => rfl) rfl
  | hinted keys hints =>
    refine shown_apart rfl (fun key => ?_) rfl
    unfold Change.take mergeHints
    rw [get_modify]
    cases db.pending.get key with
    | none => rfl
    | some row =>
      split <;> rfl

theorem publishPending_settled (settled : Settled db) (prepared : Prepared) (after : Db)
    (pools : List String) (published : publishPending casing db prepared = some (after, pools)) :
    Settled after := by
  unfold publishPending at published
  split at published
  · cases published
  · obtain ⟨queued, -, made⟩ := Option.map_eq_some_iff.mp published
    obtain ⟨rfl, -⟩ := Prod.mk.inj made
    have written : Settled (prepared.writes.elim db (replay db prepared.positionKey)) := by
      cases prepared.writes with
      | none => exact settled
      | some replayed => exact replay_settled settled prepared.positionKey replayed
    split <;> exact written

theorem publish_settled (settled : Settled db) (batch : List Prepared) (basis : String → String) :
    Settled (publish casing db batch basis) := by
  have gathered : ∀ (rest : List Prepared) (published : Published), Settled published.db →
      Settled (rest.foldl (publishNext casing) published).db := by
    intro rest
    induction rest with
    | nil => exact fun _ settled => settled
    | cons prepared rest ih =>
      intro published settled
      apply ih
      unfold publishNext
      split
      · exact settled
      · rename_i after pools done
        exact publishPending_settled settled prepared after pools done
  have last := gathered batch ⟨db, [], [], false⟩ settled
  unfold publish
  dsimp only
  split
  · exact (revalue_rewrites _ _ basis).settled (fun _ member => member) last
  · exact last

theorem cleared_settled (settled : Settled db) (events : List Event)
    (legacy : List (String × Position)) :
    Settled (invalidateLegacy { db with eventKeys := mapEvents db events } legacy) :=
  (cleared_rewrites db events legacy).settled (fun _ member => member) settled

theorem queue_settled (settled : Settled db) (requests : List (String × Request)) (epoch : Int)
    (hinted : Bool) : Settled (queuePositionKeys db requests epoch hinted) := by
  obtain ⟨positions, effects, -⟩ := queue_positions db requests epoch hinted
  intro effect member row there
  rw [effects] at member
  rw [positions] at there
  exact settled effect member row there

theorem applyDeferred_settled (settled : Settled db) (events : List Event) :
    Settled (applyDeferred casing db events) := by
  unfold applyDeferred
  split
  · exact settled
  · have cleared := cleared_settled settled events (legacyPositions db (batchKeys db events))
    exact queue_settled (queue_settled cleared _ _ _) _ _ _

theorem applyNow_settled (settled : Settled db) (events : List Event) (replays : String → Replayed)
    (basis : String → String) : Settled (applyNow casing db events replays basis) := by
  unfold applyNow
  split
  · exact settled
  · have cleared := cleared_settled settled events (legacyPositions db (batchKeys db events))
    exact (revalue_rewrites _ _ basis).settled (fun _ member => member)
      (replayAll_settled cleared _ replays)

theorem publishClaims_settled (settled : Settled db) (accepted : List (String × Claim))
    (basis : String → String) : Settled (publishClaims casing db accepted basis) := by
  unfold publishClaims
  split
  · exact settled
  · exact (revalue_rewrites _ _ basis).settled (fun _ member => member) settled

theorem invalidateClaims_settled (casing : Casing) (db : Db) (settled : Settled db)
    (ancestor nextEpoch : Int) : Settled (invalidateClaims casing db ancestor nextEpoch).1 :=
  (invalidateClaims_covers casing db ancestor nextEpoch).2.1.settled
    (fun _ member => member) settled

theorem rollbackNow_settled (settled : Settled db) (ancestor : Int) (replays : String → Replayed) :
    Settled (rollbackNow casing db ancestor replays) := by
  have replayed := replayAll_settled settled
    (lateEffects db ancestor ++ latePositions db ancestor).dedup replays
  exact invalidateClaims_settled casing
    { replayAll db (lateEffects db ancestor ++ latePositions db ancestor).dedup replays with
      eventKeys := cutMapping (replayAll db _ replays) ancestor } replayed ancestor (db.epoch + 1)

theorem rollbackDeferred_settled (settled : Settled db) (ancestor : Int) :
    Settled (rollbackDeferred casing db ancestor) := by
  set keys := ((db.eventKeys.entries.filter fun entry =>
    (db.events.get entry.1).elim false fun block => block > ancestor).map Prod.snd ++
    lateEffects db ancestor ++ latePositions db ancestor).dedup
  set requests := keys.map fun key =>
    (key, (⟨⟨ancestor + 1, 0, 0⟩, false, false⟩ : Request))
  set queued := queuePositionKeys db requests (db.epoch + 1) false
  have before : Settled queued := queue_settled settled requests (db.epoch + 1) false
  refine invalidateClaims_settled casing
    { queued with
      eventKeys := cutMapping queued ancestor
      effects := queued.effects.filter fun effect => effect.positionKey ∉ keys
      positions := queued.positions.remove fun key _ => key ∈ keys } ?_ ancestor (db.epoch + 1)
  intro effect member row there
  rw [get_remove] at there
  obtain ⟨old, -⟩ := Option.filter_eq_some_iff.mp there
  exact before effect (List.mem_of_mem_filter member) row old

theorem Change.settled (deferred : Bool) (settled : Settled db) (change : Change) :
    Settled (change.take casing deferred db) := by
  cases change with
  | apply events replays basis =>
    cases deferred with
    | true => exact applyDeferred_settled settled events
    | false => exact applyNow_settled settled events replays basis
  | publish batch basis =>
    cases deferred with
    | true => exact publish_settled settled batch basis
    | false => exact settled
  | publishClaims accepted basis => exact publishClaims_settled settled accepted basis
  | rollback ancestor replays =>
    cases deferred with
    | true => exact rollbackDeferred_settled settled ancestor
    | false => exact rollbackNow_settled settled ancestor replays
  | poolState rows => exact settled
  | metadata rows => exact settled
  | store events eventsRevision epoch => exact settled
  | hinted keys hints => exact settled

end RhPools.PublishedLedger
