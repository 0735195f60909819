import RhPools.PublishedLedger

/-! The statistics of pools, and the two caches before them: results under everything they
were made from, and inventories under the pool and its generation. Calls read one committed
snapshot each, newer or older, and store what they made when they come to it. -/

namespace RhPools.PoolStats
open OrderedTables CountedRemoval PyValues PoolInventory SearchCatalogue PublishedLedger GuardedRuns

def POOL_INVENTORY_CACHE_POOLS : Nat := 128
def POOL_RESULT_CACHE_ENTRIES : Nat := 512

def openRows (db : Db) (pool : String) : List (String × Position) :=
  db.positions.entries.filter fun entry =>
    entry.2.poolId = some pool ∧ entry.2.activeEpisodeId.isSome

def isSuperseded (db : Db) (entry : String × Position) : Bool :=
  superseded (db.pending.get entry.1) entry.2

def entrySpan (entry : String × Position) : Span := span entry.2

/-- `_superseded_pool_inventory` of one pool. -/
def supersededPoolInventory (db : Db) (pool : String) : OrderedTable Span Nat :=
  tally (((openRows db pool).filter (isSuperseded db)).map entrySpan)

def holder (entry : String × Position) : Option String :=
  (truthy entry.2.owner).or (truthy entry.2.custody)

def lpCount (rows : List (String × Position)) : Nat := (rows.filterMap holder).dedup.length

def historyComplete (rows : List (String × Position)) : Bool :=
  rows.all fun entry => entry.2.historyComplete

def reduceRows (db : Db) (pool : String) (setting : Setting) : Stats × Option Inventory :=
  let rows := openRows db pool
  if rows = [] then reducePoolInventory [] 0 true setting true .empty 0
  else reducePoolInventory (rows.map entrySpan) (lpCount rows) (historyComplete rows) setting true
    (supersededPoolInventory db pool) 0

structure Status where
  historyFromBlock : Value
  backfill : Value

def rawIntValue : Value → Option Int
  | .int value => some value
  | .str text => rawInt text
  | _ => none

/-- `_flag`. -/
def flag : Value → Bool
  | .bool value => value
  | .int value => value = 1
  | .float text => text = "1.0"
  | .str text => text = "1" || text = "true"
  | _ => false

def isZero : Value → Bool
  | .bool value => !value
  | .int value => value = 0
  | .float text => text = "0.0" || text = "-0.0"
  | _ => false

def backfillDone (status : Status) : Bool :=
  match status.backfill with
  | .bool value => !value
  | .str text => text = "complete"
  | .dict entries => flag (Dict.get entries "complete") || isZero (Dict.get entries "remaining")
  | _ => false

def isComplete (db : Db) (status : Status) (pool : String) : Bool :=
  let unknownScope := db.pending.entries.any fun entry => !entry.2.identitiesReady
  let pendingPool := db.hints.any fun hint => hint.kind = "scope" && hint.poolId = pool &&
    (db.pending.get hint.positionKey).isSome
  backfillDone status && !unknownScope && !pendingPool

structure CacheKey where
  generation : Nat
  poolId : String
  setting : Setting
  deriving DecidableEq

def cacheKey (db : Db) (marks : OrderedTable String Mark) (status : Status) (pool : String) :
    CacheKey where
  generation := generation db pool
  poolId := pool
  setting := {
    mark := (marks.get pool).getD noMark
    metadata := (db.pools.get pool).getD noMetadata
    historyFrom := rawIntValue status.historyFromBlock
    backfillDone := isComplete db status pool }

structure Caches where
  results : OrderedTable CacheKey Stats
  inventories : OrderedTable String (Nat × Inventory)
  positions : Int

def Caches.empty : Caches := ⟨.empty, .empty, 0⟩

structure Store where
  key : CacheKey
  result : Stats
  inventory : Option Inventory

def evict (size : Nat) : List (String × Nat × Inventory) → Int →
    List (String × Nat × Inventory) × Int
  | [], positions => ([], positions)
  | entry :: rest, positions =>
    if (entry :: rest).length ≥ POOL_INVENTORY_CACHE_POOLS ∨
        positions + size > POOL_INVENTORY_CACHE_POSITIONS then
      evict size rest (positions - entry.2.2.positions.length)
    else (entry :: rest, positions)

theorem evict_sublist (size : Nat) (entries : List (String × Nat × Inventory)) (positions : Int) :
    (evict size entries positions).1.Sublist entries := by
  induction entries generalizing positions with
  | nil => exact List.Sublist.slnil
  | cons entry rest ih =>
    rw [evict]
    split
    · exact (ih _).cons entry
    · exact List.Sublist.refl _

def cacheInventory (caches : Caches) (pool : String) (generation : Nat) (inventory : Inventory) :
    Caches :=
  let prior := caches.inventories.get pool
  -- An older snapshot may finish after a newer one; it must not displace newer inventory.
  if prior.all fun entry => entry.1 ≤ generation then
    let others := caches.inventories.erase pool
    let held := caches.positions - prior.elim 0 fun entry => entry.2.positions.length
    let kept := evict inventory.positions.length others.entries held
    { caches with
      inventories := (others.keep kept.1 (evict_sublist _ _ _)).put pool (generation, inventory)
      positions := kept.2 + inventory.positions.length }
  else caches

/-- `_cache_pool_stats`. -/
def cachePoolStats (caches : Caches) (store : Store) : Caches :=
  let after := store.inventory.elim caches
    (cacheInventory caches store.key.poolId store.key.generation)
  { after with
    results := (after.results.put store.key store.result).trim POOL_RESULT_CACHE_ENTRIES }

inductive Found where
  | result (stats : Stats)
  | inventory (inventory : Inventory)
  | missing

def lookup (caches : Caches) (key : CacheKey) : Caches × Found :=
  match caches.results.get key with
  | some cached => ({ caches with results := caches.results.touch key }, .result cached)
  | none =>
    match caches.inventories.get key.poolId with
    | some (generation, inventory) =>
      if generation = key.generation then
        ({ caches with inventories := caches.inventories.touch key.poolId },
          .inventory inventory)
      else (caches, .missing)
    | none => (caches, .missing)

def lookupAll (caches : Caches) : List CacheKey → Caches × List (CacheKey × Found)
  | [] => (caches, [])
  | key :: rest =>
    let (touched, found) := lookup caches key
    let (after, others) := lookupAll touched rest
    (after, (key, found) :: others)

def noStats : Stats := ⟨none, none, 0, 0, 0, false⟩

def resultOf (db : Db) (key : CacheKey) : Found → Stats × Option Inventory
  | .result stats => (stats, none)
  | .inventory inventory =>
    ((reducePoolInventory inventory.positions inventory.lpCount inventory.historyComplete
      key.setting false .empty inventory.stalePositions).1, none)
  | .missing => reduceRows db key.poolId key.setting

def storeOf (db : Db) (key : CacheKey) (found : Found) : Store :=
  let made := resultOf db key found
  ⟨key, made.1, made.2⟩

def Found.isInventory : Found → Bool
  | .inventory _ => true
  | _ => false

def Found.isMissing : Found → Bool
  | .missing => true
  | _ => false

/-- What is stored, in order: the pools whose inventory was there, those with open positions
as the scan comes to them, and those without. -/
def storesOf (db : Db) (found : List (CacheKey × Found)) : List Store :=
  let held := (found.filter fun entry => entry.2.isInventory).map fun entry =>
    storeOf db entry.1 entry.2
  let missing := (found.filter fun entry => entry.2.isMissing).map Prod.fst
  let evaluated := (missing.filter fun key => openRows db key.poolId ≠ []).insertionSort
    fun key other => key.poolId ≤ other.poolId
  let vacant := missing.filter fun key => openRows db key.poolId = []
  held ++ (evaluated ++ vacant).map fun key => storeOf db key .missing

structure Call where
  db : Db
  status : Status
  poolIds : List String
  answer : List (String × Stats)
  stores : List Store

variable (casing : Casing)

structure PoolCasing extends Casing where
  filled : ∀ text, text ≠ "" → lower text ≠ ""

def requestedPools (poolIds : List String) : List String :=
  ((poolIds.filter (· ≠ "")).map casing.lower).eraseDups

/-- `pool_stats` up to its stores. Once the caches have been looked into, what it returns and
stores depends on the snapshot alone. -/
def beginCall (caches : Caches) (db : Db) (status : Status) (poolIds : List String) :
    Caches × Call :=
  let requested := requestedPools casing poolIds
  match db.poolState with
  | none => (caches, ⟨db, status, poolIds, requested.map fun pool => (pool, noStats), []⟩)
  | some marks =>
    let (after, found) := lookupAll caches (requested.map (cacheKey db marks status))
    (after, ⟨db, status, poolIds,
      found.map fun entry => (entry.1.poolId, (resultOf db entry.1 entry.2).1),
      storesOf db found⟩)

/-- `pool_stats` with nothing in between. -/
def poolStats (caches : Caches) (db : Db) (status : Status) (poolIds : List String) :
    Caches × List (String × Stats) :=
  let (looked, call) := beginCall casing caches db status poolIds
  (call.stores.foldl cachePoolStats looked, call.answer)

/-- The committed ledger and the ones before it, the caches, and the calls under way. -/
structure State where
  db : Db
  past : List Db
  caches : Caches
  calls : List Call

inductive Action where
  | commit (change : Change)
  /-- A call on the ledger as it is, or as a reader still sees it. -/
  | start (age : Nat) (status : Status) (poolIds : List String)
  | store (call : Nat)
  | leave (call : Nat)

def step (deferred : Bool) (state : State) : Action → Option State
  | .commit change => some { state with
      db := change.take casing deferred state.db, past := state.db :: state.past }
  | .start age status poolIds => (state.db :: state.past)[age]?.map fun db =>
    let (caches, call) := beginCall casing state.caches db status poolIds
    { state with caches := caches, calls := state.calls ++ [call] }
  | .store number => state.calls[number]?.bind fun call =>
    match call.stores with
    | [] => none
    | store :: rest => some { state with
        caches := cachePoolStats state.caches store
        calls := state.calls.set number { call with stores := rest } }
  | .leave number =>
    if number < state.calls.length then
      some { state with calls := state.calls.eraseIdx number }
    else none

def system (deferred : Bool) : System State Action where
  start state := Settled state.db ∧ state.past = [] ∧ state.caches = .empty ∧ state.calls = []
  step := step casing deferred

theorem mem_openRows (db : Db) (pool : String) (entry : String × Position) :
    entry ∈ openRows db pool ↔
      seen db pool entry.1 = some (entry.2, isSuperseded db entry) := by
  rw [openRows, List.mem_filter, seen, Option.map_eq_some_iff]
  constructor
  · rintro ⟨member, here⟩
    refine ⟨entry.2, ?_, rfl⟩
    rw [Option.filter_eq_some_iff]
    exact ⟨(get_some _ _ _).mpr member, here⟩
  · rintro ⟨row, kept, same⟩
    obtain ⟨member, here⟩ := Option.filter_eq_some_iff.mp kept
    have row_is : row = entry.2 := (Prod.mk.inj same).1
    subst row_is
    exact ⟨(get_some _ _ _).mp member, here⟩

theorem openRows_nodup (db : Db) (pool : String) : (openRows db pool).Nodup :=
  (List.Nodup.of_map Prod.fst db.positions.distinct).filter _

section Same
variable {db other : Db} {pool : String}
  (same : ∀ key, seen other pool key = seen db pool key)
include same

theorem superseded_same (entry : String × Position) (member : entry ∈ openRows db pool) :
    isSuperseded other entry = isSuperseded db entry := by
  have there := (mem_openRows db pool entry).mp member
  rw [← same, seen] at there
  obtain ⟨row, -, made⟩ := Option.map_eq_some_iff.mp there
  obtain ⟨rfl, flagged⟩ := Prod.mk.inj made
  exact flagged

theorem openRows_same : (openRows other pool).Perm (openRows db pool) := by
  rw [List.perm_ext_iff_of_nodup (openRows_nodup other pool) (openRows_nodup db pool)]
  have half : ∀ {first second : Db}, (∀ key, seen second pool key = seen first pool key) →
      ∀ entry ∈ openRows first pool, entry ∈ openRows second pool := by
    intro first second agree entry member
    rw [mem_openRows, agree, superseded_same agree entry member]
    exact (mem_openRows first pool entry).mp member
  exact fun entry => ⟨half (fun key => (same key).symm) entry, half same entry⟩

theorem kept_same :
    (((openRows other pool).filter fun entry => !isSuperseded other entry).map entrySpan).Perm
      (((openRows db pool).filter fun entry => !isSuperseded db entry).map entrySpan) := by
  refine List.Perm.map _ (((openRows_same same).filter _).trans (List.Perm.of_eq ?_))
  exact List.filter_congr fun entry member => by rw [superseded_same same entry member]

end Same

theorem reduceRows_eq (db : Db) (pool : String) (setting : Setting) :
    reduceRows db pool setting = reducePoolInventory ((openRows db pool).map entrySpan)
      (lpCount (openRows db pool)) (historyComplete (openRows db pool)) setting true
      (supersededPoolInventory db pool) 0 := by
  unfold reduceRows supersededPoolInventory
  dsimp only
  split
  · rename_i vacant
    rw [vacant]
    rfl
  · rfl

theorem unspent_superseded (db : Db) (pool : String) :
    (unspent (supersededPoolInventory db pool) ((openRows db pool).map entrySpan)).Perm
      (((openRows db pool).filter fun entry => !isSuperseded db entry).map entrySpan) := by
  apply unspent_perm
  rw [← List.map_append]
  exact (List.filter_append_perm (isSuperseded db) (openRows db pool)).symm.map entrySpan

theorem reduceRows_alike {db other : Db} {pool : String}
    (same : ∀ key, seen other pool key = seen db pool key) (setting : Setting) :
    Alike (reduceRows other pool setting) (reduceRows db pool setting) := by
  have rows := openRows_same same
  have holders : lpCount (openRows other pool) = lpCount (openRows db pool) :=
    (rows.filterMap holder).dedup.length_eq
  have history : historyComplete (openRows other pool) = historyComplete (openRows db pool) :=
    rows.all_eq
  have left := ((unspent_superseded other pool).trans (kept_same same)).trans
    (unspent_superseded db pool).symm
  rw [reduceRows_eq, reduceRows_eq, holders, history]
  refine reduce_alike setting _ _ true left ?_
  rw [left.length_eq, List.length_map, List.length_map, rows.length_eq]

def RightResult (commits : List Db) (key : CacheKey) (stats : Stats) : Prop :=
  Asked casing key.poolId ∧ ∃ db ∈ commits, generation db key.poolId = key.generation ∧
    stats = (reduceRows db key.poolId key.setting).1

def RightInventory (commits : List Db) (pool : String) (generation : Nat)
    (inventory : Inventory) : Prop :=
  Asked casing pool ∧ ∃ db ∈ commits, PublishedLedger.generation db pool = generation ∧
    ∃ setting, Option.Rel Inventory.Alike (some inventory) (reduceRows db pool setting).2

structure RightCaches (commits : List Db) (caches : Caches) : Prop where
  results : ∀ entry ∈ caches.results.entries, RightResult casing commits entry.1 entry.2
  inventories : ∀ entry ∈ caches.inventories.entries,
    RightInventory casing commits entry.1 entry.2.1 entry.2.2

structure RightStore (commits : List Db) (store : Store) : Prop where
  result : RightResult casing commits store.key store.result
  inventory : ∀ inventory ∈ store.inventory,
    RightInventory casing commits store.key.poolId store.key.generation inventory

/-- Of any two committed ledgers the later one shows what the earlier one showed in each pool
whose generation is the same. -/
def History (commits : List Db) : Prop := commits.Pairwise fun later earlier =>
  Shown casing earlier later

variable {casing} {commits : List Db} {caches : Caches} {db : Db}

theorem History.same (history : History casing commits) {db other : Db} (here : db ∈ commits)
    (there : other ∈ commits) {pool : String} (asked : Asked casing pool)
    (level : generation other pool = generation db pool) (key : String) :
    seen other pool key = seen db pool key := by
  -- One of the two is the later.
  induction commits with
  | nil => cases here
  | cons latest rest ih =>
    obtain ⟨newest, older⟩ := List.pairwise_cons.mp history
    rcases List.mem_cons.mp here with rfl | below
    · rcases List.mem_cons.mp there with rfl | under
      · rfl
      · exact ((newest other under).still pool asked level.symm key).symm
    · rcases List.mem_cons.mp there with rfl | under
      · exact (newest db below).still pool asked level key
      · exact ih older below under

variable {others : List Db}

theorem RightResult.more (more : ∀ db ∈ commits, db ∈ others) {key : CacheKey} {stats : Stats}
    (right : RightResult casing commits key stats) :
    RightResult casing others key stats := by
  obtain ⟨asked, db, member, made⟩ := right
  exact ⟨asked, db, more db member, made⟩

theorem RightInventory.more (more : ∀ db ∈ commits, db ∈ others) {pool : String} {generation : Nat}
    {inventory : Inventory} (right : RightInventory casing commits pool generation inventory) :
    RightInventory casing others pool generation inventory := by
  obtain ⟨asked, db, member, made⟩ := right
  exact ⟨asked, db, more db member, made⟩

theorem RightCaches.more (more : ∀ db ∈ commits, db ∈ others)
    (right : RightCaches casing commits caches) : RightCaches casing others caches :=
  ⟨fun entry member => (right.results entry member).more more,
    fun entry member => (right.inventories entry member).more more⟩

theorem RightStore.more (more : ∀ db ∈ commits, db ∈ others) {store : Store}
    (right : RightStore casing commits store) : RightStore casing others store :=
  ⟨right.result.more more, fun inventory member => (right.inventory inventory member).more more⟩

theorem cacheInventory_right (right : RightCaches casing commits caches) (pool : String)
    (generation : Nat) (inventory : Inventory)
    (held : RightInventory casing commits pool generation inventory) :
    RightCaches casing commits (cacheInventory caches pool generation inventory) := by
  unfold cacheInventory
  dsimp only
  split
  · refine ⟨right.results, ?_⟩
    intro entry member
    rcases (mem_put _ _ _ _).mp member with ⟨old, -⟩ | rfl
    · have left := (evict_sublist _ _ _).mem old
      exact right.inventories entry ((mem_erase _ _ _).mp left).1
    · exact held
  · exact right

theorem cachePoolStats_right (right : RightCaches casing commits caches) (store : Store)
    (held : RightStore casing commits store) :
    RightCaches casing commits (cachePoolStats caches store) := by
  have after : RightCaches casing commits (store.inventory.elim caches
      (cacheInventory caches store.key.poolId store.key.generation)) := by
    cases kept : store.inventory with
    | none => exact right
    | some inventory =>
      exact cacheInventory_right right _ _ inventory (held.inventory inventory kept)
  refine ⟨?_, after.inventories⟩
  intro entry member
  rcases (mem_put _ _ _ _).mp (mem_trim _ _ _ member) with ⟨old, -⟩ | rfl
  · exact after.results entry old
  · exact held.result

def RightFound (db : Db) (key : CacheKey) (found : Found) : Prop :=
  (resultOf db key found).1 = (reduceRows db key.poolId key.setting).1

theorem lookup_right (history : History casing commits) (here : db ∈ commits)
    (right : RightCaches casing commits caches) (key : CacheKey) (asked : Asked casing key.poolId)
    (level : generation db key.poolId = key.generation) :
    RightCaches casing commits (lookup caches key).1 ∧ RightFound db key (lookup caches key).2 := by
  unfold lookup
  split
  · rename_i cached hit
    refine ⟨⟨fun entry member => right.results entry ((mem_touch _ _ _).mp member),
      right.inventories⟩, ?_⟩
    obtain ⟨-, other, there, same, made⟩ := right.results _ ((get_some _ _ _).mp hit)
    have agree := history.same here there asked (same.trans level.symm)
    exact made.trans (reduceRows_alike agree key.setting).stats
  · split
    · rename_i generation inventory hit
      split
      · rename_i current
        refine ⟨⟨right.results,
          fun entry member => right.inventories entry ((mem_touch _ _ _).mp member)⟩, ?_⟩
        obtain ⟨-, other, there, same, setting, kept⟩ :=
          right.inventories _ ((get_some _ _ _).mp hit)
        have agree := history.same here there asked ((same.trans current).trans level.symm)
        dsimp only at kept
        rw [reduceRows_eq] at kept
        have again := reduce_kept inventory _ setting _ _ _ kept key.setting
        rw [← reduceRows_eq] at again
        exact again.trans (reduceRows_alike agree key.setting).stats
      · exact ⟨right, rfl⟩
    · exact ⟨right, rfl⟩

theorem lookupAll_right (history : History casing commits) (here : db ∈ commits)
    (keys : List CacheKey) (caches : Caches) (right : RightCaches casing commits caches)
    (asked : ∀ key ∈ keys, Asked casing key.poolId ∧ generation db key.poolId = key.generation) :
    RightCaches casing commits (lookupAll caches keys).1 ∧
      (lookupAll caches keys).2.map Prod.fst = keys ∧
      ∀ entry ∈ (lookupAll caches keys).2, RightFound db entry.1 entry.2 := by
  induction keys generalizing caches with
  | nil => exact ⟨right, rfl, fun _ inside => absurd inside List.not_mem_nil⟩
  | cons key rest ih =>
    obtain ⟨fits, level⟩ := asked key List.mem_cons_self
    obtain ⟨looked, found⟩ := lookup_right history here right key fits level
    obtain ⟨after, names, others⟩ := ih _ looked fun other later => asked other (.tail _ later)
    refine ⟨after, congrArg (key :: ·) names, ?_⟩
    intro entry member
    rcases List.mem_cons.mp member with rfl | later
    · exact found
    · exact others entry later

theorem storeOf_right (here : db ∈ commits) (key : CacheKey) (found : Found)
    (right : RightFound db key found) (asked : Asked casing key.poolId)
    (level : generation db key.poolId = key.generation) :
    RightStore casing commits (storeOf db key found) := by
  refine ⟨⟨asked, db, here, level, right⟩, ?_⟩
  intro inventory member
  refine ⟨asked, db, here, level, key.setting, ?_⟩
  cases found with
  | result stats => cases member
  | inventory held => cases member
  | missing =>
    have kept : (reduceRows db key.poolId key.setting).2 = some inventory := member
    show Option.Rel Inventory.Alike (some inventory) (reduceRows db key.poolId key.setting).2
    rw [kept]
    exact .some (Inventory.Alike.refl inventory)

theorem storesOf_right (here : db ∈ commits) (found : List (CacheKey × Found))
    (right : ∀ entry ∈ found, RightFound db entry.1 entry.2 ∧ Asked casing entry.1.poolId ∧
      generation db entry.1.poolId = entry.1.generation) :
    ∀ store ∈ storesOf db found, RightStore casing commits store := by
  intro store member
  rcases List.mem_append.mp member with held | made
  · obtain ⟨entry, inside, rfl⟩ := List.mem_map.mp held
    obtain ⟨value, asked, level⟩ := right entry (List.mem_of_mem_filter inside)
    exact storeOf_right here entry.1 entry.2 value asked level
  · obtain ⟨key, inside, rfl⟩ := List.mem_map.mp made
    have missed : key ∈ (found.filter fun entry => entry.2.isMissing).map Prod.fst := by
      rcases List.mem_append.mp inside with evaluated | vacant
      · exact List.mem_of_mem_filter ((List.mem_insertionSort _).mp evaluated)
      · exact List.mem_of_mem_filter vacant
    obtain ⟨entry, there, rfl⟩ := List.mem_map.mp missed
    obtain ⟨-, asked, level⟩ := right entry (List.mem_of_mem_filter there)
    exact storeOf_right here entry.1 .missing rfl asked level

theorem requested_asked (casing : PoolCasing) (poolIds : List String) (pool : String)
    (member : pool ∈ requestedPools casing.toCasing poolIds) : Asked casing.toCasing pool := by
  rw [requestedPools, List.mem_eraseDups] at member
  obtain ⟨item, inside, rfl⟩ := List.mem_map.mp member
  have filled := of_decide_eq_true (List.mem_filter.mp inside).2
  exact ⟨casing.filled item filled, casing.again item⟩

/-- A call's answer is that of the snapshot, whatever right entries the caches hold. -/
def direct (casing : Casing) (db : Db) (status : Status) (poolIds : List String) :
    List (String × Stats) :=
  (requestedPools casing poolIds).map fun pool => (pool, match db.poolState with
    | none => noStats
    | some marks => (reduceRows db pool (cacheKey db marks status pool).setting).1)

theorem beginCall_right (casing : PoolCasing) (history : History casing.toCasing commits)
    (here : db ∈ commits) (right : RightCaches casing.toCasing commits caches) (status : Status)
    (poolIds : List String) :
    let begun := beginCall casing.toCasing caches db status poolIds
    RightCaches casing.toCasing commits begun.1 ∧
      begun.2.answer = direct casing.toCasing db status poolIds ∧
      ∀ store ∈ begun.2.stores, RightStore casing.toCasing commits store := by
  unfold beginCall direct
  dsimp only
  cases db.poolState with
  | none => exact ⟨right, rfl, fun _ inside => absurd inside List.not_mem_nil⟩
  | some marks =>
    have asked : ∀ key ∈ (requestedPools casing.toCasing poolIds).map (cacheKey db marks status),
        Asked casing.toCasing key.poolId ∧ generation db key.poolId = key.generation := by
      intro key member
      obtain ⟨pool, inside, rfl⟩ := List.mem_map.mp member
      exact ⟨requested_asked casing poolIds pool inside, rfl⟩
    obtain ⟨after, names, found⟩ := lookupAll_right history here _ caches right asked
    refine ⟨after, ?_, storesOf_right here _ ?_⟩
    · have made : ∀ entry ∈ (lookupAll caches ((requestedPools casing.toCasing poolIds).map
          (cacheKey db marks status))).2,
          (entry.1.poolId, (resultOf db entry.1 entry.2).1) =
            (entry.1.poolId, (reduceRows db entry.1.poolId entry.1.setting).1) :=
        fun entry member => by rw [found entry member]
      show (lookupAll caches ((requestedPools casing.toCasing poolIds).map
          (cacheKey db marks status))).2.map (fun entry =>
            (entry.1.poolId, (resultOf db entry.1 entry.2).1)) =
        (requestedPools casing.toCasing poolIds).map fun pool =>
          (pool, (reduceRows db pool (cacheKey db marks status pool).setting).1)
      rw [List.map_congr_left made]
      have split := congrArg (List.map fun key : CacheKey =>
        (key.poolId, (reduceRows db key.poolId key.setting).1)) names
      rw [List.map_map, List.map_map] at split
      exact split
    · intro entry member
      refine ⟨found entry member, asked entry.1 ?_⟩
      rw [← names]
      exact List.mem_map_of_mem member

theorem begun_asks (casing : Casing) (caches : Caches) (db : Db) (status : Status)
    (poolIds : List String) :
    let call := (beginCall casing caches db status poolIds).2
    call.db = db ∧ call.status = status ∧ call.poolIds = poolIds := by
  unfold beginCall
  dsimp only
  cases db.poolState <;> exact ⟨rfl, rfl, rfl⟩

structure Right (casing : Casing) (state : State) : Prop where
  settled : Settled state.db
  history : History casing (state.db :: state.past)
  caches : RightCaches casing (state.db :: state.past) state.caches
  calls : ∀ call ∈ state.calls, call.answer = direct casing call.db call.status call.poolIds ∧
    ∀ store ∈ call.stores, RightStore casing (state.db :: state.past) store

theorem empty_right (commits : List Db) : RightCaches casing commits .empty :=
  ⟨fun _ inside => absurd inside List.not_mem_nil, fun _ inside => absurd inside List.not_mem_nil⟩

theorem start_right (deferred : Bool) (state : State)
    (start : (system casing deferred).start state) : Right casing state := by
  obtain ⟨settled, past, caches, calls⟩ := start
  refine ⟨settled, ?_, caches ▸ empty_right _, fun call member => ?_⟩
  · rw [past]
    exact List.pairwise_singleton _ _
  · rw [calls] at member
    exact absurd member List.not_mem_nil

theorem commit_right (deferred : Bool) (state : State) (right : Right casing state)
    (change : Change) : Right casing { state with
      db := change.take casing deferred state.db, past := state.db :: state.past } := by
  have shown : Shown casing state.db (change.take casing deferred state.db) :=
    Change.shown deferred right.settled change
  have more : ∀ db ∈ state.db :: state.past,
      db ∈ change.take casing deferred state.db :: state.db :: state.past :=
    fun db member => List.mem_cons_of_mem _ member
  refine ⟨Change.settled deferred right.settled change, ?_, right.caches.more more, ?_⟩
  · refine List.pairwise_cons.mpr ⟨?_, right.history⟩
    intro older member
    rcases List.mem_cons.mp member with rfl | earlier
    · exact shown
    · exact ((List.pairwise_cons.mp right.history).1 older earlier).trans shown
  · intro call member
    obtain ⟨answer, stores⟩ := right.calls call member
    exact ⟨answer, fun store inside => (stores store inside).more more⟩

theorem step_right (casing : PoolCasing) (deferred : Bool) (state next : State) (action : Action)
    (right : Right casing.toCasing state)
    (taken : step casing.toCasing deferred state action = some next) :
    Right casing.toCasing next := by
  cases action with
  | commit change =>
    cases taken
    exact commit_right deferred state right change
  | start age status poolIds =>
    obtain ⟨db, found, made⟩ := Option.map_eq_some_iff.mp taken
    obtain ⟨after, answer, stores⟩ := beginCall_right casing right.history
      (List.mem_of_getElem? found) right.caches status poolIds
    cases made
    refine ⟨right.settled, right.history, after, ?_⟩
    intro call member
    rcases List.mem_append.mp member with old | fresh
    · exact right.calls call old
    · obtain ⟨snapshot, coverage, pools⟩ :=
        begun_asks casing.toCasing state.caches db status poolIds
      rw [List.mem_singleton.mp fresh, snapshot, coverage, pools]
      exact ⟨answer, stores⟩
  | store number =>
    obtain ⟨call, found, made⟩ := Option.bind_eq_some_iff.mp taken
    obtain ⟨answer, stores⟩ := right.calls call (List.mem_of_getElem? found)
    split at made
    · cases made
    · rename_i store rest left
      cases made
      rw [left] at stores
      refine ⟨right.settled, right.history,
        cachePoolStats_right right.caches store (stores store List.mem_cons_self), ?_⟩
      intro other member
      rcases List.mem_or_eq_of_mem_set member with old | rfl
      · exact right.calls other old
      · exact ⟨answer, fun later inside => stores later (.tail _ inside)⟩
  | leave number =>
    unfold step at taken
    dsimp only at taken
    split at taken
    · cases taken
      exact ⟨right.settled, right.history, right.caches,
        fun call member => right.calls call (List.mem_of_mem_eraseIdx member)⟩
    · cases taken

theorem poolStats_direct (casing : PoolCasing) (db : Db) (status : Status) (poolIds : List String) :
    (poolStats casing.toCasing .empty db status poolIds).2 =
      direct casing.toCasing db status poolIds :=
  (beginCall_right casing (List.pairwise_singleton _ db) (List.mem_singleton_self db)
    (empty_right [db]) status poolIds).2.1

/-- Over every run of ledger changes and interleaved calls, each call returns what it would
with empty caches on its own snapshot; and superseded rows may be taken out by their
liquidity and bounds. -/
theorem pool_stats_transparent (casing : PoolCasing) (deferred : Bool) :
    (∀ state, (system casing.toCasing deferred).Reaches always state → ∀ call ∈ state.calls,
      call.answer = (poolStats casing.toCasing .empty call.db call.status call.poolIds).2) ∧
    ∀ (db : Db) (pool : String) (setting : Setting) (lpCount : Nat)
      (historyComplete retainInventory : Bool), Alike
        (reducePoolInventory ((openRows db pool).map entrySpan) lpCount historyComplete setting
          retainInventory (supersededPoolInventory db pool) 0)
        (reducePoolInventory
          (((openRows db pool).filter fun entry => !isSuperseded db entry).map entrySpan) lpCount
          historyComplete setting retainInventory .empty
          ((openRows db pool).filter (isSuperseded db)).length) := by
  constructor
  · intro state reached call member
    have right := GuardedRuns.System.Reaches.invariant (Right casing.toCasing)
      (start_right deferred)
      (fun state action next right _ taken =>
        step_right casing deferred state next action right taken)
      state reached
    rw [poolStats_direct]
    exact (right.calls call member).1
  · intro db pool setting lpCount historyComplete retainInventory
    exact reduce_superseded entrySpan (isSuperseded db) (openRows db pool) setting lpCount
      historyComplete retainInventory

/-! A position that a queued event supersedes between two calls. The first call stores last. -/

def poolCasing : PoolCasing where
  toCasing := asciiCasing
  filled text given same := by
    have chars := congrArg String.toList same
    rw [show asciiCasing.lower text = String.ofList (text.toList.map Char.toLower) from rfl,
      String.toList_ofList] at chars
    exact given (String.toList_inj.mp (List.map_eq_nil_iff.mp chars))

def sampleRow : Position where
  poolId := some "0xaa"
  protocol := some "v3"
  owner := some "0x1"
  custody := none
  liquidity := some "1000000000000000000"
  liquidityKnown := true
  tickLower := some (-10)
  tickUpper := some 10
  activeEpisodeId := some "e1"
  historyComplete := true
  lastOrder := ⟨5, 0, 0⟩
  valuationBasis := "unvalued"

def sampleDb : Db where
  positions := OrderedTable.empty.put "k1" sampleRow
  pending := .empty
  hints := []
  generations := .empty
  effects := []
  eventKeys := .empty
  events := .empty
  claims := .empty
  poolState := some (OrderedTable.empty.put "0xaa"
    ⟨some 0, some "79228162514264337593543950336", some 1, some 2⟩)
  pools := OrderedTable.empty.put "0xaa" ⟨some 1, some 18, some 18⟩
  eventsRevision := 0
  epoch := 0

def sampleStatus : Status := ⟨.int 0, .str "complete"⟩

def sampleEvent : Event := ⟨some 2, "k1", some "0xaa", ⟨6, 0, 0⟩, false, []⟩

def nothing (_ : String) : Replayed := ⟨none, [], fun _ inside => by cases inside⟩

def sampleActions : List Action :=
  [.start 0 sampleStatus ["0xAA"], .commit (.apply [sampleEvent] nothing id),
    .start 0 sampleStatus ["0xAA", "", "0xaa"], .store 1, .store 0,
    .start 1 sampleStatus ["0xaa"], .start 0 sampleStatus ["0xaa"]]

def sampleStale (state : State) : List (List Nat) :=
  state.calls.map fun call => call.answer.map fun entry => entry.2.stalePositions

theorem pool_stats_transparent_sample : ∃ last,
    (system asciiCasing true).run ⟨sampleDb, [], .empty, []⟩ sampleActions = some last ∧
      sampleStale last = [[0], [1], [0], [1]] ∧ ∀ call ∈ last.calls,
        call.answer = (poolStats asciiCasing .empty call.db call.status call.poolIds).2 := by
  have stale : ((system asciiCasing true).run ⟨sampleDb, [], .empty, []⟩ sampleActions).map
      sampleStale = some [[0], [1], [0], [1]] := by decide +kernel
  obtain ⟨last, ran, shows⟩ := Option.map_eq_some_iff.mp stale
  have start : (system asciiCasing true).start ⟨sampleDb, [], .empty, []⟩ :=
    ⟨fun _ inside => absurd inside List.not_mem_nil, rfl, rfl, rfl⟩
  have reached := System.Reaches.run _ last sampleActions (.start _ start)
    (System.runMeets_always _ _) ran
  exact ⟨last, ran, shows, (pool_stats_transparent poolCasing true).1 last reached⟩

end RhPools.PoolStats
