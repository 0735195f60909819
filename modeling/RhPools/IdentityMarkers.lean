import Mathlib.Data.List.Lex
import RhPools.MarketStore

/-! The deferred-identity marker. Pool identities that a transaction's logs still need are
kept, with those logs, as a payload in the `last_error` column of the transaction's pending
row, over the error that stood there before. Lanes read the row, work on the network, and
swap the text they read for another one. -/

namespace RhPools.IdentityMarkers
open BigEndian TxChain EventWords OrderedTables MarketTables MarketStore GuardedRuns

structure RawLog where
  body : Log
  blockHash : Hash
  blockNumber : Int
  transactionHash : Hash
  logIndex : Nat
  removed : Bool
  deriving DecidableEq

abbrev LogKey := Hash × Hash × Nat

def RawLog.key (log : RawLog) : LogKey := (log.blockHash, log.transactionHash, log.logIndex)

def before (one other : LogKey) : Bool :=
  decide ((toLex (one.1.toNat, toLex (one.2.1.toNat, one.2.2)) : Nat ×ₗ (Nat ×ₗ Nat)) ≤
    toLex (other.1.toNat, toLex (other.2.1.toNat, other.2.2)))

inductive Identity where
  | contract (address : Address)
  | poolId (id : Hash)
  deriving DecidableEq

def Identity.bytes : Identity → List Nat
  | .contract emitter => (toBytes 20 emitter.toNat).map UInt8.toNat
  | .poolId id => (toBytes 32 id.toNat).map UInt8.toNat

def V4_DONATE_TOPIC : Bytes :=
  toBytes 32 0x29ef05caaff9404b7cb6d1c0e9bbae9eaa7ab2541feba1a9c4248594c08156cb
def V4_INITIALIZE_TOPIC : Bytes :=
  toBytes 32 0xdd466e674ea557f56295e2d0218a125ea4b4f0f6f3307b95f85e6110838d6438
def V4_PROTOCOL_FEE_UPDATED_TOPIC : Bytes :=
  toBytes 32 0xe9c42593e71f84403b84352cd168d693e2c9fcd1fdbcc3feb21d92b43e6696f9
def V4_SWAP_TOPIC : Bytes :=
  toBytes 32 0x40e9cecb9f5f1f1c5b9c97dec2917b7ee92e57ba5563708daca94dd84ad7112f

def CURRENT_V4_POOL_EVENT_TOPICS : List Bytes :=
  [V4_DONATE_TOPIC, V4_INITIALIZE_TOPIC, V4_MODIFY_LIQUIDITY_TOPIC,
    V4_PROTOCOL_FEE_UPDATED_TOPIC, V4_SWAP_TOPIC]

def v4PoolId (log : RawLog) : Option Hash :=
  if log.removed || log.body.address ≠ POOL_MANAGER then none
  else match log.body.topics with
    | topic :: id :: _ =>
      if topic ∈ CURRENT_V4_POOL_EVENT_TOPICS ∧ id.length = 32 then
        some (BitVec.ofNat 256 (ofBytes id))
      else none
    | _ => none

def poolIdentityCandidates (log : RawLog) : List Identity :=
  .contract log.body.address :: ((v4PoolId log).map Identity.poolId).toList

/-- `sorted(set(...))`. -/
def sortedSet (identities : List Identity) : List Identity :=
  identities.dedup.insertionSort fun one other => one.bytes ≤ other.bytes

@[simp] theorem mem_sortedSet (identities : List Identity) (identity : Identity) :
    identity ∈ sortedSet identities ↔ identity ∈ identities := by
  simp [sortedSet]

structure Payload where
  addresses : List Identity
  logs : List RawLog
  priorError : Option String
  priorNextAttempt : ℚ
  identityAttempts : Nat
  identityError : Option String
  deriving DecidableEq

/-- What `last_error` holds: the text of an error, or text that spells a payload. -/
inductive LastError where
  | text (error : String)
  | marker (payload : Payload)
  deriving DecidableEq

structure Row where
  blockNumber : Int
  blockHash : Hash
  attempts : Nat
  nextAttempt : ℚ
  lastError : Option LastError
  generation : Nat
  deriving DecidableEq

def LastError.plain : LastError → Option String
  | .text error => some error
  | .marker _ => none

def Payload.normal (payload : Payload) : Payload :=
  { payload with addresses := sortedSet payload.addresses }

def poolIdentityMarker : Option LastError → Option Payload
  | some (.marker payload) => some payload.normal
  | some (.text _) | none => none

/-- What the store holds for one transaction: its pending row, the kinds of its events, and
whether its receipt is there. -/
structure Db where
  row : Option Row
  kinds : List Kind
  receipt : Bool

def Db.marker (db : Db) : Option Payload := db.row.bind fun row => poolIdentityMarker row.lastError

/-- The query of `needs_enrichment`. -/
def Db.needsEnrichment (db : Db) : Bool := db.kinds.any (· ∈ ENRICHMENT_KINDS)

/-- `INSERT OR IGNORE`. -/
def Db.insertRow (db : Db) (blockNumber : Int) (blockHash : Hash) : Db :=
  { db with row := some (db.row.getD ⟨blockNumber, blockHash, 0, 0, none, 0⟩) }

/-- An update or a delete `WHERE last_error=?`. -/
def Db.swap (db : Db) (marker : Option LastError) (change : Row → Option Row) : Db :=
  match db.row with
  | some row => if row.lastError = marker then { db with row := change row } else db
  | none => db

def clip (error : String) : String := String.ofList (error.toList.take 1000)

structure Entry where
  blockNumber : Int
  blockHash : Hash
  addresses : List Identity
  logs : OrderedTable LogKey RawLog

structure Grouped where
  entries : OrderedTable Hash Entry
  assigned : OrderedTable Identity (List Hash)

def Grouped.transactions (grouped : Grouped) (identity : Identity) : List Hash :=
  (grouped.assigned.get identity).getD []

def assign (txHash : Hash) (assigned : OrderedTable Identity (List Hash)) (identity : Identity) :
    OrderedTable Identity (List Hash) :=
  assigned.assign identity (((assigned.get identity).getD []).insert txHash)

def groupLog (unknown : List Identity) (perPoolLimit : Nat) (grouped : Grouped) (log : RawLog) :
    Decode Grouped :=
  let txHash := log.transactionHash
  let identities := (poolIdentityCandidates log).filter fun identity =>
    identity ∈ unknown ∧ (txHash ∈ grouped.transactions identity ∨
      (grouped.transactions identity).length < perPoolLimit)
  if identities = [] then .ok grouped
  else
    let entry := (grouped.entries.get txHash).getD ⟨log.blockNumber, log.blockHash, [], .empty⟩
    if entry.blockNumber ≠ log.blockNumber ∨ entry.blockHash ≠ log.blockHash then
      .error "transaction logs span conflicting canonical blocks"
    else .ok
      { entries := grouped.entries.assign txHash
          { entry with addresses := entry.addresses ++ identities
                       logs := entry.logs.assign log.key log }
        assigned := identities.foldl (assign txHash) grouped.assigned }

def group (unknown : List Identity) (perPoolLimit : Nat) (logs : List RawLog) : Decode Grouped :=
  logs.foldlM (groupLog unknown perPoolLimit) ⟨.empty, .empty⟩

def entryOf (unknown : List Identity) (perPoolLimit : Nat) (logs : List RawLog) (txHash : Hash) :
    Option Entry :=
  match group unknown perPoolLimit logs with
  | .ok grouped => grouped.entries.get txHash
  | .error _ => none

def freshPayload (row : Row) : Payload :=
  { addresses := [], logs := [], priorError := row.lastError.bind LastError.plain
    priorNextAttempt := row.nextAttempt, identityAttempts := 0, identityError := none }

def logTable (logs : List RawLog) : OrderedTable LogKey RawLog :=
  logs.foldl (fun table log => table.assign log.key log) .empty

def rawLogs (logs : List RawLog) (entry : Entry) : OrderedTable LogKey RawLog :=
  entry.logs.entries.foldl (fun table pair => table.assign pair.1 pair.2) (logTable logs)

def sortedLogs (table : OrderedTable LogKey RawLog) : List RawLog :=
  (table.entries.insertionSort fun one other => before one.1 other.1).map Prod.snd

def extend (payload : Payload) (entry : Entry) : Payload :=
  { payload with
    addresses := sortedSet (payload.addresses ++ entry.addresses)
    logs := sortedLogs (rawLogs payload.logs entry) }

def queueRow (row : Row) (entry : Entry) : Row :=
  { row with
    nextAttempt := 0
    lastError := some (.marker
      (extend ((poolIdentityMarker row.lastError).getD (freshPayload row)) entry))
    generation := row.generation + 1 }

/-- `_queue_deferred_pool_identities`, for the row of one transaction; an error takes the
whole call back. -/
def queueDeferredPoolIdentities (db : Db) (unknown : List Identity) (perPoolLimit : Nat)
    (logs : List RawLog) (txHash : Hash) : Db :=
  match entryOf unknown perPoolLimit logs txHash with
  | none => db
  | some entry =>
    let inserted := db.insertRow entry.blockNumber entry.blockHash
    { inserted with row := inserted.row.map (queueRow · entry) }

def replayDelay (attempts : Nat) : ℚ := min 300 (2 ^ min attempts 8)

def markPoolIdentityReplayError (db : Db) (read : Row) (payload : Payload) (error : String)
    (now : ℚ) : Db :=
  let attempts := payload.identityAttempts + 1
  db.swap read.lastError fun row => some
    { row with
      nextAttempt := now + replayDelay attempts
      lastError := some (.marker { payload with identityAttempts := attempts
                                                identityError := some (clip error) })
      generation := row.generation + 1 }

def remaining (payload : Payload) (processed : List Identity) : List Identity :=
  (sortedSet payload.addresses).filter (· ∉ processed)

def shrink (payload : Payload) (processed : List Identity) (pendingError : Option String) :
    Payload :=
  { payload with
    addresses := remaining payload processed
    logs := payload.logs.filter fun log =>
      (poolIdentityCandidates log).any (· ∈ remaining payload processed)
    identityAttempts := match pendingError with
      | none => 0
      | some _ => payload.identityAttempts + 1
    identityError := pendingError.map clip }

def ENRICHMENT_TERMINAL_PREFIX : String := "enrichment_terminal:"

def terminal (error : Option String) : Bool :=
  ENRICHMENT_TERMINAL_PREFIX.toList.isPrefixOf (error.getD "").toList

def restored (priorError : Option String) (priorNextAttempt : ℚ) : Option String × ℚ :=
  if terminal priorError then (none, 0) else (priorError, priorNextAttempt)

def finishPoolIdentityReplay (db : Db) (read : Row) (payload : Payload)
    (processed : List Identity) (pendingError : Option String) (now : ℚ) : Db :=
  if remaining payload processed ≠ [] then
    db.swap read.lastError fun row => some
      { row with
        nextAttempt := match pendingError with
          | none => 0
          | some _ => now + replayDelay (payload.identityAttempts + 1)
        lastError := some (.marker (shrink payload processed pendingError))
        generation := row.generation + 1 }
  else if db.needsEnrichment then
    let prior := restored payload.priorError payload.priorNextAttempt
    db.swap read.lastError fun row => some
      { row with
        nextAttempt := prior.2
        lastError := prior.1.map LastError.text
        generation := row.generation + 1 }
  else db.swap read.lastError fun _ => none

def ingest (db : Db) (kinds : List Kind) (blockNumber : Int) (blockHash : Hash) : Db :=
  let stored := { db with kinds := db.kinds ++ kinds }
  if kinds.any (· ∈ ENRICHMENT_KINDS) then stored.insertRow blockNumber blockHash else stored

/-- What was prepared for publication: the decoded events of the processed identities, or the
error that keeps the row. -/
structure Prepared where
  processed : List Identity
  pendingError : Option String
  kinds : List Kind

/-- One row of the publication loop. `canonical` says whether the stored block is still the
one of the header, `stored` whether the ingest went through. -/
def publish (db : Db) (read : Row) (payload : Payload) (canonical : Bool)
    (outcome : Except String Prepared) (stored : Except String Unit) (now : ℚ) : Db :=
  match db.row with
  | none => db
  | some row =>
    if row.generation ≠ read.generation ∨ row.lastError ≠ read.lastError ∨
        row.blockHash ≠ read.blockHash then db
    else if !canonical then
      markPoolIdentityReplayError db read payload
        "deferred pool log changed before publication" now
    else match outcome, stored with
      | .error error, _ => markPoolIdentityReplayError db read payload error now
      | .ok _, .error error => markPoolIdentityReplayError db read payload error now
      | .ok prepared, .ok () =>
        finishPoolIdentityReplay
          (ingest db prepared.kinds read.blockNumber read.blockHash) read payload
          prepared.processed prepared.pendingError now

/-- `_current_enrichment_jobs`, for one job. -/
def current (db : Db) (job : Row) : Bool :=
  db.row.any fun row => row.blockHash = job.blockHash && row.generation = job.generation &&
    (poolIdentityMarker row.lastError).isNone

def ENRICHMENT_TERMINAL_NEXT_ATTEMPT : ℚ := 10 ^ 18

/-- `_mark_enrichment_failure`; a job without a delay is dead-lettered. -/
def markEnrichmentFailure (db : Db) (job : Row) (error : String) (delay : Option ℚ) (now : ℚ) :
    Db :=
  if current db job then
    { db with row := db.row.map fun row =>
        { row with
          attempts := row.attempts + 1
          nextAttempt := match delay with
            | none => ENRICHMENT_TERMINAL_NEXT_ATTEMPT
            | some delay => now + max 0 delay
          lastError := some (.text (clip (match delay with
            | none => ENRICHMENT_TERMINAL_PREFIX ++ error
            | some _ => error)))
          generation := row.generation + 1 } }
  else db

/-- A receipt that is published: its events and its row of `transactions` are stored. -/
def completeEnrichment (db : Db) (job : Row) (kinds : List Kind) : Db :=
  if current db job then { row := none, kinds := db.kinds ++ kinds, receipt := true } else db

inductive Action where
  | ingest (kinds : List Kind) (blockNumber : Int) (blockHash : Hash)
  | queue (unknown : List Identity) (perPoolLimit : Nat) (logs : List RawLog)
  | select
  | markError (read : Row) (error : String) (now : ℚ)
  | finish (read : Row) (processed : List Identity) (pendingError : Option String) (now : ℚ)
  | publish (read : Row) (canonical : Bool) (outcome : Except String Prepared)
      (stored : Except String Unit) (now : ℚ)
  | fail (job : Row) (error : String) (delay : Option ℚ) (now : ℚ)
  | complete (job : Row) (kinds : List Kind)

def Action.row : Action → Option Row
  | .ingest _ _ _ | .queue _ _ _ | .select => none
  | .markError read _ _ | .finish read _ _ _ | .publish read _ _ _ _ => some read
  | .fail job _ _ _ | .complete job _ => some job

/-- The store, the rows that lanes have read of it, and the error and the time that stood in
the row before its first marker. -/
structure World where
  db : Db
  reads : List Row
  saved : Option (Option String × ℚ)

def replay (read : Row) (act : Payload → Db) : Option Db :=
  (poolIdentityMarker read.lastError).map act

def perform (txHash : Hash) (db : Db) : Action → Option Db
  | .ingest kinds blockNumber blockHash => some (ingest db kinds blockNumber blockHash)
  | .queue unknown perPoolLimit logs =>
    some (queueDeferredPoolIdentities db unknown perPoolLimit logs txHash)
  | .select => some db
  | .markError read error now =>
    replay read fun payload => markPoolIdentityReplayError db read payload error now
  | .finish read processed pendingError now =>
    replay read fun payload => finishPoolIdentityReplay db read payload processed pendingError now
  | .publish read canonical outcome stored now =>
    replay read fun payload => publish db read payload canonical outcome stored now
  | .fail job error delay now => some (markEnrichmentFailure db job error delay now)
  | .complete job kinds => some (completeEnrichment db job kinds)

def Db.prior (db : Db) : Option String × ℚ :=
  match db.row with
  | none => (none, 0)
  | some row => (row.lastError.bind LastError.plain, row.nextAttempt)

/-- What is known of the values before the first marker, after a change of the row. -/
def World.save (world : World) (next : Db) : Option (Option String × ℚ) :=
  match world.db.marker, next.marker with
  | none, some _ => some world.db.prior
  | some _, some _ => world.saved
  | _, none => none

def lanes (txHash : Hash) : System World Action where
  start world := world.db.marker = none ∧ world.reads = [] ∧ world.saved = none
  step world action :=
    if action.row.all (· ∈ world.reads) then
      (perform txHash world.db action).map fun db =>
        { db := db
          reads := match action with
            | .select => world.reads ++ world.db.row.toList
            | _ => world.reads
          saved := world.save db }
    else none

def HasIdentity (world : World) (identity : Identity) : Prop :=
  ∃ payload, world.db.marker = some payload ∧ identity ∈ payload.addresses

def HasLog (world : World) (log : RawLog) : Prop :=
  ∃ payload, world.db.marker = some payload ∧ log ∈ payload.logs

def Action.finishes : Action → Option (Payload × List Identity)
  | .finish read processed _ _ =>
    (poolIdentityMarker read.lastError).map fun payload => (payload, processed)
  | .publish read _ (.ok prepared) _ _ =>
    (poolIdentityMarker read.lastError).map fun payload => (payload, prepared.processed)
  | _ => none

def TakesIdentity (identity : Identity) (world : World) (action : Action) : Prop :=
  ∃ payload processed, action.finishes = some (payload, processed) ∧
    world.db.marker = some payload ∧ identity ∈ payload.addresses ∧ identity ∈ processed

/-- A finish of the marker in the row, which has the log, processed the identities it was
there for. -/
def TakesLog (log : RawLog) (world : World) (action : Action) : Prop :=
  ∃ payload processed, action.finishes = some (payload, processed) ∧
    world.db.marker = some payload ∧ log ∈ payload.logs ∧
      ∀ identity ∈ poolIdentityCandidates log, identity ∈ payload.addresses → identity ∈ processed

def Keyed (table : OrderedTable LogKey RawLog) : Prop :=
  ∀ pair ∈ table.entries, pair.2.key = pair.1

theorem Keyed.assign {table : OrderedTable LogKey RawLog} (keyed : Keyed table) (log : RawLog) :
    Keyed (table.assign log.key log) := by
  intro pair member
  rcases mem_assign table log.key log pair member with old | rfl
  · exact keyed pair old
  · rfl

variable (payload : Payload) (processed : List Identity) (txHash : Hash) (identity : Identity)
  (db : Db) (unknown : List Identity) (limit : Nat)

theorem groupLog_keyed (log : RawLog) (grouped next : Grouped)
    (keyed : ∀ pair ∈ grouped.entries.entries, Keyed pair.2.logs)
    (taken : groupLog unknown limit grouped log = .ok next) :
    ∀ pair ∈ next.entries.entries, Keyed pair.2.logs := by
  unfold groupLog at taken
  dsimp only at taken
  split at taken
  · cases taken
    exact keyed
  · split at taken
    · cases taken
    · cases taken
      intro pair member
      rcases mem_assign _ _ _ pair member with old | rfl
      · exact keyed pair old
      · apply Keyed.assign
        cases found : grouped.entries.get log.transactionHash with
        | none => exact fun pair member => absurd member List.not_mem_nil
        | some entry => exact keyed _ ((get_some _ _ _).mp found)

variable (logs : List RawLog)

theorem group_keyed (grouped next : Grouped)
    (keyed : ∀ pair ∈ grouped.entries.entries, Keyed pair.2.logs)
    (taken : logs.foldlM (groupLog unknown limit) grouped = .ok next) :
    ∀ pair ∈ next.entries.entries, Keyed pair.2.logs := by
  induction logs generalizing grouped with
  | nil =>
    cases taken
    exact keyed
  | cons log rest ih =>
    obtain ⟨middle, first, others⟩ := (bind_ok _ _ _).mp taken
    exact ih middle (groupLog_keyed unknown limit log grouped middle keyed first) others

theorem entryOf_keyed (txHash : Hash) (entry : Entry)
    (queued : entryOf unknown limit logs txHash = some entry) :
    Keyed entry.logs := by
  unfold entryOf at queued
  split at queued
  · rename_i grouped grouping
    exact group_keyed unknown limit logs _ grouped (fun _ member => absurd member List.not_mem_nil)
      grouping _ ((get_some _ _ _).mp queued)
  · cases queued

theorem mem_sortedLogs (table : OrderedTable LogKey RawLog) (log : RawLog) :
    log ∈ sortedLogs table ↔ ∃ key, table.get key = some log := by
  simp only [sortedLogs, List.mem_map, List.mem_insertionSort, get_some]
  constructor
  · rintro ⟨pair, member, rfl⟩
    exact ⟨pair.1, member⟩
  · rintro ⟨key, member⟩
    exact ⟨_, member, rfl⟩

theorem sortedLogs_distinct (table : OrderedTable LogKey RawLog) (keyed : Keyed table) :
    ((sortedLogs table).map RawLog.key).Nodup := by
  have sorted := List.perm_insertionSort (fun one other => before one.1 other.1) table.entries
  have keys : (sortedLogs table).map RawLog.key =
      (table.entries.insertionSort fun one other => before one.1 other.1).map Prod.fst := by
    rw [sortedLogs, List.map_map]
    apply List.map_congr_left
    intro pair member
    exact keyed pair (sorted.mem_iff.mp member)
  rw [keys]
  exact (sorted.map Prod.fst).nodup_iff.mpr table.distinct

theorem get_logTable (distinct : (logs.map RawLog.key).Nodup) (log : RawLog) (member : log ∈ logs) :
    (logTable logs).get log.key = some log := by
  let changes : OrderedTable LogKey RawLog :=
    ⟨logs.map fun log => (log.key, log), by rw [List.map_map]; exact distinct⟩
  have folded := get_foldl
    (fun (table : OrderedTable LogKey RawLog) pair => table.assign pair.1 pair.2)
    (fun _ _ log => some log) (fun table pair other => get_assign table pair.1 other pair.2)
    changes .empty log.key
  have found : changes.get log.key = some log :=
    (get_some _ _ _).mpr (List.mem_map_of_mem (f := fun log => (log.key, log)) member)
  rw [found] at folded
  simpa only [changes, logTable, List.foldl_map, Option.elim_some] using folded

theorem get_rawLogs (entry : Entry) (key : LogKey) :
    (rawLogs logs entry).get key = (entry.logs.get key).or ((logTable logs).get key) := by
  have folded := get_foldl (fun table pair => table.assign pair.1 pair.2)
    (fun _ _ log => some log) (fun table pair other => get_assign table pair.1 other pair.2) entry.logs
    (logTable logs) key
  rw [rawLogs, folded]
  cases entry.logs.get key <;> rfl

theorem rawLogs_keyed (entry : Entry) (keyed : Keyed entry.logs) :
    Keyed (rawLogs logs entry) := by
  have first : Keyed (logTable logs) := by
    apply List.foldlRecOn (motive := Keyed)
    · exact fun _ member => absurd member List.not_mem_nil
    · exact fun table keyed log _ => keyed.assign log
  apply List.foldlRecOn (motive := Keyed)
  · exact first
  · intro table held pair member
    rw [← keyed pair member]
    exact held.assign pair.2

@[simp] theorem marker_insertRow (blockNumber : Int) (blockHash : Hash) :
    (db.insertRow blockNumber blockHash).marker = db.marker := by
  rcases db with ⟨_ | row, kinds, receipt⟩ <;> rfl

@[simp] theorem prior_insertRow (blockNumber : Int) (blockHash : Hash) :
    (db.insertRow blockNumber blockHash).prior = db.prior := by
  rcases db with ⟨_ | row, kinds, receipt⟩ <;> rfl

theorem ingest_row (kinds : List Kind) (blockNumber : Int) (blockHash : Hash) (row : Row)
    (there : db.row = some row) : (ingest db kinds blockNumber blockHash).row = some row := by
  unfold ingest
  split
  · simp only [Db.insertRow, there, Option.getD_some]
  · exact there

@[simp] theorem ingest_marker (kinds : List Kind) (blockNumber : Int) (blockHash : Hash) :
    (ingest db kinds blockNumber blockHash).marker = db.marker := by
  unfold ingest
  split
  · exact marker_insertRow _ _ _
  · rfl

/-- A queue call merges its entry into the payload that stands, or into a fresh one over the
values of the row. -/
theorem queue_marker (txHash : Hash) (entry : Entry)
    (queued : entryOf unknown limit logs txHash = some entry) :
    ∃ payload, (queueDeferredPoolIdentities db unknown limit logs txHash).marker =
        some (extend payload entry).normal ∧
      (db.marker = some payload ∨ db.marker = none ∧ payload.logs = [] ∧
        (payload.priorError, payload.priorNextAttempt) = db.prior) := by
  unfold queueDeferredPoolIdentities
  rw [queued]
  obtain ⟨row, there⟩ : ∃ row, (db.insertRow entry.blockNumber entry.blockHash).row = some row :=
    ⟨_, rfl⟩
  have stands : db.marker = poolIdentityMarker row.lastError := by
    rw [← marker_insertRow db entry.blockNumber entry.blockHash, Db.marker, there, Option.bind_some]
  have values : db.prior = (row.lastError.bind LastError.plain, row.nextAttempt) := by
    rw [← prior_insertRow db entry.blockNumber entry.blockHash, Db.prior, there]
  refine ⟨(poolIdentityMarker row.lastError).getD (freshPayload row), ?_, ?_⟩
  · simp only [Db.marker, there, Option.map_some, Option.bind_some, queueRow, poolIdentityMarker]
  · rw [stands, values]
    cases poolIdentityMarker row.lastError with
    | none => exact .inr ⟨rfl, rfl, rfl⟩
    | some payload => exact .inl rfl

theorem swap_cases (marker : Option LastError) (change : Row → Option Row) :
    db.swap marker change = db ∨ ∃ row, db.row = some row ∧ row.lastError = marker ∧
      db.swap marker change = { db with row := change row } := by
  unfold Db.swap
  split
  · rename_i row there
    split
    · rename_i same
      exact .inr ⟨row, there, same, rfl⟩
    · exact .inl rfl
  · exact .inl rfl

inductive Turn (txHash : Hash) (db : Db) (action : Action) (next : Db) : Prop
  | stays (same : next.marker = db.marker) (row : db.row ≠ none → next.row ≠ none)
  | queued (unknown : List Identity) (limit : Nat) (logs : List RawLog) (entry : Entry)
      (payload : Payload) (called : action = .queue unknown limit logs)
      (found : entryOf unknown limit logs txHash = some entry)
      (before : db.marker = some payload ∨ db.marker = none ∧ payload.logs = [] ∧
        (payload.priorError, payload.priorNextAttempt) = db.prior)
      (after : next.marker = some (extend payload entry).normal)
  | marked (payload : Payload) (attempts : Nat) (error : Option String)
      (before : db.marker = some payload)
      (after : next.marker = some
        ({ payload with identityAttempts := attempts, identityError := error } : Payload).normal)
  | shrunk (payload : Payload) (processed : List Identity) (pendingError : Option String)
      (finishes : action.finishes = some (payload, processed)) (before : db.marker = some payload)
      (left : remaining payload processed ≠ [])
      (after : next.marker = some (shrink payload processed pendingError).normal)
  | restored (payload : Payload) (processed : List Identity) (row : Row)
      (finishes : action.finishes = some (payload, processed)) (before : db.marker = some payload)
      (done : remaining payload processed = []) (needs : next.needsEnrichment = true)
      (after : next.row = some row)
      (values : (row.lastError, row.nextAttempt) =
        ((restored payload.priorError payload.priorNextAttempt).1.map LastError.text,
          (restored payload.priorError payload.priorNextAttempt).2))
  | deleted (payload : Payload) (processed : List Identity)
      (finishes : action.finishes = some (payload, processed)) (before : db.marker = some payload)
      (done : remaining payload processed = []) (idle : next.needsEnrichment = false)
      (after : next.row = none)
  | completed (clear : db.marker = none) (receipt : next.receipt = true) (after : next.row = none)

theorem marker_read (row read : Row) (payload : Payload) (there : db.row = some row)
    (same : row.lastError = read.lastError)
    (parsed : poolIdentityMarker read.lastError = some payload) : db.marker = some payload := by
  rw [Db.marker, there, Option.bind_some, same, parsed]

theorem mark_turn (action : Action) (read : Row) (payload : Payload) (error : String) (now : ℚ)
    (parsed : poolIdentityMarker read.lastError = some payload) :
    Turn txHash db action (markPoolIdentityReplayError db read payload error now) := by
  unfold markPoolIdentityReplayError
  rcases swap_cases db read.lastError _ with same | ⟨row, there, unchanged, after⟩
  · rw [same]
    exact .stays rfl id
  · rw [after]
    exact .marked payload _ _ (marker_read db row read payload there unchanged parsed) rfl

theorem finish_turn (start db : Db) (action : Action) (read : Row) (payload : Payload)
    (processed : List Identity) (pendingError : Option String) (now : ℚ)
    (parsed : poolIdentityMarker read.lastError = some payload)
    (finishes : action.finishes = some (payload, processed)) (kept : db.marker = start.marker)
    (stands : start.row ≠ none → db.row ≠ none) :
    Turn txHash start action
      (finishPoolIdentityReplay db read payload processed pendingError now) := by
  have marked : ∀ row, db.row = some row → row.lastError = read.lastError →
      start.marker = some payload := fun row there same =>
    kept ▸ marker_read db row read payload there same parsed
  unfold finishPoolIdentityReplay
  split
  · rename_i left
    rcases swap_cases db read.lastError _ with same | ⟨row, there, unchanged, after⟩
    · rw [same]
      exact .stays kept stands
    · rw [after]
      exact .shrunk payload processed pendingError finishes (marked row there unchanged) left rfl
  · rename_i done
    split
    · rename_i needs
      rcases swap_cases db read.lastError _ with same | ⟨row, there, unchanged, after⟩
      · rw [same]
        exact .stays kept stands
      · rw [after]
        exact .restored payload processed _ finishes (marked row there unchanged)
          (not_not.mp done) needs rfl rfl
    · rename_i idle
      rcases swap_cases db read.lastError _ with same | ⟨row, there, unchanged, after⟩
      · rw [same]
        exact .stays kept stands
      · rw [after]
        exact .deleted payload processed finishes (marked row there unchanged) (not_not.mp done)
          (Bool.not_eq_true _ ▸ idle) rfl

theorem publish_turn (read : Row) (payload : Payload) (canonical : Bool)
    (outcome : Except String Prepared) (stored : Except String Unit) (now : ℚ)
    (parsed : poolIdentityMarker read.lastError = some payload) :
    Turn txHash db (.publish read canonical outcome stored now)
      (publish db read payload canonical outcome stored now) := by
  unfold publish
  split
  · exact .stays rfl id
  · rename_i row there
    split
    · exact .stays rfl id
    · split
      · exact mark_turn txHash db _ read payload _ now parsed
      · split
        · exact mark_turn txHash db _ read payload _ now parsed
        · exact mark_turn txHash db _ read payload _ now parsed
        · rename_i prepared
          apply finish_turn txHash db _ _ read payload prepared.processed _ now parsed
          · simp only [Action.finishes, parsed, Option.map_some]
          · exact ingest_marker db _ _ _
          · intro _
            rw [ingest_row db _ _ _ row there]
            exact Option.some_ne_none row

theorem current_marker (job : Row) (stands : current db job = true) :
    db.marker = none := by
  unfold current at stands
  cases there : db.row with
  | none => rw [Db.marker, there, Option.bind_none]
  | some row =>
    rw [there, Option.any_some] at stands
    simp only [Bool.and_eq_true, Option.isNone_iff_eq_none] at stands
    rw [Db.marker, there, Option.bind_some, stands.2]

theorem perform_turn (db next : Db) (action : Action) (taken : perform txHash db action = some next) :
    Turn txHash db action next := by
  cases action with
  | ingest kinds blockNumber blockHash =>
    cases taken
    refine .stays (ingest_marker db _ _ _) fun there => ?_
    obtain ⟨row, there⟩ := Option.ne_none_iff_exists'.mp there
    rw [ingest_row db _ _ _ row there]
    exact Option.some_ne_none row
  | queue unknown limit logs =>
    cases taken
    cases queued : entryOf unknown limit logs txHash with
    | none =>
      unfold queueDeferredPoolIdentities
      rw [queued]
      exact .stays rfl id
    | some entry =>
      obtain ⟨payload, after, before⟩ := queue_marker db unknown limit logs txHash entry queued
      exact .queued unknown limit logs entry payload rfl queued before after
  | select =>
    cases taken
    exact .stays rfl id
  | markError read error now =>
    obtain ⟨payload, parsed, rfl⟩ := Option.map_eq_some_iff.mp taken
    exact mark_turn txHash db _ read payload error now parsed
  | finish read processed pendingError now =>
    obtain ⟨payload, parsed, rfl⟩ := Option.map_eq_some_iff.mp taken
    apply finish_turn txHash db db _ read payload processed pendingError now parsed _ rfl id
    simp only [Action.finishes, parsed, Option.map_some]
  | publish read canonical outcome stored now =>
    obtain ⟨payload, parsed, rfl⟩ := Option.map_eq_some_iff.mp taken
    exact publish_turn txHash db read payload canonical outcome stored now parsed
  | fail job error delay now =>
    cases taken
    unfold markEnrichmentFailure
    split
    · rename_i stands
      have clear := current_marker db job stands
      refine .stays ?_ ?_
      · rw [clear]
        cases there : db.row <;> simp only [Db.marker] <;> rfl
      · intro there
        simpa using there
    · exact .stays rfl id
  | complete job kinds =>
    cases taken
    unfold completeEnrichment
    split
    · rename_i stands
      exact .completed (current_marker db job stands) rfl rfl
    · exact .stays rfl id

theorem step_turn (world next : World) (action : Action)
    (taken : (lanes txHash).step world action = some next) :
    Turn txHash world.db action next.db ∧ next.saved = world.save next.db := by
  simp only [lanes] at taken
  split at taken
  · obtain ⟨db, performed, rfl⟩ := Option.map_eq_some_iff.mp taken
    exact ⟨perform_turn txHash world.db db action performed, rfl⟩
  · cases taken

theorem mem_remaining :
    identity ∈ remaining payload processed ↔
      identity ∈ payload.addresses ∧ identity ∉ processed := by
  simp [remaining]

theorem done_processed (done : remaining payload processed = [])
    (there : identity ∈ payload.addresses) :
    identity ∈ processed := by
  by_contra missing
  have left := (mem_remaining payload processed identity).mpr ⟨there, missing⟩
  rw [done] at left
  exact absurd left List.not_mem_nil

theorem gone_marker (gone : db.row = none) : db.marker = none := by
  rw [Db.marker, gone, Option.bind_none]

theorem restored_marker (row : Row) (error : Option String) (after : db.row = some row)
    (plain : row.lastError = error.map LastError.text) :
    db.marker = none := by
  rw [Db.marker, after, Option.bind_some, plain]
  cases error <;> rfl

theorem step_identity (world : World) (action : Action) (next : World)
    (taken : (lanes txHash).step world action = some next) (held : HasIdentity world identity) :
    HasIdentity next identity ∨ TakesIdentity identity world action := by
  obtain ⟨payload, stands, there⟩ := held
  cases (step_turn txHash world next action taken).1 with
  | stays same row => exact .inl ⟨payload, same.trans stands, there⟩
  | queued unknown limit logs entry merged called found before after =>
    rcases before with before | ⟨before, -⟩
    · cases stands.symm.trans before
      refine .inl ⟨_, after, ?_⟩
      simp [Payload.normal, extend, there]
    · cases stands.symm.trans before
  | marked payload attempts error before after =>
    cases stands.symm.trans before
    exact .inl ⟨_, after, (mem_sortedSet _ _).mpr there⟩
  | shrunk payload processed pendingError finishes before left after =>
    cases stands.symm.trans before
    by_cases taken : identity ∈ processed
    · exact .inr ⟨payload, processed, finishes, before, there, taken⟩
    · refine .inl ⟨_, after, (mem_sortedSet _ _).mpr ?_⟩
      exact (mem_remaining payload processed identity).mpr ⟨there, taken⟩
  | restored payload processed row finishes before done needs after values =>
    cases stands.symm.trans before
    exact .inr ⟨payload, processed, finishes, before, there,
      done_processed payload processed identity done there⟩
  | deleted payload processed finishes before done idle after =>
    cases stands.symm.trans before
    exact .inr ⟨payload, processed, finishes, before, there,
      done_processed payload processed identity done there⟩
  | completed clear receipt after => cases stands.symm.trans clear

def DistinctLogs (world : World) : Prop :=
  ∀ payload, world.db.marker = some payload → (payload.logs.map RawLog.key).Nodup

theorem extend_distinct (entry : Entry) (keyed : Keyed entry.logs) :
    ((extend payload entry).normal.logs.map RawLog.key).Nodup :=
  sortedLogs_distinct _ (rawLogs_keyed payload.logs entry keyed)

theorem step_distinct (world : World) (action : Action) (next : World)
    (taken : (lanes txHash).step world action = some next) (distinct : DistinctLogs world) :
    DistinctLogs next := by
  intro payload stands
  cases (step_turn txHash world next action taken).1 with
  | stays same row => exact distinct payload (same.symm.trans stands)
  | queued unknown limit logs entry merged called found before after =>
    cases stands.symm.trans after
    exact extend_distinct merged entry (entryOf_keyed unknown limit logs txHash entry found)
  | marked payload attempts error before after =>
    cases stands.symm.trans after
    exact distinct payload before
  | shrunk payload processed pendingError finishes before left after =>
    cases stands.symm.trans after
    exact (distinct payload before).sublist (List.filter_sublist.map RawLog.key)
  | restored payload processed row finishes before done needs after values =>
    cases stands.symm.trans (restored_marker _ row _ after (Prod.ext_iff.mp values).1)
  | deleted payload processed finishes before done idle after =>
    cases stands.symm.trans (gone_marker _ after)
  | completed clear receipt after => cases stands.symm.trans (gone_marker _ after)

def Replaces (txHash : Hash) (log : RawLog) (_ : World) (action : Action) : Prop :=
  ∃ unknown limit logs entry other, action = .queue unknown limit logs ∧
    entryOf unknown limit logs txHash = some entry ∧ entry.logs.get log.key = some other ∧
      other ≠ log

theorem taken_log (log : RawLog)
    (none : ∀ identity ∈ poolIdentityCandidates log, identity ∉ remaining payload processed) :
    ∀ identity ∈ poolIdentityCandidates log, identity ∈ payload.addresses →
      identity ∈ processed := by
  intro identity candidate there
  by_contra missing
  exact none identity candidate ((mem_remaining payload processed identity).mpr ⟨there, missing⟩)

theorem step_log (log : RawLog) (world : World) (action : Action) (next : World)
    (taken : (lanes txHash).step world action = some next) (distinct : DistinctLogs world)
    (held : HasLog world log) :
    HasLog next log ∨ TakesLog log world action ∨
      Replaces txHash log world action ∧ ∃ other, other.key = log.key ∧ HasLog next other := by
  obtain ⟨payload, stands, there⟩ := held
  cases (step_turn txHash world next action taken).1 with
  | stays same row => exact .inl ⟨payload, same.trans stands, there⟩
  | queued unknown limit logs entry merged called found before after =>
    rcases before with before | ⟨before, -⟩
    · cases stands.symm.trans before
      have keyed := entryOf_keyed unknown limit logs txHash entry found
      have value := get_rawLogs payload.logs entry log.key
      rw [get_logTable payload.logs (distinct payload stands) log there] at value
      cases given : entry.logs.get log.key with
      | none =>
        rw [given, Option.none_or] at value
        exact .inl ⟨_, after, (mem_sortedLogs _ _).mpr ⟨log.key, value⟩⟩
      | some other =>
        rw [given, Option.some_or] at value
        have present : HasLog next other :=
          ⟨_, after, (mem_sortedLogs _ _).mpr ⟨log.key, value⟩⟩
        by_cases same : other = log
        · exact .inl (same ▸ present)
        · refine .inr (.inr ⟨⟨unknown, limit, logs, entry, other, called, found, given, same⟩,
            other, ?_, present⟩)
          exact keyed _ ((get_some _ _ _).mp given)
    · cases stands.symm.trans before
  | marked payload attempts error before after =>
    cases stands.symm.trans before
    exact .inl ⟨_, after, there⟩
  | shrunk payload processed pendingError finishes before left after =>
    cases stands.symm.trans before
    by_cases kept : (poolIdentityCandidates log).any (· ∈ remaining payload processed) = true
    · exact .inl ⟨_, after, List.mem_filter.mpr ⟨there, kept⟩⟩
    · refine .inr (.inl ⟨payload, processed, finishes, before, there, ?_⟩)
      apply taken_log payload processed log
      simpa using kept
  | restored payload processed row finishes before done needs after values =>
    cases stands.symm.trans before
    exact .inr (.inl ⟨payload, processed, finishes, before, there,
      fun identity _ => done_processed payload processed identity done⟩)
  | deleted payload processed finishes before done idle after =>
    cases stands.symm.trans before
    exact .inr (.inl ⟨payload, processed, finishes, before, there,
      fun identity _ => done_processed payload processed identity done⟩)
  | completed clear receipt after => cases stands.symm.trans clear

def KeepsPrior (world : World) : Prop :=
  ∀ payload, world.db.marker = some payload →
    world.saved = some (payload.priorError, payload.priorNextAttempt)

theorem step_prior (world : World) (action : Action) (next : World)
    (taken : (lanes txHash).step world action = some next) (kept : KeepsPrior world) :
    KeepsPrior next := by
  obtain ⟨turn, saved⟩ := step_turn txHash world next action taken
  have still : ∀ payload after, world.db.marker = some payload → next.db.marker = some after →
      (after.priorError, after.priorNextAttempt) =
        (payload.priorError, payload.priorNextAttempt) →
      next.saved = some (after.priorError, after.priorNextAttempt) := by
    intro payload after before stands same
    rw [saved, World.save, before, stands, same]
    exact kept payload before
  intro payload stands
  cases turn with
  | stays same row => exact still payload payload (same.symm.trans stands) stands rfl
  | queued unknown limit logs entry merged called found before after =>
    cases stands.symm.trans after
    rcases before with before | ⟨before, -, values⟩
    · exact still merged _ before after rfl
    · rw [saved, World.save, before, after]
      exact congrArg some values.symm
  | marked payload attempts error before after =>
    cases stands.symm.trans after
    exact still payload _ before after rfl
  | shrunk payload processed pendingError finishes before left after =>
    cases stands.symm.trans after
    exact still payload _ before after rfl
  | restored payload processed row finishes before done needs after values =>
    cases stands.symm.trans (restored_marker _ row _ after (Prod.ext_iff.mp values).1)
  | deleted payload processed finishes before done idle after =>
    cases stands.symm.trans (gone_marker _ after)
  | completed clear receipt after => cases stands.symm.trans (gone_marker _ after)

theorem queue_has (world next : World) (unknown : List Identity) (limit : Nat) (logs : List RawLog)
    (entry : Entry) (found : entryOf unknown limit logs txHash = some entry)
    (taken : (lanes txHash).step world (.queue unknown limit logs) = some next) :
    (∀ identity ∈ entry.addresses, HasIdentity next identity) ∧
      ∀ pair ∈ entry.logs.entries, HasLog next pair.2 := by
  have after : next.db = queueDeferredPoolIdentities world.db unknown limit logs txHash := by
    simp only [lanes, Action.row, Option.all_none, ↓reduceIte, perform, Option.map_some,
      Option.some.injEq] at taken
    rw [← taken]
  obtain ⟨payload, stands, -⟩ := queue_marker world.db unknown limit logs txHash entry found
  rw [← after] at stands
  constructor
  · intro identity there
    exact ⟨_, stands, by simp [Payload.normal, extend, there]⟩
  · intro pair there
    have value := get_rawLogs payload.logs entry pair.1
    rw [(get_some _ _ _).mpr there, Option.some_or] at value
    exact ⟨_, stands, (mem_sortedLogs _ _).mpr ⟨pair.1, value⟩⟩

structure MarkerKept (txHash : Hash) (world : World) : Prop where
  /-- What a call queues is in the marker. -/
  queues : ∀ unknown limit logs entry next, entryOf unknown limit logs txHash = some entry →
    (lanes txHash).step world (.queue unknown limit logs) = some next →
      (∀ identity ∈ entry.addresses, HasIdentity next identity) ∧
        ∀ pair ∈ entry.logs.entries, HasLog next pair.2
  /-- An identity stays until a finish of a marker that has it. -/
  identities : ∀ identity, (lanes txHash).KeepsUntil (fun now => HasIdentity now identity)
    (TakesIdentity identity) world
  /-- A log stays under its key until a finish of a marker that has it. -/
  keys : ∀ key, (lanes txHash).KeepsUntil (fun now => ∃ log, log.key = key ∧ HasLog now log)
    (fun now action => ∃ log, log.key = key ∧ TakesLog log now action) world
  /-- It stays the same log until a call queues another one under its key. -/
  logs : ∀ log, (lanes txHash).KeepsUntil (fun now => HasLog now log)
    (fun now action => TakesLog log now action ∨ Replaces txHash log now action) world
  /-- The row goes when its identities are taken and no stored event needs enrichment, or with
  the receipt of a row that has no marker. -/
  deletes : ∀ action next, (lanes txHash).step world action = some next →
    world.db.row ≠ none → next.db.row = none →
      (∀ identity, HasIdentity world identity → TakesIdentity identity world action) ∧
        (next.db.needsEnrichment = false ∨ world.db.marker = none ∧ next.db.receipt = true)
  /-- The marker goes with its last identity. -/
  ends : ∀ action next, (lanes txHash).step world action = some next →
    (∃ identity, HasIdentity world identity) → (∀ identity, ¬HasIdentity next identity) →
      next.db.marker = none
  /-- With the marker goes the row, or the values from before the marker come back. -/
  restores : ∀ action next, (lanes txHash).step world action = some next →
    world.db.marker ≠ none → next.db.marker = none →
      (next.db.row = none ∧ next.db.needsEnrichment = false) ∨
        next.db.needsEnrichment = true ∧ ∃ error time row, world.saved = some (error, time) ∧
          next.db.row = some row ∧ (row.lastError, row.nextAttempt) =
            ((restored error time).1.map LastError.text, (restored error time).2)

section Reached
variable {txHash : Hash} {world next : World} {action : Action}

theorem step_deletes (taken : (lanes txHash).step world action = some next)
    (there : world.db.row ≠ none) (gone : next.db.row = none) :
    (∀ identity, HasIdentity world identity → TakesIdentity identity world action) ∧
      (next.db.needsEnrichment = false ∨ world.db.marker = none ∧ next.db.receipt = true) := by
  constructor
  · intro identity held
    rcases step_identity txHash identity world action next taken held with ⟨_, stands, _⟩ | lost
    · cases stands.symm.trans (gone_marker _ gone)
    · exact lost
  · cases (step_turn txHash world next action taken).1 with
    | stays same row => exact absurd gone (row there)
    | queued unknown limit logs entry merged called found before after =>
      cases after.symm.trans (gone_marker _ gone)
    | marked payload attempts error before after => cases after.symm.trans (gone_marker _ gone)
    | shrunk payload processed pendingError finishes before left after =>
      cases after.symm.trans (gone_marker _ gone)
    | restored payload processed row finishes before done needs after values =>
      cases after.symm.trans gone
    | deleted payload processed finishes before done idle after => exact .inl idle
    | completed clear receipt after => exact .inr ⟨clear, receipt⟩

theorem step_ends (taken : (lanes txHash).step world action = some next)
    (held : ∃ identity, HasIdentity world identity)
    (empty : ∀ identity, ¬HasIdentity next identity) : next.db.marker = none := by
  obtain ⟨identity, payload, stands, there⟩ := held
  cases (step_turn txHash world next action taken).1 with
  | stays same row => exact absurd ⟨payload, same.trans stands, there⟩ (empty identity)
  | queued unknown limit logs entry merged called found before after =>
    rcases before with before | ⟨before, -⟩
    · cases stands.symm.trans before
      refine absurd ⟨_, after, ?_⟩ (empty identity)
      simp [Payload.normal, extend, there]
    · cases stands.symm.trans before
  | marked payload attempts error before after =>
    cases stands.symm.trans before
    exact absurd ⟨_, after, (mem_sortedSet _ _).mpr there⟩ (empty identity)
  | shrunk payload processed pendingError finishes before left after =>
    obtain ⟨other, member⟩ := List.exists_mem_of_ne_nil _ left
    exact absurd ⟨_, after, (mem_sortedSet _ _).mpr member⟩ (empty other)
  | restored payload processed row finishes before done needs after values =>
    exact restored_marker _ row _ after (Prod.ext_iff.mp values).1
  | deleted payload processed finishes before done idle after => exact gone_marker _ after
  | completed clear receipt after => exact gone_marker _ after

theorem step_restores (taken : (lanes txHash).step world action = some next)
    (kept : KeepsPrior world) (there : world.db.marker ≠ none) (gone : next.db.marker = none) :
    (next.db.row = none ∧ next.db.needsEnrichment = false) ∨
      next.db.needsEnrichment = true ∧ ∃ error time row, world.saved = some (error, time) ∧
        next.db.row = some row ∧ (row.lastError, row.nextAttempt) =
          ((restored error time).1.map LastError.text, (restored error time).2) := by
  cases (step_turn txHash world next action taken).1 with
  | stays same row => exact absurd (same.symm.trans gone) there
  | queued unknown limit logs entry merged called found before after =>
    cases after.symm.trans gone
  | marked payload attempts error before after => cases after.symm.trans gone
  | shrunk payload processed pendingError finishes before left after =>
    cases after.symm.trans gone
  | restored payload processed row finishes before done needs after values =>
    exact .inr ⟨needs, _, _, row, kept payload before, after, values⟩
  | deleted payload processed finishes before done idle after => exact .inl ⟨after, idle⟩
  | completed clear receipt after => exact absurd clear there

end Reached

/-- Nothing that is deferred is lost, whatever the lanes do. -/
theorem deferred_kept (txHash : Hash) (world : World)
    (reached : (lanes txHash).Reaches always world) : MarkerKept txHash world := by
  obtain ⟨distinct, kept⟩ : DistinctLogs world ∧ KeepsPrior world := by
    apply System.Reaches.invariant (fun world => DistinctLogs world ∧ KeepsPrior world) _ _ world
      reached
    · rintro state ⟨clear, -, -⟩
      constructor <;> intro payload stands <;> cases clear.symm.trans stands
    · rintro state action next ⟨distinct, kept⟩ - taken
      exact ⟨step_distinct txHash state action next taken distinct,
        step_prior txHash state action next taken kept⟩
  constructor
  · exact fun unknown limit logs entry next found =>
      queue_has txHash world next unknown limit logs entry found
  · exact fun identity => System.keepsUntil _ _ (step_identity txHash identity) world
  · intro key actions last ran held
    have keeps := System.keepsUntil
      (fun now => DistinctLogs now ∧ ∃ log, log.key = key ∧ HasLog now log)
      (fun now action => ∃ log, log.key = key ∧ TakesLog log now action) (by
        rintro state action next taken ⟨apart, log, same, held⟩
        have apart' := step_distinct txHash state action next taken apart
        rcases step_log txHash log state action next taken apart held with
          still | lost | ⟨-, other, alike, present⟩
        · exact .inl ⟨apart', log, same, still⟩
        · exact .inr ⟨log, same, lost⟩
        · exact .inl ⟨apart', other, alike.trans same, present⟩) world
    exact (keeps actions last ran ⟨distinct, held⟩).imp And.right id
  · intro log actions last ran held
    have keeps := System.keepsUntil (fun now => DistinctLogs now ∧ HasLog now log)
      (fun now action => TakesLog log now action ∨ Replaces txHash log now action) (by
        rintro state action next taken ⟨apart, held⟩
        rcases step_log txHash log state action next taken apart held with
          still | lost | ⟨replaced, -⟩
        · exact .inl ⟨step_distinct txHash state action next taken apart, still⟩
        · exact .inr (.inl lost)
        · exact .inr (.inr replaced)) world
    exact (keeps actions last ran ⟨distinct, held⟩).imp And.right id
  · exact fun action next => step_deletes
  · exact fun action next => step_ends
  · exact fun action next taken => step_restores taken kept

def sampleLog : RawLog :=
  ⟨⟨0x20#160, [], []⟩, 9, 4, 5, 0, false⟩

def sampleStart : World := ⟨⟨none, [.add], false⟩, [], none⟩

def sampleActions : List Action := [.queue [.contract 0x20#160] 8 [sampleLog], .select]

/-- A queued identity that a lane has read. -/
theorem deferred_kept_sample : ∃ world, (lanes 5).run sampleStart sampleActions = some world ∧
    HasIdentity world (.contract 0x20#160) ∧ MarkerKept 5 world := by
  refine ⟨_, rfl, ⟨_, rfl, by decide⟩, ?_⟩
  apply deferred_kept 5
  exact System.Reaches.run sampleStart _ sampleActions (.start sampleStart ⟨rfl, rfl, rfl⟩)
    (System.runMeets_always _ _) rfl

end RhPools.IdentityMarkers
