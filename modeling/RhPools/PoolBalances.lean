import RhPools.PyValues
import RhPools.SearchCatalogue

/-! Balances of pools at blocks. Requests are queued by pool and block; a batch of what was read,
in any order and however late, is stored where the block is still canonical and the request still
queued, and the newest snapshot of a pool is kept with the pool. A rollback falls back to the
newest that remains. Metadata of pools other than the balance, and counts, are left out. -/

namespace RhPools.PoolBalances
open OrderedTables PyValues SearchCatalogue

structure Balance where
  balance0 : String
  balance1 : String
  block : Int
  timestamp : Int
  deriving DecidableEq

/-- A pool, with the block it was created in and the one it was observed in. -/
structure Pool where
  protocol : String
  createdBlock : Option Int
  observedBlock : Option Int
  current : Option Balance
  deriving DecidableEq

structure Block where
  hash : String
  timestamp : Int
  deriving DecidableEq

/-- A row of `pending_balances`. -/
structure Request where
  hash : String
  attempts : Nat
  nextAttempt : ℚ
  lastError : Option String
  deriving DecidableEq

/-- A row of `pool_balances`. -/
structure Snapshot where
  hash : String
  balance0 : String
  balance1 : String
  deriving DecidableEq

abbrev Key := String × Int

structure Db where
  pools : OrderedTable String Pool
  blocks : OrderedTable Int Block
  pending : OrderedTable Key Request
  balances : OrderedTable Key Snapshot

inductive Failure where
  | invalid (detail : String)
  | conflict (detail : String)
  deriving DecidableEq, Repr

structure Item where
  pool : Value
  number : Value
  hash : Value
  balance0 : Value
  balance1 : Value

structure Row where
  pool : String
  block : Int
  hash : String
  balance0 : String
  balance1 : String
  deriving DecidableEq

def Row.key (row : Row) : Key := (row.pool, row.block)

def Row.snapshot (row : Row) : Snapshot := ⟨row.hash, row.balance0, row.balance1⟩

/-- `_integer`. -/
def integer (value : Value) (name : String) : Except Failure Int :=
  let read := match value with
    | .int number => some number
    | .str text =>
      readInt (if "0x".toList.isPrefixOf text.toList ∨ "-0x".toList.isPrefixOf text.toList
        then 16 else 10) text
    | _ => none
  match read with
  | some number => .ok number
  | none => .error (.invalid (name ++ " must be an integer"))

/-- `_decimal_text`. -/
def decimalText (value : Value) (name : String) : Except Failure (Option String) :=
  let exact := Failure.invalid (name ++ " must be an exact integer decimal string")
  match value with
  | .none => .ok none
  | .int number => .ok (some (toString number))
  | .str text => if (readInt 10 text).isSome then .ok (some text) else .error exact
  | _ => .error exact

section
variable (casing : Casing) (shown : Value → String)

def readItem (item : Item) : Except Failure Row := do
  let pool := casing.lower (shown item.pool)
  let block ← integer item.number "block_number"
  let hash := casing.lower (shown item.hash)
  let balance0 ← decimalText item.balance0 "balance0"
  let balance1 ← decimalText item.balance1 "balance1"
  if pool.length ≠ 42 then .error (.invalid "pool_id must be a 20-byte address")
  else if hash.length ≠ 66 then .error (.invalid "block_hash must be a 32-byte hash")
  else match balance0, balance1 with
    | some balance0, some balance1 => .ok ⟨pool, block, hash, balance0, balance1⟩
    | _, _ => .error (.invalid "balance snapshot fields must not be null")

def normalize : List Key → List Item → List (Except Failure Row)
  | _, [] => []
  | identities, item :: rest =>
    match readItem casing shown item with
    | .error failure => .error failure :: normalize identities rest
    | .ok row =>
      if row.key ∈ identities then
        .error (.invalid "balance batch contains a duplicate pool and block") ::
          normalize identities rest
      else .ok row :: normalize (row.key :: identities) rest

def judge (db : Db) (row : Row) : Except Failure Row :=
  if (db.pools.get row.pool).all fun pool => pool.protocol ≠ "v3" then
    .error (.invalid "per-pool balance snapshots are only valid for V3 pools")
  else if (db.blocks.get row.block).all fun block => block.hash ≠ row.hash then
    .error (.conflict "balance snapshot belongs to an orphaned block")
  else if (db.pending.get row.key).all fun request => request.hash ≠ row.hash then
    .error (.conflict "balance snapshot work is stale")
  else .ok row

def judged (db : Db) (items : List Item) : List (Except Failure Row) :=
  (normalize casing shown [] items).map fun read => read.bind (judge db)

def outcome : Except Failure Row → Option Failure
  | .error failure => some failure
  | .ok _ => none

def publishable (db : Db) (items : List Item) : List Row :=
  (judged casing shown db items).filterMap Except.toOption

def noteLatest (latest : OrderedTable String Row) (row : Row) : OrderedTable String Row :=
  match latest.get row.pool with
  | some prior => if prior.block ≤ row.block then latest.assign row.pool row else latest
  | none => latest.assign row.pool row

def Pool.accept (pool : Pool) (row : Row) (timestamp : Int) : Pool :=
  if pool.current.all fun balance => balance.block ≤ row.block then
    { pool with current := some ⟨row.balance0, row.balance1, row.block, timestamp⟩ }
  else pool

def publishPools (db : Db) (rows : List Row) : OrderedTable String Pool :=
  let latest := rows.foldl noteLatest .empty
  db.pools.modify fun id pool =>
    match latest.get id with
    | some row => pool.accept row (((db.blocks.get row.block).map Block.timestamp).getD 0)
    | none => pool

def storeSnapshot (balances : OrderedTable Key Snapshot) (row : Row) : OrderedTable Key Snapshot :=
  balances.assign row.key row.snapshot

def dropRequest (dropped : Nat × OrderedTable Key Request) (row : Row) :
    Nat × OrderedTable Key Request :=
  match dropped.2.get row.key with
  | some request =>
    if request.hash = row.hash then (dropped.1 + 1, dropped.2.erase row.key) else dropped
  | none => dropped

/-- `save_v3_balances`; none is the error of a queue that changed meanwhile. -/
def saveV3Balances (db : Db) (items : List Item) : Option (List (Option Failure) × Db) :=
  let rows := publishable casing shown db items
  let outcomes := (judged casing shown db items).map outcome
  if rows = [] then some (outcomes, db)
  else
    let dropped := rows.foldl dropRequest (0, db.pending)
    if dropped.1 ≠ rows.length then none
    else some (outcomes,
      { db with
        pools := publishPools db rows
        pending := dropped.2
        balances := rows.foldl storeSnapshot db.balances })

end

/-- What `queue_v3_balances` inserts where no request of the pool and block is queued. -/
def queueV3Balances (casing : Casing) (db : Db) (pools : List String) (block : Int)
    (hash : String) : Db :=
  { db with
    pending := db.pending.insertAll ((pools.map fun pool => casing.lower pool).dedup.map fun pool =>
      ((pool, block), ⟨casing.lower hash, 0, 0, none⟩)) }

structure Complaint where
  pool : String
  block : Int
  hash : String
  error : String
  delay : ℚ

/-- One row of `mark_v3_balance_errors`. -/
def complain (casing : Casing) (now : ℚ) (pending : OrderedTable Key Request)
    (complaint : Complaint) : OrderedTable Key Request :=
  pending.modify fun key request =>
    if key = (casing.lower complaint.pool, complaint.block) ∧
        request.hash = casing.lower complaint.hash then
      { request with
        attempts := request.attempts + 1
        nextAttempt := now + max 0 complaint.delay
        lastError := some (cutText 1000 complaint.error) }
    else request

def markV3BalanceErrors (casing : Casing) (db : Db) (now : ℚ) (complaints : List Complaint) : Db :=
  { db with pending := complaints.foldl (complain casing now) db.pending }

/-- `_store_headers` of one header; none is a conflict with the header there is. -/
def storeHeader (db : Db) (number : Int) (block : Block) : Option Db :=
  match db.blocks.get number with
  | some existing => if existing = block then some db else none
  | none => some { db with blocks := db.blocks.put number block }

def newer (best : Option Balance) (balance : Balance) : Option Balance :=
  if best.all fun best => best.block < balance.block then some balance else best

def stored (db : Db) (pool : String) : List Balance :=
  db.balances.entries.filterMap fun entry =>
    if entry.1.1 = pool then
      (db.blocks.get entry.1.2).map fun block =>
        ⟨entry.2.balance0, entry.2.balance1, entry.1.2, block.timestamp⟩
    else none

def fallBack (db : Db) (ancestor : Int) (id : String) (pool : Pool) : Pool :=
  if pool.current.any fun balance => ancestor < balance.block then
    { pool with current := (stored db id).foldl newer none }
  else pool

def Pool.removable (pool : Pool) (ancestor : Int) : Bool :=
  match pool.createdBlock with
  | some block => decide (ancestor < block)
  | none => pool.observedBlock.any fun block => decide (ancestor < block)

/-- What `rollback` removes and repairs. -/
def unwind (db : Db) (ancestor : Int) : Db :=
  let left := { db with
    pools := db.pools.remove fun _ pool => pool.removable ancestor
    pending := db.pending.remove fun key _ => ancestor < key.2
    balances := db.balances.remove fun key _ => ancestor < key.2 }
  { left with
    pools := left.pools.modify (fallBack left ancestor)
    blocks := left.blocks.remove fun number _ => ancestor < number }

def rollback (db : Db) (ancestor : Int) (header : Option Block) : Option Db :=
  if ancestor < 0 then none
  else match header with
    | some block => (storeHeader db ancestor block).map fun db => unwind db ancestor
    | none => some (unwind db ancestor)

structure Fetched where
  pool : String
  block : Int
  hash : String
  attempts : Nat
  result : Except String (Int × Int)

def completed (fetched : List Fetched) : List (Fetched × Item) :=
  fetched.filterMap fun row => match row.result with
    | .ok (balance0, balance1) =>
      some (row, ⟨.str row.pool, .int row.block, .str row.hash, .int balance0, .int balance1⟩)
    | .error _ => none

def complaintOf (row : Fetched) (error : String) : Complaint :=
  ⟨row.pool, row.block, row.hash, error, min 300 (2 ^ min (row.attempts + 1) 8)⟩

def rejected (fetched : List Fetched) (outcomes : List (Option Failure)) : List Complaint :=
  let unread := fetched.filterMap fun row => match row.result with
    | .error error => some (complaintOf row error)
    | .ok _ => none
  let offered := ((completed fetched).map Prod.fst).zip outcomes
  let invalid := offered.filterMap fun row => match row.2 with
    | some (.invalid detail) => some (complaintOf row.1 detail)
    | _ => none
  let conflicts := offered.filterMap fun row => match row.2 with
    | some (.conflict detail) => some (complaintOf row.1 detail)
    | _ => none
  unread ++ invalid ++ conflicts

/-- `_balances_once`, from what was fetched on. -/
def balancesOnce (casing : Casing) (shown : Value → String) (db : Db) (now : ℚ)
    (fetched : List Fetched) : Option Db :=
  (saveV3Balances casing shown db ((completed fetched).map Prod.snd)).map fun saved =>
    markV3BalanceErrors casing saved.2 now (rejected fetched saved.1)

inductive Action where
  | queue (pools : List String) (block : Int) (hash : String)
  | save (items : List Item)
  | markErrors (now : ℚ) (complaints : List Complaint)
  | header (number : Int) (block : Block)
  | rollback (ancestor : Int) (header : Option Block)

section
variable (casing : Casing) (shown : Value → String)

def step (db : Db) : Action → Option Db
  | .queue pools block hash => some (queueV3Balances casing db pools block hash)
  | .save items => (saveV3Balances casing shown db items).map Prod.snd
  | .markErrors now complaints => some (markV3BalanceErrors casing db now complaints)
  | .header number block => storeHeader db number block
  | .rollback ancestor header => rollback db ancestor header

def ledger : GuardedRuns.System Db Action where
  start db := (∀ id pool, db.pools.get id = some pool → pool.current = none) ∧
    db.balances = .empty ∧ db.pending = .empty
  step := step casing shown

end

section
variable (casing : Casing) (shown : Value → String)

theorem normalize_distinct (identities : List Key) (items : List Item) :
    (((normalize casing shown identities items).filterMap Except.toOption).map Row.key).Nodup ∧
      ∀ row ∈ (normalize casing shown identities items).filterMap Except.toOption,
        row.key ∉ identities := by
  induction items generalizing identities with
  | nil => exact ⟨List.nodup_nil, fun row member => nomatch member⟩
  | cons item rest ih =>
    rw [normalize]
    split
    · exact ih identities
    · rename_i row read
      split
      · exact ih identities
      · rename_i new
        obtain ⟨distinct, apart⟩ := ih (row.key :: identities)
        have shape : (Except.ok row :: normalize casing shown (row.key :: identities)
            rest).filterMap Except.toOption =
            row :: (normalize casing shown (row.key :: identities) rest).filterMap
              Except.toOption := rfl
        rw [shape, List.map_cons, List.nodup_cons]
        refine ⟨⟨?_, distinct⟩, ?_⟩
        · intro again
          obtain ⟨other, member, same⟩ := List.mem_map.mp again
          exact apart other member (same ▸ List.mem_cons_self)
        · intro other member
          rcases List.mem_cons.mp member with rfl | later
          · exact new
          · exact fun inside => apart other later (List.mem_cons_of_mem _ inside)

/-- A row to publish names a canonical block and the request queued for it. -/
structure Sound (db : Db) (row : Row) : Prop where
  canonical : ∃ block, db.blocks.get row.block = some block ∧ block.hash = row.hash
  requested : ∃ request, db.pending.get row.key = some request ∧ request.hash = row.hash

theorem judge_ok (db : Db) (row judged : Row) (sound : judge db row = .ok judged) :
    judged = row ∧ Sound db row := by
  unfold judge at sound
  split at sound
  · cases sound
  · split at sound
    · cases sound
    · rename_i canonical
      split at sound
      · cases sound
      · rename_i requested
        cases sound
        simp only [Option.all_eq_true, ne_eq, decide_eq_true_eq, not_forall, not_not]
          at canonical requested
        obtain ⟨block, there, same⟩ := canonical
        obtain ⟨request, queued, own⟩ := requested
        exact ⟨rfl, ⟨block, there, same⟩, ⟨request, queued, own⟩⟩

theorem judged_rows (db : Db) (reads : List (Except Failure Row)) :
    ((reads.map fun read => read.bind (judge db)).filterMap Except.toOption).Sublist
        (reads.filterMap Except.toOption) ∧
      ∀ row ∈ (reads.map fun read => read.bind (judge db)).filterMap Except.toOption,
        Sound db row := by
  induction reads with
  | nil => exact ⟨.slnil, fun row member => nomatch member⟩
  | cons read rest ih =>
    obtain ⟨sub, sound⟩ := ih
    cases read with
    | error failure => exact ⟨sub, sound⟩
    | ok row =>
      cases verdict : judge db row with
      | error failure =>
        have shape : ((Except.ok row :: rest).map fun read =>
            read.bind (judge db)).filterMap Except.toOption =
            (rest.map fun read => read.bind (judge db)).filterMap Except.toOption := by
          rw [List.map_cons, List.filterMap_cons]
          simp only [Except.bind, verdict, Except.toOption]
        rw [shape]
        exact ⟨sub.cons _, sound⟩
      | ok same =>
        obtain ⟨rfl, own⟩ := judge_ok db row same verdict
        have shape : ((Except.ok same :: rest).map fun read =>
            read.bind (judge db)).filterMap Except.toOption =
            same :: (rest.map fun read => read.bind (judge db)).filterMap
              Except.toOption := by
          rw [List.map_cons, List.filterMap_cons]
          simp only [Except.bind, verdict, Except.toOption]
        rw [shape]
        refine ⟨sub.cons_cons _, fun row member => ?_⟩
        rcases List.mem_cons.mp member with rfl | later
        · exact own
        · exact sound row later

theorem publishable_sound (db : Db) (items : List Item) :
    ((publishable casing shown db items).map Row.key).Nodup ∧
      ∀ row ∈ publishable casing shown db items, Sound db row := by
  obtain ⟨sub, sound⟩ := judged_rows db (normalize casing shown [] items)
  exact ⟨((sub.map Row.key).nodup (normalize_distinct casing shown [] items).1), sound⟩

end

variable (rows : List Row) (balances : OrderedTable Key Snapshot)

theorem get_storeSnapshot_miss (key : Key) (apart : ∀ row ∈ rows, row.key ≠ key) :
    (rows.foldl storeSnapshot balances).get key = balances.get key := by
  induction rows generalizing balances with
  | nil => rfl
  | cons row rest ih =>
    rw [List.foldl_cons, ih _ fun other member => apart other (List.mem_cons_of_mem _ member),
      storeSnapshot, get_assign, if_neg (Ne.symm (apart row List.mem_cons_self))]

theorem get_storeSnapshot_hit (distinct : (rows.map Row.key).Nodup) (row : Row)
    (member : row ∈ rows) :
    (rows.foldl storeSnapshot balances).get row.key = some row.snapshot := by
  induction rows generalizing balances with
  | nil => cases member
  | cons first rest ih =>
    rw [List.map_cons, List.nodup_cons] at distinct
    rw [List.foldl_cons]
    rcases List.mem_cons.mp member with rfl | later
    · rw [get_storeSnapshot_miss, storeSnapshot, get_assign, if_pos rfl]
      intro other inside same
      exact distinct.1 (same ▸ List.mem_map_of_mem inside)
    · exact ih _ distinct.2 later

def Latest (seen : List Row) (latest : OrderedTable String Row) : Prop :=
  ∀ id, (latest.get id = none ∧ ∀ row ∈ seen, row.pool ≠ id) ∨
    ∃ row ∈ seen, latest.get id = some row ∧ row.pool = id ∧
      ∀ other ∈ seen, other.pool = id → other.block ≤ row.block

theorem Latest.note {seen : List Row} {latest : OrderedTable String Row} (held : Latest seen latest)
    (row : Row) : Latest (seen ++ [row]) (noteLatest latest row) := by
  have written (best : ∀ other ∈ seen, other.pool = row.pool → other.block ≤ row.block) :
      Latest (seen ++ [row]) (latest.assign row.pool row) := by
    intro id
    rw [get_assign]
    by_cases own : id = row.pool
    · right
      refine ⟨row, by simp, if_pos own, own.symm, fun other member same => ?_⟩
      rcases List.mem_append.mp member with before | now
      · exact best other before (same.trans own)
      · rw [List.mem_singleton.mp now]
    · rw [if_neg own]
      rcases held id with ⟨absent, apart⟩ | ⟨kept, inside, found, same, greatest⟩
      · left
        refine ⟨absent, fun other member => ?_⟩
        rcases List.mem_append.mp member with before | now
        · exact apart other before
        · rw [List.mem_singleton.mp now]
          exact Ne.symm own
      · right
        refine ⟨kept, List.mem_append_left _ inside, found, same, fun other member here => ?_⟩
        rcases List.mem_append.mp member with before | now
        · exact greatest other before here
        · rw [List.mem_singleton.mp now] at here
          exact absurd here.symm own
  unfold noteLatest
  rcases held row.pool with ⟨absent, apart⟩ | ⟨kept, inside, found, same, greatest⟩
  · rw [absent]
    exact written fun other member own => absurd own (apart other member)
  · rw [found]
    simp only
    split
    · rename_i notOlder
      exact written fun other member own => le_trans (greatest other member own) notOlder
    · rename_i older
      intro id
      rcases held id with ⟨absent, apart⟩ | ⟨best, member, there, own, most⟩
      · left
        refine ⟨absent, fun other member => ?_⟩
        rcases List.mem_append.mp member with before | now
        · exact apart other before
        · rw [List.mem_singleton.mp now]
          rintro rfl
          rw [absent] at found
          cases found
      · right
        refine ⟨best, List.mem_append_left _ member, there, own, fun other inside here => ?_⟩
        rcases List.mem_append.mp inside with before | now
        · exact most other before here
        · rw [List.mem_singleton.mp now] at here ⊢
          subst here
          rw [found] at there
          cases there
          exact le_of_lt (not_le.mp older)

theorem latest_rows (rows seen : List Row) (latest : OrderedTable String Row)
    (held : Latest seen latest) : Latest (seen ++ rows) (rows.foldl noteLatest latest) := by
  induction rows generalizing seen latest with
  | nil =>
    rw [List.append_nil]
    exact held
  | cons row rest ih =>
    have later := ih (seen ++ [row]) (noteLatest latest row) (held.note row)
    rwa [List.append_assoc] at later

theorem dropRequest_keeps (dropped : Nat × OrderedTable Key Request) (key : Key) (request : Request)
    (there : dropped.2.get key = some request) :
    (rows.foldl dropRequest dropped).2.get key = some request ∨
      ∃ row ∈ rows, row.key = key ∧ row.hash = request.hash := by
  induction rows generalizing dropped with
  | nil => exact .inl there
  | cons row rest ih =>
    by_cases own : row.key = key ∧ row.hash = request.hash
    · exact .inr ⟨row, List.mem_cons_self, own⟩
    · have kept : (dropRequest dropped row).2.get key = some request := by
        unfold dropRequest
        split
        · rename_i found here
          split
          · rename_i same
            rw [get_erase, if_neg]
            · exact there
            · rintro rfl
              rw [here] at there
              cases there
              exact own ⟨rfl, same.symm⟩
          · exact there
        · exact there
      rcases ih _ kept with still | ⟨other, member, taken⟩
      · exact .inl still
      · exact .inr ⟨other, List.mem_cons_of_mem _ member, taken⟩

def Canonical (db : Db) (key : Key) (snapshot : Snapshot) : Prop :=
  db.balances.get key = some snapshot ∧
    ∃ block, db.blocks.get key.2 = some block ∧ block.hash = snapshot.hash

structure Newest (db : Db) (id : String) (balance : Balance) : Prop where
  stored : ∃ snapshot block, db.balances.get (id, balance.block) = some snapshot ∧
    db.blocks.get balance.block = some block ∧ block.hash = snapshot.hash ∧
    balance = ⟨snapshot.balance0, snapshot.balance1, balance.block, block.timestamp⟩
  greatest : ∀ number snapshot, Canonical db (id, number) snapshot → number ≤ balance.block

/-- What is kept with a pool: the newest canonical snapshot, or nothing where there is none. -/
def Current (db : Db) (id : String) : Option Balance → Prop
  | some balance => Newest db id balance
  | none => ∀ number snapshot, ¬ Canonical db (id, number) snapshot

structure Kept (db : Db) : Prop where
  canonical : ∀ key snapshot, db.balances.get key = some snapshot → Canonical db key snapshot
  current : ∀ id pool, db.pools.get id = some pool → Current db id pool.current

theorem Kept.queue {db : Db} (kept : Kept db) (pending : OrderedTable Key Request) :
    Kept { db with pending := pending } where
  canonical := kept.canonical
  current := by
    intro id pool there
    have before := kept.current id pool there
    cases current : pool.current with
    | none =>
      rw [current] at before
      exact before
    | some balance =>
      rw [current] at before
      exact ⟨before.stored, before.greatest⟩

theorem get_storeSnapshots (distinct : (rows.map Row.key).Nodup) (key : Key) (snapshot : Snapshot)
    (there : (rows.foldl storeSnapshot balances).get key = some snapshot) :
    (∃ row ∈ rows, row.key = key ∧ snapshot = row.snapshot) ∨ balances.get key = some snapshot := by
  by_cases own : ∃ row ∈ rows, row.key = key
  · obtain ⟨row, member, rfl⟩ := own
    rw [get_storeSnapshot_hit rows balances distinct row member] at there
    exact .inl ⟨row, member, rfl, (Option.some.inj there).symm⟩
  · push Not at own
    rw [get_storeSnapshot_miss rows balances key own] at there
    exact .inr there

theorem Kept.publish {db : Db} (kept : Kept db) (rows : List Row)
    (distinct : (rows.map Row.key).Nodup) (sound : ∀ row ∈ rows, Sound db row)
    (pending : OrderedTable Key Request) :
    Kept { db with
      pools := publishPools db rows
      pending := pending
      balances := rows.foldl storeSnapshot db.balances } where
  canonical := by
    intro key snapshot there
    refine ⟨there, ?_⟩
    rcases get_storeSnapshots rows _ distinct key snapshot there with
      ⟨row, member, rfl, rfl⟩ | before
    · exact (sound row member).canonical
    · exact (kept.canonical key snapshot before).2
  current := by
    intro id after there
    rw [publishPools, get_modify, Option.map_eq_some_iff] at there
    obtain ⟨pool, found, rfl⟩ := there
    have before := kept.current id pool found
    -- a snapshot of the pool is one of the rows or was there
    have snapshots (number : Int) (snapshot : Snapshot)
        (inside : (rows.foldl storeSnapshot db.balances).get (id, number) = some snapshot) :
        (∃ row ∈ rows, row.pool = id ∧ row.block = number) ∨
          Canonical db (id, number) snapshot := by
      rcases get_storeSnapshots rows _ distinct _ snapshot inside with ⟨row, member, same, -⟩ | old
      · exact .inl ⟨row, member, congrArg Prod.fst same, congrArg Prod.snd same⟩
      · exact .inr (kept.canonical _ _ old)
    have latest : Latest rows (rows.foldl noteLatest .empty) :=
      latest_rows rows [] .empty fun id => .inl ⟨rfl, fun row member => nomatch member⟩
    rcases latest id with ⟨absent, apart⟩ | ⟨row, member, noted, rfl, most⟩
    · rw [absent]
      cases current : pool.current with
      | none =>
        rw [current] at before
        rintro number snapshot ⟨inside, -⟩
        rcases snapshots number snapshot inside with ⟨row, member, own, -⟩ | old
        · exact apart row member own
        · exact before number snapshot old
      | some balance =>
        rw [current] at before
        obtain ⟨⟨snapshot, block, stored, canonical⟩, greatest⟩ := before
        refine ⟨⟨snapshot, block, ?_, canonical⟩, ?_⟩
        · refine (get_storeSnapshot_miss rows _ _ fun row member same => ?_).trans stored
          exact apart row member (congrArg Prod.fst same)
        · rintro number snapshot ⟨inside, -⟩
          rcases snapshots number snapshot inside with ⟨row, member, own, -⟩ | old
          · exact absurd own (apart row member)
          · exact greatest number snapshot old
    · obtain ⟨block, canonical, same⟩ := (sound row member).canonical
      have timestamp : ((db.blocks.get row.block).map Block.timestamp).getD 0 =
          block.timestamp := by rw [canonical]; rfl
      simp only [noted, timestamp]
      unfold Pool.accept
      split
      · rename_i notOlder
        refine ⟨⟨row.snapshot, block, get_storeSnapshot_hit rows _ distinct row member, canonical,
          same, rfl⟩, ?_⟩
        rintro number snapshot ⟨inside, -⟩
        rcases snapshots number snapshot inside with ⟨other, among, own, rfl⟩ | old
        · exact most other among own
        · cases current : pool.current with
          | none =>
            rw [current] at before
            exact absurd old (before number snapshot)
          | some balance =>
            rw [current] at before notOlder
            exact le_trans (before.greatest number snapshot old) (of_decide_eq_true notOlder)
      · rename_i older
        cases current : pool.current with
        | none =>
          rw [current] at older
          exact absurd rfl older
        | some balance =>
          rw [current] at before older
          have above : row.block < balance.block := not_le.mp fun notOlder =>
            older (decide_eq_true notOlder)
          obtain ⟨⟨snapshot, here, stored, rest⟩, greatest⟩ := before
          refine ⟨⟨snapshot, here, ?_, rest⟩, ?_⟩
          · refine (get_storeSnapshot_miss rows _ _ fun other among own => ?_).trans stored
            have bound := most other among (congrArg Prod.fst own)
            rw [show other.block = balance.block from congrArg Prod.snd own] at bound
            omega
          · rintro number snapshot ⟨inside, -⟩
            rcases snapshots number snapshot inside with ⟨other, among, own, rfl⟩ | old
            · have bound := most other among own
              omega
            · exact greatest number snapshot old

theorem Kept.save (casing : Casing) (shown : Value → String) {db next : Db} (kept : Kept db)
    (items : List Item) (saved : (saveV3Balances casing shown db items).map Prod.snd = some next) :
    Kept next := by
  obtain ⟨distinct, sound⟩ := publishable_sound casing shown db items
  rw [saveV3Balances] at saved
  dsimp only at saved
  split at saved
  · cases saved
    exact kept
  · split at saved
    · cases saved
    · cases saved
      exact kept.publish _ distinct sound _

theorem Kept.header {db next : Db} (kept : Kept db) (number : Int) (block : Block)
    (stored : storeHeader db number block = some next) : Kept next := by
  unfold storeHeader at stored
  split at stored
  · split at stored
    · cases stored
      exact kept
    · cases stored
  · rename_i new
    cases stored
    -- the blocks of what is stored were there
    have blocks (at_ : Int) (found : Block) (there : db.blocks.get at_ = some found) :
        (db.blocks.put number block).get at_ = some found := by
      rw [get_put, if_neg]
      · exact there
      · rintro rfl
        rw [new] at there
        cases there
    constructor
    · intro key snapshot there
      obtain ⟨-, found, here, same⟩ := kept.canonical key snapshot there
      exact ⟨there, found, blocks _ _ here, same⟩
    · intro id pool there
      have before := kept.current id pool there
      cases current : pool.current with
      | none =>
        rw [current] at before
        rintro number snapshot ⟨inside, -⟩
        exact before number snapshot (kept.canonical _ _ inside)
      | some balance =>
        rw [current] at before
        obtain ⟨⟨snapshot, found, stored, here, rest⟩, greatest⟩ := before
        refine ⟨⟨snapshot, found, stored, blocks _ _ here, rest⟩, ?_⟩
        rintro number snapshot ⟨inside, -⟩
        exact greatest number snapshot (kept.canonical _ _ inside)

theorem newer_fold (balances : List Balance) (best : Option Balance) :
    (balances.foldl newer best = none → balances = [] ∧ best = none) ∧
      ∀ found, balances.foldl newer best = some found →
        (found ∈ balances ∨ best = some found) ∧
          (∀ other ∈ balances, other.block ≤ found.block) ∧
          ∀ other, best = some other → other.block ≤ found.block := by
  induction balances generalizing best with
  | nil =>
    refine ⟨fun empty => ⟨rfl, empty⟩, fun found same => ⟨.inr same, ?_, ?_⟩⟩
    · intro other member
      cases member
    · intro other here
      rw [show best = some found from same] at here
      cases here
      exact le_rfl
  | cons balance rest ih =>
    obtain ⟨empties, founds⟩ := ih (newer best balance)
    constructor
    · intro empty
      have lost := (empties empty).2
      unfold newer at lost
      split at lost
      · cases lost
      · rename_i kept
        rw [lost] at kept
        exact absurd rfl kept
    · intro found same
      obtain ⟨source, most, above⟩ := founds found same
      unfold newer at source above
      split at source
      · rename_i later
        rw [if_pos later] at above
        have bound := above balance rfl
        refine ⟨?_, ?_, ?_⟩
        · rcases source with member | here
          · exact .inl (List.mem_cons_of_mem _ member)
          · cases here
            exact .inl List.mem_cons_self
        · intro other member
          rcases List.mem_cons.mp member with rfl | member
          · exact bound
          · exact most other member
        · rintro other rfl
          exact le_trans (le_of_lt (of_decide_eq_true later)) bound
      · rename_i notLater
        rw [if_neg notLater] at above
        refine ⟨?_, ?_, above⟩
        · rcases source with member | here
          · exact .inl (List.mem_cons_of_mem _ member)
          · exact .inr here
        · intro other member
          rcases List.mem_cons.mp member with rfl | member
          · cases best with
            | none => exact absurd rfl notLater
            | some best =>
              have reached : other.block ≤ best.block :=
                not_lt.mp fun less => notLater (decide_eq_true less)
              exact le_trans reached (above best rfl)
          · exact most other member

theorem mem_stored (db : Db) (id : String) (balance : Balance) :
    balance ∈ stored db id ↔ ∃ snapshot block,
      db.balances.get (id, balance.block) = some snapshot ∧
        db.blocks.get balance.block = some block ∧
        balance = ⟨snapshot.balance0, snapshot.balance1, balance.block, block.timestamp⟩ := by
  rw [stored, List.mem_filterMap]
  constructor
  · rintro ⟨⟨⟨pool, number⟩, snapshot⟩, member, made⟩
    split at made
    · rename_i own
      obtain ⟨block, there, rfl⟩ := Option.map_eq_some_iff.mp made
      subst own
      exact ⟨snapshot, block, (get_some _ _ _).mpr member, there, rfl⟩
    · cases made
  · rintro ⟨snapshot, block, inside, there, same⟩
    refine ⟨((id, balance.block), snapshot), (get_some _ _ _).mp inside, ?_⟩
    rw [if_pos rfl, there, Option.map_some, ← same]

theorem unwind_canonical (db : Db) (ancestor : Int) (key : Key) (snapshot : Snapshot) :
    Canonical (unwind db ancestor) key snapshot ↔
      Canonical db key snapshot ∧ key.2 ≤ ancestor := by
  unfold Canonical unwind
  simp only [get_remove, Option.filter_eq_some_iff, Bool.not_eq_true', decide_eq_false_iff_not,
    not_lt]
  constructor
  · rintro ⟨⟨stored, below⟩, block, ⟨there, -⟩, same⟩
    exact ⟨⟨stored, block, there, same⟩, below⟩
  · rintro ⟨⟨stored, block, there, same⟩, below⟩
    exact ⟨⟨stored, below⟩, block, ⟨there, below⟩, same⟩

theorem unwind_pool (db : Db) (ancestor : Int) (id : String) (pool : Pool)
    (there : (unwind db ancestor).pools.get id = some pool) :
    ∃ old left, db.pools.get id = some old ∧ pool = fallBack left ancestor id old ∧
      left.balances = db.balances.remove (fun key _ => ancestor < key.2) ∧
      left.blocks = db.blocks := by
  unfold unwind at there
  simp only [get_modify, get_remove, Option.map_eq_some_iff, Option.filter_eq_some_iff] at there
  obtain ⟨old, ⟨found, -⟩, same⟩ := there
  exact ⟨old, _, found, same.symm, rfl, rfl⟩

theorem Kept.unwind {db : Db} (kept : Kept db) (ancestor : Int) : Kept (unwind db ancestor) where
  canonical := by
    intro key snapshot there
    have parts := there
    unfold PoolBalances.unwind at parts
    simp only [get_remove, Option.filter_eq_some_iff, Bool.not_eq_true', decide_eq_false_iff_not,
      not_lt] at parts
    exact (unwind_canonical db ancestor key snapshot).mpr
      ⟨kept.canonical key snapshot parts.1, parts.2⟩
  current := by
    intro id pool there
    obtain ⟨old, left, found, rfl, balances, blocks⟩ := unwind_pool db ancestor id pool there
    have before := kept.current id old found
    -- what remains of the pool is what the table joined with the blocks holds
    have remains (number : Int) (snapshot : Snapshot)
        (inside : Canonical (PoolBalances.unwind db ancestor) (id, number) snapshot) :
        ∃ balance ∈ stored left id, balance.block = number := by
      obtain ⟨⟨stored, block, here, -⟩, below⟩ :=
        (unwind_canonical db ancestor (id, number) snapshot).mp inside
      refine ⟨⟨snapshot.balance0, snapshot.balance1, number, block.timestamp⟩, ?_, rfl⟩
      rw [mem_stored, balances, blocks]
      refine ⟨snapshot, block, ?_, here, rfl⟩
      rw [get_remove, Option.filter_eq_some_iff]
      exact ⟨stored, by simpa using below⟩
    unfold fallBack
    split
    · have newest := newer_fold (stored left id) none
      cases result : (stored left id).foldl newer none with
      | none =>
        intro number snapshot inside
        obtain ⟨balance, member, -⟩ := remains number snapshot inside
        rw [(newest.1 result).1] at member
        cases member
      | some balance =>
        obtain ⟨source, most, -⟩ := newest.2 balance result
        have member : balance ∈ stored left id := source.resolve_right (by simp)
        rw [mem_stored, balances, blocks] at member
        obtain ⟨snapshot, block, inside, here, same⟩ := member
        rw [get_remove, Option.filter_eq_some_iff] at inside
        have below : balance.block ≤ ancestor := by simpa using inside.2
        have canonical := kept.canonical _ _ inside.1
        have still := (unwind_canonical db ancestor _ _).mpr ⟨canonical, below⟩
        obtain ⟨after, found, shown, hash⟩ := still
        obtain ⟨-, found', shown', hash'⟩ := canonical
        rw [here] at shown'
        cases shown'
        refine ⟨⟨snapshot, block, after, ?_, hash', same⟩, ?_⟩
        · unfold PoolBalances.unwind
          simp only [get_remove, Option.filter_eq_some_iff]
          exact ⟨here, by simpa using below⟩
        · intro number other inside
          obtain ⟨found, member, rfl⟩ := remains number other inside
          exact most found member
    · rename_i low
      cases current : old.current with
      | none =>
        rw [current] at before
        intro number snapshot inside
        exact before number snapshot ((unwind_canonical db ancestor _ _).mp inside).1
      | some balance =>
        rw [current] at before low
        have below : balance.block ≤ ancestor :=
          not_lt.mp fun above => low (decide_eq_true above)
        obtain ⟨⟨snapshot, block, stored, here, hash, same⟩, greatest⟩ := before
        obtain ⟨after, -⟩ := (unwind_canonical db ancestor (id, balance.block) snapshot).mpr
          ⟨⟨stored, block, here, hash⟩, below⟩
        refine ⟨⟨snapshot, block, after, ?_, hash, same⟩, ?_⟩
        · unfold PoolBalances.unwind
          simp only [get_remove, Option.filter_eq_some_iff]
          exact ⟨here, by simpa using below⟩
        · intro number other inside
          exact greatest number other ((unwind_canonical db ancestor _ _).mp inside).1

section
variable (casing : Casing) (shown : Value → String)

variable (db next : Db) (action : Action)

theorem step_kept (kept : Kept db) (taken : step casing shown db action = some next) :
    Kept next := by
  cases action with
  | queue pools block hash =>
    cases taken
    exact kept.queue _
  | save items => exact kept.save casing shown items taken
  | markErrors now complaints =>
    cases taken
    exact kept.queue _
  | header number block => exact kept.header number block taken
  | rollback ancestor header =>
    simp only [step, rollback] at taken
    split at taken
    · cases taken
    · split at taken
      · obtain ⟨middle, stored, rfl⟩ := Option.map_eq_some_iff.mp taken
        exact (kept.header ancestor _ stored).unwind ancestor
      · cases taken
        exact kept.unwind ancestor

theorem reached_kept (db : Db) (reached : (ledger casing shown).Reaches GuardedRuns.always db) :
    Kept db := by
  refine reached.invariant Kept ?_ ?_
  · rintro start ⟨fresh, none_, -⟩
    constructor
    · intro key snapshot there
      rw [none_] at there
      cases there
    · intro id pool there
      rw [fresh id pool there]
      rintro number snapshot ⟨stored, -⟩
      rw [none_] at stored
      cases stored
  · intro db action next kept _ taken
    exact step_kept casing shown db next action kept taken

theorem storeHeader_tables {db next : Db} (number : Int) (block : Block)
    (stored : storeHeader db number block = some next) :
    next.pools = db.pools ∧ next.pending = db.pending := by
  unfold storeHeader at stored
  split at stored
  · split at stored
    · cases stored
      exact ⟨rfl, rfl⟩
    · cases stored
  · cases stored
    exact ⟨rfl, rfl⟩

theorem rollback_unwinds {db next : Db} (ancestor : Int) (header : Option Block)
    (taken : rollback db ancestor header = some next) :
    ∃ middle, middle.pools = db.pools ∧ middle.pending = db.pending ∧
      next = unwind middle ancestor := by
  unfold rollback at taken
  split at taken
  · cases taken
  · split at taken
    · obtain ⟨middle, stored, rfl⟩ := Option.map_eq_some_iff.mp taken
      obtain ⟨pools, pending⟩ := storeHeader_tables ancestor _ stored
      exact ⟨middle, pools, pending, rfl⟩
    · cases taken
      exact ⟨db, rfl, rfl, rfl⟩

theorem step_moves (taken : step casing shown db action = some next) (id : String)
    (pool later : Pool) (there : db.pools.get id = some pool)
    (after : next.pools.get id = some later) (balance : Balance)
    (current : pool.current = some balance) :
    (∃ newest, later.current = some newest ∧ balance.block ≤ newest.block) ∨
      ∃ ancestor header, action = .rollback ancestor header ∧ ancestor < balance.block := by
  have unmoved (same : next.pools = db.pools) :
      ∃ newest, later.current = some newest ∧ balance.block ≤ newest.block := by
    rw [same, there] at after
    cases after
    exact ⟨balance, current, le_rfl⟩
  cases action with
  | queue pools block hash =>
    cases taken
    exact .inl (unmoved rfl)
  | markErrors now complaints =>
    cases taken
    exact .inl (unmoved rfl)
  | header number block => exact .inl (unmoved (storeHeader_tables number block taken).1)
  | save items =>
    left
    rw [step, saveV3Balances] at taken
    dsimp only at taken
    split at taken
    · cases taken
      exact unmoved rfl
    · split at taken
      · cases taken
      · cases taken
        rw [publishPools, get_modify, there, Option.map_some] at after
        have result := Option.some.inj after
        split at result
        · unfold Pool.accept at result
          split at result
          · rename_i notOlder
            subst result
            rw [current] at notOlder
            exact ⟨_, rfl, of_decide_eq_true notOlder⟩
          · subst result
            exact ⟨balance, current, le_rfl⟩
        · subst result
          exact ⟨balance, current, le_rfl⟩
  | rollback ancestor header =>
    obtain ⟨middle, pools, -, rfl⟩ := rollback_unwinds ancestor header taken
    obtain ⟨old, left, found, rfl, -, -⟩ := unwind_pool middle ancestor id later after
    rw [pools, there] at found
    cases found
    by_cases above : ancestor < balance.block
    · exact .inr ⟨ancestor, header, rfl, above⟩
    · left
      refine ⟨balance, ?_, le_rfl⟩
      rw [fallBack, current, Option.any_some, if_neg (by simpa using above)]
      exact current

theorem complaints_keep (now : ℚ) (complaints : List Complaint)
    (pending : OrderedTable Key Request) (key : Key) (request : Request)
    (there : pending.get key = some request) :
    ∃ still, (complaints.foldl (complain casing now) pending).get key = some still ∧
      still.hash = request.hash := by
  induction complaints generalizing pending request with
  | nil => exact ⟨request, there, rfl⟩
  | cons complaint rest ih =>
    have moved : ∃ middle, (complain casing now pending complaint).get key = some middle ∧
        middle.hash = request.hash := by
      rw [complain, get_modify, there, Option.map_some]
      split
      · exact ⟨_, rfl, rfl⟩
      · exact ⟨_, rfl, rfl⟩
    obtain ⟨middle, here, same⟩ := moved
    obtain ⟨still, found, kept⟩ := ih _ middle here
    exact ⟨still, found, kept.trans same⟩

theorem step_queue (taken : step casing shown db action = some next) (key : Key) (request : Request)
    (there : db.pending.get key = some request) :
    (∃ still, next.pending.get key = some still ∧ still.hash = request.hash) ∨
      (∃ items row, action = .save items ∧ row ∈ publishable casing shown db items ∧
        row.key = key ∧ row.hash = request.hash) ∨
      ∃ ancestor header, action = .rollback ancestor header ∧ ancestor < key.2 := by
  have unmoved (same : next.pending = db.pending) :
      ∃ still, next.pending.get key = some still ∧ still.hash = request.hash :=
    ⟨request, same ▸ there, rfl⟩
  cases action with
  | queue pools block hash =>
    cases taken
    exact .inl ⟨request, get_insertAll_some _ _ _ _ there, rfl⟩
  | markErrors now complaints =>
    cases taken
    exact .inl (complaints_keep casing now complaints db.pending key request there)
  | header number block => exact .inl (unmoved (storeHeader_tables number block taken).2)
  | save items =>
    rw [step, saveV3Balances] at taken
    dsimp only at taken
    split at taken
    · cases taken
      exact .inl (unmoved rfl)
    · split at taken
      · cases taken
      · cases taken
        rcases dropRequest_keeps (publishable casing shown db items) (0, db.pending) key request
          there with still | ⟨row, member, own, same⟩
        · exact .inl ⟨request, still, rfl⟩
        · exact .inr (.inl ⟨items, row, rfl, member, own, same⟩)
  | rollback ancestor header =>
    obtain ⟨middle, -, pending, rfl⟩ := rollback_unwinds ancestor header taken
    by_cases above : ancestor < key.2
    · exact .inr (.inr ⟨ancestor, header, rfl, above⟩)
    · left
      refine ⟨request, ?_, rfl⟩
      unfold unwind
      simp only [get_remove, pending, there]
      simpa using above

theorem balancesOnce_run (now : ℚ) (fetched : List Fetched)
    (taken : balancesOnce casing shown db now fetched = some next) :
    ∃ complaints, (ledger casing shown).run db
      [.save ((completed fetched).map Prod.snd), .markErrors now complaints] = some next := by
  obtain ⟨⟨outcomes, middle⟩, saved, rfl⟩ := Option.map_eq_some_iff.mp taken
  refine ⟨rejected fetched outcomes, ?_⟩
  simp only [GuardedRuns.System.run, ledger, step, saved]
  rfl

/-- In every state of every run the balance of a pool is its newest canonical snapshot; it goes
back only in a rollback below it, and a request is only taken from the queue with the snapshot
of its own block. -/
theorem balances_newest (db : Db) (reached : (ledger casing shown).Reaches GuardedRuns.always db) :
    (∀ id pool, db.pools.get id = some pool → Current db id pool.current) ∧
    ∀ action next, step casing shown db action = some next →
      (∀ id pool later, db.pools.get id = some pool → next.pools.get id = some later →
        ∀ balance, pool.current = some balance →
          (∃ newest, later.current = some newest ∧ balance.block ≤ newest.block) ∨
            ∃ ancestor header, action = .rollback ancestor header ∧ ancestor < balance.block) ∧
      ∀ key request, db.pending.get key = some request →
        (∃ still, next.pending.get key = some still ∧ still.hash = request.hash) ∨
          (∃ items row, action = .save items ∧ row ∈ publishable casing shown db items ∧
            row.key = key ∧ row.hash = request.hash) ∨
          ∃ ancestor header, action = .rollback ancestor header ∧ ancestor < key.2 :=
  ⟨(reached_kept casing shown db reached).current, fun action next taken =>
    ⟨step_moves casing shown db next action taken, step_queue casing shown db next action taken⟩⟩

end

def samplePool : String := String.ofList (List.replicate 42 'a')

def sampleHash : String := String.ofList (List.replicate 66 'b')

def sampleShown : Value → String
  | .str text => text
  | _ => ""

def sampleDb : Db where
  pools := OrderedTable.empty.put samplePool ⟨"v3", some 1, none, none⟩
  blocks := OrderedTable.empty.put 5 ⟨sampleHash, 50⟩
  pending := .empty
  balances := .empty

def sampleActions : List Action :=
  [.queue [samplePool] 5 sampleHash,
    .save [⟨.str samplePool, .int 5, .str sampleHash, .int 7, .int 9⟩]]

def sampleSaved : Db := ((ledger asciiCasing sampleShown).run sampleDb sampleActions).getD sampleDb

theorem sampleSaved_pool : sampleSaved.pools.get samplePool =
    some ⟨"v3", some 1, none, some ⟨"7", "9", 5, 50⟩⟩ := by
  decide

theorem sampleSaved_ran : (ledger asciiCasing sampleShown).run sampleDb sampleActions =
    some sampleSaved := by
  rfl

theorem sampleDb_fresh : (ledger asciiCasing sampleShown).start sampleDb := by
  refine ⟨fun id pool there => ?_, rfl, rfl⟩
  rw [sampleDb, get_put, get_empty] at there
  split at there
  · cases there
    rfl
  · cases there

theorem balances_newest_sample : Newest sampleSaved samplePool ⟨"7", "9", 5, 50⟩ :=
  (balances_newest asciiCasing sampleShown sampleSaved
    (.run sampleDb sampleSaved sampleActions (.start _ sampleDb_fresh)
      (GuardedRuns.System.runMeets_always _ _) sampleSaved_ran)).1 samplePool _ sampleSaved_pool

end RhPools.PoolBalances
