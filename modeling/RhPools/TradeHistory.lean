import RhPools.TxChain
import RhPools.OrderedTables
import RhPools.KeysetPaging

/-! Trade history: the durable store of trades, and the pages the core serves from
it, merged with what the chain logs show. A transaction hash is only compared, so it
is any ordered type. What the node answers is a view, one for each call. -/

namespace RhPools.TradeHistory
open TxChain OrderedTables KeysetPaging

variable {Hash : Type} [LinearOrder Hash]

inductive Token where
  | native
  | erc20 (address : Address)
  deriving DecidableEq, Repr

inductive Kind where
  | swap
  | lp
  deriving DecidableEq, Repr

/-- A stored row; `kind` cannot be anything the table's check refuses. -/
structure Trade (Hash : Type) where
  hash : Hash
  block : Int
  timestamp : Int
  kind : Kind
  sent : List (Token × Int)
  received : List (Token × Int)
  via : String
  fee : Option (Token × Int)
  deriving DecidableEq, Repr

/-- The table `trades`, whose primary key is the hash. -/
structure TradeStore (Hash : Type) where
  rows : List (Address × Trade Hash)
  distinct : (rows.map fun row => row.2.hash).Nodup

/-- `INSERT .. ON CONFLICT(hash) DO UPDATE`. -/
def upsert (wallet : Address) (trade : Trade Hash) :
    List (Address × Trade Hash) → List (Address × Trade Hash)
  | [] => [(wallet, trade)]
  | row :: rest =>
    if row.2.hash = trade.hash then (wallet, trade) :: rest else row :: upsert wallet trade rest

theorem mem_upsert (wallet : Address) (trade : Trade Hash) (rows : List (Address × Trade Hash))
    (row : Address × Trade Hash) (member : row ∈ upsert wallet trade rows) :
    row ∈ rows ∨ row = (wallet, trade) := by
  induction rows with
  | nil => simpa [upsert] using member
  | cons first rest ih =>
    unfold upsert at member
    split at member
    · rcases List.mem_cons.mp member with here | later
      · exact Or.inr here
      · exact Or.inl (List.mem_cons_of_mem first later)
    · rcases List.mem_cons.mp member with here | later
      · exact Or.inl (here ▸ List.mem_cons_self)
      · exact (ih later).imp_left (List.mem_cons_of_mem first)

theorem upsert_distinct (wallet : Address) (trade : Trade Hash)
    (rows : List (Address × Trade Hash)) (distinct : (rows.map fun row => row.2.hash).Nodup) :
    ((upsert wallet trade rows).map fun row => row.2.hash).Nodup := by
  induction rows with
  | nil => simp [upsert]
  | cons first rest ih =>
    obtain ⟨fresh, distinct⟩ := List.nodup_cons.mp distinct
    unfold upsert
    split
    · rename_i same
      exact List.nodup_cons.mpr ⟨by simpa only [← same] using fresh, distinct⟩
    · rename_i other
      refine List.nodup_cons.mpr ⟨?_, ih distinct⟩
      intro member
      obtain ⟨row, inside, equal⟩ := List.mem_map.mp member
      rcases mem_upsert wallet trade rest row inside with old | rfl
      · exact fresh (equal ▸ List.mem_map_of_mem (f := fun row => row.2.hash) old)
      · exact other equal.symm

/-- `TradeStore.save`. -/
def TradeStore.save (store : TradeStore Hash) (wallet : Address) (trade : Trade Hash) :
    TradeStore Hash :=
  ⟨upsert wallet trade store.rows, upsert_distinct wallet trade store.rows store.distinct⟩

def newer {Row : Type} (key : Row → Int × Hash) (first second : Row) : Prop :=
  toLex (key second) ≤ toLex (key first)

instance {Row : Type} (key : Row → Int × Hash) : DecidableRel (newer key) :=
  fun first second => inferInstanceAs (Decidable (toLex (key second) ≤ toLex (key first)))

def newestFirst {Row : Type} (key : Row → Int × Hash) (rows : List Row) : List Row :=
  rows.insertionSort (newer key)

def Trade.key (trade : Trade Hash) : Int × Hash := (trade.block, trade.hash)

/-- The `LIMIT` of the query. -/
def STORED_LIMIT : Nat := 51

/-- `TradeStore.history`. -/
def TradeStore.history (store : TradeStore Hash) (wallet : Address) (before : Option Int) :
    List (Trade Hash) :=
  let rows := store.rows.filter fun row =>
    row.1 = wallet ∧ ∀ bound ∈ before, row.2.block < bound
  (newestFirst Trade.key (rows.map Prod.snd)).take STORED_LIMIT

structure Described where
  symbol : String
  decimals : Int
  deriving DecidableEq, Repr

structure Leg where
  token : Token
  amount : Int
  described : Option Described
  deriving DecidableEq, Repr

inductive Source where
  | rhpools
  | chain
  deriving DecidableEq, Repr

structure Row (Hash : Type) where
  hash : Hash
  block : Int
  timestamp : Int
  kind : Option Kind
  sent : List Leg
  received : List Leg
  via : String
  fee : Option (Token × Int)
  source : Source
  deriving DecidableEq, Repr

def Row.key (row : Row Hash) : Int × Hash := (row.block, row.hash)

def Trade.row (trade : Trade Hash) : Row Hash :=
  { hash := trade.hash, block := trade.block, timestamp := trade.timestamp, kind := trade.kind
    sent := trade.sent.map fun leg => ⟨leg.1, leg.2, none⟩
    received := trade.received.map fun leg => ⟨leg.1, leg.2, none⟩
    via := trade.via, fee := trade.fee, source := .rhpools }

structure Page (Hash : Type) where
  rows : List (Row Hash)
  nextBefore : Option Int
  deriving DecidableEq, Repr

structure HistoryLog (Hash : Type) where
  transactionHash : Hash
  blockNumber : Int
  transactionIndex : Int

structure ChainTrade (Hash : Type) where
  hash : Hash
  block : Int
  sent : List (Token × Int)
  received : List (Token × Int)
  via : String

/-- What the node and the clock say during one call. `chainTrade` reads a transaction
of the wallet, nothing when it is no trade, and counts the traces spent so far;
`describe` gives the metadata of a token, fetched or remembered. -/
structure View (Hash : Type) where
  clock : ℚ
  latest : Try Int
  logs : Int → Int → Nat → Try (List (HistoryLog Hash))
  chainTrade : Hash → Int → Nat → Try (Option (ChainTrade Hash) × Nat)
  timestamp : Int → Try Int
  describe : Token → Try Described

def HISTORY_BLOCKS_PER_DAY : Int := 855000
def HISTORY_DAYS : Nat := 10
def HISTORY_LIMIT : Nat := 50
def HISTORY_WALLET_CACHE_LIMIT : Nat := 128
def HISTORY_CACHE_SECONDS : ℚ := 15

def windows (latest earliest : Int) (before : Option Int) : List Nat → List (Int × Int)
  | [] => []
  | day :: rest =>
    let upper := match before with
      | none => latest - day * HISTORY_BLOCKS_PER_DAY
      | some bound => min (latest - day * HISTORY_BLOCKS_PER_DAY) (bound - 1)
    let lower := max earliest (latest - (day + 1) * HISTORY_BLOCKS_PER_DAY + 1)
    if upper < earliest then []
    else if upper < lower then windows latest earliest before rest
    else (lower, upper) :: windows latest earliest before rest

/-- The dictionary `discovered`: a hash with its block and index. -/
def discover (found : List (Hash × Int × Int)) (log : HistoryLog Hash) : List (Hash × Int × Int) :=
  found.filter (fun entry => entry.1 ≠ log.transactionHash) ++
    [(log.transactionHash, log.blockNumber, log.transactionIndex)]

def discovered (view : View Hash) : List (Int × Int) → Try (List (HistoryLog Hash))
  | [] => .ok []
  | (lower, upper) :: rest => do
    let sent ← view.logs lower upper 1
    let received ← view.logs lower upper 2
    let later ← discovered view rest
    return sent ++ received ++ later

def describeLegs (view : View Hash) (legs : List (Token × Int)) : Try (List Leg) :=
  legs.mapM fun leg => do
    let described ← view.describe leg.1
    return ⟨leg.1, leg.2, some described⟩

/-- The loop over the transactions found on chain; `added` rows are in already. -/
def chainRows (view : View Hash) (stored : List Hash) :
    Nat → Nat → List (Hash × Int) → Try (List (Row Hash))
  | _, _, [] => .ok []
  | added, traces, (hash, block) :: rest =>
    if hash ∈ stored ∨ HISTORY_LIMIT + 1 ≤ added then chainRows view stored added traces rest
    else do
      let (found, traces) ← view.chainTrade hash block traces
      match found with
      | none => chainRows view stored added traces rest
      | some trade =>
        let timestamp ← view.timestamp trade.block
        let sent ← describeLegs view trade.sent
        let received ← describeLegs view trade.received
        let later ← chainRows view stored (added + 1) traces rest
        return { hash := hash, block := trade.block, timestamp := timestamp, kind := none
                 sent := sent, received := received, via := trade.via, fee := none
                 source := .chain } :: later

def describeRow (view : View Hash) (row : Row Hash) : Try (Row Hash) :=
  if row.source ≠ .rhpools then .ok row
  else do
    let sent ← describeLegs view (row.sent.map fun leg => (leg.token, leg.amount))
    let received ← describeLegs view (row.received.map fun leg => (leg.token, leg.amount))
    return { row with sent := sent, received := received }

abbrev PageCache (Hash : Type) := OrderedTable (Address × Option Int) (ℚ × Page Hash)

structure Core (Hash : Type) where
  store : Option (TradeStore Hash)
  pages : PageCache Hash

def transactions (view : View Hash) (latest : Int) (before : Option Int) : Try (List (Hash × Int)) := do
  let earliest := max 0 (latest - HISTORY_DAYS * HISTORY_BLOCKS_PER_DAY + 1)
  let days := if before.all (earliest < ·) then List.range HISTORY_DAYS else []
  let logs ← discovered view (windows latest earliest before days)
  let found := logs.foldl discover []
  let order := fun entry : Hash × Int × Int => (entry.2.1, toLex (entry.2.2, entry.1))
  return (newestFirst order found).map fun entry => (entry.1, entry.2.1)

/-- The part of `history` behind the page cache. -/
def freshPage (core : Core Hash) (view : View Hash) (wallet : Address) (before : Option Int) :
    Try (Page Hash) := do
  let latest ← view.latest
  let stored := match core.store with
    | none => []
    | some store => (store.history wallet before).map Trade.row
  let hashes ← transactions view latest before
  let chain ← chainRows view (stored.map Row.hash) 0 0 hashes
  let rows := newestFirst Row.key (stored ++ chain)
  let page ← (rows.take HISTORY_LIMIT).mapM (describeRow view)
  return ⟨page, if HISTORY_LIMIT < rows.length then page.getLast?.map Row.block else none⟩

def remember (core : Core Hash) (view : View Hash) (wallet : Address) (before : Option Int)
    (page : Page Hash) : Core Hash :=
  let kept := core.pages.put (wallet, before) (view.clock + HISTORY_CACHE_SECONDS, page)
  { core with pages := if HISTORY_WALLET_CACHE_LIMIT < kept.size then kept.popFirst else kept }

def fetchPage (core : Core Hash) (view : View Hash) (wallet : Address) (before : Option Int) :
    Try (Page Hash × Core Hash) := do
  let page ← freshPage core view wallet before
  return (page, remember core view wallet before page)

/-- `TxCore.history`. -/
def history (core : Core Hash) (view : View Hash) (wallet : Address) (before : Option Int) :
    Try (Page Hash × Core Hash) :=
  if before.any (· ≤ 0) then
    .error (.tx "invalid_intent" "before must be a positive block number")
  else match core.pages.get (wallet, before) with
    | none => fetchPage core view wallet before
    | some (expiry, page) =>
      if view.clock < expiry then
        .ok (page, { core with pages := core.pages.touch (wallet, before) })
      else fetchPage core view wallet before

/-- The end of `TxCore.receipt`: the trade is saved and the pages of its wallet dropped. -/
def recorded (core : Core Hash) (store : TradeStore Hash) (wallet : Address)
    (trade : Trade Hash) : Core Hash :=
  { store := some (store.save wallet trade)
    pages := core.pages.keep (core.pages.entries.filter fun entry => entry.1.1 ≠ wallet)
      List.filter_sublist }

end RhPools.TradeHistory
