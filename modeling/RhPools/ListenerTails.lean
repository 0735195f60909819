import RhPools.LogTails
import RhPools.ObservationWindows

/-! `PostgresListener`: a ledger of rows for each source instance, tailed into the window
along a cursor for each instance, under one budget of rows for a whole refresh. The world
around it is a ledger that grows from one query to the next, a clock, and connections that
are refused or break at any query. -/

namespace RhPools.ListenerTails

open OrderedTables ObservationWindows LogTails

structure LedgerRow where
  sequence : Int
  eventAtMs : Int
  orderId : Option String
  recordKind : String
  chain : Option String
  transactionHash : Option String
  eventIndex : String
  kind : String
  status : String
  blockNumber : Option Int
deriving DecidableEq

/-- The rows of every source instance, by rising sequence, with times that do not fall. -/
structure Ledger where
  instances : OrderedTable String (List LedgerRow)
  ordered : ∀ entry ∈ instances.entries,
    Ordered LedgerRow.sequence LedgerRow.eventAtMs entry.2

def Ledger.rows (ledger : Ledger) (name : String) : List LedgerRow :=
  (ledger.instances.get name).getD []

/-- `source_state`: the instances with an event since then, and their last sequence. -/
def Ledger.live (ledger : Ledger) (sinceMs : Int) : List (String × Int) :=
  ledger.instances.entries.filterMap fun entry =>
    (entry.2.getLast?.filter fun last => sinceMs ≤ last.eventAtMs).map
      fun last => (entry.1, last.sequence)

/-- `SELECT order_id, MIN(event_at_unix_ms) .. GROUP BY order_id`. -/
def Ledger.orderTimes (ledger : Ledger) (orderIds : List String) : List (String × Int) :=
  let rows := ledger.instances.entries.flatMap Prod.snd
  orderIds.filterMap fun order =>
    ((rows.filter fun row => row.orderId = some order).map LedgerRow.eventAtMs).min?.map
      fun first => (order, first)

/-- Everything around the listener, by the number of queries made so far. -/
structure World where
  ledger : Nat → Ledger
  /-- `time.time()`, in milliseconds. -/
  clock : Nat → Int
  refuses : Nat → Bool
  breaks : Nat → Bool
  grows : ∀ asked name, (ledger asked).rows name <+: (ledger (asked + 1)).rows name

structure Settings where
  lower : String → String
  tailBudget : Int
  retryMs : Int

structure PostgresListener where
  window : ObservationWindow
  connected : Bool
  cursors : OrderedTable String Int
  retryAt : Int
  /-- Queries so far. -/
  asked : Nat
  /-- The rows of every tail query so far; nothing reads them. -/
  pulled : List (List (String × LedgerRow))

def PostgresListener.fresh (windowS : Int) : PostgresListener :=
  ⟨.fresh windowS, false, .empty, 0, 0, []⟩

def listenerTailRows : Nat := 5000

/-- A row of a tail query as the window is given it, if it is one of FOMO's on this chain. -/
def LedgerRow.entry (row : LedgerRow) : Option ListenerRow :=
  match row.transactionHash with
  | none => none
  | some txHash =>
    if row.recordKind = "fomo_observation" ∧ row.chain = some "robinhood" ∧ txHash ≠ "" then
      some ⟨txHash, row.eventIndex, row.kind, row.status, row.orderId, row.eventAtMs, row.blockNumber⟩
    else none

def PostgresListener.ask {Answer : Type} (world : World) (read : Ledger → Answer)
    (listener : PostgresListener) : Option Answer × PostgresListener :=
  let asked := { listener with asked := listener.asked + 1 }
  if world.breaks listener.asked then (none, asked)
  else (some (read (world.ledger listener.asked)), asked)

/-- `_query`: connects when there is no connection, and then knows no cursor. -/
def PostgresListener.query {Answer : Type} (world : World) (read : Ledger → Answer)
    (listener : PostgresListener) : Option Answer × PostgresListener :=
  if listener.connected then listener.ask world read
  else if world.clock listener.asked < listener.retryAt then (none, listener)
  else if world.refuses listener.asked then
    (none, { listener with asked := listener.asked + 1 })
  else { listener with connected := true, cursors := .empty }.ask world read

/-- `_fail`. -/
def PostgresListener.fail (world : World) (settings : Settings) (listener : PostgresListener) :
    PostgresListener :=
  { listener with
    connected := false
    retryAt := world.clock listener.asked + settings.retryMs }

/-- The loop of `_seek`. -/
def seekFrom (world : World) (name : String) (sinceMs : Int) :
    Nat → Int → Int → PostgresListener → Option Int × PostgresListener
  | 0, low, _, listener => (some low, listener)
  | fuel + 1, low, high, listener =>
    if low < high then
      let middle := (low + high + 1) / 2
      match listener.query world fun ledger =>
          firstFrom LedgerRow.sequence (ledger.rows name) middle with
      | (none, listener) => (none, listener)
      | (some found, listener) =>
        if (found.map fun row => decide (row.eventAtMs < sinceMs)) = some true then
          seekFrom world name sinceMs fuel middle high listener
        else seekFrom world name sinceMs fuel low (middle - 1) listener
    else (some low, listener)

def seek (world : World) (name : String) (lastSequence sinceMs : Int)
    (listener : PostgresListener) : Option Int × PostgresListener :=
  seekFrom world name sinceMs lastSequence.toNat 0 lastSequence listener

def PostgresListener.take (settings : Settings) (name : String) (rows : List LedgerRow)
    (listener : PostgresListener) : PostgresListener :=
  { listener with
    window := listener.window.ingest settings.lower (rows.filterMap LedgerRow.entry)
    pulled := listener.pulled ++ [rows.map fun row => (name, row)] }

def pullFrom (world : World) (settings : Settings) (name : String) :
    Nat → Int → Int → PostgresListener → Option (Int × Int) × PostgresListener
  | 0, cursor, budget, listener => (some (cursor, budget), listener)
  | fuel + 1, cursor, budget, listener =>
    if 0 < budget then
      match listener.query world fun ledger =>
          batch LedgerRow.sequence (ledger.rows name) cursor (min (listenerTailRows : Int) budget).toNat with
      | (none, listener) => (none, listener)
      | (some rows, listener) =>
        match rows.getLast? with
        | none => (some (cursor, budget), listener)
        | some last =>
          let listener := listener.take settings name rows
          if rows.length < listenerTailRows then
            (some (last.sequence, budget - rows.length), listener)
          else pullFrom world settings name fuel last.sequence (budget - rows.length) listener
    else (some (cursor, budget), listener)

def cursorOf (world : World) (name : String) (lastSequence sinceMs : Int)
    (listener : PostgresListener) : Option Int × PostgresListener :=
  match listener.cursors.get name with
  | some cursor => (some cursor, listener)
  | none => seek world name lastSequence sinceMs listener

def PostgresListener.store (name : String) (cursor : Int) (listener : PostgresListener) :
    PostgresListener :=
  { listener with cursors := listener.cursors.assign name cursor }

/-- The loop of `_refresh` over the live instances. -/
def refreshEach (world : World) (settings : Settings) (sinceMs : Int) :
    List (String × Int) → Int → PostgresListener → Option Unit × PostgresListener
  | [], _, listener => (some (), listener)
  | (name, lastSequence) :: rest, budget, listener =>
    match cursorOf world name lastSequence sinceMs listener with
    | (none, listener) => (none, listener)
    | (some cursor, listener) =>
      match pullFrom world settings name budget.toNat cursor budget listener with
      | (none, listener) => (none, listener)
      | (some (cursor, budget), listener) =>
        refreshEach world settings sinceMs rest budget (listener.store name cursor)

def PostgresListener.sinceMs (world : World) (listener : PostgresListener) : Int :=
  world.clock listener.asked - listener.window.windowS * 1000

/-- `_refresh`. -/
def refresh (world : World) (settings : Settings) (listener : PostgresListener) :
    Option Unit × PostgresListener :=
  let sinceMs := listener.sinceMs world
  match listener.query world fun ledger => ledger.live sinceMs with
  | (none, listener) => (none, listener)
  | (some live, listener) => refreshEach world settings sinceMs live settings.tailBudget listener

/-- `_refresh_locked`. -/
def refreshLocked (world : World) (settings : Settings) (listener : PostgresListener) :
    Bool × PostgresListener :=
  if listener.connected = false ∧ world.clock listener.asked < listener.retryAt then (false, listener)
  else
    match refresh world settings listener with
    | (none, listener) => (false, listener.fail world settings)
    | (some (), listener) => (true, listener)

/-- What `facts` reads of a transaction. -/
structure TxEnvelope where
  txHash : String
  blockNumber : Int
  orderIds : List String

structure ListenerFacts where
  observations : List ListenerObservation
  orderFirstSeenMs : Option Int
  covered : Bool
deriving DecidableEq

def orderFirstSeen (lower : String → String) (times : List (String × Int)) : OrderedTable String Int :=
  times.foldl (fun table entry => table.assign (lower entry.1) entry.2) .empty

def PostgresListener.factsOf (settings : Settings) (listener : PostgresListener)
    (firstSeen : OrderedTable String Int) (env : TxEnvelope) : ListenerFacts :=
  { observations := listener.window.observations settings.lower env.txHash
    orderFirstSeenMs := (env.orderIds.filterMap firstSeen.get).min?
    covered := env.blockNumber ≤ listener.window.latestBlock }

def PostgresListener.answer (settings : Settings) (envelopes : List TxEnvelope)
    (listener : PostgresListener) (firstSeen : OrderedTable String Int) :
    OrderedTable String ListenerFacts :=
  envelopes.foldl
    (fun table env => table.assign env.txHash (listener.factsOf settings firstSeen env)) .empty

def facts (world : World) (settings : Settings) (envelopes : List TxEnvelope)
    (listener : PostgresListener) : OrderedTable String ListenerFacts × PostgresListener :=
  if envelopes = [] then (.empty, listener)
  else
    match refreshLocked world settings listener with
    | (false, listener) => (.empty, listener)
    | (true, listener) =>
      let orderIds := (envelopes.flatMap TxEnvelope.orderIds).dedup.insertionSort (· ≤ ·)
      if orderIds = [] then (listener.answer settings envelopes .empty, listener)
      else
        match listener.query world fun ledger => ledger.orderTimes orderIds with
        | (none, listener) => (.empty, listener.fail world settings)
        | (some times, listener) =>
          (listener.answer settings envelopes (orderFirstSeen settings.lower times), listener)

def factsAll (world : World) (settings : Settings) (windowS : Int)
    (calls : List (List TxEnvelope)) : PostgresListener :=
  calls.foldl (fun listener envelopes => (facts world settings envelopes listener).2) (.fresh windowS)

end RhPools.ListenerTails
