import Mathlib.Algebra.GroupWithZero.Nat
import Mathlib.Algebra.Ring.Int.Defs
import Mathlib.Data.List.Sort
import Mathlib.Data.Prod.Lex
import RhPools.GuardedRuns
import RhPools.OrderedTables

/-! The selected pool of the market service over one fixed chain. Two lanes work on it.
The live lane seeds the selection at a head, advances it and publishes snapshots; the
history lane reads logs off the lock and adds them when it is done. A read may stop
either lane half-way, and what it wrote until then stays. -/

namespace RhPools.SelectionLanes
open OrderedTables GuardedRuns

def MAX_CATCHUP_BLOCKS : Nat := 512
def SWAP_LOOKBACK_BLOCKS : Nat := 512
def MAX_SWAP_LOOKBACK_BLOCKS : Nat := 4096
def MAX_SWAPS : Nat := 2048
def MAX_BITMAP_WORDS : Int := 8
def MAX_TICK : Int := 887272

inductive LogBody where
  | swap (amount0 amount1 : Int)
  | mint
  | burn (amount : Nat)
  | modify (liquidityDelta : Int)
  | other
  deriving DecidableEq, Repr

def LogBody.changesShape : LogBody → Bool
  | .mint => true
  | .burn amount => amount ≠ 0
  | .modify liquidityDelta => liquidityDelta ≠ 0
  | _ => false

abbrev LogId := String × Nat

structure Log where
  txHash : String
  logIndex : Nat
  transactionIndex : Nat
  block : Nat
  body : LogBody
  deriving DecidableEq, Repr

def Log.id (log : Log) : LogId := (log.txHash, log.logIndex)

abbrev Place := Nat ×ₗ (Nat ×ₗ Nat)

def Log.place (log : Log) : Place := toLex (log.block, toLex (log.transactionIndex, log.logIndex))

/-- `sorted` by a place. -/
def sortedBy {Item : Type} (place : Item → Place) (items : List Item) : List Item :=
  items.insertionSort fun left right => place left ≤ place right

def wordOf (spacing tick : Int) : Int := tick / spacing / 256

/-- The chain as exact replies show it. Blocks come in the order of time, a log has
one block and one id, and the ticks of the pool change only where liquidity does. -/
structure Chain where
  concentrated : Bool
  spacing : Int
  timestamp : Nat → Int
  hash : Nat → String
  logs : Nat → List Log
  tick : Nat → Int
  bitmap : Nat → Int → Nat
  gross : Nat → Int → Nat
  net : Nat → Int → Int
  later : ∀ earlier block, earlier ≤ block → timestamp earlier ≤ timestamp block
  placed : ∀ block, ∀ log ∈ logs block, log.block = block
  distinct : ∀ block other, ∀ log ∈ logs block, ∀ log' ∈ logs other, log.id = log'.id → log = log'
  grossed : ∀ block (word : Int) (bit : Nat), bit < 256 → (bitmap block word).testBit bit →
    gross block ((word * 256 + bit) * spacing) ≠ 0
  unshaped : ∀ block, (∀ log ∈ logs (block + 1), log.body.changesShape = false) →
    bitmap (block + 1) = bitmap block ∧ net (block + 1) = net block

/-- A row of `swaps`. -/
structure Row where
  id : LogId
  block : Nat
  transactionIndex : Nat
  logIndex : Nat
  timestamp : Int
  amount0 : Int
  amount1 : Int
  /-- The qualification: `canonical_exact_logs`, or `verified_current_observation`. -/
  exact_ : Bool
  deriving DecidableEq, Repr

def Row.place (row : Row) : Place := toLex (row.block, toLex (row.transactionIndex, row.logIndex))

inductive EventKind where
  | swap
  | add
  | remove
  | other
  deriving DecidableEq, Repr

structure Event where
  blockHash : String
  txHash : String
  logIndex : Nat
  txIndex : Nat
  block : Nat
  timestamp : Int
  kind : EventKind
  amount0 : Int
  amount1 : Int
  liquidityDelta : Int
  deriving DecidableEq, Repr

def Event.identity (event : Event) : String × LogId :=
  (event.blockHash, event.txHash, event.logIndex)

def Event.place (event : Event) : Place := toLex (event.block, toLex (event.txIndex, event.logIndex))

/-- `_current_shape_change`. -/
def Event.shapeChange (event : Event) : Bool :=
  (event.kind = .add || event.kind = .remove) && event.liquidityDelta ≠ 0

def Event.row (event : Event) : Row where
  id := (event.txHash, event.logIndex)
  block := event.block
  transactionIndex := event.txIndex
  logIndex := event.logIndex
  timestamp := event.timestamp
  amount0 := event.amount0
  amount1 := event.amount1
  exact_ := false

def Event.tells (event : Event) (log : Log) : Prop :=
  event.txHash = log.txHash ∧ event.logIndex = log.logIndex ∧
    event.txIndex = log.transactionIndex ∧
    match log.body with
    | .swap amount0 amount1 =>
      event.kind = .swap ∧ event.amount0 = amount0 ∧ event.amount1 = amount1
    | body => event.kind ≠ .swap ∧ (event.shapeChange → body.changesShape)

/-- What the current lane hands over: events of the pool, all true, and the oldest
block that it still keeps. -/
structure Feed (chain : Chain) where
  events : List Event
  oldest : Option Nat
  truly : ∀ event ∈ events, event.timestamp = chain.timestamp event.block ∧
    event.blockHash = chain.hash event.block ∧ ∃ log ∈ chain.logs event.block, event.tells log

def Feed.none {chain : Chain} : Feed chain := ⟨[], Option.none, by simp⟩

structure Snapshot where
  block : Nat
  timestamp : Int
  swaps : List Row
  swapCoverageStartBlock : Option Nat
  minuteComplete : Bool
  tickNet : Int → Option Int
  curveWords : List Int
  curveComplete : Bool

structure Selection where
  needsSeed : Bool
  historyGeneration : Nat
  cursor : Nat
  cursorHash : String
  recentHistoryPending : Bool
  recentHistoryCursor : Nat
  historyError : Option String
  swaps : List Row
  swapsTruncatedThroughTimestamp : Option Int
  swapCoverageStartBlock : Option Nat
  swapCoverageStartTimestamp : Option Int
  swapCoverageThroughBlock : Option Nat
  swapCoverageThroughHash : Option String
  currentEventIdentities : OrderedTable (String × LogId) Event
  positionState : List (Int × Int)
  tickNet : Int → Option Int
  curveWords : List Int
  curveStateBlock : Option Nat
  curveVerifiedThroughBlock : Option Int
  curveDirtyFromBlock : Option Nat
  /-- The block at which the curve was last read. The code keeps no such mark. -/
  curveReadBlock : Nat
  snapshot : Option Snapshot

def Selection.new : Selection where
  needsSeed := true
  historyGeneration := 0
  cursor := 0
  cursorHash := ""
  recentHistoryPending := false
  recentHistoryCursor := 0
  historyError := none
  swaps := []
  swapsTruncatedThroughTimestamp := none
  swapCoverageStartBlock := none
  swapCoverageStartTimestamp := none
  swapCoverageThroughBlock := none
  swapCoverageThroughHash := none
  currentEventIdentities := .empty
  positionState := []
  tickNet := fun _ => none
  curveWords := []
  curveStateBlock := none
  curveVerifiedThroughBlock := none
  curveDirtyFromBlock := none
  curveReadBlock := 0
  snapshot := none

def mergeExisting (row : Row) : List Row → Option (List Row)
  | [] => none
  | existing :: rest =>
    if existing.id = row.id then some ({ row with exact_ := existing.exact_ || row.exact_ } :: rest)
    else (mergeExisting row rest).map (existing :: ·)

def truncated (limit : Nat) (ordered : List Row) (mark : Option Int) : List Row × Option Int :=
  let excess := ordered.length - limit
  (ordered.drop excess, (ordered.take excess).foldl
    (fun mark dropped => some (max dropped.timestamp (mark.getD 0))) mark)

/-- `_merge_swap_row`. -/
def Selection.mergeSwapRow (selection : Selection) (row : Row) : Selection :=
  match mergeExisting row selection.swaps with
  | some rows => { selection with swaps := rows }
  | none =>
    let kept := truncated MAX_SWAPS (sortedBy Row.place (selection.swaps ++ [row]))
      selection.swapsTruncatedThroughTimestamp
    { selection with
      swaps := kept.1
      swapsTruncatedThroughTimestamp := kept.2 }

def Selection.expireSwaps (selection : Selection) (cutoff : Int) : Selection :=
  { selection with swaps := selection.swaps.dropWhile fun row => decide (row.timestamp < cutoff) }

def logRow (chain : Chain) (log : Log) : Option Row :=
  match log.body with
  | .swap amount0 amount1 => some ⟨log.id, log.block, log.transactionIndex, log.logIndex,
      chain.timestamp log.block, amount0, amount1, true⟩
  | _ => none

/-- `_append_swaps`: the Swap logs become rows, and rows an hour older than the last
log go. -/
def Selection.appendSwaps (selection : Selection) (chain : Chain) (logs : List Log) : Selection :=
  let merged := (logs.filterMap (logRow chain)).foldl Selection.mergeSwapRow selection
  match (logs.map fun log => chain.timestamp log.block).max? with
  | none => merged
  | some last => merged.expireSwaps (last - 3600)

/-- Python's `mark or other`: a mark at block zero counts as none. -/
def orMark {Mark : Type} [Zero Mark] [DecidableEq Mark] (mark : Option Mark) (other : Mark) : Mark :=
  (mark.filter (· ≠ 0)).getD other

def wordRange (first last : Int) : List Int :=
  (List.range (last - first + 1).toNat).map fun (offset : Nat) => first + offset

/-- `_viewport_words`. -/
def viewportWords (spacing tick : Int) (positions : List (Int × Int)) : List Int :=
  if spacing ≤ 0 then []
  else
    let current := wordOf spacing tick
    let first := current - MAX_BITMAP_WORDS / 2
    let last := first + MAX_BITMAP_WORDS - 1
    let boundaries := positions.flatMap fun item => [wordOf spacing item.1, wordOf spacing item.2]
    let wantedFirst := boundaries.foldl min current
    let wantedLast := boundaries.foldl max current
    if positions = [] ∨ MAX_BITMAP_WORDS < wantedLast - wantedFirst + 1 then wordRange first last
    else
      let first := min first wantedFirst
      let last := max last wantedLast
      if last - first + 1 ≤ MAX_BITMAP_WORDS then wordRange first last
      else if first < wantedFirst then wordRange (last - MAX_BITMAP_WORDS + 1) last
      else wordRange first (first + MAX_BITMAP_WORDS - 1)

def initializedTicks (spacing word : Int) (bitmap : Nat) : List Int :=
  ((List.range 256).filter fun (bit : Nat) => bitmap.testBit bit).map fun (bit : Nat) =>
    (word * 256 + bit) * spacing

/-- `can_reuse`: whether words that are there may stand for a block. -/
def Selection.canReuse (selection : Selection) (block : Nat) : Bool :=
  selection.curveStateBlock = some block ||
    (selection.curveDirtyFromBlock.isNone &&
      selection.curveVerifiedThroughBlock.any fun verified => decide ((block : Int) ≤ verified))

def Selection.reusedWords (selection : Selection) (block : Nat) (words : List Int) : List Int :=
  if selection.canReuse block then selection.curveWords.filter (· ∈ words) else []

def ticksOf (chain : Chain) (block : Nat) (words : List Int) : List Int :=
  words.flatMap fun word => initializedTicks chain.spacing word (chain.bitmap block word)

/-- `_load_curve_state`, with the words given; none where it raises. -/
def Selection.loadCurveState (selection : Selection) (chain : Chain) (block : Nat)
    (words : List Int) : Option Selection :=
  if chain.concentrated = false ∨ words = [] then some selection
  else
    let reused := selection.reusedWords block words
    let initialized := ticksOf chain block (words.filter (· ∉ reused))
    if initialized.any fun tick => decide (tick < -MAX_TICK ∨ MAX_TICK < tick) then none
    else some { selection with
      tickNet := fun tick =>
        if tick ∈ initialized ∧ (chain.gross block tick ≠ 0 ∨ chain.net block tick ≠ 0) then
          some (chain.net block tick)
        else if wordOf chain.spacing tick ∈ reused then selection.tickNet tick
        else none
      curveWords := words
      curveReadBlock := block }

theorem loadCurveState_changes {selection loaded : Selection} {chain : Chain} {block : Nat}
    {words : List Int} (found : selection.loadCurveState chain block words = some loaded) :
    ∃ tickNet curveWords curveReadBlock, loaded = { selection with
      tickNet := tickNet
      curveWords := curveWords
      curveReadBlock := curveReadBlock } := by
  unfold Selection.loadCurveState at found
  split at found
  · cases found
    exact ⟨_, _, _, rfl⟩
  · simp only at found
    split at found
    · cases found
    · cases found
      exact ⟨_, _, _, rfl⟩

def Selection.markCurve (selection : Selection) (block : Nat) : Selection :=
  { selection with
    curveStateBlock := some block
    curveVerifiedThroughBlock := some block
    curveDirtyFromBlock := none }

/-- One event of `_apply_current_events`. -/
def Selection.applyEvent (selection : Selection) (event : Event) : Selection :=
  let previous := selection.currentEventIdentities.get event.identity
  if previous = some event then selection
  else
    let noted := { selection with
      currentEventIdentities := selection.currentEventIdentities.assign event.identity event
      curveDirtyFromBlock :=
        if previous.isNone && event.shapeChange &&
            decide (orMark (selection.curveStateBlock.map Int.ofNat) (-1) < event.block) then
          some (min event.block (orMark selection.curveDirtyFromBlock event.block))
        else selection.curveDirtyFromBlock }
    if event.kind = .swap then noted.mergeSwapRow event.row else noted

/-- What `_sync_current_events` does to the mark of the curve. -/
def Selection.verifyBelowDirty (selection : Selection) : Selection :=
  match selection.curveStateBlock, selection.curveDirtyFromBlock with
  | some stateBlock, some dirty => { selection with
      curveVerifiedThroughBlock := some (min
        (orMark selection.curveVerifiedThroughBlock stateBlock) (dirty - 1)) }
  | _, _ => selection

/-- `_sync_current_events`. -/
def Selection.syncCurrentEvents {chain : Chain} (selection : Selection) (feed : Feed chain)
    (throughBlock : Nat) : Selection :=
  let events := sortedBy Event.place (feed.events.filter (·.block ≤ throughBlock))
  let synced := (events.foldl Selection.applyEvent selection).verifyBelowDirty
  match feed.oldest with
  | none => synced
  | some oldest => { synced with
      currentEventIdentities := synced.currentEventIdentities.keep
        (synced.currentEventIdentities.entries.filter fun entry => decide (oldest ≤ entry.2.block))
        List.filter_sublist }

/-- `minute_complete` of `_lp_summary`. -/
def Selection.minuteComplete (selection : Selection) (headerTimestamp : Int) : Bool :=
  let cutoff := headerTimestamp - 60
  selection.historyError.isNone &&
    selection.swapCoverageThroughBlock.any (fun through =>
      decide (selection.cursor < through ∨ through = selection.cursor ∧
        selection.swapCoverageThroughHash = some selection.cursorHash)) &&
    selection.swapCoverageStartTimestamp.any (fun start => decide (start ≤ cutoff)) &&
    selection.swapsTruncatedThroughTimestamp.all fun mark => decide (mark < cutoff)

/-- `complete_through_snapshot` of `_snapshot`. -/
def Selection.curveComplete (selection : Selection) (chain : Chain) (block : Nat) : Bool :=
  !chain.concentrated ||
    (!selection.curveWords.isEmpty && selection.curveDirtyFromBlock.isNone &&
      selection.curveVerifiedThroughBlock.any fun verified => decide ((block : Int) ≤ verified))

/-- `_snapshot` at a header, published. -/
def Selection.publish (selection : Selection) (chain : Chain) (block : Nat) : Selection :=
  let timestamp := chain.timestamp block
  let expired := selection.expireSwaps (timestamp - 3600)
  { expired with
    snapshot := some {
      block := block
      timestamp := timestamp
      swaps := expired.swaps
      swapCoverageStartBlock := expired.swapCoverageStartBlock
      minuteComplete := expired.minuteComplete timestamp
      tickNet := expired.tickNet
      curveWords := expired.curveWords
      curveComplete := expired.curveComplete chain block } }

inductive Progress where
  | begun
  | synced
  | loaded
  | published
  deriving DecidableEq, Repr

/-- What `_seed_selection` forgets. -/
def Selection.cleared (selection : Selection) : Selection :=
  { selection with
    historyGeneration := selection.historyGeneration + 1
    positionState := []
    tickNet := fun _ => none
    curveWords := []
    curveStateBlock := none
    curveVerifiedThroughBlock := none
    curveDirtyFromBlock := none
    swaps := []
    swapsTruncatedThroughTimestamp := none
    swapCoverageStartBlock := none
    swapCoverageStartTimestamp := none
    swapCoverageThroughBlock := none
    swapCoverageThroughHash := none
    currentEventIdentities := .empty
    historyError := none
    recentHistoryCursor := 0 }

def seedWords (spacing tick : Int) : List Int :=
  let words := viewportWords spacing tick []
  if 2 < words.length then
    let current := wordOf spacing tick
    let neighbor := if tick / spacing % 256 < 128 then current - 1 else current + 1
    words.filter fun word => word = current ∨ word = neighbor
  else words

def Selection.seededAt (selection : Selection) (chain : Chain) (head : Nat) : Selection :=
  { selection.markCurve head with
    cursor := head
    cursorHash := chain.hash head
    needsSeed := false
    recentHistoryPending := true
    historyError := some "recent event history is loading off the live state lane" }

/-- `_seed_selection` at a head. -/
def Selection.seed {chain : Chain} (selection : Selection) (head : Nat) (feed : Feed chain) :
    Progress → Option Selection
  | .begun => some selection
  | .synced => some selection.cleared
  | progress =>
    match selection.cleared.loadCurveState chain head
      (seedWords chain.spacing (chain.tick head)) with
    | none => some selection.cleared
    | some loaded =>
      if progress = .loaded then some loaded
      else some (((loaded.seededAt chain head).syncCurrentEvents feed head).publish chain head)

def Selection.distrusted (selection : Selection) : Selection := { selection with needsSeed := true }

def Selection.refreshCurve (selection : Selection) (chain : Chain) (head : Nat) :
    Option (Selection × Bool) :=
  let wanted := viewportWords chain.spacing (chain.tick head) selection.positionState
  if chain.concentrated ∧ (wanted ≠ selection.curveWords ∨
      selection.curveDirtyFromBlock.any fun dirty => decide (dirty ≤ head)) then
    (selection.loadCurveState chain head wanted).map fun loaded => (loaded, true)
  else some (selection, false)

theorem refreshCurve_changes {selection loaded : Selection} {chain : Chain} {head : Nat}
    {refreshed : Bool} (found : selection.refreshCurve chain head = some (loaded, refreshed)) :
    ∃ tickNet curveWords curveReadBlock, loaded = { selection with
      tickNet := tickNet
      curveWords := curveWords
      curveReadBlock := curveReadBlock } := by
  unfold Selection.refreshCurve at found
  simp only at found
  split at found
  · obtain ⟨read, loading, same⟩ := Option.map_eq_some_iff.mp found
    cases same
    exact loadCurveState_changes loading
  · cases found
    exact ⟨_, _, _, rfl⟩

def Selection.advancedTo (selection : Selection) (chain : Chain) (head : Nat) (refreshed : Bool) :
    Selection :=
  let marked :=
    if chain.concentrated = false then { selection with
      curveStateBlock := some head
      curveVerifiedThroughBlock := some head }
    else if refreshed then selection.markCurve head
    else selection
  { marked with
    cursor := head
    cursorHash := chain.hash head
    recentHistoryPending := true
    historyError := marked.historyError.or
      (some "recent event history is catching up off the live state lane") }

/-- `_advance_selection` at a head. Whether a snapshot at the same head is due depends
on more than is modelled here. -/
def Selection.advance {chain : Chain} (selection : Selection) (head : Nat) (feed : Feed chain)
    (progress : Progress) : Selection :=
  if head < selection.cursor then selection.distrusted
  else if head = selection.cursor ∧ chain.hash head ≠ selection.cursorHash then
    selection.distrusted
  else if selection.cursor + MAX_CATCHUP_BLOCKS < head then selection.distrusted
  else if chain.hash selection.cursor ≠ selection.cursorHash then selection.distrusted
  else if progress = .begun then selection
  else
    let synced := selection.syncCurrentEvents feed head
    if progress = .synced then synced
    else match synced.refreshCurve chain head with
      | none => synced
      | some (loaded, refreshed) =>
        if progress = .loaded then loaded
        else if head = selection.cursor then
          (if refreshed then loaded.markCurve head else loaded).publish chain head
        else (loaded.advancedTo chain head refreshed).publish chain head

/-- What `_load_recent_history` takes along when it leaves the lock. -/
structure Job where
  generation : Nat
  block : Nat
  blockHash : String
  recentCursor : Nat
  timestamp : Int
  deriving DecidableEq, Repr

/-- The loop of `_swap_seed_boundary`: the distance grows until the start is old enough. -/
def boundaryFrom (chain : Chain) (block : Nat) (target : Int) : Nat → Nat → Nat
  | 0, distance => block - distance
  | fuel + 1, distance =>
    let start := block - distance
    if chain.timestamp start ≤ target ∨ start = 0 ∨ MAX_SWAP_LOOKBACK_BLOCKS ≤ distance then start
    else boundaryFrom chain block target fuel
      (min MAX_SWAP_LOOKBACK_BLOCKS (max (distance + 1) (distance * 2)))

/-- `_swap_seed_boundary`. -/
def swapSeedBoundary (chain : Chain) (block : Nat) (timestamp : Int) : Nat :=
  boundaryFrom chain block (timestamp - 60) MAX_SWAP_LOOKBACK_BLOCKS (min block SWAP_LOOKBACK_BLOCKS)

/-- `_logs` of a range. -/
def logsOf (chain : Chain) (start last : Nat) : List Log :=
  sortedBy Log.place ((List.range' start (last + 1 - start)).flatMap chain.logs)

def Selection.beginHistory (selection : Selection) : Option Job :=
  if selection.recentHistoryPending = false ∨ selection.needsSeed ∨ selection.cursor = 0 then none
  else some ⟨selection.historyGeneration, selection.cursor, selection.cursorHash,
    selection.recentHistoryCursor, (selection.snapshot.map Snapshot.timestamp).getD 0⟩

def Job.start (job : Job) (chain : Chain) : Nat :=
  if 0 < job.recentCursor then job.recentCursor + 1
  else swapSeedBoundary chain job.block job.timestamp

def Selection.coverSwaps (selection : Selection) (chain : Chain) (start block : Nat) : Selection :=
  let through := max block (selection.swapCoverageThroughBlock.getD 0)
  let earlier := selection.swapCoverageStartBlock.all fun known => decide (start < known)
  { selection with
    swapCoverageStartBlock := if earlier then some start else selection.swapCoverageStartBlock
    swapCoverageStartTimestamp :=
      if earlier then some (chain.timestamp start) else selection.swapCoverageStartTimestamp
    swapCoverageThroughBlock := some through
    swapCoverageThroughHash :=
      if through = block then some (chain.hash block) else selection.swapCoverageThroughHash }

def Selection.coverShape (selection : Selection) (logs : List Log) (start block : Nat) : Selection :=
  let stateBlock := orMark (selection.curveStateBlock.map Int.ofNat) (-1)
  let shapeBlocks := (logs.filter (·.body.changesShape)).map Log.block
  match (shapeBlocks.filter fun (shaped : Nat) => decide (stateBlock < (shaped : Int))).min? with
  | some dirty => { selection with
      curveDirtyFromBlock := some (min dirty (orMark selection.curveDirtyFromBlock dirty))
      curveVerifiedThroughBlock :=
        some (min (orMark selection.curveVerifiedThroughBlock stateBlock) (dirty - 1)) }
  | none =>
    let verified := orMark selection.curveVerifiedThroughBlock stateBlock
    if selection.curveStateBlock.isSome ∧ (start : Int) ≤ verified + 1 then { selection with
      curveVerifiedThroughBlock := some (max block verified) }
    else selection

/-- The end of `_load_recent_history`: what was read off the lock is added, unless the
selection has moved to another seed. -/
def Selection.finishHistory (selection : Selection) (chain : Chain) (job : Job) : Selection :=
  if selection.needsSeed ∨ selection.historyGeneration ≠ job.generation then selection
  else if chain.hash job.block ≠ job.blockHash then selection.distrusted
  else if selection.cursor < job.block then selection
  else
    let start := job.start chain
    let logs := logsOf chain start job.block
    let added := ((selection.coverSwaps chain start job.block).appendSwaps chain logs).coverShape logs
      start job.block
    let pending := decide (job.block < added.cursor)
    { added with
      recentHistoryPending := pending
      historyError := if pending then
        some "recent event history is catching up off the live state lane" else none
      recentHistoryCursor := max added.recentHistoryCursor job.block }

structure World where
  selection : Selection
  job : Option Job

inductive Action (chain : Chain) where
  | seed (head : Nat) (feed : Feed chain) (progress : Progress)
  | advance (head : Nat) (feed : Feed chain) (progress : Progress)
  /-- Any other error of a lane that asks for a new seed. -/
  | distrust
  | beginHistory
  | finishHistory
  | historyFailed (message : String)
  /-- `_scan_older_positions` comes to its end. -/
  | olderScanned
  /-- The participants are read again, and with them the ranges of the owner. -/
  | refreshed (positions : List (Int × Int))

def step (chain : Chain) (world : World) : Action chain → Option World
  | .seed head feed progress =>
    if world.selection.needsSeed then
      (world.selection.seed head feed progress).map fun selection => { world with selection := selection }
    else none
  | .advance head feed progress =>
    if world.selection.needsSeed then none
    else some { world with selection := world.selection.advance head feed progress }
  | .distrust => some { world with selection := world.selection.distrusted }
  | .beginHistory => match world.job, world.selection.beginHistory with
      | none, some job => some { world with job := some job }
      | _, _ => none
  | .finishHistory => world.job.map fun job =>
    ⟨world.selection.finishHistory chain job, none⟩
  | .historyFailed message => world.job.map fun _ =>
    ⟨{ world.selection with historyError := some message }, none⟩
  | .olderScanned =>
    if world.selection.needsSeed then none
    else some { world with selection := { world.selection with historyError := none } }
  | .refreshed positions =>
    some { world with selection := { world.selection with positionState := positions } }

def laneRuns (chain : Chain) : System World (Action chain) where
  start := (· = ⟨.new, none⟩)
  step := step chain

end RhPools.SelectionLanes
