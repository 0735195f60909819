import Mathlib.Algebra.BigOperators.Group.List.Basic
import Mathlib.Algebra.Group.Prod
import RhPools.SelectionLanes

/-! Fees of the positions of a V3 selection. The history lane adds mints, burns and
collections to an account that starts at a baseline; the maintenance thread reads claims
again at the cursor and makes the baselines. A row shows fees for a position that has a
claim and an account. Before any claim is read the thread collects the ticks of the
tracking points, and no tracking point has one. -/

namespace RhPools.PositionFees
open GuardedRuns OrderedTables SelectionLanes

def MAX_TRACKING_POINTS : Nat := 512
def MAX_PARTICIPANT_RANGES : Nat := 2048

abbrev Key := String × Int × Int

/-- The five words of `positions`. -/
structure Storage where
  liquidity : Nat
  feeGrowth0Last : Nat
  feeGrowth1Last : Nat
  owed0 : Nat
  owed1 : Nat
  deriving DecidableEq, Repr

inductive FlowKind where
  | mint
  | burn
  | collect
  deriving DecidableEq, Repr

structure Flow where
  key : Key
  block : Nat
  kind : FlowKind
  liquidityDelta : Int
  amount0 : Nat
  amount1 : Nat
  deriving DecidableEq, Repr

/-- What a flow leaves in the balance of fees: a collection is counted, the principal
that a burn moves into the claim is taken away. -/
def Flow.balance (flow : Flow) : Int × Int :=
  match flow.kind with
  | .mint => (0, 0)
  | .burn => (-flow.amount0, -flow.amount1)
  | .collect => (flow.amount0, flow.amount1)

/-- A point of `tracking`; the price, a float, is left out. -/
structure TrackingPoint where
  block : Nat
  timestamp : Int
  activeLiquidity : Nat
  deriving DecidableEq, Repr

/-- `int(point[name])` of the dictionary that `_record_tracking` makes. -/
def TrackingPoint.item (point : TrackingPoint) : String → Option Int
  | "block" => some point.block
  | "timestamp" => some point.timestamp
  | "active_liquidity" => some point.activeLiquidity
  | _ => none

/-- `(left - right) & (2 ** 256 - 1)`. -/
def wrappedSub (left right : Nat) : Nat := (((left : Int) - right) % 2 ^ 256).toNat

def feeGrowthAmount (liquidity current previous : Nat) : Nat :=
  liquidity * wrappedSub current previous / 2 ^ 128

/-- `fee_claim` for one token: the total claim. -/
def feeClaim (liquidity growthLast owed global lowerOutside upperOutside : Nat)
    (tick lower upper : Int) : Nat :=
  let below := if lower ≤ tick then lowerOutside else wrappedSub global lowerOutside
  let above := if tick < upper then upperOutside else wrappedSub global upperOutside
  let inside := wrappedSub (wrappedSub global below) above
  owed + feeGrowthAmount liquidity inside growthLast

/-- `fee_claim` for both tokens. -/
def feeClaims (storage : Storage) (global lowerOutside upperOutside : Nat × Nat)
    (tick lower upper : Int) : Nat × Nat :=
  (feeClaim storage.liquidity storage.feeGrowth0Last storage.owed0 global.1 lowerOutside.1
    upperOutside.1 tick lower upper,
   feeClaim storage.liquidity storage.feeGrowth1Last storage.owed1 global.2 lowerOutside.2
    upperOutside.2 tick lower upper)

structure PoolChain extends Chain where
  flows : Nat → List Flow
  storage : Nat → Key → Storage
  liquidity : Nat → Nat
  feeGrowthGlobal : Nat → Nat × Nat
  feeGrowthOutside : Nat → Int → Nat × Nat
  flowPlaced : ∀ block, ∀ flow ∈ flows block, flow.block = block

def amounts (pair : Nat × Nat) : Int × Int := (pair.1, pair.2)

def PoolChain.claimAt (chain : PoolChain) (block : Nat) (key : Key) : Nat × Nat :=
  feeClaims (chain.storage block key) (chain.feeGrowthGlobal block)
    (chain.feeGrowthOutside block key.2.1) (chain.feeGrowthOutside block key.2.2)
    (chain.tick block) key.2.1 key.2.2

def PoolChain.flowsOf (chain : PoolChain) (key : Key) (since through : Nat) : List Flow :=
  ((List.range' (since + 1) (through - since)).flatMap chain.flows).filter (·.key = key)

def balanceOf (flows : List Flow) : Int × Int := (flows.map Flow.balance).sum

/-- The fees that a position earned after one block, through another: the growth of its
claim, with what was collected and without the principal that was burned. -/
def PoolChain.earned (chain : PoolChain) (key : Key) (since through : Nat) : Int × Int :=
  amounts (chain.claimAt through key) - amounts (chain.claimAt since key) +
    balanceOf (chain.flowsOf key since through)

/-- An entry of `participant_accounting`; the equity and dollar values are left out. -/
structure Accounting where
  baselineBlock : Nat
  baselineClaim : Nat × Nat
  deposited : Nat × Nat
  burnPrincipal : Nat × Nat
  collected : Nat × Nat
  deriving DecidableEq, Repr

/-- A new entry of `_establish_accounting_baselines`. -/
def Accounting.baseline (block : Nat) (claim : Nat × Nat) : Accounting :=
  ⟨block, claim, (0, 0), (0, 0), (0, 0)⟩

/-- `_apply_accounting_logs` for one log. -/
def Accounting.add (accounting : Accounting) (flow : Flow) : Accounting :=
  let amount := (flow.amount0, flow.amount1)
  if flow.block ≤ accounting.baselineBlock then accounting
  else match flow.kind with
  | .mint => { accounting with deposited := accounting.deposited + amount }
  | .burn => { accounting with burnPrincipal := accounting.burnPrincipal + amount }
  | .collect => { accounting with collected := accounting.collected + amount }

/-- The fees of `_interval_amounts`. -/
def intervalFees (accounting : Accounting) (claim : Nat × Nat) : Int × Int :=
  amounts claim + amounts accounting.collected - amounts accounting.burnPrincipal -
    amounts accounting.baselineClaim

theorem flowsOf_after {chain : PoolChain} {key : Key} {since through : Nat} {flow : Flow}
    (member : flow ∈ chain.flowsOf key since through) : since < flow.block := by
  obtain ⟨inside, _⟩ := List.mem_filter.mp member
  obtain ⟨block, within, placed⟩ := List.mem_flatMap.mp inside
  rw [chain.flowPlaced block flow placed]
  exact (List.mem_range'_1.mp within).1

variable (accounting : Accounting) (watch : Watch) (flow : Flow) (points : List TrackingPoint)
  (flows : List Flow) (chain : PoolChain)

theorem flowsOf_split (key : Key) {since middle through : Nat} (early : since ≤ middle)
    (late : middle ≤ through) :
    chain.flowsOf key since through =
      chain.flowsOf key since middle ++ chain.flowsOf key middle through := by
  have blocks : List.range' (since + 1) (through - since) =
      List.range' (since + 1) (middle - since) ++ List.range' (middle + 1) (through - middle) := by
    have met : middle + 1 = since + 1 + (middle - since) := by omega
    have whole : through - since = (middle - since) + (through - middle) := by omega
    rw [whole, met, List.range'_append_1]
  rw [PoolChain.flowsOf, blocks, List.flatMap_append, List.filter_append]
  rfl

theorem balanceOf_append (left right : List Flow) :
    balanceOf (left ++ right) = balanceOf left + balanceOf right := by
  simp [balanceOf]

theorem intervalFees_add (claim : Nat × Nat) (later : accounting.baselineBlock < flow.block) :
    intervalFees (accounting.add flow) claim = intervalFees accounting claim + flow.balance := by
  have counted : ¬flow.block ≤ accounting.baselineBlock := Nat.not_le.mpr later
  cases kind : flow.kind <;>
    ext <;> simp [intervalFees, Accounting.add, Flow.balance, amounts, counted, kind] <;> omega

theorem add_baselineBlock :
    (accounting.add flow).baselineBlock = accounting.baselineBlock := by
  unfold Accounting.add
  simp only
  split
  · rfl
  · cases flow.kind <;> rfl

theorem intervalFees_addAll (accounting : Accounting) (claim : Nat × Nat)
    (later : ∀ flow ∈ flows, accounting.baselineBlock < flow.block) :
    intervalFees (flows.foldl Accounting.add accounting) claim =
      intervalFees accounting claim + balanceOf flows := by
  induction flows generalizing accounting with
  | nil => simp [balanceOf]
  | cons flow rest ih =>
    have first := intervalFees_add accounting flow claim (later flow List.mem_cons_self)
    have others : ∀ flow' ∈ rest, (accounting.add flow).baselineBlock < flow'.block := by
      intro flow' member
      rw [add_baselineBlock]
      exact later flow' (List.mem_cons_of_mem _ member)
    rw [List.foldl_cons, ih (accounting.add flow) others, first]
    simp [balanceOf, add_assoc]

/-- With flows through one block and the claim of an earlier one, what flowed between
them is counted on one side only. -/
theorem intervalFees_split (key : Key) {since read through : Nat} (early : since ≤ read)
    (late : read ≤ through) :
    intervalFees ((chain.flowsOf key since through).foldl Accounting.add
        (.baseline since (chain.claimAt since key))) (chain.claimAt read key) =
      chain.earned key since read + balanceOf (chain.flowsOf key read through) := by
  have later : ∀ flow ∈ chain.flowsOf key since through,
      (Accounting.baseline since (chain.claimAt since key)).baselineBlock < flow.block := by
    intro flow member
    exact flowsOf_after member
  rw [intervalFees_addAll _ _ _ later, flowsOf_split chain key early late, balanceOf_append]
  ext <;> simp [intervalFees, Accounting.baseline, PoolChain.earned, amounts] <;> omega

theorem intervalFees_earned (key : Key) {since through : Nat} (ordered : since ≤ through) :
    intervalFees ((chain.flowsOf key since through).foldl Accounting.add
        (.baseline since (chain.claimAt since key))) (chain.claimAt through key) =
      chain.earned key since through := by
  rw [intervalFees_split chain key ordered (Nat.le_refl through)]
  simp [PoolChain.flowsOf, balanceOf]

/-- An entry of `participant_state`; claim and block are there once it was claimed. -/
structure ParticipantState where
  storage : Storage
  claim : Option (Nat × Nat)
  block : Option Nat
  deriving DecidableEq, Repr

inductive AccountingStatus where
  | baselinePending
  | baselineInvalidated
  | invalidCashflowReconciliation
  | validSinceObservation
  deriving DecidableEq, Repr

structure ParticipantRow where
  status : AccountingStatus
  fees : Option (Int × Int)
  sinceBlock : Option Nat
  deriving DecidableEq, Repr

structure Shown where
  block : Nat
  rows : Key → Option ParticipantRow

structure Watch where
  owner : Option String
  needsSeed : Bool
  historyGeneration : Nat
  cursor : Nat
  cursorHash : String
  coreBlock : Option Nat
  recentHistoryPending : Bool
  recentHistoryCursor : Nat
  tracking : List TrackingPoint
  participantRanges : OrderedTable Key Nat
  participantState : Key → Option ParticipantState
  participantTickFees : Int → Option (Nat × Nat)
  participantAccounting : Key → Option Accounting
  participantRefreshBlock : Option Nat
  participantRefreshError : Option String
  shown : Option Shown

def Watch.new (owner : Option String) : Watch where
  owner := owner
  needsSeed := true
  historyGeneration := 0
  cursor := 0
  cursorHash := ""
  coreBlock := none
  recentHistoryPending := false
  recentHistoryCursor := 0
  tracking := []
  participantRanges := .empty
  participantState := fun _ => none
  participantTickFees := fun _ => none
  participantAccounting := fun _ => none
  participantRefreshBlock := none
  participantRefreshError := none
  shown := none

def Watch.claim (watch : Watch) (key : Key) : Option (Nat × Nat) :=
  (watch.participantState key).bind ParticipantState.claim

/-- The row of a position in `_participant_rows`. Rows of closed positions, which the code
may leave out, are kept. -/
def Watch.row (watch : Watch) (key : Key) : Option ParticipantRow :=
  (watch.claim key).map fun claim =>
    match watch.participantAccounting key with
    | none => ⟨.baselinePending, none, none⟩
    | some accounting =>
      let fees := intervalFees accounting claim
      if fees.1 < 0 ∨ fees.2 < 0 then ⟨.invalidCashflowReconciliation, none, none⟩
      else ⟨.validSinceObservation, some fees, some accounting.baselineBlock⟩

def Watch.publish (watch : Watch) (block : Nat) : Watch :=
  { watch with shown := some ⟨block, watch.row⟩ }

/-- `_record_tracking`: one point a block, the newest ones. -/
def recordTracking (tracking : List TrackingPoint) (point : TrackingPoint) : List TrackingPoint :=
  let byBlock := (tracking.filter (·.block ≠ point.block) ++ [point]).insertionSort
    fun left right => left.block ≤ right.block
  byBlock.drop (byBlock.length - MAX_TRACKING_POINTS)

def Watch.track (watch : Watch) (points : List TrackingPoint) : Watch :=
  { watch with tracking := points.foldl recordTracking watch.tracking }

def Watch.remember (watch : Watch) (flow : Flow) : Watch :=
  { watch with
    participantRanges := watch.participantRanges.assign flow.key
      (max flow.block ((watch.participantRanges.get flow.key).getD 0)) }

/-- What `_remember_participants` looks at to keep a range: whether it is the owner's,
whether it is open, and its newest block. -/
def Watch.rank (watch : Watch) (entry : Key × Nat) : Bool ×ₗ (Bool ×ₗ Nat) :=
  toLex (decide (watch.owner = some entry.1.1),
    toLex ((watch.participantState entry.1).any fun state => decide (0 < state.storage.liquidity),
      entry.2))

def Watch.retained (watch : Watch) (limit : Nat) : OrderedTable Key Nat :=
  ⟨(watch.participantRanges.entries.insertionSort
      fun left right => watch.rank right ≤ watch.rank left).take limit, by
    have sorted := ((List.perm_insertionSort (fun left right => watch.rank right ≤ watch.rank left)
      watch.participantRanges.entries).map Prod.fst).nodup_iff.mpr watch.participantRanges.distinct
    exact sorted.sublist ((List.take_sublist _ _).map Prod.fst)⟩

def bounds (keys : List Key) (boundary : Int) : Bool :=
  keys.any fun key => decide (key.2.1 = boundary ∨ key.2.2 = boundary)

/-- `_remember_participants`. -/
def Watch.rememberParticipants (watch : Watch) (flows : List Flow) : Watch :=
  let noted := flows.foldl Watch.remember watch
  if noted.participantRanges.size ≤ MAX_PARTICIPANT_RANGES then noted
  else
    let retained := noted.retained MAX_PARTICIPANT_RANGES
    let held := fun key => (retained.get key).isSome
    { noted with
      participantRanges := retained
      participantState := fun key => (noted.participantState key).filter fun _ => held key
      participantTickFees := fun boundary => (noted.participantTickFees boundary).filter fun _ =>
        bounds ((retained.entries.map Prod.fst).filter fun key =>
          (noted.participantState key).isSome) boundary
      participantAccounting := fun key =>
        (noted.participantAccounting key).filter fun _ => held key }

def Watch.noteRange (watch : Watch) (flow : Flow) : Watch :=
  if (watch.participantRanges.get flow.key).isSome ∨
      watch.participantRanges.size < MAX_PARTICIPANT_RANGES then watch.remember flow
  else watch

def ParticipantState.moved (state : ParticipantState) (flow : Flow) : ParticipantState :=
  if state.block.all fun block => decide (block < flow.block) then
    { state with
      storage := { state.storage with
        liquidity := (state.storage.liquidity + flow.liquidityDelta).toNat } }
  else state

/-- `_apply_current_events` for an event of a position. -/
def Watch.applyFlow (watch : Watch) (flow : Flow) : Watch :=
  let noted := watch.noteRange flow
  if watch.owner = some flow.key.1 ∧ flow.kind ≠ .collect then
    { noted with
      participantState := Function.update noted.participantState flow.key
        ((noted.participantState flow.key).map (·.moved flow)) }
  else noted

def Watch.sync (watch : Watch) (points : List TrackingPoint) (flows : List Flow) : Watch :=
  flows.foldl Watch.applyFlow (watch.track points)

/-- `_invalidate_participant_accounting`, with the new seed that it comes with. -/
def Watch.invalidated (watch : Watch) : Watch :=
  { watch with
    needsSeed := true
    participantAccounting := fun _ => none
    participantState := fun _ => none
    participantTickFees := fun _ => none
    shown := watch.shown.map fun shown => { shown with
      rows := fun key => (shown.rows key).map fun _ => ⟨.baselineInvalidated, none, none⟩ } }

/-- What `_seed_selection` forgets. -/
def Watch.cleared (watch : Watch) : Watch :=
  { watch with
    historyGeneration := watch.historyGeneration + 1
    recentHistoryCursor := 0
    tracking := []
    participantRanges := .empty
    participantState := fun _ => none
    participantTickFees := fun _ => none
    participantAccounting := fun _ => none
    participantRefreshBlock := none
    participantRefreshError := none }

def Watch.movedTo (watch : Watch) (chain : PoolChain) (head : Nat) : Watch :=
  { watch with
    needsSeed := false
    cursor := head
    cursorHash := chain.hash head
    coreBlock := some head
    recentHistoryPending := true }

/-- `_record_core_tracking`. -/
def Watch.recordCore (watch : Watch) (chain : PoolChain) (head : Nat) : Watch :=
  watch.track [⟨head, chain.timestamp head, chain.liquidity head⟩]

/-- `_seed_selection` at a head. -/
def Watch.seed (watch : Watch) (chain : PoolChain) (head : Nat) (points : List TrackingPoint)
    (flows : List Flow) : Progress → Watch
  | .begun => watch
  | .published =>
    (((watch.cleared.movedTo chain head).sync points flows).recordCore chain head).publish head
  | _ => watch.cleared

/-- `_advance_selection` at a head. -/
def Watch.advance (watch : Watch) (chain : PoolChain) (head : Nat) (points : List TrackingPoint)
    (flows : List Flow) (progress : Progress) : Watch :=
  if head < watch.cursor ∨ watch.cursor + MAX_CATCHUP_BLOCKS < head ∨
      chain.hash watch.cursor ≠ watch.cursorHash then watch.invalidated
  else if progress = .begun then watch
  else
    let synced := watch.sync points flows
    if progress ≠ .published then synced
    else if head = watch.cursor then synced.publish head
    else ((synced.movedTo chain head).recordCore chain head).publish head

/-- One log of `_apply_accounting_logs`. -/
def Watch.account (watch : Watch) (flow : Flow) : Watch :=
  { watch with
    participantAccounting := Function.update watch.participantAccounting flow.key
      ((watch.participantAccounting flow.key).map (·.add flow)) }

def Watch.beginHistory (watch : Watch) (chain : PoolChain) : Option Job :=
  if watch.recentHistoryPending = false ∨ watch.needsSeed ∨ watch.cursor = 0 then none
  else some ⟨watch.historyGeneration, watch.cursor, watch.cursorHash, watch.recentHistoryCursor,
    (watch.shown.map fun shown => chain.timestamp shown.block).getD 0⟩

/-- The end of `_load_recent_history`, with the points of the swaps that are new. -/
def Watch.finishHistory (watch : Watch) (chain : PoolChain) (job : Job)
    (points : List TrackingPoint) : Watch :=
  if watch.needsSeed ∨ watch.historyGeneration ≠ job.generation then watch
  else if chain.hash job.block ≠ job.blockHash then watch.invalidated
  else if watch.cursor < job.block then watch
  else
    let start := job.start chain.toChain
    let flows := (List.range' start (job.block + 1 - start)).flatMap chain.flows
    { flows.foldl Watch.account ((watch.track points).rememberParticipants flows) with
      recentHistoryPending := decide (job.block < watch.cursor)
      recentHistoryCursor := max watch.recentHistoryCursor job.block }

def Watch.addStates (watch : Watch) (chain : PoolChain) (anchor : Nat) (keys : List Key) : Watch :=
  { watch with
    participantState := fun key => (watch.participantState key).or
      (if key ∈ keys then some ⟨chain.storage anchor key, none, none⟩ else none) }

/-- The end of `_scan_older_positions`: positions that are open at the anchor are added. -/
def Watch.addOlder (watch : Watch) (chain : PoolChain) (anchor : Nat) (flows : List Flow) : Watch :=
  let active := flows.filter fun flow =>
    let storage := chain.storage anchor flow.key
    decide (storage.liquidity ≠ 0 ∨ storage.owed0 ≠ 0 ∨ storage.owed1 ≠ 0)
  (watch.addStates chain anchor (active.map Flow.key)).rememberParticipants active

/-- What `_refresh_participants` takes along when it leaves the lock. -/
structure Reading where
  block : Nat
  generation : Nat
  keys : List Key
  resolved : List Key
  crossed : Int → Bool

/-- `needs_refresh` with the conditions before it. -/
def Watch.refreshDue (watch : Watch) : Bool :=
  !watch.needsSeed && watch.cursor != 0 && !watch.participantRanges.entries.isEmpty &&
    watch.coreBlock == some watch.cursor &&
    (watch.participantRefreshBlock != some watch.cursor ||
      watch.participantRanges.entries.any fun entry =>
        ((watch.participantState entry.1).bind ParticipantState.block).all fun read =>
          decide (read < entry.2))

/-- `tick_path` of `_refresh_selected_participants`; none where a point lacks the item. -/
def Watch.tickPath (watch : Watch) : Option (List Int) :=
  let refreshFrom := (watch.participantRefreshBlock.map Int.ofNat).getD (-1)
  (watch.tracking.filter fun point => decide (refreshFrom ≤ point.block)).mapM (·.item "tick")

/-- `_refresh_selected_participants` until it leaves the lock. -/
def Watch.beginRefresh (watch : Watch) : Except String (Option (Nat × List Int)) :=
  if watch.refreshDue then
    match watch.tickPath with
    | none => .error "off-lane participant refresh failed: 'tick'"
    | some path => .ok (some (watch.cursor, path))
  else .ok none

/-- `_refresh_participants` until it leaves the lock, with the keys that it picks. -/
def Watch.pickKeys (watch : Watch) (chain : PoolChain) (block : Nat) (tickPath : List Int)
    (keys : List Key) : Watch × Option Reading :=
  if watch.needsSeed ∨ watch.cursor ≠ block then (watch, none)
  else if watch.participantRanges.entries = [] then
    ({ watch with
      participantRefreshBlock := some block
      participantRefreshError := none }, none)
  else
    let tick := chain.tick block
    let path := (watch.shown.map fun shown => chain.tick shown.block).getD tick :: tickPath ++ [tick]
    let resolved := (watch.participantRanges.entries.map Prod.fst).filter fun key =>
      (watch.claim key).isSome
    (watch, some {
      block := block
      generation := watch.historyGeneration
      keys := keys
      resolved := resolved
      crossed := fun boundary => bounds resolved boundary && (path.zip path.tail).any fun moved =>
        decide (min moved.1 moved.2 < boundary ∧ boundary ≤ max moved.1 moved.2) })

/-- The ticks that are read: those of the picked keys, and those of known positions that
the price crossed. The rest stay as they were read before. -/
def Watch.tickFees (watch : Watch) (chain : PoolChain) (reading : Reading) (boundary : Int) :
    Option (Nat × Nat) :=
  if reading.crossed boundary ∨ bounds reading.keys boundary then
    some (chain.feeGrowthOutside reading.block boundary)
  else watch.participantTickFees boundary

/-- The end of `_refresh_participants`: the storage of the picked keys is new, and the
claims of these and of the known positions are computed at the block. -/
def Watch.finishReading (watch : Watch) (chain : PoolChain) (reading : Reading) : Watch :=
  if watch.needsSeed ∨ watch.cursor ≠ reading.block ∨
      watch.historyGeneration ≠ reading.generation then watch
  else
    let block := reading.block
    { watch with
      participantTickFees := watch.tickFees chain reading
      participantState := fun key =>
        let picked := decide (key ∈ reading.keys)
        let known := if picked then some ⟨chain.storage block key, none, none⟩
          else watch.participantState key
        known.map fun state =>
          match picked || decide (key ∈ reading.resolved), watch.tickFees chain reading key.2.1,
            watch.tickFees chain reading key.2.2 with
          | true, some lower, some upper =>
            { state with
              claim := some (feeClaims state.storage (chain.feeGrowthGlobal block) lower upper
                (chain.tick block) key.2.1 key.2.2)
              block := some block }
          | _, _, _ => state
      participantRefreshBlock := some block
      participantRefreshError := none }

/-- The end of `_refresh_selected_participants`: positions with a claim and without an
account get a baseline. -/
def Watch.establishBaselines (watch : Watch) (block : Nat) : Watch :=
  if watch.needsSeed ∨ watch.cursor ≠ block ∨ watch.participantRefreshBlock ≠ some block then watch
  else { watch with
    participantAccounting := fun key => (watch.participantAccounting key).or
      ((watch.claim key).map (Accounting.baseline block)) }

inductive Work where
  | history (job : Job)
  | picking (block : Nat) (tickPath : List Int)
  | reading (reading : Reading)
  | refreshed (block : Nat)

structure World where
  watch : Watch
  work : Option Work

inductive Action where
  | seed (head : Nat) (points : List TrackingPoint) (flows : List Flow) (progress : Progress)
  | advance (head : Nat) (points : List TrackingPoint) (flows : List Flow) (progress : Progress)
  /-- Any other error of a lane that asks for a new seed. -/
  | distrust
  | beginHistory
  | finishHistory (points : List TrackingPoint)
  | olderScanned (anchor : Nat) (flows : List Flow)
  | beginRefresh
  | pickKeys (keys : List Key)
  | finishReading
  | establishBaselines
  | workFailed

def step (chain : PoolChain) (world : World) : Action → Option World
  | .seed head points flows progress =>
    if world.watch.needsSeed then
      some { world with watch := world.watch.seed chain head points flows progress }
    else none
  | .advance head points flows progress =>
    if world.watch.needsSeed then none
    else some { world with watch := world.watch.advance chain head points flows progress }
  | .distrust => some { world with watch := world.watch.invalidated }
  | .beginHistory => match world.work, world.watch.beginHistory chain with
      | none, some job => some { world with work := some (.history job) }
      | _, _ => none
  | .finishHistory points => match world.work with
      | some (.history job) => some ⟨world.watch.finishHistory chain job points, none⟩
      | _ => none
  | .olderScanned anchor flows =>
    if world.watch.needsSeed then none
    else some { world with watch := world.watch.addOlder chain anchor flows }
  | .beginRefresh => match world.work, world.watch.beginRefresh with
      | none, .ok (some (block, path)) => some { world with work := some (.picking block path) }
      | none, .error message =>
        some { world with watch := { world.watch with participantRefreshError := some message } }
      | _, _ => none
  | .pickKeys keys => match world.work with
      | some (.picking block path) =>
        let picked := world.watch.pickKeys chain block path keys
        some ⟨picked.1, some (picked.2.elim (.refreshed block) .reading)⟩
      | _ => none
  | .finishReading => match world.work with
      | some (.reading reading) =>
        some ⟨world.watch.finishReading chain reading, some (.refreshed reading.block)⟩
      | _ => none
  | .establishBaselines => match world.work with
      | some (.refreshed block) => some ⟨world.watch.establishBaselines block, none⟩
      | _ => none
  | .workFailed => some { world with work := none }

def positionRuns (chain : PoolChain) : System World Action where
  start world := ∃ owner, world = ⟨.new owner, none⟩
  step := step chain

/-- A row that shows fees shows those earned since its baseline, through some block that
is not above the one of the snapshot. -/
def RowsOfOneBlock (chain : PoolChain) (world : World) : Prop :=
  ∀ shown, world.watch.shown = some shown → ∀ key row, shown.rows key = some row →
    row.status = .validSinceObservation → ∃ since fees, row.sinceBlock = some since ∧
      row.fees = some fees ∧ ∃ through, since ≤ through ∧ through ≤ shown.block ∧
        fees = chain.earned key since through

structure Unclaimed (watch : Watch) : Prop where
  tracked : watch.needsSeed = false → watch.tracking ≠ []
  claimless : ∀ key, watch.claim key = none
  accountless : ∀ key, watch.participantAccounting key = none
  unread : watch.participantRefreshBlock = none
  rowless : ∀ shown, watch.shown = some shown → ∀ key, shown.rows key = none

structure Unmoved (before after : Watch) : Prop where
  seeded : after.needsSeed = before.needsSeed
  tracked : before.tracking ≠ [] → after.tracking ≠ []
  claimless : (∀ key, before.claim key = none) → ∀ key, after.claim key = none
  accountless : (∀ key, before.participantAccounting key = none) →
    ∀ key, after.participantAccounting key = none
  unread : after.participantRefreshBlock = before.participantRefreshBlock
  shown : after.shown = before.shown

theorem Unmoved.refl : Unmoved watch watch :=
  ⟨rfl, id, id, id, rfl, rfl⟩

theorem Unmoved.trans {first second third : Watch} (left : Unmoved first second)
    (right : Unmoved second third) : Unmoved first third where
  seeded := right.seeded.trans left.seeded
  tracked := fun there => right.tracked (left.tracked there)
  claimless := fun none => right.claimless (left.claimless none)
  accountless := fun none => right.accountless (left.accountless none)
  unread := right.unread.trans left.unread
  shown := right.shown.trans left.shown

theorem Unclaimed.move {before after : Watch} (holds : Unclaimed before)
    (moved : Unmoved before after) : Unclaimed after where
  tracked := fun seeded => moved.tracked (holds.tracked (moved.seeded ▸ seeded))
  claimless := moved.claimless holds.claimless
  accountless := moved.accountless holds.accountless
  unread := moved.unread.trans holds.unread
  rowless := fun shown found => holds.rowless shown (moved.shown ▸ found)

theorem foldl_unmoved {Item : Type} (change : Watch → Item → Watch)
    (one : ∀ watch item, Unmoved watch (change watch item)) (items : List Item) (watch : Watch) :
    Unmoved watch (items.foldl change watch) := by
  induction items generalizing watch with
  | nil => exact .refl watch
  | cons item rest ih => exact (one watch item).trans (ih (change watch item))

theorem recordTracking_nonempty (tracking : List TrackingPoint) (point : TrackingPoint) :
    recordTracking tracking point ≠ [] := by
  obtain ⟨limit, bound⟩ : ∃ limit, MAX_TRACKING_POINTS = limit + 1 := ⟨511, rfl⟩
  intro empty
  have length := congrArg List.length empty
  simp only [recordTracking, bound, List.length_drop, List.length_insertionSort,
    List.length_append, List.length_singleton, List.length_nil] at length
  omega

theorem track_nonempty (tracking : List TrackingPoint) (there : tracking ≠ []) :
    points.foldl recordTracking tracking ≠ [] := by
  induction points generalizing tracking with
  | nil => exact there
  | cons point rest ih =>
    rw [List.foldl_cons]
    exact ih (recordTracking tracking point) (recordTracking_nonempty tracking point)

theorem track_unmoved :
    Unmoved watch (watch.track points) where
  seeded := rfl
  tracked := track_nonempty points watch.tracking
  claimless := id
  accountless := id
  unread := rfl
  shown := rfl

theorem remember_unmoved : Unmoved watch (watch.remember flow) :=
  ⟨rfl, id, id, id, rfl, rfl⟩

theorem noteRange_unmoved :
    Unmoved watch (watch.noteRange flow) := by
  unfold Watch.noteRange
  split
  · exact remember_unmoved watch flow
  · exact .refl watch

theorem moved_claim (state : ParticipantState) (flow : Flow) :
    (state.moved flow).claim = state.claim := by
  unfold ParticipantState.moved
  split <;> rfl

theorem applyFlow_unmoved : Unmoved watch (watch.applyFlow flow) := by
  have noted := noteRange_unmoved watch flow
  unfold Watch.applyFlow
  simp only
  split
  · refine noted.trans ⟨rfl, id, ?_, id, rfl, rfl⟩
    intro claimless key
    have before := claimless key
    show (Function.update (watch.noteRange flow).participantState flow.key _ key).bind _ = none
    by_cases same : key = flow.key
    · subst same
      rw [Function.update_self, Option.bind_map]
      rw [Watch.claim] at before
      cases found : (watch.noteRange flow).participantState flow.key with
      | none => rfl
      | some state =>
        rw [found] at before
        exact (moved_claim state flow).trans before
    · rw [Function.update_of_ne same]
      exact before
  · exact noted

theorem sync_unmoved :
    Unmoved watch (watch.sync points flows) :=
  (track_unmoved watch points).trans
    (foldl_unmoved Watch.applyFlow applyFlow_unmoved flows _)

theorem rememberParticipants_unmoved :
    Unmoved watch (watch.rememberParticipants flows) := by
  have noted := foldl_unmoved Watch.remember remember_unmoved flows watch
  unfold Watch.rememberParticipants
  simp only
  split
  · exact noted
  · refine noted.trans ⟨rfl, id, ?_, ?_, rfl, rfl⟩
    · intro claimless key
      have before := claimless key
      unfold Watch.claim at before ⊢
      simp only
      cases found : (flows.foldl Watch.remember watch).participantState key with
      | none => rfl
      | some state =>
        rw [found] at before
        simp only [Option.filter_some]
        split
        · exact before
        · rfl
    · intro accountless key
      simp [accountless key]

theorem account_unmoved : Unmoved watch (watch.account flow) := by
  refine ⟨rfl, id, id, ?_, rfl, rfl⟩
  intro accountless key
  show Function.update watch.participantAccounting flow.key _ key = none
  rw [accountless flow.key, Option.map_none]
  by_cases same : key = flow.key
  · rw [same, Function.update_self]
  · rw [Function.update_of_ne same]
    exact accountless key

theorem addStates_unmoved (anchor : Nat) (keys : List Key) :
    Unmoved watch (watch.addStates chain anchor keys) := by
  refine ⟨rfl, id, ?_, id, rfl, rfl⟩
  intro claimless key
  have before := claimless key
  unfold Watch.claim at before ⊢
  simp only [Watch.addStates]
  cases found : watch.participantState key with
  | none =>
    simp only [Option.none_or]
    split <;> rfl
  | some state =>
    rw [found] at before
    exact before

theorem addOlder_unmoved (anchor : Nat) (flows : List Flow) :
    Unmoved watch (watch.addOlder chain anchor flows) :=
  (addStates_unmoved watch chain anchor _).trans (rememberParticipants_unmoved _ _)

theorem unclaimed_new (owner : Option String) : Unclaimed (.new owner) where
  tracked := by simp [Watch.new]
  claimless := fun _ => rfl
  accountless := fun _ => rfl
  unread := rfl
  rowless := by simp [Watch.new]

theorem Unclaimed.publish {watch : Watch} (holds : Unclaimed watch) (block : Nat) :
    Unclaimed (watch.publish block) where
  tracked := holds.tracked
  claimless := holds.claimless
  accountless := holds.accountless
  unread := holds.unread
  rowless := by
    rintro shown found key
    cases found
    show Option.map _ (watch.claim key) = none
    rw [holds.claimless key]
    rfl

theorem Unclaimed.invalidated {watch : Watch} (holds : Unclaimed watch) :
    Unclaimed watch.invalidated where
  tracked := by simp [Watch.invalidated]
  claimless := fun _ => rfl
  accountless := fun _ => rfl
  unread := holds.unread
  rowless := by
    rintro shown found key
    obtain ⟨before, there, rfl⟩ := Option.map_eq_some_iff.mp found
    show Option.map _ (before.rows key) = none
    rw [holds.rowless before there key]
    rfl

theorem recordCore_tracking (head : Nat) :
    (watch.recordCore chain head).tracking =
      recordTracking watch.tracking ⟨head, chain.timestamp head, chain.liquidity head⟩ := by
  rw [Watch.recordCore, Watch.track, List.foldl_cons, List.foldl_nil]

theorem Unclaimed.recordCore {watch : Watch} (chain : PoolChain) (head : Nat)
    (claimless : ∀ key, watch.claim key = none)
    (accountless : ∀ key, watch.participantAccounting key = none)
    (unread : watch.participantRefreshBlock = none)
    (rowless : ∀ shown, watch.shown = some shown → ∀ key, shown.rows key = none) :
    Unclaimed (watch.recordCore chain head) := by
  have moved : Unmoved watch (watch.recordCore chain head) := track_unmoved watch _
  have tracked : (watch.recordCore chain head).tracking ≠ [] := by
    rw [recordCore_tracking]
    exact recordTracking_nonempty watch.tracking _
  refine ⟨fun _ => tracked, moved.claimless claimless, moved.accountless accountless,
    moved.unread.trans unread, ?_⟩
  intro shown found
  exact rowless shown (moved.shown.symm.trans found)

theorem Unclaimed.cleared {watch : Watch} (holds : Unclaimed watch)
    (unseeded : watch.needsSeed = true) : Unclaimed watch.cleared where
  tracked := by
    intro seeded
    rw [show watch.cleared.needsSeed = true from unseeded] at seeded
    cases seeded
  claimless := fun _ => rfl
  accountless := fun _ => rfl
  unread := rfl
  rowless := holds.rowless

theorem Unclaimed.seed {watch : Watch} (holds : Unclaimed watch) (chain : PoolChain) (head : Nat)
    (points : List TrackingPoint) (flows : List Flow) (progress : Progress)
    (unseeded : watch.needsSeed = true) :
    Unclaimed (watch.seed chain head points flows progress) := by
  cases progress with
  | begun => exact holds
  | synced => exact holds.cleared unseeded
  | loaded => exact holds.cleared unseeded
  | published =>
    have moved := sync_unmoved (watch.cleared.movedTo chain head) points flows
    have cleared := holds.cleared unseeded
    apply Unclaimed.publish
    apply Unclaimed.recordCore
    · exact moved.claimless cleared.claimless
    · exact moved.accountless cleared.accountless
    · exact moved.unread.trans cleared.unread
    · intro shown found
      exact cleared.rowless shown (moved.shown.symm.trans found)

theorem Unclaimed.advance {watch : Watch} (holds : Unclaimed watch) (chain : PoolChain)
    (head : Nat) (points : List TrackingPoint) (flows : List Flow) (progress : Progress) :
    Unclaimed (watch.advance chain head points flows progress) := by
  have synced := holds.move (sync_unmoved watch points flows)
  unfold Watch.advance
  simp only
  split
  · exact holds.invalidated
  · split
    · exact holds
    · split
      · exact synced
      · split
        · exact synced.publish head
        · apply Unclaimed.publish
          exact .recordCore chain head synced.claimless synced.accountless synced.unread
            synced.rowless

theorem Unclaimed.finishHistory {watch : Watch} (holds : Unclaimed watch) (chain : PoolChain)
    (job : Job) (points : List TrackingPoint) :
    Unclaimed (watch.finishHistory chain job points) := by
  unfold Watch.finishHistory
  split
  · exact holds
  · split
    · exact holds.invalidated
    · split
      · exact holds
      · simp only
        generalize (List.range' (job.start chain.toChain)
          (job.block + 1 - job.start chain.toChain)).flatMap chain.flows = flows
        have tracked := track_unmoved watch points
        have remembered := tracked.trans (rememberParticipants_unmoved (watch.track points) flows)
        have accounted := holds.move
          (remembered.trans (foldl_unmoved Watch.account account_unmoved flows _))
        exact ⟨accounted.tracked, accounted.claimless, accounted.accountless, accounted.unread,
          accounted.rowless⟩

theorem tickPath_missing {watch : Watch} (tracked : watch.tracking ≠ [])
    (unread : watch.participantRefreshBlock = none) : watch.tickPath = none := by
  obtain ⟨point, rest, points⟩ := List.exists_cons_of_ne_nil tracked
  simp [Watch.tickPath, unread, points, TrackingPoint.item]

theorem Unclaimed.beginRefresh {watch : Watch} (holds : Unclaimed watch) {block : Nat}
    {path : List Int} : watch.beginRefresh ≠ .ok (some (block, path)) := by
  unfold Watch.beginRefresh
  split
  · rename_i due
    have seeded : watch.needsSeed = false := by
      simp only [Watch.refreshDue, Bool.and_eq_true, Bool.not_eq_true'] at due
      exact due.1.1.1.1
    rw [tickPath_missing (holds.tracked seeded) holds.unread]
    simp
  · simp

/-- What holds between any two steps: nothing is claimed, and the maintenance thread is
at its history or at nothing. -/
structure Standing (world : World) : Prop where
  watch : Unclaimed world.watch
  work : ∀ work, world.work = some work → ∃ job, work = .history job

theorem standing_kept (world : World) (action : Action) (next : World) (holds : Standing world)
    (taken : step chain world action = some next) : Standing next := by
  cases action with
  | seed head points flows progress =>
    obtain ⟨unseeded, same⟩ := Option.ite_none_right_eq_some.mp taken
    cases same
    exact ⟨holds.watch.seed chain head points flows progress unseeded, holds.work⟩
  | advance head points flows progress =>
    obtain ⟨_, same⟩ := Option.ite_none_left_eq_some.mp taken
    cases same
    exact ⟨holds.watch.advance chain head points flows progress, holds.work⟩
  | distrust =>
    cases taken
    exact ⟨holds.watch.invalidated, holds.work⟩
  | beginHistory =>
    simp only [step] at taken
    split at taken
    · rename_i job _ _
      cases taken
      exact ⟨holds.watch, fun work same => ⟨job, (Option.some.inj same).symm⟩⟩
    · cases taken
  | finishHistory points =>
    simp only [step] at taken
    split at taken
    · rename_i job _
      cases taken
      exact ⟨holds.watch.finishHistory chain job points, by simp⟩
    · cases taken
  | olderScanned anchor flows =>
    obtain ⟨_, same⟩ := Option.ite_none_left_eq_some.mp taken
    cases same
    exact ⟨holds.watch.move (addOlder_unmoved world.watch chain anchor flows), holds.work⟩
  | beginRefresh =>
    simp only [step] at taken
    split at taken
    · rename_i begun
      exact absurd begun holds.watch.beginRefresh
    · cases taken
      exact ⟨holds.watch.move ⟨rfl, id, id, id, rfl, rfl⟩, holds.work⟩
    · cases taken
  | pickKeys keys =>
    simp only [step] at taken
    split at taken
    · rename_i found
      obtain ⟨job, same⟩ := holds.work _ found
      cases same
    · cases taken
  | finishReading =>
    simp only [step] at taken
    split at taken
    · rename_i found
      obtain ⟨job, same⟩ := holds.work _ found
      cases same
    · cases taken
  | establishBaselines =>
    simp only [step] at taken
    split at taken
    · rename_i found
      obtain ⟨job, same⟩ := holds.work _ found
      cases same
    · cases taken
  | workFailed =>
    cases taken
    exact ⟨holds.watch, by simp⟩

theorem standing_reached (world : World) (reached : (positionRuns chain).Reaches always world) :
    Standing world := by
  refine reached.invariant Standing ?_ ?_
  · rintro world ⟨owner, rfl⟩
    exact ⟨unclaimed_new owner, by simp⟩
  · intro world action next holds _ taken
    exact standing_kept chain world action next holds taken

def minted : Flow := ⟨("0xa", -10, 10), 100, .mint, 1000, 5, 5⟩

def oneMint : PoolChain where
  concentrated := true
  spacing := 1
  timestamp block := 2 * block
  hash block := toString block
  logs _ := []
  tick _ := 0
  bitmap _ _ := 0
  gross _ _ := 0
  net _ _ := 0
  later := by omega
  placed := by simp
  distinct := by simp
  grossed := by simp
  unshaped := by simp
  flows block := if block = 100 then [minted] else []
  storage block key :=
    if 100 ≤ block ∧ key = minted.key then ⟨1000, 0, 0, 0, 0⟩ else ⟨0, 0, 0, 0, 0⟩
  liquidity block := if 100 ≤ block then 1000 else 0
  feeGrowthGlobal _ := (0, 0)
  feeGrowthOutside _ _ := (0, 0)
  flowPlaced := by
    intro block flow member
    split at member
    · rename_i here
      rw [List.mem_singleton.mp member, here]
      rfl
    · cases member

def mintActions : List Action :=
  [.seed 100 [] [minted] .published, .beginRefresh, .beginHistory, .finishHistory [],
    .advance 101 [] [] .published, .beginRefresh]

theorem mintActions_taken :
    ((positionRuns oneMint).run ⟨.new (some "0xa"), none⟩ mintActions).isSome := by
  decide

def mintWorld : World :=
  ((positionRuns oneMint).run ⟨.new (some "0xa"), none⟩ mintActions).get mintActions_taken

end RhPools.PositionFees
