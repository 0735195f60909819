import RhPools.MarketTables

/-! The accounting of one liquidity position, event by event. Mints, burns, collects and
transfers change what is known of its liquidity and of the principal that was released and not
yet collected; an episode runs from the first deposit to the last claim. -/

namespace RhPools.PositionEvents
open TxChain EventWords MarketTables

abbrev Numbers := String → Option (Option Int)

/-- `_state_number`: the first of the names that is there. -/
def stateNumber (numbers : Option Numbers) (names : List String) : Option Int :=
  (numbers.bind fun mapping => names.findSome? mapping).join

/-- The state of a position in the pool contract, before or after an event. -/
structure Snapshot where
  numbers : Numbers
  claimsEmpty : Option Bool

def Snapshot.liquidity (snapshot : Option Snapshot) : Option Int :=
  stateNumber (snapshot.map Snapshot.numbers) ["liquidity"]

def Snapshot.tokensOwed0 (snapshot : Option Snapshot) : Option Int :=
  stateNumber (snapshot.map Snapshot.numbers) ["tokens_owed0", "tokensOwed0"]

def Snapshot.tokensOwed1 (snapshot : Option Snapshot) : Option Int :=
  stateNumber (snapshot.map Snapshot.numbers) ["tokens_owed1", "tokensOwed1"]

inductive ProtocolName where
  | v2 | v3 | v4 | nft | unknown
  deriving DecidableEq, Repr

/-- The `data` of an event; `address` is what `_address` makes of a field. -/
structure EventData where
  address : String → Option Address
  positionBefore : Option Snapshot
  positionAfter : Option Snapshot
  callerDelta : Option Numbers
  feesAccrued : Option Numbers
  principalDelta : Option Numbers
  mint : Bool
  burn : Bool
  zeroBaseline : Bool
  traceComplete : Bool
  feesAccruedExact : Bool
  principalDeltaExact : Bool
  verifiedMintAfter : Bool
  verifiedBurnAfter : Bool
  cashflowBasis : Option String
  identityBasis : Option String

structure Spot where
  block : Int
  txIndex : Int
  logIndex : Int
  deriving DecidableEq, Repr

structure Event where
  id : EventId
  spot : Spot
  txHash : Hash
  timestamp : Int
  poolId : Option PoolId
  protocol : Option ProtocolName
  kind : Kind
  owner : Option Address
  custody : Option Address
  tokenId : Option Int
  tickLower : Option Int
  tickUpper : Option Int
  liquidityDelta : Option Int
  amount0 : Option Int
  amount1 : Option Int
  feeAmount0 : Option Int
  feeAmount1 : Option Int
  cashflow0 : Option Int
  cashflow1 : Option Int
  price0Usd : Option ℚ
  price1Usd : Option ℚ
  feesUsd : Option ℚ
  depositUsd : Option ℚ
  withdrawalUsd : Option ℚ
  accountingBasis : Option String
  identityBasis : Option String
  data : EventData

structure Decimals where
  decimals0 : Option Int
  decimals1 : Option Int

structure Amounts where
  deposit0 : Int
  deposit1 : Int
  proceeds0 : Int
  proceeds1 : Int
  released0 : Int
  released1 : Int
  principalWithdrawal0 : Int
  principalWithdrawal1 : Int
  fees0 : Int
  fees1 : Int
  deriving DecidableEq, Repr

def Amounts.zero : Amounts := ⟨0, 0, 0, 0, 0, 0, 0, 0, 0, 0⟩

def Amounts.add (amounts more : Amounts) : Amounts where
  deposit0 := amounts.deposit0 + more.deposit0
  deposit1 := amounts.deposit1 + more.deposit1
  proceeds0 := amounts.proceeds0 + more.proceeds0
  proceeds1 := amounts.proceeds1 + more.proceeds1
  released0 := amounts.released0 + more.released0
  released1 := amounts.released1 + more.released1
  principalWithdrawal0 := amounts.principalWithdrawal0 + more.principalWithdrawal0
  principalWithdrawal1 := amounts.principalWithdrawal1 + more.principalWithdrawal1
  fees0 := amounts.fees0 + more.fees0
  fees1 := amounts.fees1 + more.fees1

structure UsdAmounts where
  deposit : Option ℚ
  proceeds : Option ℚ
  withdrawal : Option ℚ
  fees : Option ℚ
  deriving DecidableEq, Repr

def addKnown (sum part : Option ℚ) : Option ℚ := sum.bind fun total => part.map (total + ·)

def UsdAmounts.add (usd more : UsdAmounts) : UsdAmounts where
  deposit := addKnown usd.deposit more.deposit
  proceeds := addKnown usd.proceeds more.proceeds
  withdrawal := addKnown usd.withdrawal more.withdrawal
  fees := addKnown usd.fees more.fees

inductive Status where
  | opened | partialHistory | ambiguousReentry | complete | awaitingClaim | transferredOut
  | nftBurnUnsettled
  deriving DecidableEq, Repr

structure Episode where
  id : String
  ordinal : Int
  tokenId : Option Int
  poolId : Option PoolId
  protocol : ProtocolName
  owner : Option Address
  custody : Option Address
  identityBasis : String
  tickLower : Option Int
  tickUpper : Option Int
  openedSpot : Spot
  openedAt : Int
  closedSpot : Option Spot
  closedAt : Option Int
  lastTimestamp : Int
  status : Status
  historyComplete : Bool
  identityComplete : Bool
  transferredBasis : Bool
  ambiguousReentry : Bool
  identityConflict : Bool
  traceComplete : Bool
  claimsComplete : Bool
  cashflowComplete : Bool
  pricingComplete : Bool
  feesComplete : Bool
  releaseComplete : Bool
  amounts : Amounts
  usd : UsdAmounts
  closePrice0Usd : Option ℚ
  closePrice1Usd : Option ℚ
  accountingBasis : String
  deriving DecidableEq, Repr

inductive Acquired where
  | mint | transfer | observed
  deriving DecidableEq, Repr

/-- An interval of ownership; `finish` is where and when it ended. -/
structure Ownership where
  ordinal : Int
  tokenId : Option Int
  owner : Address
  custody : Option Address
  identityBasis : String
  acquiredBy : Acquired
  startSpot : Spot
  startTimestamp : Int
  finish : Option (Spot × Int)
  complete : Bool
  deriving DecidableEq, Repr

/-- The state of a position, as `state_json` keeps it. -/
structure Position where
  key : String
  tokenId : Option Int
  poolId : Option PoolId
  protocol : Option ProtocolName
  tickLower : Option Int
  tickUpper : Option Int
  liquidity : Option Int
  liquidityKnown : Bool
  pending0 : Option Int
  pending1 : Option Int
  pendingKnown : Bool
  owed0 : Option Int
  owed1 : Option Int
  owedBlock : Option Int
  owedKnown : Bool
  settled : Bool
  owner : Option Address
  custody : Option Address
  identityBasis : String
  mintedToOwner : Bool
  historyComplete : Bool
  episodeOrdinal : Int
  activeEpisode : Option Episode
  ownershipOrdinal : Int
  activeOwnership : Option Ownership
  firstSpot : Spot
  firstId : EventId
  firstTimestamp : Int
  lastSpot : Spot
  lastId : EventId
  lastTimestamp : Int
  deriving DecidableEq, Repr

/-- `_new_state`. -/
def newState (key : String) (event : Event) : Position where
  key := key
  tokenId := event.tokenId
  poolId := event.poolId
  protocol := event.protocol
  tickLower := event.tickLower
  tickUpper := event.tickUpper
  liquidity := none
  liquidityKnown := false
  pending0 := none
  pending1 := none
  pendingKnown := false
  owed0 := none
  owed1 := none
  owedBlock := none
  owedKnown := false
  settled := false
  owner := none
  custody := none
  identityBasis := "unknown"
  mintedToOwner := false
  historyComplete := false
  episodeOrdinal := 0
  activeEpisode := none
  ownershipOrdinal := 0
  activeOwnership := none
  firstSpot := event.spot
  firstId := event.id
  firstTimestamp := event.timestamp
  lastSpot := event.spot
  lastId := event.id
  lastTimestamp := event.timestamp

structure Effect where
  amounts : Amounts
  usd : UsdAmounts
  cashflowExact : Bool
  pricingExact : Bool
  feesExact : Bool
  allocationExact : Bool
  releaseExact : Bool
  traceExact : Bool
  basis : String
  deriving DecidableEq, Repr

/-- A row of `lp_accounting_effects`; amounts are written where they are exact. -/
structure EffectRow where
  eventId : EventId
  episodeId : Option String
  owner : Option Address
  custody : Option Address
  txHash : Hash
  spot : Spot
  timestamp : Int
  kind : Kind
  cashflow : Option (Int × Int × Int × Int)
  principal : Option (Int × Int)
  fees : Option (Int × Int)
  usd : UsdAmounts
  exact : Bool
  basis : String
  deriving DecidableEq, Repr

inductive Saved where
  | ownership (interval : Ownership)
  | episode (episode : Episode)
  | effect (row : EffectRow)
  deriving DecidableEq, Repr

/-- The identities of episodes that are kept when a position is replayed, by the place an
episode was opened at. -/
abbrev Ids := Spot → Option (String × Int)

def zeroAddress : Address := 0

def eventBasis (event : Event) : String :=
  ((event.identityBasis.or event.data.identityBasis)).getD
    (if event.owner.isSome then "verified" else if event.custody.isSome then "custody"
      else "unknown")

def transferSource (event : Event) : Option Address :=
  (["from", "from_address", "prior_owner", "previous_owner", "sender"].findSome?
    event.data.address).or (if event.data.mint then some zeroAddress else none)

def transferTarget (event : Event) : Option Address :=
  ((["to", "to_address", "new_owner", "recipient"].findSome? event.data.address).or
    event.owner).filter fun target => target ≠ zeroAddress

/-- `_new_episode`. -/
def newEpisode (ids : Ids) (state : Position) (event : Event)
    (historyComplete transferredBasis : Bool) : Position × Episode :=
  let protocol := (state.protocol.or event.protocol).getD .unknown
  let (id, ordinal, last) := match ids event.spot with
    | some (id, ordinal) => (id, ordinal, state.episodeOrdinal)
    | none => (state.key ++ ":" ++ toString (state.episodeOrdinal + 1),
        state.episodeOrdinal + 1, state.episodeOrdinal + 1)
  ({ state with episodeOrdinal := last },
    { id := id
      ordinal := ordinal
      tokenId := state.tokenId
      poolId := state.poolId
      protocol := protocol
      owner := state.owner
      custody := state.custody
      identityBasis := state.identityBasis
      tickLower := state.tickLower
      tickUpper := state.tickUpper
      openedSpot := event.spot
      openedAt := event.timestamp
      closedSpot := none
      closedAt := none
      lastTimestamp := event.timestamp
      status := .opened
      historyComplete := historyComplete
      identityComplete := state.owner.isSome
      transferredBasis := transferredBasis
      ambiguousReentry := false
      identityConflict := false
      traceComplete := true
      claimsComplete := false
      cashflowComplete := true
      pricingComplete := true
      feesComplete := (protocol = .v3 || protocol = .v4) && !transferredBasis
      releaseComplete := true
      amounts := .zero
      usd := ⟨some 0, some 0, some 0, some 0⟩
      closePrice0Usd := none
      closePrice1Usd := none
      accountingBasis := "canonical_events" })

def Episode.close (episode : Episode) (event : Event) (status : Status)
    (claimsComplete : Bool) : Episode :=
  { episode with
    closedSpot := some event.spot
    closedAt := some event.timestamp
    lastTimestamp := event.timestamp
    status := status
    claimsComplete := claimsComplete }

def Position.nothingPending (state : Position) : Bool :=
  state.pendingKnown && state.pending0.getD 0 = 0 && state.pending1.getD 0 = 0

def Position.nothingOwed (state : Position) : Bool :=
  state.owedKnown && state.owed0.getD 0 = 0 && state.owed1.getD 0 = 0

def Position.liquidityZero (state : Position) : Bool :=
  state.liquidityKnown && state.liquidity.getD 0 = 0

def endOwnership (state : Position) (event : Event) : Position × List Saved :=
  match state.activeOwnership with
  | some ownership =>
    if transferTarget event ≠ state.owner ∨ transferTarget event = none then
      ({ state with activeOwnership := none },
        [.ownership { ownership with
          finish := some (event.spot, event.timestamp)
          complete := (transferSource event).isNone || state.owner.isNone ||
            transferSource event = state.owner }])
    else (state, [])
  | none => (state, [])

def regularTransfer (state : Position) (event : Event) : Bool :=
  transferSource event ≠ some zeroAddress && (transferTarget event).isSome &&
    transferTarget event ≠ state.owner

def burns (event : Event) : Bool :=
  (transferTarget event).isNone && (transferSource event).any (· ≠ zeroAddress)

def endEpisode (state : Position) (event : Event) : Position × List Saved :=
  match state.activeEpisode with
  | some episode =>
    if regularTransfer state event then
      ({ state with activeEpisode := none, settled := false },
        [.episode (episode.close event .transferredOut false)])
    else if burns event then
      if state.liquidityZero && state.nothingPending then
        ({ state with activeEpisode := none, settled := true },
          [.episode { episode.close event .complete true with
            closePrice0Usd := event.price0Usd, closePrice1Usd := event.price1Usd }])
      else ({ state with activeEpisode := none, settled := false },
        [.episode (episode.close event .nftBurnUnsettled false)])
    else (state, [])
  | none => (state, [])

def hasTransferredInventory (state : Position) : Bool :=
  !state.liquidityKnown || state.liquidity.getD 0 > 0 || !state.pendingKnown ||
    state.pending0.getD 0 ≠ 0 || state.pending1.getD 0 ≠ 0 || !state.owedKnown ||
    state.owed0.getD 0 ≠ 0 || state.owed1.getD 0 ≠ 0

def acquire (ids : Ids) (state : Position) (event : Event) (target : Address)
    (regular : Bool) : Position × List Saved :=
  let sourceZero : Bool := transferSource event = some zeroAddress
  let interval : Ownership :=
    { ordinal := state.ownershipOrdinal + 1
      tokenId := state.tokenId.or event.tokenId
      owner := target
      custody := state.custody
      identityBasis := state.identityBasis
      acquiredBy := if sourceZero then .mint else .transfer
      startSpot := event.spot
      startTimestamp := event.timestamp
      finish := none
      complete := true }
  let owned := { state with
    ownershipOrdinal := state.ownershipOrdinal + 1
    activeOwnership := some interval
    mintedToOwner := sourceZero
    settled := state.settled && !sourceZero }
  if regular && hasTransferredInventory owned then
    let (numbered, episode) := newEpisode ids owned event owned.historyComplete true
    ({ numbered with activeEpisode := some episode, settled := false }, [.ownership interval])
  else (owned, [.ownership interval])

/-- `_process_transfer`. -/
def processTransfer (ids : Ids) (state : Position) (event : Event) : Position × List Saved :=
  let (disowned, ended) := endOwnership state event
  let (left, closed) := endEpisode disowned event
  let moved := { left with owner := transferTarget event }
  match transferTarget event with
  | some target =>
    let named := { moved with
      identityBasis := if event.owner = some target then eventBasis event
        else "verified_nft_transfer"
      custody := event.custody.or moved.custody }
    if transferSource event = some zeroAddress ∧ some target = state.owner ∧
        state.activeOwnership.any (·.acquiredBy = .mint) then
      ({ named with mintedToOwner := true, settled := false }, ended ++ closed)
    else if transferSource event = state.owner ∧ some target = state.owner then
      ({ named with mintedToOwner := false }, ended ++ closed)
    else
      let (acquired, begun) := acquire ids named event target (regularTransfer state event)
      (acquired, ended ++ closed ++ begun)
  | none =>
    if burns event then ({ moved with identityBasis := "burned" }, ended ++ closed)
    else (moved, ended ++ closed)

def Episode.identify (owner : Address) (basis : String) (episode : Episode) : Episode :=
  if episode.owner.isNone then
    { episode with owner := some owner, identityBasis := basis, identityComplete := true }
  else episode

def Episode.conflict (episode : Episode) : Episode :=
  { episode with identityComplete := false, identityConflict := true }

/-- `_update_identity`. -/
def updateIdentity (state : Position) (event : Event) : Position × List Saved :=
  let held := { state with custody := event.custody.or state.custody }
  match event.owner with
  | none => (held, [])
  | some owner =>
    match held.owner with
    | none =>
      let owned := { held with
        owner := some owner
        identityBasis := eventBasis event
        activeEpisode := held.activeEpisode.map (Episode.identify owner (eventBasis event)) }
      match owned.activeOwnership with
      | some _ => (owned, [])
      | none =>
        let interval : Ownership :=
          { ordinal := owned.ownershipOrdinal + 1
            tokenId := owned.tokenId.or event.tokenId
            owner := owner
            custody := owned.custody
            identityBasis := eventBasis event
            acquiredBy := if event.data.verifiedMintAfter then .mint else .observed
            startSpot := event.spot
            startTimestamp := event.timestamp
            finish := none
            complete := event.data.verifiedMintAfter }
        ({ owned with
          ownershipOrdinal := owned.ownershipOrdinal + 1
          activeOwnership := some interval }, [.ownership interval])
    | some current =>
      if current ≠ owner then
        ({ held with activeEpisode := held.activeEpisode.map Episode.conflict }, [])
      else (held, [])

def readColumns (state : Position) (event : Event) : Position :=
  let protocol := (event.protocol.or state.protocol).getD .unknown
  { state with
    protocol := if protocol = .nft then state.protocol else some protocol
    poolId := event.poolId.or state.poolId
    tokenId := event.tokenId.or state.tokenId
    tickLower := event.tickLower.or state.tickLower
    tickUpper := event.tickUpper.or state.tickUpper }

def liquidityDelta (event : Event) : Option Int :=
  event.liquidityDelta.map fun delta =>
    if event.kind = .add ∧ delta < 0 then -delta
    else if event.kind = .remove ∧ delta > 0 then -delta else delta

/-- `previous_liq`; none where it is not known. -/
def previousLiquidity (state : Position) (event : Event) : Option Int :=
  (Snapshot.liquidity event.data.positionBefore).or
    (if event.data.verifiedMintAfter then some 0
      else if state.liquidityKnown then some (state.liquidity.getD 0) else none)

def afterLiquidity (state : Position) (event : Event) : Option Int :=
  ((Snapshot.liquidity event.data.positionAfter).or
    ((previousLiquidity state event).bind fun previous =>
      (liquidityDelta event).map (previous + ·))).filter fun after => 0 ≤ after

def claimsKnownNonempty (event : Event) : Bool :=
  event.data.positionBefore.any (·.claimsEmpty = some false) ||
    (Snapshot.tokensOwed0 event.data.positionBefore).any (· > 0) ||
    (Snapshot.tokensOwed1 event.data.positionBefore).any (· > 0)

def beforeClaimsEmpty (event : Event) : Bool :=
  match Snapshot.tokensOwed0 event.data.positionBefore,
      Snapshot.tokensOwed1 event.data.positionBefore with
  | some owed0, some owed1 => owed0 = 0 && owed1 = 0
  | _, _ => event.data.positionBefore.any (·.claimsEmpty = some true)

def priorClaimsEmpty (state : Position) (event : Event) : Bool :=
  event.data.verifiedMintAfter || (!claimsKnownNonempty event &&
    (beforeClaimsEmpty event || state.mintedToOwner || state.settled ||
      (state.nothingPending && state.nothingOwed)))

def zeroLiquidityProven (state : Position) (event : Event) : Bool :=
  event.data.verifiedMintAfter || previousLiquidity state event = some 0 ||
    event.data.zeroBaseline ||
    (state.mintedToOwner && event.kind = .add && (previousLiquidity state event).getD 0 = 0)

def zeroProven (state : Position) (event : Event) : Bool :=
  zeroLiquidityProven state event && priorClaimsEmpty state event

def readLiquidity (state : Position) (event : Event) : Position :=
  match afterLiquidity state event with
  | some after => { state with liquidity := some after, liquidityKnown := true }
  | none =>
    if (liquidityDelta event).isSome && (previousLiquidity state event).isNone then
      { state with liquidity := none, liquidityKnown := false }
    else state

def establish (state : Position) (event : Event) : Position × List Saved :=
  let read := readLiquidity state event
  if zeroProven state event then
    let observed := read.activeOwnership.filter fun ownership => ownership.acquiredBy = .observed
    let completed := observed.map fun ownership => { ownership with complete := true }
    let known := if read.pendingKnown then read
      else { read with pending0 := some 0, pending1 := some 0, pendingKnown := true }
    let owed := if event.data.verifiedMintAfter then { known with
      owed0 := some 0, owed1 := some 0, owedKnown := true, owedBlock := some event.spot.block }
      else known
    ({ owed with
      historyComplete := true
      activeOwnership := completed.or read.activeOwnership },
      completed.toList.map .ownership)
  else (read, [])

def begins (state : Position) (event : Event) (previous : Option Int) : Bool :=
  event.kind = .add && (liquidityDelta event).any (· > 0) &&
    (state.activeEpisode.isNone || previous = some 0)

def leaveEpisode (state : Position) (event : Event) : Position × List Saved × Bool :=
  match state.activeEpisode with
  | some old =>
    if state.nothingPending && old.claimsComplete then
      ({ state with activeEpisode := none }, [], false)
    else ({ state with activeEpisode := none },
      [.episode { old.close event .ambiguousReentry false with ambiguousReentry := true }], true)
  | none => (state, [], false)

/-- The episode that an event belongs to; `seen` is the state the event was first checked
against. -/
def enterEpisode (ids : Ids) (seen state : Position) (event : Event) : Position × List Saved :=
  if begins state event (previousLiquidity seen event) then
    let (left, saved, reentered) := leaveEpisode state event
    let ambiguous := reentered ||
      (zeroLiquidityProven seen event && !priorClaimsEmpty seen event)
    let (numbered, episode) := newEpisode ids { left with settled := false } event
      (zeroProven seen event && left.historyComplete) false
    ({ numbered with activeEpisode := some (if ambiguous then { episode with
        ambiguousReentry := true, feesComplete := false, status := .ambiguousReentry }
        else episode) }, saved)
  else if state.activeEpisode.isNone && (event.kind = .remove || event.kind = .collect ||
      event.kind = .checkpoint) then
    let (numbered, episode) := newEpisode ids state event false false
    ({ numbered with activeEpisode := some { episode with status := .partialHistory } }, [])
  else (state, [])

def blankEffect (basis : String) : Effect where
  amounts := .zero
  usd := ⟨some 0, some 0, some 0, some 0⟩
  cashflowExact := true
  pricingExact := true
  feesExact := true
  allocationExact := true
  releaseExact := true
  traceExact := true
  basis := basis

def inexactCash (effect : Effect) : Effect :=
  { effect with cashflowExact := false, pricingExact := false }

def withCash (effect : Effect) (cash0 cash1 : Int) : Effect :=
  { effect with amounts := { effect.amounts with
    deposit0 := max 0 (-cash0), deposit1 := max 0 (-cash1)
    proceeds0 := max 0 cash0, proceeds1 := max 0 cash1 } }

def withDeposit (effect : Effect) (amount0 amount1 : Int) : Effect :=
  { effect with amounts := { effect.amounts with
    deposit0 := |amount0|, deposit1 := |amount1| } }

def v4Effect (event : Event) (effect : Effect) : Effect :=
  let cash0 := event.cashflow0.or (stateNumber event.data.callerDelta ["amount0"])
  let cash1 := event.cashflow1.or (stateNumber event.data.callerDelta ["amount1"])
  let fee0 := event.feeAmount0.or (stateNumber event.data.feesAccrued ["amount0"])
  let fee1 := event.feeAmount1.or (stateNumber event.data.feesAccrued ["amount1"])
  let traced := { effect with traceExact := event.data.traceComplete }
  let paid := match cash0, cash1 with
    | some cash0, some cash1 =>
      if event.data.traceComplete then withCash traced cash0 cash1 else inexactCash traced
    | _, _ => inexactCash traced
  let allocated := match stateNumber event.data.principalDelta ["amount0"],
      stateNumber event.data.principalDelta ["amount1"] with
    | some principal0, some principal1 =>
      if event.data.principalDeltaExact then { paid with amounts := { paid.amounts with
        principalWithdrawal0 := max 0 principal0, principalWithdrawal1 := max 0 principal1 } }
      else { paid with allocationExact := false }
    | _, _ => { paid with allocationExact := false }
  let charged := match fee0, fee1 with
    | some fee0, some fee1 =>
      if event.data.feesAccruedExact then { allocated with amounts := { allocated.amounts with
        fees0 := max 0 fee0, fees1 := max 0 fee1 } }
      else { allocated with feesExact := false }
    | _, _ => { allocated with feesExact := false }
  { charged with basis := event.data.cashflowBasis.getD "v4_caller_delta" }

structure Split where
  principal0 : Int
  principal1 : Int
  fees0 : Int
  fees1 : Int
  deriving DecidableEq, Repr

def finalCollect (event : Event) : Bool :=
  event.data.positionAfter.any (·.claimsEmpty = some true) || event.data.verifiedBurnAfter

def splitCollect (state : Position) (event : Event) (collected0 collected1 : Int) :
    Option Split :=
  match event.feeAmount0, event.feeAmount1 with
  | some fee0, some fee1 => some
      { principal0 := max 0 (collected0 - min collected0 (max 0 fee0))
        principal1 := max 0 (collected1 - min collected1 (max 0 fee1))
        fees0 := max 0 fee0
        fees1 := max 0 fee1 }
  | _, _ =>
    if state.pendingKnown then
      let pending0 := state.pending0.getD 0
      let pending1 := state.pending1.getD 0
      let settles := finalCollect event && collected0 ≥ pending0 && collected1 ≥ pending1
      if settles || (pending0 = 0 && pending1 = 0) then some
        { principal0 := pending0, principal1 := pending1
          fees0 := collected0 - pending0, fees1 := collected1 - pending1 }
      else none
    else none

def v3Collect (state : Position) (event : Event) (effect : Effect) : Effect :=
  match event.amount0, event.amount1 with
  | some amount0, some amount1 =>
    let received := { effect with amounts := { effect.amounts with
      proceeds0 := |amount0|, proceeds1 := |amount1| } }
    match splitCollect state event |amount0| |amount1| with
    | some split => { received with amounts := { received.amounts with
        principalWithdrawal0 := split.principal0, principalWithdrawal1 := split.principal1
        fees0 := split.fees0, fees1 := split.fees1 } }
    | none => { received with feesExact := false, allocationExact := false }
  | _, _ => { inexactCash effect with feesExact := false, allocationExact := false }

def v3Effect (state : Position) (event : Event) (effect : Effect) : Effect :=
  let done := match event.kind with
    | .add => match event.amount0, event.amount1 with
        | some amount0, some amount1 => withDeposit effect amount0 amount1
        | _, _ => inexactCash effect
    | .collect => v3Collect state event effect
    | .remove => match event.amount0, event.amount1 with
        | some amount0, some amount1 => { effect with amounts := { effect.amounts with
            released0 := |amount0|, released1 := |amount1| } }
        | _, _ => { effect with feesExact := false, releaseExact := false }
    | _ => effect
  { done with basis := "v3_mint_burn_collect" }

def v2Effect (event : Event) (effect : Effect) : Effect :=
  let unsplit := { effect with feesExact := false, basis := "v2_observed_cashflow" }
  match event.kind with
  | .add => match event.amount0, event.amount1 with
      | some amount0, some amount1 => withDeposit unsplit amount0 amount1
      | _, _ => inexactCash unsplit
  | .remove => match event.amount0, event.amount1 with
      | some amount0, some amount1 => { unsplit with amounts := { unsplit.amounts with
          proceeds0 := |amount0|, proceeds1 := |amount1|
          principalWithdrawal0 := |amount0|, principalWithdrawal1 := |amount1| } }
      | _, _ => inexactCash unsplit
  | _ => unsplit

def legValue (amount : Int) (price : Option ℚ) (decimals : Option Int) : Option ℚ :=
  if amount = 0 then some 0
  else price.bind fun usd => decimals.map fun places => amount * usd / (10 : ℚ) ^ places

/-- `_token_value`. -/
def tokenValue (event : Event) (pool : Decimals) (amount0 amount1 : Int) : Option ℚ :=
  (legValue amount0 event.price0Usd pool.decimals0).bind fun value0 =>
    (legValue amount1 event.price1Usd pool.decimals1).map (value0 + ·)

def reportedWithdrawal (event : Event) (collects : Bool) : Option ℚ :=
  if collects then event.withdrawalUsd.bind fun withdrawal =>
    event.feesUsd.map fun fees => max 0 (withdrawal - fees)
  else event.withdrawalUsd

def priceEffect (event : Event) (pool : Decimals) (collects : Bool) (effect : Effect) : Effect :=
  let amounts := effect.amounts
  let deposit := (tokenValue event pool amounts.deposit0 amounts.deposit1).or event.depositUsd
  let proceeds :=
    (tokenValue event pool amounts.proceeds0 amounts.proceeds1).or event.withdrawalUsd
  let withdrawal := (tokenValue event pool amounts.principalWithdrawal0
    amounts.principalWithdrawal1).or (reportedWithdrawal event collects)
  let fees := (tokenValue event pool amounts.fees0 amounts.fees1).or event.feesUsd
  let unpriced := (deposit.isNone && (amounts.deposit0 ≠ 0 || amounts.deposit1 ≠ 0)) ||
    (proceeds.isNone && (amounts.proceeds0 ≠ 0 || amounts.proceeds1 ≠ 0)) ||
    (withdrawal.isNone &&
      (amounts.principalWithdrawal0 ≠ 0 || amounts.principalWithdrawal1 ≠ 0)) ||
    (fees.isNone && (amounts.fees0 ≠ 0 || amounts.fees1 ≠ 0))
  { effect with
    usd :=
      { deposit := deposit
        proceeds := proceeds
        withdrawal := if effect.allocationExact then withdrawal else none
        fees := if effect.allocationExact || effect.feesExact then fees else none }
    pricingExact := effect.pricingExact && !unpriced }

/-- `_financial_effect`. -/
def financialEffect (state : Position) (event : Event) (pool : Decimals) : Effect :=
  let protocol := (state.protocol.or event.protocol).getD .unknown
  let blank := blankEffect (event.accountingBasis.getD "canonical_event")
  let moves : Bool := event.kind = .add || event.kind = .remove || event.kind = .collect
  let effect :=
    if protocol = .v4 ∧ (moves ∨ event.kind = .checkpoint) then v4Effect event blank
    else if protocol = .v3 then v3Effect state event blank
    else if protocol = .v2 then v2Effect event blank
    else if moves then match event.cashflow0, event.cashflow1 with
      | some cash0, some cash1 => { withCash blank cash0 cash1 with feesExact := false }
      | _, _ => { inexactCash blank with feesExact := false }
    else blank
  priceEffect event pool (protocol = .v3 && event.kind = .collect) effect

/-- `_apply_effect`. -/
def Episode.apply (episode : Episode) (effect : Effect) (event : Event) : Episode :=
  { episode with
    amounts := episode.amounts.add effect.amounts
    usd := episode.usd.add effect.usd
    cashflowComplete := episode.cashflowComplete && effect.cashflowExact
    pricingComplete := episode.pricingComplete && effect.pricingExact
    feesComplete := episode.feesComplete && effect.feesExact
    releaseComplete := episode.releaseComplete && effect.releaseExact
    traceComplete := episode.traceComplete && effect.traceExact
    accountingBasis := effect.basis
    lastTimestamp := if event.timestamp = 0 then episode.lastTimestamp else event.timestamp }

def movePending (state : Position) (event : Event) (effect : Effect) : Position :=
  match event.kind with
  | .remove => match event.amount0, event.amount1 with
      | some amount0, some amount1 =>
        if state.pendingKnown then { state with
          pending0 := some (state.pending0.getD 0 + |amount0|)
          pending1 := some (state.pending1.getD 0 + |amount1|) }
        else state
      | _, _ => { state with pending0 := none, pending1 := none, pendingKnown := false }
  | .collect =>
    if effect.allocationExact then
      if state.pendingKnown then { state with
        pending0 := some (max 0 (state.pending0.getD 0 - effect.amounts.principalWithdrawal0))
        pending1 := some (max 0 (state.pending1.getD 0 - effect.amounts.principalWithdrawal1)) }
      else state
    else { state with pending0 := none, pending1 := none, pendingKnown := false }
  | _ => state

def owedAfter (event : Event) : Option (Int × Int) :=
  let empty := event.data.positionAfter.any (·.claimsEmpty = some true)
  let owed0 := (Snapshot.tokensOwed0 event.data.positionAfter).or (if empty then some 0 else none)
  let owed1 := (Snapshot.tokensOwed1 event.data.positionAfter).or (if empty then some 0 else none)
  if event.data.verifiedBurnAfter then some (0, 0)
  else owed0.bind fun owed0 => owed1.map fun owed1 => (owed0, owed1)

def clears (state : Position) (event : Event) : Bool :=
  owedAfter event = some (0, 0) && state.liquidity = some 0

def readOwed (state : Position) (event : Event) : Position :=
  match owedAfter event with
  | none => state
  | some (owed0, owed1) =>
    let owed := { state with
      owed0 := some owed0, owed1 := some owed1, owedKnown := true
      owedBlock := some event.spot.block }
    if clears state event then
      { owed with pending0 := some 0, pending1 := some 0, pendingKnown := true }
    else owed

/-- `_update_claim_state`. -/
def updateClaimState (state : Position) (event : Event) (effect : Effect) : Position :=
  let moved := if (state.protocol.or event.protocol) = some .v3 then
    movePending state event effect else state
  readOwed moved event

/-- `_claims_settled`. -/
def claimsSettled (state : Position) (protocol : ProtocolName) (event : Event) : Bool :=
  state.liquidityZero && match protocol with
    | .v2 => true
    | .v4 => event.data.traceComplete
    | _ => state.nothingPending && state.nothingOwed

def Episode.allocate (episode : Episode) (protocol : ProtocolName) : Episode :=
  let amounts := episode.amounts
  if protocol = .v3 ∧ episode.historyComplete ∧ ¬episode.transferredBasis ∧
      ¬episode.ambiguousReentry ∧ episode.releaseComplete ∧
      amounts.proceeds0 ≥ amounts.released0 ∧ amounts.proceeds1 ≥ amounts.released1 then
    { episode with amounts := { amounts with
      principalWithdrawal0 := amounts.released0, principalWithdrawal1 := amounts.released1
      fees0 := amounts.proceeds0 - amounts.released0
      fees1 := amounts.proceeds1 - amounts.released1 } }
  else episode

def closeEpisode (state : Position) (event : Event) (protocol : ProtocolName) :
    Position × List Saved :=
  match state.activeEpisode with
  | none => (state, [])
  | some episode =>
    if event.kind = .remove ∧ liquidityDelta event = some 0 then
      if state.liquidityKnown && state.liquidity.getD 0 ≠ 0 then
        ({ state with activeEpisode := some { episode with status := .opened } }, [])
      else (state, [])
    else if state.liquidityZero then
      if claimsSettled state protocol event then
        let closed := ({ episode.close event .complete true with
          closePrice0Usd := event.price0Usd
          closePrice1Usd := event.price1Usd } : Episode).allocate protocol
        ({ state with activeEpisode := none, settled := true }, [.episode closed])
      else
        let waiting := { episode with status := .awaitingClaim, claimsComplete := false }
        ({ state with activeEpisode := some waiting }, [])
    else if state.liquidityKnown && state.liquidity.getD 0 > 0 then
      ({ state with activeEpisode := some { episode with status := .opened } }, [])
    else (state, [])

/-- `_save_effect`. -/
def effectRow (state : Position) (event : Event) (effect : Effect) (episodeId : Option String)
    (gasOwner : Option Address) : EffectRow where
  eventId := event.id
  episodeId := episodeId
  owner := gasOwner.or state.owner
  custody := state.custody
  txHash := event.txHash
  spot := event.spot
  timestamp := event.timestamp
  kind := event.kind
  cashflow := if effect.cashflowExact then some (effect.amounts.deposit0, effect.amounts.deposit1,
    effect.amounts.proceeds0, effect.amounts.proceeds1) else none
  principal := if effect.cashflowExact && effect.allocationExact then
    some (effect.amounts.principalWithdrawal0, effect.amounts.principalWithdrawal1) else none
  fees := if effect.feesExact then some (effect.amounts.fees0, effect.amounts.fees1) else none
  usd := effect.usd
  exact := effect.cashflowExact && effect.pricingExact && effect.traceExact &&
    effect.allocationExact
  basis := effect.basis

def isTransfer (state : Position) (event : Event) : Bool :=
  event.kind = .transfer || (event.protocol.or state.protocol).getD .unknown = .nft

def enter (ids : Ids) (state : Position) (event : Event) : Position × List Saved :=
  let read := readColumns state event
  let (identified, named) :=
    if isTransfer state event then processTransfer ids read event else updateIdentity read event
  let (established, completed) := establish identified event
  let (entered, left) := enterEpisode ids identified established event
  (entered, named ++ completed ++ left)

def account (state : Position) (event : Event) (pool : Decimals) (protocol : ProtocolName)
    (transfers : Bool) : Position × List Saved :=
  let effect := financialEffect state event pool
  let applied := { state with
    activeEpisode := state.activeEpisode.map fun episode => episode.apply effect event }
  let claimed := updateClaimState applied event effect
  let (closed, saved) := closeEpisode claimed event protocol
  let episodeId := if transfers then none
    else (closed.activeEpisode.or claimed.activeEpisode).map Episode.id
  let gasOwner := if transfers then (transferSource event).filter (· ≠ zeroAddress) else none
  ({ closed with lastSpot := event.spot, lastId := event.id, lastTimestamp := event.timestamp },
    saved ++ [.effect (effectRow closed event effect episodeId gasOwner)])

/-- `_process_event`. -/
def processEvent (ids : Ids) (pool : Decimals) (state : Position) (event : Event) :
    Position × List Saved :=
  let protocol := (event.protocol.or state.protocol).getD .unknown
  let (entered, before) := enter ids state event
  let (accounted, after) := account entered event pool protocol (isTransfer state event)
  (accounted, before ++ after)

def plainData : EventData where
  address _ := none
  positionBefore := none
  positionAfter := none
  callerDelta := none
  feesAccrued := none
  principalDelta := none
  mint := false
  burn := false
  zeroBaseline := false
  traceComplete := false
  feesAccruedExact := false
  principalDeltaExact := false
  verifiedMintAfter := false
  verifiedBurnAfter := false
  cashflowBasis := none
  identityBasis := none

def plainEvent (kind : Kind) (block delta amount0 amount1 : Int) : Event where
  id := 0
  spot := ⟨block, 0, 0⟩
  txHash := 0
  timestamp := block
  poolId := none
  protocol := some .v3
  kind := kind
  owner := none
  custody := none
  tokenId := none
  tickLower := none
  tickUpper := none
  liquidityDelta := some delta
  amount0 := some amount0
  amount1 := some amount1
  feeAmount0 := none
  feeAmount1 := none
  cashflow0 := none
  cashflow1 := none
  price0Usd := none
  price1Usd := none
  feesUsd := none
  depositUsd := none
  withdrawalUsd := none
  accountingBasis := none
  identityBasis := none
  data := plainData

def noDecimals : Decimals := ⟨none, none⟩

end RhPools.PositionEvents
