import Mathlib.Data.List.Sort
import Mathlib.Data.Prod.Lex
import RhPools.ChangeLogs
import RhPools.PositionEvents

/-! Deriving a position from its events, and appending events to one that was derived before. A
derivation looks ahead inside a transaction and drops inner snapshots of a block, so that an
append must begin after the last block of the position. -/

namespace RhPools.PositionReplay
open TxChain MarketTables ChangeLogs PositionEvents

/-- `_order`. -/
def order (event : Event) : Int ×ₗ Int ×ₗ Int ×ₗ EventId :=
  toLex (event.spot.block, toLex (event.spot.txIndex, toLex (event.spot.logIndex, event.id)))

def ordered (events : List Event) : List Event :=
  events.insertionSort fun event later => order event ≤ order later

def sameTx (event other : Event) : Bool :=
  event.spot.block = other.spot.block && event.spot.txIndex = other.spot.txIndex &&
    event.txHash = other.txHash

def mintFollows (seen : List Event) (event : Event) (rest : List Event) : Bool :=
  event.kind = .add && !seen.any (fun other => other.kind = .add && sameTx event other) &&
    rest.any fun other => other.kind = .transfer && other.data.mint && sameTx event other

def burnAhead (event : Event) : List Event → Bool
  | [] => false
  | other :: rest =>
    if sameTx event other then
      if other.kind = .collect then false
      else (other.kind = .transfer && other.data.burn) || burnAhead event rest
    else burnAhead event rest

def carries (block : Int) (event : Event) : Bool :=
  event.spot.block = block &&
    (event.data.positionBefore.isSome || event.data.positionAfter.isSome)

/-- An event as it is processed: snapshots are kept at the edges of their block only, and a
verified mint or burn is known before its transfer. -/
def prepared (seen : List Event) (event : Event) (rest : List Event) : Event :=
  { event with data := { event.data with
    positionBefore := if seen.any (carries event.spot.block) then none
      else event.data.positionBefore
    positionAfter := if rest.any (carries event.spot.block) then none
      else event.data.positionAfter
    verifiedMintAfter := event.data.verifiedMintAfter || mintFollows seen event rest
    verifiedBurnAfter := event.data.verifiedBurnAfter ||
      (event.kind = .collect && burnAhead event rest) } }

def preparedEvents : List Event → List Event → List Event
  | _, [] => []
  | seen, event :: rest => prepared seen event rest :: preparedEvents (event :: seen) rest

/-- `_pool_row` of the pool that an event or its position names. -/
def poolOf (pools : PoolId → Decimals) (state : Position) (event : Event) : Decimals :=
  match event.poolId.or state.poolId with
  | some pool => pools pool
  | none => ⟨none, none⟩

def processEvents (ids : Ids) (pools : PoolId → Decimals) :
    Position → List Event → Position × List Saved
  | state, [] => (state, [])
  | state, event :: rest =>
    let (next, saved) := processEvent ids (poolOf pools state event) state event
    let (last, more) := processEvents ids pools next rest
    (last, saved ++ more)

/-- `_derive`; the active episode is saved at the end. -/
def derive (ids : Ids) (pools : PoolId → Decimals) (state : Position) (events : List Event) :
    Position × List Saved :=
  let (last, saved) := processEvents ids pools state (preparedEvents [] events)
  (last, saved ++ last.activeEpisode.toList.map .episode)

/-- `_episode_qualifiers`. -/
def qualifiers (episode : Episode) : List String :=
  (if episode.historyComplete then [] else ["partial_history"]) ++
    (if episode.identityComplete then [] else ["unknown_identity"]) ++
    (if episode.transferredBasis then ["transferred_basis_unknown"] else []) ++
    (if episode.ambiguousReentry then ["ambiguous_reentry"] else []) ++
    (if episode.traceComplete then [] else ["missing_trace"]) ++
    (if episode.cashflowComplete then [] else ["incomplete_cashflows"]) ++
    (if episode.pricingComplete then [] else ["incomplete_pricing"]) ++
    (if episode.status = .awaitingClaim then ["awaiting_claim"] else []) ++
    (if episode.status = .nftBurnUnsettled then ["unsettled_claims"] else [])

/-- A row of `lp_accounting_episodes`, but for its valuation and its gas. -/
structure EpisodeRow where
  id : String
  ordinal : Int
  tokenId : Option Int
  poolId : Option PoolId
  protocol : ProtocolName
  owner : Option Address
  custody : Option Address
  identityBasis : String
  tickLower : Option Int
  tickUpper : Option Int
  openedSpot : Spot
  openedAt : Int
  closedSpot : Option Spot
  closedAt : Option Int
  lastTimestamp : Int
  status : Status
  historyComplete : Bool
  identityComplete : Bool
  transferredBasis : Bool
  ambiguousReentry : Bool
  traceComplete : Bool
  claimsComplete : Bool
  cashflowComplete : Bool
  pricingComplete : Bool
  feesComplete : Bool
  deposit : Int × Int
  proceeds : Int × Int
  principalWithdrawal : Int × Int
  fees : Int × Int
  usd : UsdAmounts
  closePrice0Usd : Option ℚ
  closePrice1Usd : Option ℚ
  accountingBasis : String
  qualifiers : List String
  deriving DecidableEq, Repr

/-- `_save_episode`. -/
def episodeRow (episode : Episode) : EpisodeRow where
  id := episode.id
  ordinal := episode.ordinal
  tokenId := episode.tokenId
  poolId := episode.poolId
  protocol := episode.protocol
  owner := episode.owner
  custody := episode.custody
  identityBasis := episode.identityBasis
  tickLower := episode.tickLower
  tickUpper := episode.tickUpper
  openedSpot := episode.openedSpot
  openedAt := episode.openedAt
  closedSpot := episode.closedSpot
  closedAt := episode.closedAt
  lastTimestamp := episode.lastTimestamp
  status := episode.status
  historyComplete := episode.historyComplete
  identityComplete := episode.identityComplete
  transferredBasis := episode.transferredBasis
  ambiguousReentry := episode.ambiguousReentry
  traceComplete := episode.traceComplete
  claimsComplete := episode.claimsComplete
  cashflowComplete := episode.cashflowComplete
  pricingComplete := episode.pricingComplete
  feesComplete := episode.feesComplete
  deposit := (episode.amounts.deposit0, episode.amounts.deposit1)
  proceeds := (episode.amounts.proceeds0, episode.amounts.proceeds1)
  principalWithdrawal :=
    (episode.amounts.principalWithdrawal0, episode.amounts.principalWithdrawal1)
  fees := (episode.amounts.fees0, episode.amounts.fees1)
  usd := episode.usd
  closePrice0Usd := episode.closePrice0Usd
  closePrice1Usd := episode.closePrice1Usd
  accountingBasis := episode.accountingBasis
  qualifiers := qualifiers episode

inductive RowKey where
  | ownership (ordinal : Int)
  | episode (id : String)
  | effect (event : EventId)
  deriving DecidableEq, Repr

inductive Row where
  | ownership (interval : Ownership)
  | episode (row : EpisodeRow)
  | effect (row : EffectRow)
  deriving DecidableEq, Repr

/-- `_ReplayWrites.add`: the row that is written, under its key. -/
def written : Saved → Change RowKey Row
  | .ownership interval => ⟨.ownership interval.ordinal, some (.ownership interval)⟩
  | .episode episode => ⟨.episode episode.id, some (.episode (episodeRow episode))⟩
  | .effect row => ⟨.effect row.eventId, some (.effect row)⟩

abbrev Rows := RowKey → Option Row

def desired (saved : List Saved) : Rows := replay (fun _ => none) (saved.map written)

/-- `_ReplayWrites.prepare` and `flush`: rows that differ are written, and a full replay deletes
those it does not have. -/
def flush (appendOnly : Bool) (existing desired : Rows) : Rows := fun key =>
  match desired key with
  | some row => if existing key = some row then existing key else some row
  | none => if appendOnly then existing key else none

structure Ledger where
  state : Position
  rows : Rows

/-- The identities that `restore_episode_identity` finds, and the highest ordinal. -/
structure Identities where
  ids : Ids
  ordinal : Int

def Identities.none : Identities := ⟨fun _ => Option.none, 0⟩

def Identities.upTo (identities : Identities) (block : Int) : Identities :=
  { identities with
    ids := fun spot => if spot.block ≤ block then identities.ids spot else Option.none }

/-- `restore_episode_identity`: new episodes are numbered past the ones there were. -/
def restored (identities : Identities) (state : Position) : Position :=
  { state with episodeOrdinal := max state.episodeOrdinal identities.ordinal }

/-- `_rebuild_position`: a full replay over the rows there are. -/
def rebuildPosition (identities : Identities) (pools : PoolId → Decimals) (key : String)
    (existing : Rows) (events : List Event) : Option Ledger :=
  match ordered events with
  | [] => Option.none
  | first :: rest =>
    let begun := restored identities (newState key first)
    let (state, saved) := derive identities.ids pools begun (first :: rest)
    some ⟨state, flush false existing (desired saved)⟩

def meets (last event : Spot) : Bool :=
  event.block = last.block ||
    toLex (event.block, toLex (event.txIndex, event.logIndex)) ≤
      toLex (last.block, toLex (last.txIndex, last.logIndex))

/-- `_append_position`; `none` where it returns false. `projected` tells of which events an
effect is there, of any position. -/
def appendPosition (pools : PoolId → Decimals) (projected : EventId → Bool) (ledger : Ledger)
    (events : List Event) : Option Ledger :=
  if events = [] ∨ events.any (fun event => projected event.id) ∨
      events.any (fun event => meets ledger.state.lastSpot event.spot) then Option.none
  else
    let (state, saved) := derive Identities.none.ids pools ledger.state (ordered events)
    some ⟨state, flush true ledger.rows (desired saved)⟩

theorem flush_full (existing desired : Rows) : flush false existing desired = desired := by
  funext key
  unfold flush
  cases found : desired key with
  | none => rfl
  | some row =>
    dsimp only
    split
    · next same => exact same
    · rfl

theorem written_some (saved : Saved) : (written saved).image.isSome := by
  cases saved with
  | ownership interval => rfl
  | episode episode => rfl
  | effect row => rfl

theorem desired_isSome (saved : List Saved) (existing : Rows) (key : RowKey)
    (touched : Touches (saved.map written) key) :
    (replay existing (saved.map written) key).isSome := by
  induction saved generalizing existing with
  | nil =>
    obtain ⟨change, member, _⟩ := touched
    exact absurd member List.not_mem_nil
  | cons row rest ih =>
    by_cases later : Touches (rest.map written) key
    · exact ih _ later
    · have here : (written row).key = key := by
        obtain ⟨change, member, here⟩ := touched
        rcases List.mem_cons.mp member with rfl | tail
        · exact here
        · exact absurd ⟨change, tail, here⟩ later
      have kept := replay_untouched (rest.map written) (apply existing (written row)) key later
      rw [List.map_cons]
      change (replay (apply existing (written row)) (rest.map written) key).isSome
      rw [kept, ← here]
      unfold apply
      rw [Function.update_self]
      exact written_some row

theorem flush_append (existing : Rows) (saved : List Saved) :
    flush true existing (desired saved) = replay existing (saved.map written) := by
  funext key
  unfold flush desired
  by_cases touched : Touches (saved.map written) key
  · have same := replay_touched (saved.map written) (fun _ => none) existing key touched
    rw [same]
    obtain ⟨row, found⟩ := Option.isSome_iff_exists.mp (desired_isSome saved existing key touched)
    rw [found]
    dsimp only
    split
    · next equal => exact equal
    · rfl
  · rw [replay_untouched _ _ key touched, replay_untouched _ _ key touched]
    rfl

theorem replay_skip (first : List Saved) (row : Saved) (later : List Saved) (existing : Rows)
    (again : Touches (later.map written) (written row).key) :
    replay (replay existing ((first ++ [row]).map written)) (later.map written) =
      replay (replay existing (first.map written)) (later.map written) := by
  funext key
  by_cases here : key = (written row).key
  · rw [here]
    exact replay_touched _ _ _ _ again
  · apply replay_congr
    rw [List.map_append, replay_append]
    apply replay_untouched
    rintro ⟨change, member, same⟩
    rw [List.map_singleton, List.mem_singleton] at member
    rw [← same, member] at here
    exact here rfl

theorem newEpisode_congr (ids other : Ids) (state : Position) (event : Event)
    (complete transferred : Bool) (same : ids event.spot = other event.spot) :
    newEpisode ids state event complete transferred =
      newEpisode other state event complete transferred := by
  unfold newEpisode
  rw [same]

theorem processEvent_congr (ids other : Ids) (pool : Decimals) (state : Position) (event : Event)
    (same : ids event.spot = other event.spot) :
    processEvent ids pool state event = processEvent other pool state event := by
  have entered : enter ids state event = enter other state event := by
    unfold enter processTransfer acquire enterEpisode
    simp only [newEpisode_congr ids other _ event _ _ same]
  unfold processEvent
  rw [entered]

theorem processEvents_congr (ids other : Ids) (pools : PoolId → Decimals) (state : Position)
    (events : List Event) (same : ∀ event ∈ events, ids event.spot = other event.spot) :
    processEvents ids pools state events = processEvents other pools state events := by
  induction events generalizing state with
  | nil => rfl
  | cons event rest ih =>
    unfold processEvents
    rw [processEvent_congr ids other _ state event (same event List.mem_cons_self)]
    dsimp only
    rw [ih _ fun later member => same later (List.mem_cons_of_mem event member)]

variable (ids : Ids) (pool : Decimals) (pools : PoolId → Decimals) (begun : Position)
  (state : Position)

theorem processEvents_append (first second : List Event) :
    processEvents ids pools state (first ++ second) =
      ((processEvents ids pools (processEvents ids pools state first).1 second).1,
        (processEvents ids pools state first).2 ++
          (processEvents ids pools (processEvents ids pools state first).1 second).2) := by
  induction first generalizing state with
  | nil => rfl
  | cons event rest ih =>
    simp only [List.cons_append, processEvents, ih, List.append_assoc]

def Apart (first second : List Event) : Prop :=
  ∀ event ∈ first, ∀ other ∈ second, event.spot.block ≠ other.spot.block

theorem sameTx_apart (event other : Event) (apart : event.spot.block ≠ other.spot.block) :
    sameTx event other = false := by
  unfold sameTx
  simp [apart]

variable (events : List Event) (event : Event)

theorem burnAhead_nothing (others : List Event)
    (apart : ∀ other ∈ others, event.spot.block ≠ other.spot.block) :
    burnAhead event others = false := by
  induction others with
  | nil => rfl
  | cons other rest ih =>
    unfold burnAhead
    rw [sameTx_apart event other (apart other List.mem_cons_self)]
    exact ih fun later member => apart later (List.mem_cons_of_mem other member)

theorem burnAhead_append (rest others : List Event)
    (apart : ∀ other ∈ others, event.spot.block ≠ other.spot.block) :
    burnAhead event (rest ++ others) = burnAhead event rest := by
  induction rest with
  | nil => exact burnAhead_nothing event others apart
  | cons other rest ih =>
    rw [List.cons_append]
    unfold burnAhead
    rw [ih]

theorem any_carries_apart (block : Int) (others : List Event)
    (apart : ∀ other ∈ others, block ≠ other.spot.block) : others.any (carries block) = false := by
  rw [List.any_eq_false]
  intro other member carried
  unfold carries at carried
  rw [Bool.and_eq_true, decide_eq_true_eq] at carried
  exact apart other member carried.1.symm

theorem prepared_append (seen : List Event) (event : Event) (rest others : List Event)
    (apart : ∀ other ∈ others, event.spot.block ≠ other.spot.block) :
    prepared seen event (rest ++ others) = prepared seen event rest := by
  have mints : others.any (fun other => other.kind = .transfer && other.data.mint &&
      sameTx event other) = false := by
    rw [List.any_eq_false]
    intro other member minted
    rw [sameTx_apart event other (apart other member), Bool.and_false] at minted
    cases minted
  unfold prepared mintFollows
  rw [List.any_append, List.any_append, any_carries_apart event.spot.block others apart, mints,
    burnAhead_append event rest others apart, Bool.or_false, Bool.or_false]

theorem prepared_seen (seen earlier : List Event) (event : Event) (rest : List Event)
    (apart : ∀ other ∈ earlier, event.spot.block ≠ other.spot.block) :
    prepared (seen ++ earlier) event rest = prepared seen event rest := by
  have added : earlier.any (fun other => other.kind = .add && sameTx event other) = false := by
    rw [List.any_eq_false]
    intro other member here
    rw [sameTx_apart event other (apart other member), Bool.and_false] at here
    cases here
  unfold prepared mintFollows
  rw [List.any_append, List.any_append, any_carries_apart event.spot.block earlier apart, added,
    Bool.or_false, Bool.or_false]

theorem preparedEvents_seen (seen earlier events : List Event) (apart : Apart events earlier) :
    preparedEvents (seen ++ earlier) events = preparedEvents seen events := by
  induction events generalizing seen with
  | nil => rfl
  | cons event rest ih =>
    unfold preparedEvents
    rw [prepared_seen seen earlier event rest (apart event List.mem_cons_self), ← List.cons_append,
      ih _ fun later member => apart later (List.mem_cons_of_mem event member)]

theorem preparedEvents_append (seen first second : List Event) (apart : Apart first second)
    (beyond : Apart second seen) : preparedEvents seen (first ++ second) =
      preparedEvents seen first ++ preparedEvents [] second := by
  induction first generalizing seen with
  | nil =>
    have unseen := preparedEvents_seen [] seen second beyond
    rw [List.nil_append] at unseen
    rw [List.nil_append, unseen]
    rfl
  | cons event rest ih =>
    have later : Apart second (event :: seen) := by
      intro other member earlier inside
      rcases List.mem_cons.mp inside with rfl | old
      · exact (apart earlier List.mem_cons_self other member).symm
      · exact beyond other member earlier old
    change prepared seen event (rest ++ second) ::
        preparedEvents (event :: seen) (rest ++ second) =
      prepared seen event rest :: preparedEvents (event :: seen) rest ++
        preparedEvents [] second
    rw [prepared_append seen event rest second (apart event List.mem_cons_self),
      ih (event :: seen) (fun later member => apart later (List.mem_cons_of_mem event member))
        later, List.cons_append]

theorem insert_append (sorted others : List Event)
    (before : ∀ other ∈ others, order event ≤ order other) :
    (sorted ++ others).orderedInsert (fun event later => order event ≤ order later) event =
      sorted.orderedInsert (fun event later => order event ≤ order later) event ++ others := by
  induction sorted with
  | nil =>
    cases others with
    | nil => rfl
    | cons other rest =>
      rw [List.nil_append, List.orderedInsert_cons, if_pos (before other List.mem_cons_self)]
      rfl
  | cons head tail ih =>
    rw [List.cons_append]
    rw [List.orderedInsert_cons, List.orderedInsert_cons]
    by_cases first : order event ≤ order head
    · rw [if_pos first, if_pos first]
      rfl
    · rw [if_neg first, if_neg first, ih]
      rfl

theorem ordered_append (first second : List Event)
    (before : ∀ event ∈ first, ∀ other ∈ second, order event ≤ order other) :
    ordered (first ++ second) = ordered first ++ ordered second := by
  induction first with
  | nil => rfl
  | cons event rest ih =>
    have sorted := ih fun later member => before later (List.mem_cons_of_mem event member)
    unfold ordered at sorted ⊢
    rw [List.cons_append, List.insertionSort_cons, sorted, List.insertionSort_cons]
    apply insert_append
    intro other member
    exact before event List.mem_cons_self other ((List.mem_insertionSort _).mp member)

def Running (active : Option Episode) : Prop :=
  ∀ episode ∈ active, episode.claimsComplete = false

def savesEpisode (saved : List Saved) (id : String) : Prop :=
  ∃ episode, Saved.episode episode ∈ saved ∧ episode.id = id

def Carried (before after : Option Episode) (saved : List Saved) : Prop :=
  Running before → Running after ∧ ∀ old ∈ before,
    (∃ now ∈ after, now.id = old.id) ∨ savesEpisode saved old.id

theorem savesEpisode_append (first second : List Saved) (id : String) :
    savesEpisode (first ++ second) id ↔ savesEpisode first id ∨ savesEpisode second id := by
  unfold savesEpisode
  constructor
  · rintro ⟨episode, member, here⟩
    rcases List.mem_append.mp member with early | late
    · exact Or.inl ⟨episode, early, here⟩
    · exact Or.inr ⟨episode, late, here⟩
  · rintro (⟨episode, member, here⟩ | ⟨episode, member, here⟩)
    · exact ⟨episode, List.mem_append_left second member, here⟩
    · exact ⟨episode, List.mem_append_right first member, here⟩

theorem Carried.same (active : Option Episode) (saved : List Saved) :
    Carried active active saved :=
  fun running => ⟨running, fun old active => Or.inl ⟨old, active, rfl⟩⟩

theorem Carried.trans {before middle after : Option Episode} {first second : List Saved}
    (early : Carried before middle first) (late : Carried middle after second) :
    Carried before after (first ++ second) := by
  intro running
  obtain ⟨running', carried⟩ := early running
  obtain ⟨running'', carried'⟩ := late running'
  refine ⟨running'', ?_⟩
  intro old active
  rcases carried old active with ⟨now, active', same⟩ | saved
  · rcases carried' now active' with ⟨last, active'', same'⟩ | saved
    · exact Or.inl ⟨last, active'', same'.trans same⟩
    · rw [same] at saved
      exact Or.inr ((savesEpisode_append first second old.id).mpr (Or.inr saved))
  · exact Or.inr ((savesEpisode_append first second old.id).mpr (Or.inl saved))

theorem Carried.changed (active : Option Episode) (saved : List Saved)
    (change : Episode → Episode) (named : ∀ episode, (change episode).id = episode.id)
    (claims : ∀ episode, (change episode).claimsComplete = episode.claimsComplete) :
    Carried active (active.map change) saved := by
  intro running
  constructor
  · intro episode changed
    obtain ⟨old, here, rfl⟩ := Option.map_eq_some_iff.mp changed
    rw [claims old]
    exact running old here
  · intro old here
    exact Or.inl ⟨change old, Option.map_eq_some_iff.mpr ⟨old, here, rfl⟩, named old⟩

theorem Carried.ended (old closed : Episode) (named : closed.id = old.id) :
    Carried (some old) none [.episode closed] := by
  intro _
  constructor
  · intro episode here
    cases here
  · intro episode here
    cases here
    exact Or.inr ⟨closed, List.mem_singleton_self _, named⟩

theorem Carried.began (episode : Episode) (saved : List Saved)
    (claims : episode.claimsComplete = false) : Carried none (some episode) saved := by
  intro _
  constructor
  · intro other here
    cases here
    exact claims
  · intro old here
    cases here

theorem updateIdentity_carried :
    Carried state.activeEpisode (updateIdentity state event).1.activeEpisode
      (updateIdentity state event).2 := by
  unfold updateIdentity
  dsimp only
  split
  · exact .same _ _
  · next owner _ =>
      have identified (saved : List Saved) (basis : String) : Carried state.activeEpisode
          (state.activeEpisode.map (Episode.identify owner basis)) saved := by
        apply Carried.changed
        · intro episode
          unfold Episode.identify
          split
          · rfl
          · rfl
        · intro episode
          unfold Episode.identify
          split
          · rfl
          · rfl
      split
      · split
        · exact identified _ _
        · exact identified _ _
      · split
        · exact .changed _ _ Episode.conflict (fun _ => rfl) fun _ => rfl
        · exact .same _ _

theorem endOwnership_active :
    (endOwnership state event).1.activeEpisode = state.activeEpisode := by
  unfold endOwnership
  split
  · split
    · rfl
    · rfl
  · rfl

theorem endEpisode_carried :
    Carried state.activeEpisode (endEpisode state event).1.activeEpisode
      (endEpisode state event).2 := by
  unfold endEpisode
  split
  · next episode active =>
      rw [active]
      split
      · exact .ended episode _ rfl
      · split
        · split
          · exact .ended episode _ rfl
          · exact .ended episode _ rfl
        · rw [active]
          exact .same _ _
  · next none =>
      rw [none]
      exact .same _ _

theorem acquire_carried (target : Address) (regular : Bool)
    (ended : regular = true → state.activeEpisode = none) :
    Carried state.activeEpisode (acquire ids state event target regular).1.activeEpisode
      (acquire ids state event target regular).2 := by
  unfold acquire
  extract_lets sourceZero interval owned
  split
  · next brings =>
      rw [ended (Bool.and_eq_true_iff.mp brings).1]
      exact .began _ _ rfl
  · exact .same _ _

theorem endEpisode_ends (regular : regularTransfer state event) :
    (endEpisode state event).1.activeEpisode = none := by
  unfold endEpisode
  split
  · rw [if_pos regular]
  · next none => exact none

theorem establish_active :
    (establish state event).1.activeEpisode = state.activeEpisode := by
  have read : (readLiquidity state event).activeEpisode = state.activeEpisode := by
    unfold readLiquidity
    split
    · rfl
    · split
      · rfl
      · rfl
  unfold establish
  dsimp only
  split
  · split
    · split
      · exact read
      · exact read
    · split
      · exact read
      · exact read
  · exact read

theorem processTransfer_carried :
    Carried state.activeEpisode (processTransfer ids state event).1.activeEpisode
      (processTransfer ids state event).2 := by
  have closed : Carried state.activeEpisode
      (endEpisode (endOwnership state event).1 event).1.activeEpisode
      ((endOwnership state event).2 ++ (endEpisode (endOwnership state event).1 event).2) := by
    have disowned := endOwnership_active state event
    have early : Carried state.activeEpisode (endOwnership state event).1.activeEpisode
        (endOwnership state event).2 := by
      rw [disowned]
      exact .same _ _
    exact early.trans (endEpisode_carried _ event)
  have owner : (endOwnership state event).1.owner = state.owner := by
    unfold endOwnership
    split
    · split
      · rfl
      · rfl
    · rfl
  have ends := endEpisode_ends (endOwnership state event).1 event
  unfold processTransfer
  rcases disowning : endOwnership state event with ⟨disowned, ended⟩
  rw [disowning] at closed owner ends
  dsimp -zeta only at closed owner ends ⊢
  rcases closing : endEpisode disowned event with ⟨left, finished⟩
  rw [closing] at closed ends
  dsimp -zeta only at closed ends ⊢
  extract_lets moved
  split
  · next target _ =>
      extract_lets named
      split
      · exact closed
      · split
        · exact closed
        · apply closed.trans
          apply acquire_carried ids named
          intro regular
          apply ends
          unfold regularTransfer at regular ⊢
          rw [owner]
          exact regular
  · split
    · exact closed
    · exact closed

theorem leaveEpisode_carried :
    Carried state.activeEpisode (leaveEpisode state event).1.activeEpisode
        (leaveEpisode state event).2.1 ∧
      (leaveEpisode state event).1.activeEpisode = none ∨ ¬Running state.activeEpisode := by
  unfold leaveEpisode
  split
  · next old active =>
      split
      · next settled =>
          right
          intro running
          have open_ := running old active
          rw [open_, Bool.and_false] at settled
          cases settled
      · left
        rw [active]
        exact ⟨.ended old _ rfl, rfl⟩
  · next none =>
      left
      rw [none]
      exact ⟨.same _ _, rfl⟩

theorem enterEpisode_carried (seen state : Position) (event : Event) :
    Carried state.activeEpisode (enterEpisode ids seen state event).1.activeEpisode
      (enterEpisode ids seen state event).2 := by
  unfold enterEpisode
  split
  · have leave := leaveEpisode_carried state event
    rcases leaving : leaveEpisode state event with ⟨left, saved, reentered⟩
    rw [leaving] at leave
    dsimp -zeta only at leave ⊢
    extract_lets ambiguous
    rcases leave with ⟨left, gone⟩ | settled
    · rw [gone] at left
      rw [← List.append_nil saved]
      apply left.trans
      apply Carried.began
      split
      · rfl
      · rfl
    · exact fun running => absurd running settled
  · split
    · next begins =>
        have inactive : state.activeEpisode = none := by
          simp only [Bool.and_eq_true, Option.isNone_iff_eq_none] at begins
          exact begins.1
        rw [inactive]
        exact .began _ _ rfl
    · exact .same _ _

theorem updateClaimState_active (effect : Effect) :
    (updateClaimState state event effect).activeEpisode = state.activeEpisode := by
  have moved : (movePending state event effect).activeEpisode = state.activeEpisode := by
    unfold movePending
    split
    · split
      · split
        · rfl
        · rfl
      · rfl
    · split
      · split
        · rfl
        · rfl
      · rfl
    · rfl
  have read (other : Position) : (readOwed other event).activeEpisode = other.activeEpisode := by
    unfold readOwed
    split
    · rfl
    · split
      · rfl
      · rfl
  unfold updateClaimState
  rw [read]
  split
  · exact moved
  · rfl

theorem allocate_keeps (episode : Episode) (protocol : ProtocolName) :
    (episode.allocate protocol).id = episode.id := by
  unfold Episode.allocate
  extract_lets amounts
  split
  · rfl
  · rfl

theorem closeEpisode_carried (protocol : ProtocolName) :
    Carried state.activeEpisode (closeEpisode state event protocol).1.activeEpisode
      (closeEpisode state event protocol).2 := by
  unfold closeEpisode
  split
  · exact .same _ _
  · next episode active =>
      have renamed (change : Episode) (named : change.id = episode.id)
          (claims : episode.claimsComplete = false → change.claimsComplete = false) :
          Carried state.activeEpisode (some change) [] := by
        rw [active]
        intro running
        constructor
        · intro other here
          cases here
          exact claims (running episode rfl)
        · intro old here
          cases here
          exact Or.inl ⟨change, rfl, named⟩
      split
      · split
        · exact renamed _ rfl id
        · exact .same _ _
      · split
        · split
          · rw [active]
            exact .ended episode _ (allocate_keeps _ protocol)
          · exact renamed _ rfl fun _ => rfl
        · split
          · exact renamed _ rfl id
          · exact .same _ _

theorem enter_carried :
    Carried state.activeEpisode (enter ids state event).1.activeEpisode
      (enter ids state event).2 := by
  have established (identified : Position) : Carried identified.activeEpisode
      (enterEpisode ids identified (establish identified event).1 event).1.activeEpisode
      ((establish identified event).2 ++
        (enterEpisode ids identified (establish identified event).1 event).2) := by
    have early : Carried identified.activeEpisode (establish identified event).1.activeEpisode
        (establish identified event).2 := by
      rw [establish_active]
      exact .same _ _
    exact early.trans (enterEpisode_carried ids identified _ event)
  cases transfers : isTransfer state event with
  | true =>
    have named := processTransfer_carried ids (readColumns state event) event
    have all := named.trans (established (processTransfer ids (readColumns state event) event).1)
    rw [← List.append_assoc] at all
    unfold enter
    rw [transfers]
    exact all
  | false =>
    have named := updateIdentity_carried (readColumns state event) event
    have all := named.trans (established (updateIdentity (readColumns state event) event).1)
    rw [← List.append_assoc] at all
    unfold enter
    rw [transfers]
    exact all

theorem account_carried (pool : Decimals) (protocol : ProtocolName) (transfers : Bool) :
    Carried state.activeEpisode (account state event pool protocol transfers).1.activeEpisode
      (account state event pool protocol transfers).2 := by
  unfold account
  extract_lets effect applied
  have changed : Carried state.activeEpisode applied.activeEpisode [] := by
    apply Carried.changed
    · exact fun _ => rfl
    · exact fun _ => rfl
  rw [← updateClaimState_active applied event effect] at changed
  have closed := changed.trans
    (closeEpisode_carried (updateClaimState applied event effect) event protocol)
  exact closed.trans (.same _ _)

theorem processEvent_carried :
    Carried state.activeEpisode (processEvent ids pool state event).1.activeEpisode
      (processEvent ids pool state event).2 :=
  (enter_carried ids state event).trans (account_carried (enter ids state event).1 _ _ _ _)

theorem processEvents_carried : Carried state.activeEpisode
      (processEvents ids pools state events).1.activeEpisode
      (processEvents ids pools state events).2 := by
  induction events generalizing state with
  | nil => exact .same _ _
  | cons event rest ih =>
    exact (processEvent_carried ids _ state event).trans (ih _)

theorem preparedEvents_spots (seen events : List Event) :
    (preparedEvents seen events).map Event.spot = events.map Event.spot := by
  induction events generalizing seen with
  | nil => rfl
  | cons event rest ih =>
    change event.spot :: (preparedEvents (event :: seen) rest).map Event.spot = _
    rw [ih]
    rfl

theorem mem_preparedEvents (seen events : List Event) (event : Event)
    (member : event ∈ preparedEvents seen events) :
    ∃ original ∈ events, event = { original with data := event.data } := by
  induction events generalizing seen with
  | nil => cases member
  | cons first rest ih =>
    rcases List.mem_cons.mp member with rfl | inside
    · exact ⟨first, List.mem_cons_self, rfl⟩
    · obtain ⟨original, among, same⟩ := ih (first :: seen) inside
      exact ⟨original, List.mem_cons_of_mem first among, same⟩

theorem processEvents_lastSpot : (processEvents ids pools state events).1.lastSpot =
      ((events.map Event.spot).getLast?).getD state.lastSpot := by
  induction events generalizing state with
  | nil => rfl
  | cons event rest ih =>
    change (processEvents ids pools (processEvent ids (poolOf pools state event) state event).1
      rest).1.lastSpot = _
    rw [ih]
    cases rest with
    | nil => rfl
    | cons next later =>
      rw [List.map_cons, List.map_cons, List.map_cons, List.getLast?_cons_cons,
        List.getLast?_eq_some_getLast (List.cons_ne_nil _ _)]
      rfl

theorem ordered_mem :
    event ∈ ordered events ↔ event ∈ events :=
  List.mem_insertionSort _

theorem order_block (event other : Event) (before : order event ≤ order other) :
    event.spot.block ≤ other.spot.block := by
  unfold order at before
  rw [Prod.Lex.toLex_le_toLex] at before
  rcases before with less | ⟨same, _⟩
  · exact le_of_lt less
  · exact le_of_eq same

theorem blocks_le_last (event last : Event) (member : event ∈ ordered events)
    (here : (ordered events).getLast? = some last) : event.spot.block ≤ last.spot.block := by
  have sorted : (ordered events).Pairwise fun event later => order event ≤ order later :=
    List.pairwise_insertionSort _ _
  obtain ⟨init, split⟩ := List.getLast?_eq_some_iff.mp here
  rw [split] at member sorted
  rcases List.mem_append.mp member with inside | final
  · apply order_block
    exact (List.pairwise_append.mp sorted).2.2 event inside last (List.mem_singleton_self _)
  · rw [List.mem_singleton.mp final]

theorem meets_false (last event : Spot) (apart : meets last event = false) :
    last.block < event.block := by
  unfold meets at apart
  rw [Bool.or_eq_false_iff, decide_eq_false_iff_not, decide_eq_false_iff_not,
    Prod.Lex.toLex_le_toLex, not_or] at apart
  obtain ⟨other, notBefore, _⟩ := apart
  exact lt_of_le_of_ne (not_lt.mp notBefore) (Ne.symm other)

theorem derive_rows (known added : List Event) (inactive : begun.activeEpisode = none)
    (apart : Apart known added) (unkept : ∀ event ∈ added, ids event.spot = none) :
    (derive ids pools begun (known ++ added)).1 =
        (derive (fun _ => none) pools (derive ids pools begun known).1 added).1 ∧
      desired (derive ids pools begun (known ++ added)).2 =
        replay (desired (derive ids pools begun known).2)
          ((derive (fun _ => none) pools (derive ids pools begun known).1 added).2.map written) := by
  have fresh : ∀ event ∈ preparedEvents [] added, ids event.spot = none := by
    intro event member
    have spot : event.spot ∈ added.map Event.spot := by
      rw [← preparedEvents_spots []]
      exact List.mem_map_of_mem member
    obtain ⟨original, inside, same⟩ := List.mem_map.mp spot
    rw [← same]
    exact unkept original inside
  have split : preparedEvents [] (known ++ added) =
      preparedEvents [] known ++ preparedEvents [] added :=
    preparedEvents_append [] known added apart fun _ _ other inside => absurd inside List.not_mem_nil
  rcases first : processEvents ids pools begun (preparedEvents [] known) with ⟨middle, saved⟩
  rcases second : processEvents (fun _ => none) pools middle (preparedEvents [] added) with
    ⟨last, more⟩
  have whole : processEvents ids pools begun (preparedEvents [] (known ++ added)) =
      (last, saved ++ more) := by
    rw [split, processEvents_append, first]
    dsimp only
    rw [processEvents_congr ids (fun _ => none) pools middle _ fresh, second]
  have running : Running middle.activeEpisode := by
    have carried := processEvents_carried ids pools begun (preparedEvents [] known)
    rw [first, inactive] at carried
    apply (carried _).1
    intro episode active
    cases active
  have later := processEvents_carried (fun _ => none) pools middle (preparedEvents [] added)
  rw [second] at later
  unfold derive
  rw [whole, first]
  dsimp only
  rw [second]
  refine ⟨rfl, ?_⟩
  unfold desired
  cases active : middle.activeEpisode with
  | none =>
    rw [Option.toList_none, List.map_nil, List.append_nil, List.append_assoc, List.map_append,
      replay_append]
  | some episode =>
    -- the full replay does not save the episode that was active between the two
    rw [Option.toList_some, List.map_singleton, replay_skip, List.append_assoc, List.map_append,
      replay_append]
    obtain ⟨now, here, same⟩ | ⟨row, saved, same⟩ := (later running).2 episode active
    · rw [here]
      refine ⟨written (.episode now), ?_, ?_⟩
      · apply List.mem_map_of_mem
        exact List.mem_append_right more (List.mem_singleton_self _)
      · exact congrArg RowKey.episode same
    · refine ⟨written (.episode row), ?_, ?_⟩
      · apply List.mem_map_of_mem
        exact List.mem_append_left _ saved
      · exact congrArg RowKey.episode same

theorem derive_lastSpot (last : Event) (here : events.getLast? = some last) :
    (derive ids pools begun events).1.lastSpot = last.spot := by
  change (processEvents ids pools begun (preparedEvents [] events)).1.lastSpot = last.spot
  rw [processEvents_lastSpot, preparedEvents_spots, List.getLast?_map, here, Option.map_some,
    Option.getD_some]

theorem append_later (projected : EventId → Bool) (ledger next : Ledger) (events : List Event)
    (appended : appendPosition pools projected ledger events = some next) (event : Event)
    (member : event ∈ events) : ledger.state.lastSpot.block < event.spot.block := by
  unfold appendPosition at appended
  split at appended
  · cases appended
  · next guard =>
      simp only [not_or, Bool.not_eq_true, List.any_eq_false] at guard
      exact meets_false _ event.spot (guard.2.2 event member)

theorem append_resumes (identities : Identities) (pools : PoolId → Decimals) (key : String)
    (before existing : Rows) (known added : List Event) (projected : EventId → Bool)
    (ledger next : Ledger)
    (persisted : rebuildPosition identities pools key before known = some ledger)
    (unkept : ∀ event ∈ added, identities.ids event.spot = none)
    (appended : appendPosition pools projected ledger added = some next) :
    rebuildPosition identities pools key existing (known ++ added) = some next := by
  unfold rebuildPosition at persisted
  cases sorted : ordered known with
  | nil =>
    rw [sorted] at persisted
    cases persisted
  | cons first rest =>
    rw [sorted] at persisted
    dsimp only at persisted
    have rows := derive_rows identities.ids pools (restored identities (newState key first))
      (first :: rest) (ordered added) rfl
    obtain ⟨last, here⟩ := Option.isSome_iff_exists.mp
      (List.getLast?_isSome.mpr (List.cons_ne_nil first rest))
    have final := derive_lastSpot identities.ids pools (restored identities (newState key first))
      (first :: rest) last here
    rcases derived : derive identities.ids pools (restored identities (newState key first))
      (first :: rest) with ⟨state, saved⟩
    rw [derived] at persisted rows final
    dsimp only at persisted rows final
    rw [flush_full] at persisted
    cases persisted
    have beyond := append_later pools projected _ next added appended
    unfold appendPosition at appended
    split at appended
    · cases appended
    · have later : ∀ event ∈ first :: rest, ∀ other ∈ ordered added,
          event.spot.block < other.spot.block := by
        intro event member other inside
        have past := beyond other ((ordered_mem added other).mp inside)
        rw [final] at past
        rw [← sorted] at member here
        exact lt_of_le_of_lt (blocks_le_last known event last member here) past
      have whole : ordered (known ++ added) = first :: (rest ++ ordered added) := by
        rw [ordered_append, sorted]
        · rfl
        · intro event member other inside
          rw [← ordered_mem, sorted] at member
          rw [← ordered_mem] at inside
          unfold order
          rw [Prod.Lex.toLex_le_toLex]
          exact Or.inl (later event member other inside)
      obtain ⟨whole_state, whole_rows⟩ := rows (fun event member other inside =>
          (later event member other inside).ne)
        (fun event member => unkept event ((ordered_mem added event).mp member))
      rcases resumed : derive (fun _ => none) pools state (ordered added) with ⟨last, more⟩
      rw [resumed] at whole_state whole_rows
      change (match derive (fun _ => none) pools state (ordered added) with
        | (state, more) => some (Ledger.mk state (flush true (desired saved) (desired more)))) =
          some next at appended
      rw [resumed] at appended
      dsimp only at appended whole_state whole_rows
      rw [flush_append, ← whole_rows, ← whole_state, Option.some.injEq] at appended
      unfold rebuildPosition
      rw [whole]
      dsimp only
      rw [flush_full, ← appended, ← List.cons_append]

theorem derive_congr (ids other : Ids) (pools : PoolId → Decimals) (begun : Position)
    (events : List Event) (same : ∀ event ∈ events, ids event.spot = other event.spot) :
    derive ids pools begun events = derive other pools begun events := by
  unfold derive
  rw [processEvents_congr ids other pools begun (preparedEvents [] events)]
  intro event member
  have spot : event.spot ∈ events.map Event.spot := by
    rw [← preparedEvents_spots []]
    exact List.mem_map_of_mem member
  obtain ⟨original, inside, here⟩ := List.mem_map.mp spot
  rw [← here]
  exact same original inside

theorem rebuild_upTo (identities : Identities) (pools : PoolId → Decimals) (key : String)
    (existing : Rows) (events : List Event) (ledger : Ledger)
    (rebuilt : rebuildPosition identities pools key existing events = some ledger) :
    rebuildPosition (identities.upTo ledger.state.lastSpot.block) pools key existing events =
      some ledger := by
  unfold rebuildPosition at rebuilt ⊢
  cases sorted : ordered events with
  | nil =>
    rw [sorted] at rebuilt
    cases rebuilt
  | cons first rest =>
    rw [sorted] at rebuilt
    dsimp only at rebuilt ⊢
    obtain ⟨last, here⟩ := Option.isSome_iff_exists.mp
      (List.getLast?_isSome.mpr (List.cons_ne_nil first rest))
    have final := derive_lastSpot identities.ids pools (restored identities (newState key first))
      (first :: rest) last here
    have block : ledger.state.lastSpot.block = last.spot.block := by
      rw [← final, ← Option.some.inj rebuilt]
    have same : derive (identities.upTo ledger.state.lastSpot.block).ids pools
        (restored identities (newState key first)) (first :: rest) =
        derive identities.ids pools (restored identities (newState key first))
          (first :: rest) := by
      apply derive_congr
      intro event member
      rw [← sorted] at member here
      unfold Identities.upTo
      dsimp only
      rw [if_pos]
      rw [block]
      exact blocks_le_last events event last member here
    change some _ = some ledger
    rw [← rebuilt, ← same]
    rfl

/-- Where `_append_position` returns true, the state and the rows are those of a full replay of
all the events, with the identities of the episodes there were. -/
theorem append_replays (identities : Identities) (pools : PoolId → Decimals) (key : String)
    (before existing : Rows) (known added : List Event) (projected : EventId → Bool)
    (ledger next : Ledger)
    (persisted : rebuildPosition identities pools key before known = some ledger)
    (appended : appendPosition pools projected ledger added = some next) :
    rebuildPosition (identities.upTo ledger.state.lastSpot.block) pools key existing
      (known ++ added) = some next := by
  apply append_resumes _ pools key before existing known added projected ledger next
  · exact rebuild_upTo identities pools key before known ledger persisted
  · intro event member
    have later := append_later pools projected ledger next added appended event member
    unfold Identities.upTo
    dsimp only
    rw [if_neg (not_le.mpr later)]
  · exact appended


/-- A deposit, and a withdrawal and a collect that are appended to it. -/
def sampleKnown : List Event := [plainEvent .add 1 7 5 5]

def sampleAdded : List Event :=
  [{ plainEvent .collect 3 0 7 6 with id := 2 }, { plainEvent .remove 2 7 5 5 with id := 1 }]

def samplePools : PoolId → Decimals := fun _ => noDecimals

theorem sample_rebuilds : (rebuildPosition .none samplePools "position" (fun _ => none)
    sampleKnown).isSome := by
  decide

def sampleLedger : Ledger :=
  (rebuildPosition .none samplePools "position" (fun _ => none) sampleKnown).get sample_rebuilds

theorem sample_appends :
    (appendPosition samplePools (fun _ => false) sampleLedger sampleAdded).isSome := by
  decide

theorem append_replays_sample :
    rebuildPosition (Identities.none.upTo sampleLedger.state.lastSpot.block) samplePools "position"
        (fun _ => none) (sampleKnown ++ sampleAdded) =
      some ((appendPosition samplePools (fun _ => false) sampleLedger sampleAdded).get
        sample_appends) :=
  append_replays .none samplePools "position" (fun _ => none) (fun _ => none) sampleKnown
    sampleAdded (fun _ => false) sampleLedger _ (Option.some_get sample_rebuilds).symm
    (Option.some_get sample_appends).symm

end RhPools.PositionReplay
