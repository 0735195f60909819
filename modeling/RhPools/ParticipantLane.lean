import RhPools.ClaimRefreshes
import RhPools.PoolInventory

/-! The participant lane of the maintenance thread. It makes a path of ticks from the
tracking points since the last refresh, refreshes the claims, and starts the accounting of
positions that hold a claim for the first time. The recorder of the points leaves out their
ticks, so that no point can be on the path. -/

namespace RhPools.ParticipantLane
open OrderedTables ParticipantClaims ClaimRefreshes TickMath PoolInventory
open PositionFees (Key Storage TrackingPoint recordTracking)
open EventWords (mapM_ok)
open TxChain (Failure)

structure SwapRow where
  block : Nat
  timestamp : Int
  tick : Option Int
  sqrtPriceX96 : Option Nat
  activeLiquidity : Option Nat
  deriving DecidableEq, Repr

/-- What makes tracking points: a core that is read at a header, and the rows that current
events or logs add or change. -/
inductive Recording where
  | core (block : Nat) (timestamp : Int) (state : Core)
  | currentEvents (rows : List SwapRow)
  | swaps (rows : List SwapRow)

/-- The point of a swap, with its tick; none where the price or the liquidity is missing. -/
def SwapRow.point (row : SwapRow) : Option (TrackingPoint × Option Int) :=
  row.sqrtPriceX96.bind fun _ => row.activeLiquidity.map fun active =>
    (⟨row.block, row.timestamp, active⟩, row.tick)

def Recording.points : Recording → List (TrackingPoint × Option Int)
  | .core block timestamp state => [(⟨block, timestamp, state.liquidity⟩, some state.tick)]
  | .currentEvents rows => rows.filterMap SwapRow.point
  | .swaps rows => rows.filterMap SwapRow.point

/-- All three producers go through `_record_tracking`. -/
def Recording.record (tracking : List TrackingPoint) (recording : Recording) :
    List TrackingPoint :=
  (recording.points.map Prod.fst).foldl recordTracking tracking

inductive LaneError where
  | key (name : String)
  | rpc (text : String)
  | math (failure : Failure)
  deriving DecidableEq, Repr

/-- `str(exc)`. -/
def LaneError.text : LaneError → String
  | .key name => s!"'{name}'"
  | .rpc text => text
  | .math (.value detail) => detail
  | .math _ => "integer division or modulo by zero"

/-- `int(point["tick"])`. -/
def pointTick (point : TrackingPoint) : Except LaneError Int :=
  (point.item "tick").elim (.error (.key "tick")) .ok

def refreshFrom (selection : Selection) : Int :=
  (selection.participantRefreshBlock.map Int.ofNat).getD (-1)

def recentPoints (selection : Selection) : List TrackingPoint :=
  selection.tracking.filter fun point => decide (refreshFrom selection ≤ point.block)

def tickPath (selection : Selection) : Except LaneError (List Int) :=
  (recentPoints selection).mapM pointTick

def confirmedCore (selection : Selection) : Option Core :=
  if selection.needsSeed ∨ selection.cursor = 0 ∨ selection.participantRanges.entries = [] ∨
      selection.coreBlock ≠ some selection.cursor ∨
      selection.coreHash ≠ some selection.cursorHash then none
  else selection.core

/-- `needs_refresh`. -/
def needsRefresh (selection : Selection) : Bool :=
  selection.participantRefreshBlock != some selection.cursor ||
    selection.allKeys.any selection.changed

def observedAt (selection : Selection) : Int :=
  ((selection.snapshot.bind Snapshot.blockTimestamp).filter fun timestamp =>
    decide (timestamp ≠ 0)).getD selection.createdAt

/-- The entry of `_establish_accounting_baselines` for one position. -/
def establish (core : Core) (block : Nat) (timestamp : Int) (selection : Selection)
    (key : Key) : Except LaneError Selection :=
  if (selection.participantAccounting.get key).isSome then .ok selection
  else match (selection.participantState.get key).bind fun state =>
      state.claim.map fun claim => (state.storage, claim) with
    | none => .ok selection
    | some (storage, claim) =>
      match principalRaw storage.liquidity core.sqrt key.2.1 key.2.2 with
      | .error failure => .error (.math failure)
      | .ok (principal0, principal1) => .ok { selection with
          participantAccounting := selection.participantAccounting.assign key {
            baselineBlock := block
            baselineTimestamp := timestamp
            baselineClaim := (claim.claim0, claim.claim1)
            baselineEquity := (principal0 + claim.claim0, principal1 + claim.claim1)
            deposited := (0, 0)
            burnPrincipal := (0, 0)
            collected := (0, 0) } }

def baselineKeys (selection : Selection) : List Key :=
  selection.resolvedKeys.filter fun key => (selection.participantAccounting.get key).isNone

def InDomain (key : Key) : Prop :=
  (MIN_TICK ≤ key.2.1 ∧ key.2.1 ≤ MAX_TICK) ∧ MIN_TICK ≤ key.2.2 ∧ key.2.2 ≤ MAX_TICK

instance (key : Key) : Decidable (InDomain key) := inferInstanceAs (Decidable (_ ∧ _))

structure RangesInDomain (selection : Selection) : Prop where
  ranges : ∀ key ∈ selection.allKeys, InDomain key
  states : ∀ key state, selection.participantState.get key = some state → InDomain key

structure Meanwhile where
  change : Selection → Selection
  seeded : ∀ selection, (change selection).needsSeed = selection.needsSeed
  cursor : ∀ selection, (change selection).cursor = selection.cursor
  generation : ∀ selection, (change selection).historyGeneration = selection.historyGeneration
  refreshed : ∀ selection,
    (change selection).participantRefreshBlock = selection.participantRefreshBlock
  inDomain : ∀ selection, RangesInDomain selection → RangesInDomain (change selection)

def Meanwhile.nothing : Meanwhile :=
  ⟨id, fun _ => rfl, fun _ => rfl, fun _ => rfl, fun _ => rfl, fun _ => id⟩

/-- `_refresh_participants` with the replies to its calls. -/
def refreshParticipants (order : SetOrder) (replies : Replies) (reading : Meanwhile)
    (block : Nat) (core : Core) (tickPath : List Int) (selection : Selection) :
    Except LaneError Selection :=
  let begun := selection.beginRefresh order block core [] tickPath
  match begun.2 with
  | none => .ok begun.1
  | some refresh =>
    match (reading.change begun.1).finishRefresh refresh replies with
    | .error text => .error (.rpc text)
    | .ok finished => .ok finished.1

/-- The lock is free before the refresh, while it reads, and after it. -/
structure Gaps where
  before : Meanwhile
  reading : Meanwhile
  after : Meanwhile

/-- `_refresh_selected_participants`. -/
def refreshSelected (order : SetOrder) (replies : Replies) (gaps : Gaps)
    (selection : Selection) : Except LaneError (Bool × Selection) :=
  match confirmedCore selection with
  | none => .ok (false, selection)
  | some core =>
    if needsRefresh selection = false then .ok (false, selection)
    else do
      let block := selection.cursor
      let tickPath ← tickPath selection
      let refreshed ← refreshParticipants order replies gaps.reading block core tickPath
        (gaps.before.change selection)
      let current := gaps.after.change refreshed
      if current.needsSeed ∨ current.cursor ≠ block ∨
          current.participantRefreshBlock ≠ some block then
        return (false, current)
      let based ← (order.arrange (baselineKeys current)).foldlM
        (establish core block (observedAt selection)) current
      return (true, { based with snapshotDirty := true })

/-- The phase in `_maintenance_run`: an error is only noted. -/
def maintained (order : SetOrder) (replies : Replies) (gaps : Gaps)
    (selection : Selection) : Selection :=
  match refreshSelected order replies gaps selection with
  | .ok (_, after) => after
  | .error error => { selection with
      snapshotDirty := true
      participantRefreshError := some s!"off-lane participant refresh failed: {error.text}" }

/-- Well-formed replies: enough words for every position and tick, and hexadecimal code. -/
structure WellFormed (replies : Replies) : Prop where
  position : ∀ key, ∃ read, readPosition replies key = .ok (key, read)
  tick : ∀ boundary, ∃ outside, readTick replies boundary = .ok (boundary, outside)
  kind : ∀ owner, ∃ kind, readKind replies owner = .ok (owner, kind)

/-- A selection with ranges, its core at the cursor, and no refresh for that block. -/
structure Ready (recordings : List Recording) (selection : Selection) : Prop where
  recorded : selection.tracking = recordings.foldl Recording.record []
  seeded : selection.needsSeed = false
  started : selection.cursor ≠ 0
  tracked : selection.participantRanges.entries ≠ []
  core : selection.core.isSome
  coreBlock : selection.coreBlock = some selection.cursor
  coreHash : selection.coreHash = some selection.cursorHash
  due : selection.participantRefreshBlock ≠ some selection.cursor
  inDomain : RangesInDomain selection

/-- The lane does not raise, refreshes at the cursor, and makes a path that has the tick of
every recorded point that is at the previously refreshed block or after it. -/
def Completes (order : SetOrder) (replies : Replies) (gaps : Gaps) (recordings : List Recording)
    (selection : Selection) : Prop :=
  ∃ path after, tickPath selection = .ok path ∧
    refreshSelected order replies gaps selection = .ok (true, after) ∧
    after.participantRefreshBlock = some selection.cursor ∧
    ∀ seen ∈ recordings.flatMap Recording.points, seen.1 ∈ recentPoints selection →
      ∀ tick, seen.2 = some tick → tick ∈ path

theorem pointTick_missing (point : TrackingPoint) : pointTick point = .error (.key "tick") := rfl

theorem tickPath_missing {selection : Selection} (recent : recentPoints selection ≠ []) :
    tickPath selection = .error (.key "tick") := by
  obtain ⟨point, rest, points⟩ := List.exists_cons_of_ne_nil recent
  rw [tickPath, points, List.mapM_cons, pointTick_missing]
  rfl

theorem tickPath_ok {selection : Selection} {path : List Int}
    (made : tickPath selection = .ok path) : recentPoints selection = [] := by
  by_contra recent
  rw [tickPath_missing recent] at made
  cases made

theorem recentPoints_none (selection : Selection) : recentPoints selection = [] ↔
    ∀ point ∈ selection.tracking, (point.block : Int) < refreshFrom selection := by
  simp [recentPoints, List.filter_eq_nil_iff]

theorem finishRefresh_ok {replies : Replies} (wellFormed : WellFormed replies)
    (selection : Selection) (refresh : Refresh) (seeded : selection.needsSeed = false)
    (here : selection.cursor = refresh.block)
    (generation : selection.historyGeneration = refresh.generation) :
    ∃ after, selection.finishRefresh refresh replies = .ok (after, refresh.refreshKeys) ∧
      after.participantRefreshBlock = some refresh.block ∧ after.needsSeed = false ∧
      after.cursor = selection.cursor ∧ after.participantRanges = selection.participantRanges ∧
      ∀ key state, after.participantState.get key = some state →
        key ∈ refresh.refreshKeys ∨ ∃ old, selection.participantState.get key = some old := by
  choose read reads using wellFormed.position
  choose outside outsides using wellFormed.tick
  choose kind kinds using wellFormed.kind
  have going : ¬(selection.needsSeed ∨ selection.cursor ≠ refresh.block ∨
      selection.historyGeneration ≠ refresh.generation) := by
    simp [seeded, here, generation]
  unfold Selection.finishRefresh
  rw [mapM_value reads, mapM_value outsides, mapM_value kinds]
  have named : (refresh.refreshKeys.map fun key => (key, read key)).map Prod.fst =
      refresh.refreshKeys := by simp [Function.comp_def]
  simp only [bind, Except.bind, pure, Except.pure, if_neg going, named]
  refine ⟨_, rfl, rfl, seeded, rfl, rfl, ?_⟩
  intro key state held
  rw [get_modify, get_assignAll, Option.map_eq_some_iff] at held
  obtain ⟨old, found, _⟩ := held
  by_cases inside : key ∈ refresh.refreshKeys
  · exact .inl inside
  · rw [if_neg inside] at found
    exact .inr ⟨old, found⟩

theorem refreshParticipants_ok (order : SetOrder) {replies : Replies} (reading : Meanwhile)
    {selection : Selection} (core : Core) (path : List Int) (wellFormed : WellFormed replies)
    (seeded : selection.needsSeed = false) (inDomain : RangesInDomain selection) :
    ∃ after, refreshParticipants order replies reading selection.cursor core path selection =
        .ok after ∧ after.participantRefreshBlock = some selection.cursor ∧
      after.needsSeed = false ∧ after.cursor = selection.cursor ∧ RangesInDomain after := by
  have going : ¬(selection.needsSeed ∨ selection.cursor ≠ selection.cursor) := by simp [seeded]
  unfold refreshParticipants Selection.beginRefresh
  rw [if_neg going]
  by_cases untracked : selection.allKeys = []
  · rw [if_pos untracked]
    exact ⟨_, rfl, rfl, seeded, rfl, inDomain.ranges, inDomain.states⟩
  · rw [if_neg untracked]
    simp only
    generalize flying : Refresh.mk _ _ _ _ _ _ _ = refresh
    have block : refresh.block = selection.cursor := by rw [← flying]
    have generation : refresh.generation = selection.historyGeneration := by rw [← flying]
    have picked : ∀ key ∈ refresh.refreshKeys, InDomain key := by
      intro key member
      rw [← flying] at member
      obtain ⟨observed, there⟩ := Option.isSome_iff_exists.mp (refreshKeys_tracked member)
      exact inDomain.ranges key (List.mem_map_of_mem ((get_some _ _ _).mp there))
    obtain ⟨after, done, refreshed, still, cursor, ranges, states⟩ :=
      finishRefresh_ok wellFormed (reading.change selection) refresh
        ((reading.seeded selection).trans seeded) ((reading.cursor selection).trans block.symm)
        ((reading.generation selection).trans generation.symm)
    rw [done]
    have between := reading.inDomain selection inDomain
    refine ⟨after, rfl, by rw [refreshed, block], still, cursor.trans (reading.cursor selection),
      ?_, ?_⟩
    · intro key member
      rw [Selection.allKeys, ranges] at member
      exact between.ranges key member
    · intro key state held
      rcases states key state held with read | ⟨old, there⟩
      · exact picked key read
      · exact between.states key old there

theorem principalRaw_ok (liquidity sqrt : Int) {key : Key} (inDomain : InDomain key) :
    ∃ principal, principalRaw liquidity sqrt key.2.1 key.2.2 = .ok principal := by
  obtain ⟨⟨lowerMin, lowerMax⟩, upperMin, upperMax⟩ := inDomain
  unfold principalRaw
  rw [sqrtRatioAtTick_ok _ lowerMin lowerMax, sqrtRatioAtTick_ok _ upperMin upperMax]
  simp only [TxChain.Try.ok_bind]
  split
  · exact ⟨_, rfl⟩
  · split
    · exact ⟨_, rfl⟩
    · exact ⟨_, rfl⟩

theorem establish_ok (core : Core) (block : Nat) (timestamp : Int) {selection : Selection}
    (inDomain : RangesInDomain selection) (key : Key) :
    ∃ after, establish core block timestamp selection key = .ok after ∧
      after.participantRefreshBlock = selection.participantRefreshBlock ∧
      RangesInDomain after := by
  unfold establish
  split
  · exact ⟨selection, rfl, rfl, inDomain⟩
  · split
    · exact ⟨selection, rfl, rfl, inDomain⟩
    · rename_i storage claim found
      obtain ⟨state, held, _⟩ := Option.bind_eq_some_iff.mp found
      obtain ⟨principal, computed⟩ :=
        principalRaw_ok storage.liquidity core.sqrt (inDomain.states key state held)
      rw [computed]
      exact ⟨_, rfl, rfl, inDomain.ranges, inDomain.states⟩

theorem establishAll_ok (core : Core) (block : Nat) (timestamp : Int) (keys : List Key)
    {selection : Selection} (inDomain : RangesInDomain selection) :
    ∃ after, keys.foldlM (establish core block timestamp) selection = .ok after ∧
      after.participantRefreshBlock = selection.participantRefreshBlock := by
  induction keys generalizing selection with
  | nil => exact ⟨selection, rfl, rfl⟩
  | cons key rest ih =>
    obtain ⟨next, made, refreshed, still⟩ := establish_ok core block timestamp inDomain key
    obtain ⟨after, done, same⟩ := ih still
    refine ⟨after, ?_, same.trans refreshed⟩
    rw [List.foldlM_cons, made]
    exact done

theorem Ready.confirmed {recordings : List Recording} {selection : Selection}
    (ready : Ready recordings selection) : ∃ core, confirmedCore selection = some core := by
  obtain ⟨core, there⟩ := Option.isSome_iff_exists.mp ready.core
  refine ⟨core, ?_⟩
  simp [confirmedCore, ready.seeded, ready.started, ready.tracked, ready.coreBlock,
    ready.coreHash, there]

theorem Ready.needed {recordings : List Recording} {selection : Selection}
    (ready : Ready recordings selection) : ¬needsRefresh selection = false := by
  simp [needsRefresh, ready.due]

theorem refreshSelected_ok {order : SetOrder} {replies : Replies} {gaps : Gaps}
    {recordings : List Recording} {selection : Selection} (wellFormed : WellFormed replies)
    (ready : Ready recordings selection) (path : tickPath selection = .ok []) :
    ∃ after, refreshSelected order replies gaps selection = .ok (true, after) ∧
      after.participantRefreshBlock = some selection.cursor := by
  obtain ⟨core, confirmed⟩ := ready.confirmed
  obtain ⟨refreshed, done, at', seeded, cursor, inDomain⟩ :=
    refreshParticipants_ok order gaps.reading core [] wellFormed
      ((gaps.before.seeded selection).trans ready.seeded)
      (gaps.before.inDomain selection ready.inDomain)
  rw [gaps.before.cursor selection] at done at' cursor
  have finished : (gaps.after.change refreshed).participantRefreshBlock = some selection.cursor :=
    (gaps.after.refreshed refreshed).trans at'
  have going : ¬((gaps.after.change refreshed).needsSeed ∨
      (gaps.after.change refreshed).cursor ≠ selection.cursor ∨
      (gaps.after.change refreshed).participantRefreshBlock ≠ some selection.cursor) := by
    simp [gaps.after.seeded, gaps.after.cursor, seeded, cursor, finished]
  obtain ⟨based, accounted, same⟩ := establishAll_ok core selection.cursor (observedAt selection)
    (order.arrange (baselineKeys (gaps.after.change refreshed)))
    (gaps.after.inDomain refreshed inDomain)
  refine ⟨{ based with snapshotDirty := true }, ?_, same.trans finished⟩
  rw [refreshSelected, confirmed]
  simp only [if_neg ready.needed, path, done, bind, Except.bind, if_neg going, accounted, pure,
    Except.pure]

/-- The lane completes exactly if no point was recorded at the previously refreshed block or
after it; without a previous refresh, if no point was recorded at all. -/
theorem lane_completes_iff (order : SetOrder) (replies : Replies) (gaps : Gaps)
    (recordings : List Recording) (selection : Selection) (wellFormed : WellFormed replies)
    (ready : Ready recordings selection) :
    Completes order replies gaps recordings selection ↔
      ∀ point ∈ selection.tracking, (point.block : Int) < refreshFrom selection := by
  rw [← recentPoints_none]
  constructor
  · rintro ⟨path, _, made, _⟩
    exact tickPath_ok made
  · intro recent
    have path : tickPath selection = .ok [] := by
      rw [tickPath, recent]
      rfl
    obtain ⟨after, done, refreshed⟩ := refreshSelected_ok wellFormed ready path
    refine ⟨[], after, path, done, refreshed, fun seen _ member => ?_⟩
    rw [recent] at member
    cases member

theorem maintained_missing (order : SetOrder) (replies : Replies) (gaps : Gaps)
    {recordings : List Recording} {selection : Selection} (ready : Ready recordings selection)
    (recent : recentPoints selection ≠ []) :
    maintained order replies gaps selection = { selection with
      snapshotDirty := true
      participantRefreshError := some "off-lane participant refresh failed: 'tick'" } := by
  obtain ⟨core, confirmed⟩ := ready.confirmed
  have raised : refreshSelected order replies gaps selection = .error (.key "tick") := by
    rw [refreshSelected, confirmed]
    simp only [if_neg ready.needed, tickPath_missing recent, bind, Except.bind]
  rw [maintained, raised]
  rfl

def seededSelection : Selection := { Selection.new none 0 with
  needsSeed := false
  cursor := 100
  cursorHash := "0x64"
  core := some ⟨0, 2 ^ 96, 1000⟩
  coreBlock := some 100
  coreHash := some "0x64"
  tracking := [⟨100, 1700000000, 1000⟩]
  participantRanges := OrderedTable.empty.put ("0xa", -10, 10) 99 }

def seededRecordings : List Recording := [.core 100 1700000000 ⟨0, 2 ^ 96, 1000⟩]

def noGaps : Gaps := ⟨.nothing, .nothing, .nothing⟩

def emptyReplies : Replies where
  feeGrowthGlobal := (0, 0)
  positions _ := [0, 0, 0, 0, 0]
  ticks _ := [0, 0, 0, 0]
  code _ := "0x"

theorem emptyReplies_wellFormed : WellFormed emptyReplies where
  position := fun _ => ⟨⟨⟨0, 0, 0, 0, 0⟩, none, none⟩, rfl⟩
  tick := fun _ => ⟨(0, 0), rfl⟩
  kind := fun _ => ⟨.directPoolPosition, by simp [readKind, emptyReplies, hexPairs]⟩

theorem seededSelection_ready : Ready seededRecordings seededSelection where
  recorded := by decide
  seeded := rfl
  started := by decide
  tracked := by decide
  core := rfl
  coreBlock := rfl
  coreHash := rfl
  due := by decide
  inDomain := {
    ranges := by decide
    states := fun key state held => nomatch (get_empty key).symm.trans held }

theorem lane_completes_seeded :
    Completes .insertion emptyReplies noGaps seededRecordings seededSelection ↔
      ∀ point ∈ seededSelection.tracking, (point.block : Int) < refreshFrom seededSelection :=
  lane_completes_iff .insertion emptyReplies noGaps seededRecordings seededSelection
    emptyReplies_wellFormed seededSelection_ready

/-- The point of the seed itself stops the lane. -/
theorem lane_stops : ¬∀ order replies gaps recordings selection, WellFormed replies →
    Ready recordings selection → Completes order replies gaps recordings selection := by
  intro completes
  obtain ⟨path, _, made, _⟩ := completes .insertion emptyReplies noGaps seededRecordings
    seededSelection emptyReplies_wellFormed seededSelection_ready
  have recent : recentPoints seededSelection = [] := tickPath_ok made
  exact absurd recent (by decide +kernel)

end RhPools.ParticipantLane
