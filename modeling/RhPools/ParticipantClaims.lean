import RhPools.PoolHistories

/-! The claims of the positions of a V3 selection. A refresh reads some positions and some
ticks at one block, and computes from these, and from what it read before, the claim of
every position that it knows. Other lanes add ranges and events between two refreshes. -/

namespace RhPools.ParticipantClaims
open OrderedTables PriceWalks
open PositionFees (Key Storage TrackingPoint wrappedSub feeGrowthAmount MAX_PARTICIPANT_RANGES)

def MAX_PARTICIPANT_REFRESH_PER_HEAD : Nat := 64

structure Claim where
  claim0 : Nat
  claim1 : Nat
  lazy0 : Nat
  lazy1 : Nat
  deriving DecidableEq, Repr

/-- `inside0` and `inside1` of `fee_claim`. -/
def growthInside (global lowerOutside upperOutside : Nat) (tick lower upper : Int) : Nat :=
  let below := if lower ≤ tick then lowerOutside else wrappedSub global lowerOutside
  let above := if tick < upper then upperOutside else wrappedSub global upperOutside
  (((global : Int) - below - above) % 2 ^ 256).toNat

/-- `fee_claim`. -/
def feeClaim (storage : Storage) (global lowerOutside upperOutside : Nat × Nat)
    (tick lower upper : Int) : Claim :=
  let inside0 := growthInside global.1 lowerOutside.1 upperOutside.1 tick lower upper
  let inside1 := growthInside global.2 lowerOutside.2 upperOutside.2 tick lower upper
  let lazy0 := feeGrowthAmount storage.liquidity inside0 storage.feeGrowth0Last
  let lazy1 := feeGrowthAmount storage.liquidity inside1 storage.feeGrowth1Last
  ⟨storage.owed0 + lazy0, storage.owed1 + lazy1, lazy0, lazy1⟩

theorem feeClaim_closed (storage : Storage) (global lowerOutside upperOutside : Nat × Nat)
    (tick lower upper : Int) (closed : storage.liquidity = 0) :
    feeClaim storage global lowerOutside upperOutside tick lower upper =
      ⟨storage.owed0, storage.owed1, 0, 0⟩ := by
  simp [feeClaim, feeGrowthAmount, closed]

/-- An entry of `participant_state`; claim and block are there once it was claimed. -/
structure Participant where
  storage : Storage
  claim : Option Claim
  block : Option Nat
  deriving DecidableEq, Repr

inductive OwnerKind where
  | managerAggregate
  | directPoolPosition
  deriving DecidableEq, Repr

structure Core where
  tick : Int
  sqrt : Nat
  liquidity : Nat
  deriving DecidableEq, Repr

structure Snapshot where
  spotTick : Option Int
  blockTimestamp : Option Int
  deriving DecidableEq, Repr

/-- An entry of `participant_accounting`; the dollar values are left out. -/
structure Accounting where
  baselineBlock : Nat
  baselineTimestamp : Int
  baselineClaim : Nat × Nat
  baselineEquity : Int × Int
  deposited : Nat × Nat
  burnPrincipal : Nat × Nat
  collected : Nat × Nat
  deriving DecidableEq, Repr

structure Selection where
  owner : Option String
  createdAt : Int
  needsSeed : Bool
  historyGeneration : Nat
  cursor : Nat
  cursorHash : String
  core : Option Core
  coreBlock : Option Nat
  coreHash : Option String
  snapshot : Option Snapshot
  snapshotDirty : Bool
  tracking : List TrackingPoint
  participantRanges : OrderedTable Key Nat
  participantState : OrderedTable Key Participant
  participantTickFees : OrderedTable Int (Nat × Nat)
  participantKinds : OrderedTable String OwnerKind
  participantAccounting : OrderedTable Key Accounting
  positionState : OrderedTable (Int × Int) (Nat × Nat × Nat)
  participantRefreshBlock : Option Nat
  participantRefreshError : Option String

def Selection.new (owner : Option String) (createdAt : Int) : Selection where
  owner := owner
  createdAt := createdAt
  needsSeed := true
  historyGeneration := 0
  cursor := 0
  cursorHash := ""
  core := none
  coreBlock := none
  coreHash := none
  snapshot := none
  snapshotDirty := false
  tracking := []
  participantRanges := .empty
  participantState := .empty
  participantTickFees := .empty
  participantKinds := .empty
  participantAccounting := .empty
  positionState := .empty
  participantRefreshBlock := none
  participantRefreshError := none

structure SetOrder where
  arrange : List Key → List Key
  arranged : ∀ keys, (arrange keys).Perm keys

def SetOrder.insertion : SetOrder := ⟨id, fun _ => .refl _⟩

/-- `dict.update`. -/
def assignAll {Name Value : Type} [DecidableEq Name] (table : OrderedTable Name Value)
    (pairs : List (Name × Value)) : OrderedTable Name Value :=
  pairs.foldl (fun table pair => table.assign pair.1 pair.2) table

def ends (keys : List Key) : List Int := keys.flatMap fun key => [key.2.1, key.2.2]

section
variable (selection : Selection)

def Selection.allKeys : List Key := selection.participantRanges.entries.map Prod.fst

def Selection.resolvedKeys : List Key :=
  (selection.participantState.entries.filter fun entry => entry.2.claim.isSome).map Prod.fst

/-- `int(participant_state.get(key, {}).get("block", -1))`. -/
def Selection.readBlock (key : Key) : Int :=
  ((selection.participantState.get key).bind Participant.block).elim (-1) Int.ofNat

def Selection.changed (key : Key) : Bool :=
  (selection.participantRanges.get key).any fun block => decide (selection.readBlock key < block)

def Selection.rank (key : Key) : Bool ×ₗ Nat :=
  toLex (decide (selection.owner = some key.1), (selection.participantRanges.get key).getD 0)

def Selection.ranked (order : SetOrder) (keys : List Key) : List Key :=
  (order.arrange keys).insertionSort fun left right => selection.rank right ≤ selection.rank left

def Selection.orderedTouched (order : SetOrder) (touched : List Key) : List Key :=
  (selection.ranked order (selection.allKeys.filter fun key =>
    touched.contains key || selection.changed key)).take MAX_PARTICIPANT_REFRESH_PER_HEAD

def Selection.refreshKeys (order : SetOrder) (touched : List Key) : List Key :=
  let orderedTouched := selection.orderedTouched order touched
  let pending := selection.ranked order (selection.allKeys.filter fun key =>
    !selection.resolvedKeys.contains key && !orderedTouched.contains key)
  orderedTouched ++ pending.take (MAX_PARTICIPANT_REFRESH_PER_HEAD - orderedTouched.length)

def Selection.path (core : Core) (tickPath : List Int) : List Int :=
  (selection.snapshot.bind Snapshot.spotTick).getD core.tick :: tickPath ++ [core.tick]

/-- The ticks that are read: those that the price crossed, of positions that are known,
and those of the positions that are read. -/
def Selection.neededTicks (core : Core) (tickPath : List Int) (refreshKeys : List Key) :
    List Int :=
  let path := selection.path core tickPath
  let crossedTicks := (ends selection.resolvedKeys).filter (crossed path)
  (crossedTicks ++ ends refreshKeys).dedup.insertionSort (· ≤ ·)

structure Refresh where
  block : Nat
  generation : Nat
  currentTick : Int
  resolvedKeys : List Key
  refreshKeys : List Key
  neededTicks : List Int
  newOwners : List String

/-- `_refresh_participants` until it leaves the lock; without ranges it ends there. -/
def Selection.beginRefresh (order : SetOrder) (block : Nat) (core : Core) (touched : List Key)
    (tickPath : List Int) : Selection × Option Refresh :=
  if selection.needsSeed ∨ selection.cursor ≠ block then (selection, none)
  else if selection.allKeys = [] then
    ({ selection with
      positionState := .empty
      participantRefreshBlock := some block
      participantRefreshError := none }, none)
  else
    let refreshKeys := selection.refreshKeys order touched
    (selection, some {
      block := block
      generation := selection.historyGeneration
      currentTick := core.tick
      resolvedKeys := selection.resolvedKeys
      refreshKeys := refreshKeys
      neededTicks := selection.neededTicks core tickPath refreshKeys
      newOwners := ((refreshKeys.map Prod.fst).filter fun owner =>
        (selection.participantKinds.get owner).isNone).dedup.insertionSort (· ≤ ·) })

end

/-- What the node answers at a block: words of calls, and the code of an address. -/
structure Replies where
  feeGrowthGlobal : Nat × Nat
  positions : Key → List Nat
  ticks : Int → List Nat
  code : String → String

def readPosition (replies : Replies) (key : Key) : Except String (Key × Participant) :=
  match replies.positions key with
  | liquidity :: growth0 :: growth1 :: owed0 :: owed1 :: _ =>
    .ok (key, ⟨⟨liquidity, growth0, growth1, owed0, owed1⟩, none, none⟩)
  | _ =>
    let (owner, lower, upper) := key
    .error s!"positions response is malformed for ('{owner}', {lower}, {upper})"

def readTick (replies : Replies) (boundary : Int) : Except String (Int × Nat × Nat) :=
  match replies.ticks boundary with
  | _ :: _ :: outside0 :: outside1 :: _ => .ok (boundary, outside0, outside1)
  | _ => .error s!"tick fee state is malformed at {boundary}"

/-- `(?:[0-9a-f]{2})*` matches the whole text. -/
def hexPairs : List Char → Bool
  | [] => true
  | [_] => false
  | first :: second :: rest =>
    "0123456789abcdef".toList.contains first &&
      "0123456789abcdef".toList.contains second && hexPairs rest

def readKind (replies : Replies) (owner : String) : Except String (String × OwnerKind) :=
  match (replies.code owner).toList with
  | '0' :: 'x' :: digits =>
    if hexPairs digits then
      .ok (owner, if digits = [] ∨ digits = ['0', '0'] then .directPoolPosition
        else .managerAggregate)
    else .error s!"owner bytecode response is malformed for {owner}"
  | _ => .error s!"owner bytecode response is malformed for {owner}"

def Participant.claimed (refresh : Refresh) (global : Nat × Nat)
    (tickFees : OrderedTable Int (Nat × Nat)) (key : Key) (state : Participant) : Participant :=
  if refresh.resolvedKeys.contains key || refresh.refreshKeys.contains key then
    match tickFees.get key.2.1, tickFees.get key.2.2 with
    | some lowerFees, some upperFees =>
      { state with
        claim := some (feeClaim state.storage global lowerFees upperFees refresh.currentTick
          key.2.1 key.2.2)
        block := some refresh.block }
    | _, _ => state
  else state

/-- `position_state`: the owner's positions that hold something. -/
def ownPositions (owner : Option String) (state : OrderedTable Key Participant) :
    OrderedTable (Int × Int) (Nat × Nat × Nat) :=
  assignAll .empty (state.entries.filterMap fun (key, participant) =>
    let storage := participant.storage
    participant.claim.bind fun claim =>
      if owner = some key.1 ∧
          (storage.liquidity ≠ 0 ∨ claim.claim0 ≠ 0 ∨ claim.claim1 ≠ 0) then
        some (key.2, storage.liquidity, storage.owed0, storage.owed1)
      else none)

/-- `_refresh_participants` once all replies are in: the selection, and the keys read. -/
def Selection.finishRefresh (selection : Selection) (refresh : Refresh) (replies : Replies) :
    Except String (Selection × List Key) := do
  let refreshed ← refresh.refreshKeys.mapM (readPosition replies)
  let refreshedTicks ← refresh.neededTicks.mapM (readTick replies)
  let refreshedKinds ← refresh.newOwners.mapM (readKind replies)
  if selection.needsSeed ∨ selection.cursor ≠ refresh.block ∨
      selection.historyGeneration ≠ refresh.generation then
    return (selection, [])
  let tickFees := assignAll selection.participantTickFees refreshedTicks
  let state := (assignAll selection.participantState refreshed).modify
    (Participant.claimed refresh replies.feeGrowthGlobal tickFees)
  return ({ selection with
    participantState := state
    participantTickFees := tickFees
    participantKinds := assignAll selection.participantKinds refreshedKinds
    positionState := ownPositions selection.owner state
    participantRefreshBlock := some refresh.block
    participantRefreshError := none }, refreshed.map Prod.fst)

def Selection.remember (selection : Selection) (log : Key × Nat) : Selection :=
  { selection with
    participantRanges := selection.participantRanges.assign log.1
      (max log.2 ((selection.participantRanges.get log.1).getD 0)) }

def Selection.standing (selection : Selection) (range : Key × Nat) : Bool ×ₗ (Bool ×ₗ Nat) :=
  toLex (decide (selection.owner = some range.1.1),
    toLex ((selection.participantState.get range.1).any fun state =>
      decide (0 < state.storage.liquidity), range.2))

def Selection.newestRanges (selection : Selection) : OrderedTable Key Nat :=
  ⟨(selection.participantRanges.entries.insertionSort fun left right =>
      selection.standing right ≤ selection.standing left).take MAX_PARTICIPANT_RANGES, by
    have same := List.perm_insertionSort
      (fun left right => selection.standing right ≤ selection.standing left)
      selection.participantRanges.entries
    have distinct := (same.map Prod.fst).nodup_iff.mpr selection.participantRanges.distinct
    exact distinct.sublist ((List.take_sublist _ _).map Prod.fst)⟩

/-- The end of `_remember_participants`: with too many ranges, what belongs to the others is
dropped too. -/
def Selection.truncate (selection : Selection) : Selection :=
  if selection.participantRanges.size ≤ MAX_PARTICIPANT_RANGES then selection
  else
    let ranges := selection.newestRanges
    let dropped := fun key => (ranges.get key).isNone
    let state := selection.participantState.remove fun key _ => dropped key
    { selection with
      participantRanges := ranges
      participantState := state
      participantTickFees := selection.participantTickFees.remove fun boundary _ =>
        !(ends (state.entries.map Prod.fst)).contains boundary
      participantAccounting := selection.participantAccounting.remove fun key _ => dropped key
      participantKinds := selection.participantKinds.remove fun owner _ =>
        !(ranges.entries.map fun range => range.1.1).contains owner }

/-- `_remember_participants`, with the logs of the pool that it accepts. -/
def Selection.rememberParticipants (selection : Selection) (logs : List (Key × Nat)) : Selection :=
  (logs.foldl Selection.remember selection).truncate

/-- The end of `_scan_older_positions`: positions that were open at its anchor are added. -/
def Selection.addOlder (selection : Selection) (active : List (Key × Storage))
    (logs : List (Key × Nat)) : Selection :=
  let states := active.map fun position => (position.1, ⟨position.2, none, none⟩)
  let added := { selection with
    participantState := selection.participantState.insertAll states }
  added.rememberParticipants (logs.filter fun log => (active.map Prod.fst).contains log.1)

structure CurrentEvent where
  key : Key
  block : Nat
  liquidityDelta : Option Int
  deriving DecidableEq, Repr

def Selection.noteRange (selection : Selection) (event : CurrentEvent) : Selection :=
  if (selection.participantRanges.get event.key).isSome ∨
      selection.participantRanges.size < MAX_PARTICIPANT_RANGES then
    selection.remember (event.key, event.block)
  else selection

def Selection.movedState (selection : Selection) (event : CurrentEvent) : Option Participant :=
  if selection.owner = some event.key.1 then
    event.liquidityDelta.bind fun delta =>
      ((selection.participantState.get event.key).filter fun state =>
        state.block.all fun read => decide (read < event.block)).map fun state =>
          { state with
            storage := { state.storage with
              liquidity := (state.storage.liquidity + delta).toNat } }
  else none

/-- `_apply_current_events` for an event of a position. -/
def Selection.applyEvent (selection : Selection) (event : CurrentEvent) : Selection :=
  let noted := selection.noteRange event
  match selection.movedState event with
  | none => noted
  | some state =>
    { noted with
      participantState := noted.participantState.assign event.key state
      positionState := match noted.positionState.get event.key.2 with
        | none => noted.positionState
        | some old => noted.positionState.assign event.key.2 (state.storage.liquidity, old.2) }

/-- `_invalidate_participant_accounting`, with the new seed that it comes with. -/
def Selection.invalidated (selection : Selection) : Selection :=
  { selection with
    needsSeed := true
    participantAccounting := .empty
    participantState := .empty
    participantTickFees := .empty
    positionState := .empty }

/-- What `_seed_selection` forgets. -/
def Selection.cleared (selection : Selection) : Selection :=
  { selection with
    historyGeneration := selection.historyGeneration + 1
    tracking := []
    participantRanges := .empty
    participantState := .empty
    participantTickFees := .empty
    participantAccounting := .empty
    positionState := .empty
    participantRefreshBlock := none
    participantRefreshError := none }

def Selection.movedTo (selection : Selection) (head : Nat) (hash : String) (core : Core) :
    Selection :=
  { selection with
    needsSeed := false
    cursor := head
    cursorHash := hash
    core := some core
    coreBlock := some head
    coreHash := some hash }

def Selection.published (selection : Selection) (snapshot : Snapshot) : Selection :=
  { selection with
    snapshot := some snapshot
    snapshotDirty := false }

end RhPools.ParticipantClaims
