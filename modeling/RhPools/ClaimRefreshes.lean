import RhPools.EventWords
import RhPools.ParticipantClaims

/-! Refreshes of the claims of a selection over the history of its pool, with what the
other lanes do between and during them. Ticks that the price did not cross since the last
refresh are not read again; the claims are those that a full read gives. -/

namespace RhPools.ClaimRefreshes
open GuardedRuns OrderedTables PriceWalks PoolHistories ParticipantClaims
open PositionFees (Key Storage)
open EventWords (bind_ok mapM_ok)

/-- `fee_claim` of a position, with both of its ticks, as they stand in a pool. -/
def claimIn (pool : Pool) (key : Key) : Claim :=
  feeClaim (pool.storage key) pool.growth (pool.outside key.2.1) (pool.outside key.2.2)
    pool.tick key.2.1 key.2.2

/-- The selection, the refresh that is under way, and the block of the last read of each
position, which an event that changes what was read takes away. -/
structure World where
  selection : Selection
  refresh : Option Refresh
  lastRead : Key → Option Nat

inductive Action where
  | seed (head : Nat) (hash : String) (core : Core) (confirmed : Bool)
  | advance (head : Nat) (hash : String) (core : Core)
  | invalidate
  | publish (snapshot : Snapshot)
  | apply (event : CurrentEvent)
  | remember (logs : List (Key × Nat))
  | addOlder (active : List (Key × Storage)) (logs : List (Key × Nat))
  | begin (order : SetOrder) (block : Nat) (core : Core) (touched : List Key)
      (tickPath : List Int)
  | finish (replies : Replies)
  | fail (message : String)

/-- One thread does the refreshes, remembers participants and adds older positions, one
after the other; the live lane does the rest at any time. -/
def step (world : World) : Action → Option World
  | .seed head hash core confirmed =>
    if world.selection.needsSeed then
      let cleared := world.selection.cleared
      some { world with
        selection := if confirmed then cleared.movedTo head hash core else cleared }
    else none
  | .advance head hash core =>
    if world.selection.needsSeed ∨ head < world.selection.cursor then none
    else some { world with selection := world.selection.movedTo head hash core }
  | .invalidate => some { world with selection := world.selection.invalidated }
  | .publish snapshot => some { world with selection := world.selection.published snapshot }
  | .apply event => some { world with
      selection := world.selection.applyEvent event
      lastRead := if (world.selection.movedState event).isSome then
        Function.update world.lastRead event.key none else world.lastRead }
  | .remember logs =>
    if world.refresh.isSome then none
    else some { world with selection := world.selection.rememberParticipants logs }
  | .addOlder active logs =>
    if world.refresh.isSome then none
    else some { world with selection := world.selection.addOlder active logs }
  | .begin order block core touched tickPath =>
    if world.refresh.isSome then none
    else
      let begun := world.selection.beginRefresh order block core touched tickPath
      some { world with selection := begun.1, refresh := begun.2 }
  | .finish replies =>
    world.refresh.map fun refresh =>
      match world.selection.finishRefresh refresh replies with
      | .error message => { world with
          selection := { world.selection with participantRefreshError := some message }
          refresh := none }
      | .ok (selection, keys) => {
          selection := selection
          refresh := none
          lastRead := fun key =>
            if keys.contains key then some refresh.block else world.lastRead key }
  | .fail message => some { world with
      selection := { world.selection with participantRefreshError := some message }
      refresh := none }

def claimRuns : System World Action where
  start world := ∃ owner createdAt, world = ⟨.new owner createdAt, none, fun _ => none⟩
  step := step

structure Answers (pool : Pool) (replies : Replies) : Prop where
  growth : replies.feeGrowthGlobal = pool.growth
  position : ∀ key, readPosition replies key = .ok (key, ⟨pool.storage key, none, none⟩)
  tick : ∀ boundary, readTick replies boundary = .ok (boundary, pool.outside boundary)
  kind : ∀ owner, ∃ kind, readKind replies owner = .ok (owner, kind)

/-- Between the blocks of two calls the price turns only at ticks that `tick_path` lists,
in order. -/
def ListsTurns (history : History) (since block : Nat) (tickPath : List Int) : Prop :=
  Turns (history.walk since block)
    ((history.pool since).tick :: tickPath ++ [(history.pool block).tick])

/-- A call is made with the tick of its block and a path of turns, and answered for it. -/
def Given (history : History) (world : World) : Action → Prop
  | .begin _ block core _ tickPath => core.tick = (history.pool block).tick ∧
      ∀ since, world.selection.participantRefreshBlock = some since → since ≤ block →
        ListsTurns history since block tickPath
  | .finish replies => ∀ refresh, world.refresh = some refresh →
      Answers (history.pool refresh.block) replies
  | _ => True

def Resumes (history : History) (world : World) : Action → Prop
  | .begin _ _ core _ tickPath =>
    ∀ since, world.selection.participantRefreshBlock = some since →
      (history.pool since).tick ∈ world.selection.path core tickPath
  | _ => True

/-- Calls that are made well and go on where the call before them stopped. -/
def Resumed (history : History) (world : World) (action : Action) : Prop :=
  Given history world action ∧ Resumes history world action

/-- Every position that holds a claim, and that was not changed after it was last read,
has the claim of a full read at the block of the last call. -/
def FullyClaimed (history : History) (world : World) : Prop :=
  ∀ block, world.selection.participantRefreshBlock = some block → ∀ key state claim since,
    world.selection.participantState.get key = some state → state.claim = some claim →
      world.lastRead key = some since → history.Unchanged key since block →
        claim = claimIn (history.pool block) key

structure Claimed (history : History) (world : World) (key : Key) (state : Participant)
    (claim : Claim) : Prop where
  tracked : (world.selection.participantRanges.get key).isSome
  ticked : ∀ boundary, Bounds key boundary →
    (world.selection.participantTickFees.get boundary).isSome
  full : ∀ since, world.lastRead key = some since →
    ∃ block, world.selection.participantRefreshBlock = some block ∧ since ≤ block ∧
      (history.Unchanged key since block →
        state.storage = (history.pool block).storage key ∧
          claim = claimIn (history.pool block) key ∧
          (0 < state.storage.liquidity → ∀ boundary, Bounds key boundary →
            world.selection.participantTickFees.get boundary =
              some ((history.pool block).outside boundary)))

structure Underway (history : History) (selection : Selection) (refresh : Refresh) : Prop where
  resolved : ∀ key state, selection.participantState.get key = some state →
    (key ∈ refresh.resolvedKeys ↔ state.claim.isSome)
  tracked : ∀ key ∈ refresh.refreshKeys, (selection.participantRanges.get key).isSome
  tick : refresh.currentTick = (history.pool refresh.block).tick
  needed : ∀ key ∈ refresh.refreshKeys, ∀ boundary, Bounds key boundary →
    boundary ∈ refresh.neededTicks
  crossed : ∀ since, selection.participantRefreshBlock = some since → since ≤ refresh.block ∧
    ∀ key ∈ refresh.resolvedKeys, ∀ boundary, Bounds key boundary →
      boundary ∈ refresh.neededTicks ∨ OneSided (history.walk since refresh.block) boundary

structure Standing (history : History) (world : World) : Prop where
  claimed : ∀ key state claim, world.selection.participantState.get key = some state →
    state.claim = some claim → Claimed history world key state claim
  dated : world.selection.needsSeed = false → ∀ block,
    world.selection.participantRefreshBlock = some block → block ≤ world.selection.cursor
  earlier : ∀ refresh, world.refresh = some refresh →
    refresh.generation ≤ world.selection.historyGeneration
  underway : ∀ refresh, world.refresh = some refresh → world.selection.needsSeed = false →
    world.selection.historyGeneration = refresh.generation →
      Underway history world.selection refresh

variable {history : History} {world : World}

theorem Standing.fullyClaimed (standing : Standing history world) : FullyClaimed history world := by
  intro block refreshed key state claim since held claimed read unchanged
  obtain ⟨last, same, _, full⟩ := (standing.claimed key state claim held claimed).full since read
  cases refreshed.symm.trans same
  exact (full unchanged).2.1

structure Widens (before after : Selection) : Prop where
  ranges : ∀ key, (before.participantRanges.get key).isSome →
    (after.participantRanges.get key).isSome
  state : after.participantState = before.participantState
  tickFees : after.participantTickFees = before.participantTickFees
  refreshed : after.participantRefreshBlock = before.participantRefreshBlock
  seeded : after.needsSeed = before.needsSeed
  cursor : after.cursor = before.cursor
  generation : after.historyGeneration = before.historyGeneration

theorem Widens.refl (selection : Selection) : Widens selection selection :=
  ⟨fun _ => id, rfl, rfl, rfl, rfl, rfl, rfl⟩

theorem Widens.trans {first second third : Selection} (left : Widens first second)
    (right : Widens second third) : Widens first third where
  ranges := fun key there => right.ranges key (left.ranges key there)
  state := right.state.trans left.state
  tickFees := right.tickFees.trans left.tickFees
  refreshed := right.refreshed.trans left.refreshed
  seeded := right.seeded.trans left.seeded
  cursor := right.cursor.trans left.cursor
  generation := right.generation.trans left.generation

theorem remember_widens (selection : Selection) (log : Key × Nat) :
    Widens selection (selection.remember log) where
  ranges := by
    intro key there
    rw [Selection.remember, get_assign]
    split
    · rfl
    · exact there
  state := rfl
  tickFees := rfl
  refreshed := rfl
  seeded := rfl
  cursor := rfl
  generation := rfl

theorem remembered_widens (logs : List (Key × Nat)) (selection : Selection) :
    Widens selection (logs.foldl Selection.remember selection) := by
  induction logs generalizing selection with
  | nil => exact .refl selection
  | cons log rest ih => exact (remember_widens selection log).trans (ih (selection.remember log))

theorem noteRange_widens (selection : Selection) (event : CurrentEvent) :
    Widens selection (selection.noteRange event) := by
  unfold Selection.noteRange
  split
  · exact remember_widens selection _
  · exact .refl selection

/-- What a step leaves to the positions that still hold a claim after it. -/
structure Keeps (before after : World) : Prop where
  held : ∀ key state claim, after.selection.participantState.get key = some state →
    state.claim = some claim → ∃ old, before.selection.participantState.get key = some old ∧
      old.claim = some claim ∧ (after.lastRead key = none ∨
        state = old ∧ after.lastRead key = before.lastRead key)
  tracked : ∀ key state claim, after.selection.participantState.get key = some state →
    state.claim = some claim → (before.selection.participantRanges.get key).isSome →
      (after.selection.participantRanges.get key).isSome
  ticked : ∀ key state claim, after.selection.participantState.get key = some state →
    state.claim = some claim → ∀ boundary, Bounds key boundary →
      after.selection.participantTickFees.get boundary =
        before.selection.participantTickFees.get boundary
  refreshed : after.selection.participantRefreshBlock = before.selection.participantRefreshBlock
  seeded : after.selection.needsSeed = before.selection.needsSeed
  cursor : before.selection.cursor ≤ after.selection.cursor
  generation : after.selection.historyGeneration = before.selection.historyGeneration

theorem Keeps.trans {first second third : World} (left : Keeps first second)
    (right : Keeps second third) : Keeps first third where
  held := by
    intro key state claim held claimed
    obtain ⟨middle, there, was, later⟩ := right.held key state claim held claimed
    obtain ⟨old, first, named, earlier⟩ := left.held key middle claim there was
    refine ⟨old, first, named, ?_⟩
    rcases later with unread | ⟨rfl, reads⟩
    · exact .inl unread
    · rw [reads]
      exact earlier
  tracked := by
    intro key state claim held claimed there
    obtain ⟨middle, between, was, _⟩ := right.held key state claim held claimed
    exact right.tracked key state claim held claimed (left.tracked key middle claim between was there)
  ticked := by
    intro key state claim held claimed boundary bounds
    obtain ⟨middle, between, was, _⟩ := right.held key state claim held claimed
    rw [right.ticked key state claim held claimed boundary bounds]
    exact left.ticked key middle claim between was boundary bounds
  refreshed := right.refreshed.trans left.refreshed
  seeded := right.seeded.trans left.seeded
  cursor := left.cursor.trans right.cursor
  generation := right.generation.trans left.generation

theorem Keeps.claimed {before after : World} (keeps : Keeps before after) {key : Key}
    {old state : Participant} {claim : Claim} (claimed : Claimed history before key old claim)
    (held : after.selection.participantState.get key = some state)
    (claims : state.claim = some claim)
    (same : after.lastRead key = none ∨ state = old ∧ after.lastRead key = before.lastRead key) :
    Claimed history after key state claim where
  tracked := keeps.tracked key state claim held claims claimed.tracked
  ticked := by
    intro boundary bounds
    rw [keeps.ticked key state claim held claims boundary bounds]
    exact claimed.ticked boundary bounds
  full := by
    intro since read
    rcases same with unread | ⟨rfl, reads⟩
    · rw [unread] at read
      cases read
    · obtain ⟨block, refreshed, ordered, full⟩ := claimed.full since (reads ▸ read)
      refine ⟨block, keeps.refreshed.trans refreshed, ordered, fun unchanged => ?_⟩
      obtain ⟨stored, right, read⟩ := full unchanged
      refine ⟨stored, right, fun open' boundary bounds => ?_⟩
      rw [keeps.ticked key state claim held claims boundary bounds]
      exact read open' boundary bounds

/-- What a change during a refresh leaves: no range goes, and no claim comes or goes. -/
structure Steady (before after : Selection) : Prop where
  ranges : ∀ key, (before.participantRanges.get key).isSome →
    (after.participantRanges.get key).isSome
  claims : ∀ key state, after.participantState.get key = some state →
    ∃ old, before.participantState.get key = some old ∧ old.claim = state.claim

theorem Standing.keep {before after : World} (standing : Standing history before)
    (keeps : Keeps before after)
    (flight : after.refresh = none ∨
      after.refresh = before.refresh ∧ Steady before.selection after.selection) :
    Standing history after where
  claimed := by
    intro key state claim held claimed
    obtain ⟨old, there, was, same⟩ := keeps.held key state claim held claimed
    exact keeps.claimed (standing.claimed key old claim there was) held claimed same
  dated := by
    intro seeded block refreshed
    have before := standing.dated (keeps.seeded ▸ seeded) block (keeps.refreshed ▸ refreshed)
    exact before.trans keeps.cursor
  earlier := by
    intro refresh flying
    rcases flight with landed | ⟨same, _⟩
    · rw [landed] at flying
      cases flying
    · rw [keeps.generation]
      exact standing.earlier refresh (same ▸ flying)
  underway := by
    intro refresh flying seeded generation
    rcases flight with landed | ⟨same, steady⟩
    · rw [landed] at flying
      cases flying
    · have fits := standing.underway refresh (same ▸ flying) (keeps.seeded ▸ seeded)
        (keeps.generation ▸ generation)
      refine ⟨?_, fun key member => steady.ranges key (fits.tracked key member), fits.tick,
        fits.needed, fun since refreshed => fits.crossed since (keeps.refreshed ▸ refreshed)⟩
      intro key state held
      obtain ⟨old, there, was⟩ := steady.claims key state held
      rw [← was]
      exact fits.resolved key old there

variable {selection : Selection}

theorem Widens.keeps (widens : Widens world.selection selection) (refresh : Option Refresh) :
    Keeps world { world with selection := selection, refresh := refresh } where
  held := by
    intro key state claim held claimed
    rw [widens.state] at held
    exact ⟨state, held, claimed, .inr ⟨rfl, rfl⟩⟩
  tracked := fun key _ _ _ _ => widens.ranges key
  ticked := fun _ _ _ _ _ boundary _ => by rw [widens.tickFees]
  refreshed := widens.refreshed
  seeded := widens.seeded
  cursor := widens.cursor.ge
  generation := widens.generation

theorem Widens.steady {before after : Selection} (widens : Widens before after) :
    Steady before after where
  ranges := widens.ranges
  claims := by
    intro key state held
    rw [widens.state] at held
    exact ⟨state, held, rfl⟩

theorem mem_ends {key : Key} {boundary : Int} {keys : List Key} (member : key ∈ keys)
    (bounds : Bounds key boundary) : boundary ∈ ends keys := by
  refine List.mem_flatMap.mpr ⟨key, member, ?_⟩
  rcases bounds with rfl | rfl <;> simp

theorem truncate_keeps (world : World) (refresh : Option Refresh) :
    Keeps world { world with selection := world.selection.truncate, refresh := refresh } := by
  by_cases few : world.selection.participantRanges.size ≤ PositionFees.MAX_PARTICIPANT_RANGES
  · rw [Selection.truncate, if_pos few]
    exact (Widens.refl world.selection).keeps refresh
  · rw [Selection.truncate, if_neg few]
    refine ⟨?_, ?_, ?_, rfl, rfl, Nat.le_refl _, rfl⟩
    · intro key state claim held claimed
      obtain ⟨there, _⟩ := Option.filter_eq_some_iff.mp ((get_remove _ _ _).symm.trans held)
      exact ⟨state, there, claimed, .inr ⟨rfl, rfl⟩⟩
    · intro key state claim held _ _
      obtain ⟨_, kept⟩ := Option.filter_eq_some_iff.mp ((get_remove _ _ _).symm.trans held)
      simpa using kept
    · intro key state claim held _ boundary bounds
      have inside : boundary ∈ ends (((world.selection.participantState.remove fun key _ =>
          (world.selection.newestRanges.get key).isNone).entries).map Prod.fst) :=
        mem_ends (List.mem_map_of_mem ((get_some _ _ _).mp held)) bounds
      refine (get_remove _ _ _).trans ?_
      cases world.selection.participantTickFees.get boundary with
      | none => rfl
      | some fees => simp [Option.filter_some, inside]

theorem rememberParticipants_keeps (world : World) (logs : List (Key × Nat)) :
    Keeps world { world with selection := world.selection.rememberParticipants logs } :=
  ((remembered_widens logs world.selection).keeps world.refresh).trans
    (truncate_keeps _ world.refresh)

theorem addOlder_keeps (world : World) (active : List (Key × Storage)) (logs : List (Key × Nat)) :
    Keeps world { world with selection := world.selection.addOlder active logs } := by
  have added : Keeps world { world with selection := { world.selection with
      participantState := world.selection.participantState.insertAll
        (active.map fun position => (position.1, ⟨position.2, none, none⟩)) } } := by
    refine ⟨?_, fun _ _ _ _ _ => id, fun _ _ _ _ _ _ _ => rfl, rfl, rfl, Nat.le_refl _, rfl⟩
    intro key state claim held claimed
    rcases get_insertAll _ _ _ _ held with there | ⟨_, fresh⟩
    · exact ⟨state, there, claimed, .inr ⟨rfl, rfl⟩⟩
    · obtain ⟨position, _, same⟩ := List.mem_map.mp fresh
      cases same
      cases claimed
  exact added.trans (rememberParticipants_keeps _ _)

theorem movedState_old {event : CurrentEvent} {state : Participant}
    (moved : selection.movedState event = some state) :
    ∃ old, selection.participantState.get event.key = some old ∧ old.claim = state.claim := by
  obtain ⟨_, moved⟩ := Option.ite_none_right_eq_some.mp moved
  obtain ⟨delta, _, moved⟩ := Option.bind_eq_some_iff.mp moved
  obtain ⟨old, there, rfl⟩ := Option.map_eq_some_iff.mp moved
  exact ⟨old, (Option.filter_eq_some_iff.mp there).1, rfl⟩

theorem applyEvent_keeps (world : World) (event : CurrentEvent) :
    Keeps world { world with
      selection := world.selection.applyEvent event
      lastRead := if (world.selection.movedState event).isSome then
        Function.update world.lastRead event.key none else world.lastRead } := by
  have widens := noteRange_widens world.selection event
  cases moved : world.selection.movedState event with
  | none =>
    simp only [Selection.applyEvent, moved]
    exact widens.keeps world.refresh
  | some state =>
    simp only [Selection.applyEvent, moved]
    refine ⟨?_, fun key _ _ _ _ => widens.ranges key,
      fun _ _ _ _ _ boundary _ => by rw [widens.tickFees], widens.refreshed, widens.seeded,
      widens.cursor.ge, widens.generation⟩
    intro key state' claim held claimed
    rw [get_assign] at held
    by_cases same : key = event.key
    · subst same
      rw [if_pos rfl] at held
      cases held
      obtain ⟨old, there, was⟩ := movedState_old moved
      exact ⟨old, there, was.trans claimed, .inl (Function.update_self _ _ _)⟩
    · rw [if_neg same, widens.state] at held
      exact ⟨state', held, claimed, .inr ⟨rfl, Function.update_of_ne same _ _⟩⟩

theorem applyEvent_steady (selection : Selection) (event : CurrentEvent) :
    Steady selection (selection.applyEvent event) := by
  have widens := noteRange_widens selection event
  cases moved : selection.movedState event with
  | none =>
    simp only [Selection.applyEvent, moved]
    exact widens.steady
  | some state =>
    simp only [Selection.applyEvent, moved]
    refine ⟨widens.ranges, ?_⟩
    intro key state' held
    rw [get_assign] at held
    by_cases same : key = event.key
    · subst same
      rw [if_pos rfl] at held
      cases held
      exact movedState_old moved
    · rw [if_neg same, widens.state] at held
      exact ⟨state', held, rfl⟩

theorem Standing.emptied (standing : Standing history world)
    (empty : selection.participantState = .empty)
    (unread : selection.needsSeed = false → selection.participantRefreshBlock = none)
    (later : world.selection.historyGeneration ≤ selection.historyGeneration)
    (stale : selection.needsSeed = true ∨
      world.selection.historyGeneration < selection.historyGeneration) :
    Standing history { world with selection := selection } where
  claimed := by
    intro key state claim held
    rw [empty, get_empty] at held
    cases held
  dated := by
    intro seeded block refreshed
    rw [unread seeded] at refreshed
    cases refreshed
  earlier := fun refresh flying => (standing.earlier refresh flying).trans later
  underway := by
    intro refresh flying seeded generation
    have before := standing.earlier refresh flying
    rcases stale with unseeded | newer
    · rw [unseeded] at seeded
      cases seeded
    · exact absurd (generation ▸ before) (Nat.not_le.mpr newer)

theorem mem_resolvedKeys {key : Key} {state : Participant}
    (held : selection.participantState.get key = some state) :
    key ∈ selection.resolvedKeys ↔ state.claim.isSome := by
  rw [Selection.resolvedKeys, List.mem_map]
  constructor
  · rintro ⟨⟨other, found⟩, member, rfl⟩
    obtain ⟨there, claimed⟩ := List.mem_filter.mp member
    rw [(get_some _ _ _).mpr there] at held
    cases held
    exact claimed
  · intro claimed
    exact ⟨(key, state), List.mem_filter.mpr ⟨(get_some _ _ _).mp held, claimed⟩, rfl⟩

theorem ranked_subset (selection : Selection) (order : SetOrder) (keys : List Key) :
    selection.ranked order keys ⊆ keys := by
  intro key member
  have arranged := (List.mem_insertionSort _).mp member
  exact (order.arranged keys).subset arranged

theorem refreshKeys_tracked {order : SetOrder} {touched : List Key} {key : Key}
    (member : key ∈ selection.refreshKeys order touched) :
    (selection.participantRanges.get key).isSome := by
  have tracked : key ∈ selection.allKeys := by
    rcases List.mem_append.mp member with first | later
    · exact List.mem_of_mem_filter (ranked_subset _ _ _ (List.mem_of_mem_take first))
    · exact List.mem_of_mem_filter (ranked_subset _ _ _ (List.mem_of_mem_take later))
  obtain ⟨⟨other, block⟩, there, rfl⟩ := List.mem_map.mp tracked
  rw [(get_some _ _ _).mpr there]
  rfl

theorem mem_neededTicks {core : Core} {tickPath : List Int} {refreshKeys : List Key}
    {boundary : Int} :
    boundary ∈ selection.neededTicks core tickPath refreshKeys ↔
      (boundary ∈ ends selection.resolvedKeys ∧
        crossed (selection.path core tickPath) boundary = true) ∨
      boundary ∈ ends refreshKeys := by
  rw [Selection.neededTicks, List.mem_insertionSort, List.mem_dedup, List.mem_append,
    List.mem_filter]

/-- A tick that is not read again, at an end of a position that holds a claim, has the price
on one side of it since the call before. -/
theorem needed_or_oneSided {since block : Nat} {core : Core} {tickPath : List Int}
    {refreshKeys : List Key} {key : Key} {boundary : Int}
    (tick : core.tick = (history.pool block).tick) (turns : ListsTurns history since block tickPath)
    (resumes : (history.pool since).tick ∈ selection.path core tickPath)
    (resolved : key ∈ selection.resolvedKeys) (bounds : Bounds key boundary) :
    boundary ∈ selection.neededTicks core tickPath refreshKeys ∨
      OneSided (history.walk since block) boundary := by
  by_cases needed : boundary ∈ selection.neededTicks core tickPath refreshKeys
  · exact .inl needed
  · right
    have apart : crossed (selection.path core tickPath) boundary = false := by
      by_contra crossing
      exact needed (mem_neededTicks.mpr (.inl ⟨mem_ends resolved bounds,
        Bool.not_eq_false _ ▸ crossing⟩))
    have sided := oneSided_of_uncrossed _ _ apart
    refine turns.oneSided (sided.subset ?_)
    rw [← tick, List.cons_append, List.cons_subset]
    exact ⟨resumes, List.subset_cons_self _ _⟩

theorem beginRefresh_standing {order : SetOrder} {block : Nat} {core : Core} {touched : List Key}
    {tickPath : List Int} (standing : Standing history world)
    (given : Given history world (.begin order block core touched tickPath))
    (resumes : Resumes history world (.begin order block core touched tickPath)) :
    let begun := world.selection.beginRefresh order block core touched tickPath
    Standing history { world with selection := begun.1, refresh := begun.2 } := by
  unfold Selection.beginRefresh
  split
  · exact standing.keep ((Widens.refl world.selection).keeps none) (.inl rfl)
  · rename_i going
    obtain ⟨seeded, here⟩ := not_or.mp going
    have at' : world.selection.cursor = block := not_not.mp here
    split
    · rename_i untracked
      -- No position holds a claim: each would have a range.
      have unclaimed : ∀ key state claim, world.selection.participantState.get key = some state →
          state.claim = some claim → False := by
        intro key state claim held claimed
        have tracked := (standing.claimed key state claim held claimed).tracked
        rw [Selection.allKeys, List.map_eq_nil_iff] at untracked
        simp [OrderedTable.get, untracked] at tracked
      exact {
        claimed := fun key state claim held claimed => (unclaimed key state claim held claimed).elim
        dated := fun _ last refreshed => by
          cases refreshed
          exact at'.ge
        earlier := fun _ flying => by cases flying
        underway := fun _ flying => by cases flying }
    · refine ⟨fun key state claim held claimed => ?_, standing.dated, ?_, ?_⟩
      · obtain ⟨tracked, ticked, full⟩ := standing.claimed key state claim held claimed
        exact ⟨tracked, ticked, full⟩
      · rintro refresh begun
        cases begun
        exact Nat.le_refl _
      · rintro refresh begun _ _
        cases begun
        refine ⟨fun key state held => mem_resolvedKeys held, fun key => refreshKeys_tracked,
          given.1, ?_, ?_⟩
        · intro key member boundary bounds
          exact mem_neededTicks.mpr (.inr (mem_ends member bounds))
        · intro since refreshed
          have ordered : since ≤ block :=
            at' ▸ standing.dated (Bool.eq_false_of_not_eq_true seeded) since refreshed
          refine ⟨ordered, fun key member boundary bounds => ?_⟩
          exact needed_or_oneSided given.1 (given.2 since refreshed ordered)
            (resumes since refreshed) member bounds

theorem mapM_value {Error Item Result : Type} {read : Item → Except Error Result}
    {value : Item → Result} (each : ∀ item, read item = .ok (value item)) (items : List Item) :
    items.mapM read = .ok (items.map value) := by
  rw [mapM_ok, List.forall₂_map_right_iff, List.forall₂_same]
  exact fun item _ => each item

theorem get_assignAll {Name Value : Type} [DecidableEq Name] (table : OrderedTable Name Value)
    (names : List Name) (value : Name → Value) (name : Name) :
    (assignAll table (names.map fun name => (name, value name))).get name =
      if name ∈ names then some (value name) else table.get name := by
  induction names generalizing table with
  | nil => simp [assignAll]
  | cons first rest ih =>
    have later := ih (table.assign first (value first))
    rw [get_assign] at later
    refine later.trans ?_
    by_cases inside : name ∈ rest
    · simp [inside]
    · by_cases same : name = first
      · subst same
        simp
      · simp [inside, same]

def refreshedFees (selection : Selection) (pool : Pool) (refresh : Refresh) :
    OrderedTable Int (Nat × Nat) :=
  assignAll selection.participantTickFees
    (refresh.neededTicks.map fun boundary => (boundary, pool.outside boundary))

def refreshedState (selection : Selection) (pool : Pool) (refresh : Refresh) :
    OrderedTable Key Participant :=
  (assignAll selection.participantState
    (refresh.refreshKeys.map fun key => (key, ⟨pool.storage key, none, none⟩))).modify
    (Participant.claimed refresh pool.growth (refreshedFees selection pool refresh))

theorem finishRefresh_answered {pool : Pool} {replies : Replies} (answers : Answers pool replies)
    (selection : Selection) (refresh : Refresh) :
    selection.finishRefresh refresh replies = .ok (selection, []) ∨
      (selection.needsSeed = false ∧ selection.cursor = refresh.block ∧
        selection.historyGeneration = refresh.generation) ∧
      ∃ kinds, selection.finishRefresh refresh replies = .ok ({ selection with
        participantState := refreshedState selection pool refresh
        participantTickFees := refreshedFees selection pool refresh
        participantKinds := kinds
        positionState := ownPositions selection.owner (refreshedState selection pool refresh)
        participantRefreshBlock := some refresh.block
        participantRefreshError := none }, refresh.refreshKeys) := by
  choose kind kinds using answers.kind
  unfold Selection.finishRefresh
  rw [mapM_value answers.position, mapM_value answers.tick, mapM_value kinds, answers.growth]
  simp only [bind, Except.bind, pure, Except.pure]
  split
  · exact .inl rfl
  · rename_i going
    simp only [not_or, not_not, Bool.not_eq_true] at going
    refine .inr ⟨going, assignAll selection.participantKinds
      (refresh.newOwners.map fun owner => (owner, kind owner)), ?_⟩
    simp [refreshedState, refreshedFees, Function.comp_def]

theorem get_refreshedState {pool : Pool} {refresh : Refresh} {key : Key} {state : Participant}
    (held : (refreshedState selection pool refresh).get key = some state) :
    ∃ old, Participant.claimed refresh pool.growth (refreshedFees selection pool refresh) key
        old = state ∧
      (key ∈ refresh.refreshKeys ∧ old = ⟨pool.storage key, none, none⟩ ∨
        key ∉ refresh.refreshKeys ∧ selection.participantState.get key = some old) := by
  rw [refreshedState, get_modify, get_assignAll, Option.map_eq_some_iff] at held
  obtain ⟨old, found, same⟩ := held
  refine ⟨old, same, ?_⟩
  by_cases inside : key ∈ refresh.refreshKeys
  · rw [if_pos inside, Option.some.injEq] at found
    exact .inl ⟨inside, found.symm⟩
  · rw [if_neg inside] at found
    exact .inr ⟨inside, found⟩

theorem claimed_full {pool : Pool} {refresh : Refresh} {fees : OrderedTable Int (Nat × Nat)}
    {key : Key} {old : Participant} (tick : refresh.currentTick = pool.tick)
    (known : key ∈ refresh.resolvedKeys ∨ key ∈ refresh.refreshKeys)
    (ticked : ∀ boundary, Bounds key boundary → (fees.get boundary).isSome)
    (stored : old.storage = pool.storage key)
    (read : 0 < old.storage.liquidity → ∀ boundary, Bounds key boundary →
      fees.get boundary = some (pool.outside boundary)) :
    Participant.claimed refresh pool.growth fees key old =
      { old with claim := some (claimIn pool key), block := some refresh.block } := by
  obtain ⟨lower, lowerRead⟩ := Option.isSome_iff_exists.mp (ticked key.2.1 (.inl rfl))
  obtain ⟨upper, upperRead⟩ := Option.isSome_iff_exists.mp (ticked key.2.2 (.inr rfl))
  have known : (refresh.resolvedKeys.contains key || refresh.refreshKeys.contains key) = true := by
    simpa using known
  rw [Participant.claimed, if_pos known, lowerRead, upperRead, tick, claimIn, ← stored]
  rcases Nat.eq_zero_or_pos old.storage.liquidity with closed | open'
  · simp only [feeClaim_closed _ _ _ _ _ _ _ closed]
  · have lowerSame := read open' key.2.1 (.inl rfl)
    have upperSame := read open' key.2.2 (.inr rfl)
    rw [lowerRead, Option.some.injEq] at lowerSame
    rw [upperRead, Option.some.injEq] at upperSame
    rw [lowerSame, upperSame]

section
variable {history : History} {world : World} {refresh : Refresh}

def finished (pool : Pool) (world : World) (refresh : Refresh)
    (kinds : OrderedTable String OwnerKind) : World where
  selection := { world.selection with
    participantState := refreshedState world.selection pool refresh
    participantTickFees := refreshedFees world.selection pool refresh
    participantKinds := kinds
    positionState :=
      ownPositions world.selection.owner (refreshedState world.selection pool refresh)
    participantRefreshBlock := some refresh.block
    participantRefreshError := none }
  refresh := none
  lastRead := fun key =>
    if refresh.refreshKeys.contains key then some refresh.block else world.lastRead key

theorem get_refreshedFees (selection : Selection) (pool : Pool) (refresh : Refresh)
    (boundary : Int) : (refreshedFees selection pool refresh).get boundary =
      if boundary ∈ refresh.neededTicks then some (pool.outside boundary)
      else selection.participantTickFees.get boundary :=
  get_assignAll _ _ _ _

theorem finished_read {kinds : OrderedTable String OwnerKind} {key : Key} {claim : Claim}
    (fits : Underway history world.selection refresh) (read : key ∈ refresh.refreshKeys)
    (state : Participant) (claims : state.claim = some claim)
    (same : Participant.claimed refresh (history.pool refresh.block).growth
      (refreshedFees world.selection (history.pool refresh.block) refresh) key
      ⟨(history.pool refresh.block).storage key, none, none⟩ = state) :
    Claimed history (finished (history.pool refresh.block) world refresh kinds) key state claim := by
  have fresh : ∀ boundary, Bounds key boundary →
      (refreshedFees world.selection (history.pool refresh.block) refresh).get boundary =
        some ((history.pool refresh.block).outside boundary) := by
    intro boundary bounds
    rw [get_refreshedFees, if_pos (fits.needed key read boundary bounds)]
  have ticked : ∀ boundary, Bounds key boundary →
      ((refreshedFees world.selection (history.pool refresh.block) refresh).get boundary).isSome := by
    intro boundary bounds
    rw [fresh boundary bounds]
    rfl
  rw [claimed_full fits.tick (.inr read) ticked rfl fun _ => fresh] at same
  subst same
  cases claims
  refine ⟨fits.tracked key read, ticked, fun since last => ?_⟩
  have now : refresh.block = since := by
    simpa [finished, read] using last
  subst now
  exact ⟨refresh.block, rfl, Nat.le_refl _, fun _ => ⟨rfl, rfl, fun _ => fresh⟩⟩

theorem finished_tick {key : Key} {since : Nat} {boundary : Int}
    (fits : Underway history world.selection refresh)
    (refreshed : world.selection.participantRefreshBlock = some since)
    (unchanged : history.Unchanged key since refresh.block) (known : key ∈ refresh.resolvedKeys)
    (open' : 0 < ((history.pool since).storage key).liquidity) (bounds : Bounds key boundary)
    (before : world.selection.participantTickFees.get boundary =
      some ((history.pool since).outside boundary)) :
    (refreshedFees world.selection (history.pool refresh.block) refresh).get boundary =
      some ((history.pool refresh.block).outside boundary) := by
  rw [get_refreshedFees]
  obtain ⟨ordered, crossed⟩ := fits.crossed since refreshed
  by_cases needed : boundary ∈ refresh.neededTicks
  · exact if_pos needed
  · have sided := (crossed key known boundary bounds).resolve_left needed
    rw [if_neg needed, before, unchanged.outside ordered bounds open' sided]

theorem finished_kept {kinds : OrderedTable String OwnerKind} {key : Key}
    {old : Participant} {claim before : Claim} (fits : Underway history world.selection refresh)
    (unread : key ∉ refresh.refreshKeys) (known : key ∈ refresh.resolvedKeys)
    (claimed : Claimed history world key old before)
    (claims : (Participant.claimed refresh (history.pool refresh.block).growth
      (refreshedFees world.selection (history.pool refresh.block) refresh) key old).claim =
        some claim) :
    Claimed history (finished (history.pool refresh.block) world refresh kinds) key
      (Participant.claimed refresh (history.pool refresh.block).growth
        (refreshedFees world.selection (history.pool refresh.block) refresh) key old) claim where
  tracked := claimed.tracked
  ticked := by
    intro boundary bounds
    show ((refreshedFees _ _ _).get boundary).isSome
    rw [get_refreshedFees]
    split
    · rfl
    · exact claimed.ticked boundary bounds
  full := by
    intro since last
    have last : world.lastRead key = some since := by
      simpa [finished, unread] using last
    obtain ⟨block, refreshed, ordered, full⟩ := claimed.full since last
    obtain ⟨later, _⟩ := fits.crossed block refreshed
    refine ⟨refresh.block, rfl, ordered.trans later, fun unchanged => ?_⟩
    obtain ⟨early, late⟩ := unchanged.split ordered later
    obtain ⟨stored, _, read⟩ := full early
    have storedNow : old.storage = (history.pool refresh.block).storage key :=
      stored.trans (late.storage later).symm
    have readNow : 0 < old.storage.liquidity → ∀ boundary, Bounds key boundary →
        (refreshedFees world.selection (history.pool refresh.block) refresh).get boundary =
          some ((history.pool refresh.block).outside boundary) := by
      intro open' boundary bounds
      exact finished_tick fits refreshed late known (stored ▸ open') bounds
        (read open' boundary bounds)
    have ticked : ∀ boundary, Bounds key boundary →
        ((refreshedFees world.selection (history.pool refresh.block) refresh).get
          boundary).isSome := by
      intro boundary bounds
      rw [get_refreshedFees]
      split
      · rfl
      · exact claimed.ticked boundary bounds
    have computed := claimed_full fits.tick (.inl known) ticked storedNow readNow
    rw [computed, Option.some.injEq] at claims
    rw [computed]
    exact ⟨storedNow, claims.symm, readNow⟩

theorem finished_standing (kinds : OrderedTable String OwnerKind)
    (standing : Standing history world) (here : world.selection.cursor = refresh.block)
    (fits : Underway history world.selection refresh) :
    Standing history (finished (history.pool refresh.block) world refresh kinds) where
  claimed := by
    intro key state claim held claims
    obtain ⟨old, same, ⟨read, rfl⟩ | ⟨unread, there⟩⟩ := get_refreshedState held
    · exact finished_read fits read state claims same
    · subst same
      by_cases known : key ∈ refresh.resolvedKeys
      · obtain ⟨before, was⟩ := Option.isSome_iff_exists.mp ((fits.resolved key old there).mp known)
        exact finished_kept fits unread known (standing.claimed key old before there was) claims
      · -- A position that was not known and not read has no claim after either.
        have skipped : Participant.claimed refresh (history.pool refresh.block).growth
            (refreshedFees world.selection (history.pool refresh.block) refresh) key old = old := by
          rw [Participant.claimed, if_neg]
          simp [known, unread]
        rw [skipped] at claims
        exact absurd ((fits.resolved key old there).mpr (by rw [claims]; rfl)) known
  dated := by
    rintro _ block refreshed
    cases refreshed
    exact here.ge
  earlier := fun _ flying => nomatch flying
  underway := fun _ flying => nomatch flying

end

theorem finishRefresh_standing {world next : World} {replies : Replies}
    (standing : Standing history world) (given : Given history world (.finish replies))
    (taken : step world (.finish replies) = some next) : Standing history next := by
  obtain ⟨refresh, flying, same⟩ := Option.map_eq_some_iff.mp taken
  subst same
  rcases finishRefresh_answered (given refresh flying) world.selection refresh with
    dropped | ⟨⟨seeded, here, generation⟩, kinds, done⟩
  · rw [dropped]
    exact standing.keep ((Widens.refl world.selection).keeps none) (.inl rfl)
  · rw [done]
    exact finished_standing kinds standing here
      (standing.underway refresh flying seeded generation)

theorem step_standing {world next : World} {action : Action} (standing : Standing history world)
    (given : Given history world action) (resumes : Resumes history world action)
    (taken : step world action = some next) :
    Standing history next := by
  cases action with
  | seed head hash core confirmed =>
    obtain ⟨unseeded, same⟩ := Option.ite_none_right_eq_some.mp taken
    cases same
    cases confirmed with
    | false =>
      exact standing.emptied rfl (fun _ => rfl) (Nat.le_succ _) (.inr (Nat.lt_succ_self _))
    | true =>
      exact standing.emptied rfl (fun _ => rfl) (Nat.le_succ _) (.inr (Nat.lt_succ_self _))
  | advance head hash core =>
    obtain ⟨going, same⟩ := Option.ite_none_left_eq_some.mp taken
    cases same
    obtain ⟨seeded, later⟩ := not_or.mp going
    refine standing.keep ⟨?_, fun _ _ _ _ _ => id, fun _ _ _ _ _ _ _ => rfl, rfl,
      (Bool.eq_false_of_not_eq_true seeded).symm, Nat.le_of_not_lt later, rfl⟩
      (.inr ⟨rfl, fun _ => id, fun _ state held => ⟨state, held, rfl⟩⟩)
    exact fun key state claim held claimed => ⟨state, held, claimed, .inr ⟨rfl, rfl⟩⟩
  | invalidate =>
    cases taken
    refine standing.emptied rfl ?_ (Nat.le_refl _) (.inl rfl)
    intro seeded
    cases seeded
  | publish snapshot =>
    cases taken
    have widens : Widens world.selection (world.selection.published snapshot) :=
      ⟨fun _ => id, rfl, rfl, rfl, rfl, rfl, rfl⟩
    exact standing.keep (widens.keeps world.refresh) (.inr ⟨rfl, widens.steady⟩)
  | apply event =>
    cases taken
    exact standing.keep (applyEvent_keeps world event)
      (.inr ⟨rfl, applyEvent_steady world.selection event⟩)
  | remember logs =>
    obtain ⟨free, same⟩ := Option.ite_none_left_eq_some.mp taken
    cases same
    exact standing.keep (rememberParticipants_keeps world logs)
      (.inl (Option.not_isSome_iff_eq_none.mp free))
  | addOlder active logs =>
    obtain ⟨free, same⟩ := Option.ite_none_left_eq_some.mp taken
    cases same
    exact standing.keep (addOlder_keeps world active logs)
      (.inl (Option.not_isSome_iff_eq_none.mp free))
  | begin order block core touched tickPath =>
    obtain ⟨_, same⟩ := Option.ite_none_left_eq_some.mp taken
    cases same
    exact beginRefresh_standing standing given resumes
  | finish replies => exact finishRefresh_standing standing given taken
  | fail message =>
    cases taken
    have widens : Widens world.selection
        { world.selection with participantRefreshError := some message } :=
      ⟨fun _ => id, rfl, rfl, rfl, rfl, rfl, rfl⟩
    exact standing.keep (widens.keeps none) (.inl rfl)

theorem start_standing (history : History) (world : World) (started : claimRuns.start world) :
    Standing history world := by
  obtain ⟨owner, createdAt, rfl⟩ := started
  exact {
    claimed := by
      intro key state claim held
      cases held
    dated := fun seeded => nomatch seeded
    earlier := fun _ flying => nomatch flying
    underway := fun _ flying => nomatch flying }

/-- Claims that are kept up to date by the ticks that the price crossed are those of a full
read, when every path goes through the tick of the call before. -/
theorem claims_full (history : History) (world : World)
    (reached : claimRuns.Reaches (Resumed history) world) : FullyClaimed history world := by
  have standing : Standing history world := by
    refine reached.invariant (Standing history) (start_standing history) ?_
    intro world action next standing met taken
    exact step_standing standing met.1 met.2 taken
  exact standing.fullyClaimed

/-! A position above the price, and a price that rises into its range at once: there is no
turn, and the snapshot already shows the new tick. -/

def next (world : World) (action : Action) : World := (step world action).getD world

theorem reaches_next {meets : World → Action → Prop} {world : World} {action : Action}
    (reached : claimRuns.Reaches meets world) (met : meets world action)
    (taken : (step world action).isSome) : claimRuns.Reaches meets (next world action) := by
  obtain ⟨after, same⟩ := Option.isSome_iff_exists.mp taken
  rw [next, same]
  exact .step world after action reached met same

def repliesOf (pool : Pool) : Replies where
  feeGrowthGlobal := pool.growth
  positions key :=
    let storage := pool.storage key
    [storage.liquidity, storage.feeGrowth0Last, storage.feeGrowth1Last, storage.owed0,
      storage.owed1]
  ticks boundary := [pool.gross boundary, 0, (pool.outside boundary).1, (pool.outside boundary).2]
  code _ := "0x"

theorem repliesOf_answers (pool : Pool) : Answers pool (repliesOf pool) where
  growth := rfl
  position := fun _ => rfl
  tick := fun _ => rfl
  kind := fun _ => ⟨.directPoolPosition, by simp [readKind, repliesOf, hexPairs]⟩

def sampleKey : Key := ("0xa", 30, 60)

def sampleBelow : Pool where
  tick := 0
  growth := (2 ^ 128, 0)
  outside _ := (0, 0)
  positions := OrderedTable.empty.put sampleKey ⟨1000, 0, 0, 0, 0⟩

def sampleInside : Pool := (sampleBelow.step (.move 45)).getD sampleBelow

def sampleHistory : History where
  pool block := if block < 2 then sampleBelow else sampleInside
  events block := if block = 2 then [.move 45] else []
  follows := by
    intro block
    match block with
    | 0 => rfl
    | 1 => rfl
    | block + 2 => rfl

def sampleStart : World := ⟨.new none 0, none, fun _ => none⟩

def sampleTracked : World :=
  next (next sampleStart (.seed 1 "b1" ⟨0, 0, 0⟩ true)) (.remember [(sampleKey, 1)])

def sampleRead : World := next sampleTracked (.begin .insertion 1 ⟨0, 0, 0⟩ [] [])

def sampleClaimed : World := next sampleRead (.finish (repliesOf sampleBelow))

def sampleMoved : World :=
  next (next sampleClaimed (.advance 2 "b2" ⟨45, 0, 0⟩)) (.publish ⟨some 45, none⟩)

def sampleCalled (tickPath : List Int) : World :=
  next sampleMoved (.begin .insertion 2 ⟨45, 0, 0⟩ [] tickPath)

def sampleLast (tickPath : List Int) : World :=
  next (sampleCalled tickPath) (.finish (repliesOf sampleInside))

theorem sample_walk : sampleHistory.walk 1 2 = [0, 45] := by decide

theorem sample_turns (tickPath : List Int) (listed : tickPath = [] ∨ tickPath = [0]) :
    ListsTurns sampleHistory 1 2 tickPath := by
  have rise : Turns [(0 : Int), 45] [0, 45] :=
    .leg 0 45 [] [] [45] (.inl (by decide)) (.stop 45)
  rcases listed with rfl | rfl
  · exact rise
  · exact .again 0 [45] [0, 45] rise

theorem sample_finish {meets : World → Action → Prop} {world : World} {pool : Pool} (block : Nat)
    (known : sampleHistory.pool block = pool) (reached : claimRuns.Reaches meets world)
    (met : ∀ replies, Given sampleHistory world (.finish replies) → meets world (.finish replies))
    (asked : world.refresh.map Refresh.block = some block) :
    claimRuns.Reaches meets (next world (.finish (repliesOf pool))) := by
  obtain ⟨refresh, flying, rfl⟩ := Option.map_eq_some_iff.mp asked
  have taken : (step world (.finish (repliesOf pool))).isSome := by
    rw [step, flying]
    rfl
  refine reaches_next reached (met _ ?_) taken
  intro other same
  cases flying.symm.trans same
  rw [known]
  exact repliesOf_answers pool

theorem sampleMoved_reached : claimRuns.Reaches (Resumed sampleHistory) sampleMoved := by
  have unread : sampleTracked.selection.participantRefreshBlock = none := by decide
  have tracked : claimRuns.Reaches (Resumed sampleHistory) sampleTracked :=
    reaches_next (reaches_next (.start sampleStart ⟨none, 0, rfl⟩) ⟨trivial, trivial⟩
      (by decide)) ⟨trivial, trivial⟩ (by decide)
  have read : claimRuns.Reaches (Resumed sampleHistory) sampleRead :=
    reaches_next tracked ⟨⟨rfl, fun _ refreshed => nomatch unread.symm.trans refreshed⟩,
      fun _ refreshed => nomatch unread.symm.trans refreshed⟩ (by decide)
  have claimed : claimRuns.Reaches (Resumed sampleHistory) sampleClaimed :=
    sample_finish 1 rfl read (fun _ given => ⟨given, trivial⟩) (by decide)
  exact reaches_next (reaches_next claimed ⟨trivial, trivial⟩ (by decide))
    ⟨trivial, trivial⟩ (by decide)

theorem sample_given (tickPath : List Int) (listed : tickPath = [] ∨ tickPath = [0]) :
    Given sampleHistory sampleMoved (.begin .insertion 2 ⟨45, 0, 0⟩ [] tickPath) := by
  have refreshed : sampleMoved.selection.participantRefreshBlock = some 1 := by decide
  refine ⟨rfl, fun since same _ => ?_⟩
  cases refreshed.symm.trans same
  exact sample_turns tickPath listed

/-- With the tick of the first call on the path, the second call is as good as a full one. -/
theorem claims_full_sample : FullyClaimed sampleHistory (sampleLast [0]) := by
  have called : claimRuns.Reaches (Resumed sampleHistory) (sampleCalled [0]) := by
    refine reaches_next sampleMoved_reached ⟨sample_given [0] (.inr rfl), ?_⟩ (by decide +kernel)
    intro since same
    have refreshed : sampleMoved.selection.participantRefreshBlock = some 1 := by decide +kernel
    cases refreshed.symm.trans same
    decide +kernel
  exact claims_full sampleHistory (sampleLast [0])
    (sample_finish 2 rfl called (fun _ given => ⟨given, trivial⟩) (by decide +kernel))

/-- The claim is wrong where the turns alone are listed and the snapshot is newer than the
call before: the end of the range is not read again. -/
theorem claims_not_full : ¬∀ history world, claimRuns.Reaches (Given history) world →
    FullyClaimed history world := by
  intro full
  have moved : claimRuns.Reaches (Given sampleHistory) sampleMoved :=
    sampleMoved_reached.weaken fun _ _ met => met.1
  have called : claimRuns.Reaches (Given sampleHistory) (sampleCalled []) :=
    reaches_next moved (sample_given [] (.inl rfl)) (by decide +kernel)
  have last : claimRuns.Reaches (Given sampleHistory) (sampleLast []) :=
    sample_finish 2 rfl called (fun _ given => given) (by decide +kernel)
  have held : (sampleLast []).selection.participantState.get sampleKey =
      some ⟨⟨1000, 0, 0, 0, 0⟩, some ⟨1000, 0, 1000, 0⟩, some 2⟩ := by decide +kernel
  have unchanged : sampleHistory.Unchanged sampleKey 1 2 := by
    rw [History.Unchanged, between_succ]
    simp [sampleHistory, PoolEvent.changes]
  have same := full sampleHistory (sampleLast []) last 2 (by decide +kernel) sampleKey _ _ 1 held
    rfl (by decide +kernel) unchanged
  exact absurd same (by decide +kernel)

end RhPools.ClaimRefreshes
