import RhPools.SelectionLanes

/-! The last minute of swaps. A snapshot calls it complete when the covered blocks reach
the cursor, start early enough, and no row of the minute was dropped. The rows are then
the Swap logs of the minute, up to logs of its first second before the covered blocks
and rows of blocks that the head does not show any more. -/

namespace RhPools.SwapMinutes
open GuardedRuns OrderedTables SelectionLanes

variable {chain : Chain} {selection next : Selection}

def Swaps (chain : Chain) (log : Log) : Prop :=
  log ∈ chain.logs log.block ∧ (logRow chain log).isSome

def Tells (chain : Chain) (row : Row) (log : Log) : Prop :=
  logRow chain log = some { row with exact_ := true }

/-- The rows from the cutoff on are the Swap logs up to the block, each once. -/
structure MinuteExact (chain : Chain) (block : Nat) (cutoff : Int) (rows : List Row) : Prop where
  once : ((rows.filter fun row => decide (cutoff ≤ row.timestamp)).map Row.id).Nodup
  only : ∀ row ∈ rows, cutoff ≤ row.timestamp →
    ∃ log, Swaps chain log ∧ log.block ≤ block ∧ Tells chain row log
  all : ∀ log, Swaps chain log → log.block ≤ block → cutoff ≤ chain.timestamp log.block →
    ∃ row ∈ rows, Tells chain row log

theorem Tells.same {row : Row} {log : Log} (tells : Tells chain row log) :
    row.id = log.id ∧ row.block = log.block ∧ row.timestamp = chain.timestamp log.block := by
  unfold Tells logRow at tells
  split at tells
  · have same := Option.some.inj tells
    exact ⟨(congrArg Row.id same).symm, (congrArg Row.block same).symm,
      (congrArg Row.timestamp same).symm⟩
  · cases tells

theorem mergeExisting_none (row : Row) (rows : List Row) (absent : mergeExisting row rows = none) :
    row.id ∉ rows.map Row.id := by
  induction rows with
  | nil => exact List.not_mem_nil
  | cons existing rest ih =>
    rw [mergeExisting] at absent
    split at absent
    · cases absent
    · rename_i apart
      rw [List.map_cons, List.mem_cons, not_or]
      exact ⟨Ne.symm apart, ih (Option.map_eq_none_iff.mp absent)⟩

theorem mergeExisting_some (row : Row) (rows merged : List Row)
    (found : mergeExisting row rows = some merged) :
    row.id ∈ rows.map Row.id ∧ merged.map Row.id = rows.map Row.id ∧
      ∀ other ∈ merged, other ∈ rows ∨ ∃ exact_, other = { row with exact_ := exact_ } := by
  induction rows generalizing merged with
  | nil => cases found
  | cons existing rest ih =>
    rw [mergeExisting] at found
    split at found
    · rename_i same
      cases found
      refine ⟨by simp [same], by simp [same], ?_⟩
      intro other member
      rcases List.mem_cons.mp member with rfl | inside
      · exact .inr ⟨_, rfl⟩
      · exact .inl (.tail _ inside)
    · obtain ⟨tail, later, rfl⟩ := Option.map_eq_some_iff.mp found
      obtain ⟨known, ids, parts⟩ := ih tail later
      refine ⟨.tail _ known, by rw [List.map_cons, List.map_cons, ids], ?_⟩
      intro other member
      rcases List.mem_cons.mp member with rfl | inside
      · exact .inl (.head _)
      · exact (parts other inside).imp_left (.tail _)

theorem dropped_marked (dropped : List Row) (mark : Option Int) :
    let after := dropped.foldl (fun mark row => some (max row.timestamp (mark.getD 0))) mark
    (∀ time, mark = some time → ∃ later, after = some later ∧ time ≤ later) ∧
      ∀ row ∈ dropped, ∃ later, after = some later ∧ row.timestamp ≤ later := by
  induction dropped generalizing mark with
  | nil => exact ⟨fun time held => ⟨time, held, le_rfl⟩, fun row wrong => by cases wrong⟩
  | cons first rest ih =>
    obtain ⟨rises, marks⟩ := ih (some (max first.timestamp (mark.getD 0)))
    obtain ⟨later, held, above⟩ := rises _ rfl
    constructor
    · rintro time rfl
      exact ⟨later, held, le_trans (le_max_right _ _) above⟩
    · intro row member
      rcases List.mem_cons.mp member with rfl | inside
      · exact ⟨later, held, le_trans (le_max_left _ _) above⟩
      · exact marks row inside

theorem truncated_spec (limit : Nat) (ordered : List Row) (mark : Option Int) :
    (truncated limit ordered mark).1.Sublist ordered ∧
      (∀ time, mark = some time → ∃ later, (truncated limit ordered mark).2 = some later ∧ time ≤ later) ∧
      ∀ row ∈ ordered, row ∈ (truncated limit ordered mark).1 ∨
        ∃ later, (truncated limit ordered mark).2 = some later ∧ row.timestamp ≤ later := by
  obtain ⟨rises, marks⟩ := dropped_marked (ordered.take (ordered.length - limit)) mark
  refine ⟨List.drop_sublist _ _, rises, ?_⟩
  intro row member
  rw [← List.take_append_drop (ordered.length - limit) ordered, List.mem_append] at member
  exact member.symm.imp_right (marks row)

theorem mem_sortedBy {Item : Type} (place : Item → Place) (items : List Item) (item : Item) :
    item ∈ sortedBy place items ↔ item ∈ items :=
  (List.perm_insertionSort _ items).mem_iff

structure Truthful (chain : Chain) (selection : Selection) : Prop where
  rows : ∀ row ∈ selection.swaps, ∃ log, Swaps chain log ∧ Tells chain row log
  distinct : (selection.swaps.map Row.id).Nodup

def Held (chain : Chain) (selection : Selection) (log : Log) : Prop :=
  (∃ row ∈ selection.swaps, row.id = log.id) ∨
  (∃ mark, selection.swapsTruncatedThroughTimestamp = some mark ∧
    chain.timestamp log.block ≤ mark) ∨
  chain.timestamp log.block + 3600 < chain.timestamp selection.cursor

def SameMarks (before after : Selection) : Prop :=
  ∃ rows mark identities dirty verified, after = { before with
    swaps := rows
    swapsTruncatedThroughTimestamp := mark
    currentEventIdentities := identities
    curveDirtyFromBlock := dirty
    curveVerifiedThroughBlock := verified }

structure Adds (chain : Chain) (before after : Selection) : Prop where
  marks : SameMarks before after
  truthful : Truthful chain before → Truthful chain after
  holds : Truthful chain before → ∀ log, Swaps chain log → Held chain before log →
    Held chain after log

theorem SameMarks.refl (selection : Selection) : SameMarks selection selection :=
  ⟨_, _, _, _, _, rfl⟩

theorem SameMarks.trans {first second third : Selection} (before : SameMarks first second)
    (after : SameMarks second third) : SameMarks first third := by
  obtain ⟨_, _, _, _, _, rfl⟩ := before
  obtain ⟨_, _, _, _, _, rfl⟩ := after
  exact ⟨_, _, _, _, _, rfl⟩

variable {before after : Selection}

theorem SameMarks.cursor (same : SameMarks before after) :
    after.cursor = before.cursor := by
  obtain ⟨_, _, _, _, _, rfl⟩ := same
  rfl

theorem Adds.refl (selection : Selection) : Adds chain selection selection :=
  ⟨.refl _, fun truthful => truthful, fun _ _ _ held => held⟩

theorem Adds.trans {first second third : Selection} (before : Adds chain first second)
    (after : Adds chain second third) : Adds chain first third :=
  ⟨before.marks.trans after.marks, fun truthful => after.truthful (before.truthful truthful),
    fun truthful log swap held => after.holds (before.truthful truthful) log swap
      (before.holds truthful log swap held)⟩

theorem Adds.of_rows (marks : SameMarks before after) (rows : after.swaps = before.swaps)
    (mark : after.swapsTruncatedThroughTimestamp = before.swapsTruncatedThroughTimestamp) :
    Adds chain before after := by
  refine ⟨marks, fun truthful => ⟨rows ▸ truthful.rows, rows ▸ truthful.distinct⟩, ?_⟩
  intro _ log _ held
  simpa only [Held, rows, mark, marks.cursor] using held

theorem tells_flag {row : Row} {log : Log} (tells : Tells chain row log) (exact_ : Bool) :
    Tells chain { row with exact_ := exact_ } log := tells

theorem same_log {log other : Log} (swap : Swaps chain log) (swap' : Swaps chain other)
    (same : log.id = other.id) : log = other :=
  chain.distinct log.block other.block log swap.1 other swap'.1 same

theorem mergeSwapRow_adds (selection : Selection) (row : Row) (log : Log) (swap : Swaps chain log)
    (tells : Tells chain row log) : Adds chain selection (selection.mergeSwapRow row) ∧
      (Truthful chain selection → Held chain (selection.mergeSwapRow row) log) := by
  unfold Selection.mergeSwapRow
  cases found : mergeExisting row selection.swaps with
  | some merged =>
    obtain ⟨known, ids, parts⟩ := mergeExisting_some row selection.swaps merged found
    have held : ∀ other : Log, (∃ existing ∈ selection.swaps, existing.id = other.id) →
        ∃ existing ∈ merged, existing.id = other.id := by
      rintro other ⟨existing, member, same⟩
      have inside := List.mem_map_of_mem (f := Row.id) member
      rw [← ids, same] at inside
      exact List.mem_map.mp inside
    refine ⟨⟨⟨merged, _, _, _, _, rfl⟩, ?_, ?_⟩, ?_⟩
    · intro truthful
      refine ⟨?_, ids ▸ truthful.distinct⟩
      intro other member
      rcases parts other member with old | ⟨exact_, rfl⟩
      · exact truthful.rows other old
      · exact ⟨log, swap, tells_flag tells exact_⟩
    · intro _ other _ before
      exact before.imp_left (held other)
    · intro _
      left
      rw [← ids, tells.same.1] at known
      exact List.mem_map.mp known
  | none =>
    have fresh := mergeExisting_none row selection.swaps found
    obtain ⟨part, rises, placed⟩ := truncated_spec MAX_SWAPS (sortedBy Row.place (selection.swaps ++ [row]))
      selection.swapsTruncatedThroughTimestamp
    have perm : (sortedBy Row.place (selection.swaps ++ [row])).Perm (selection.swaps ++ [row]) :=
      List.perm_insertionSort _ _
    generalize truncated MAX_SWAPS (sortedBy Row.place (selection.swaps ++ [row]))
      selection.swapsTruncatedThroughTimestamp = kept at part rises placed ⊢
    -- A row that was there, or comes now, stays or is marked.
    have stands : ∀ other : Log, ∀ existing ∈ selection.swaps ++ [row],
        Tells chain existing other → Held chain { selection with
          swaps := kept.1
          swapsTruncatedThroughTimestamp := kept.2 } other := by
      intro other existing member told
      rcases placed existing (perm.mem_iff.mpr member) with stays | ⟨mark, marked, above⟩
      · exact .inl ⟨existing, stays, told.same.1⟩
      · exact .inr (.inl ⟨mark, marked, told.same.2.2 ▸ above⟩)
    refine ⟨⟨⟨_, _, _, _, _, rfl⟩, ?_, ?_⟩, ?_⟩
    · intro truthful
      constructor
      · intro other member
        have inside := perm.mem_iff.mp (part.subset member)
        rcases List.mem_append.mp inside with old | new
        · exact truthful.rows other old
        · exact ⟨log, swap, List.mem_singleton.mp new ▸ tells⟩
      · have whole : ((selection.swaps ++ [row]).map Row.id).Nodup := by
          rw [List.map_append, List.map_singleton, ← List.concat_eq_append, List.nodup_concat]
          exact ⟨fresh, truthful.distinct⟩
        exact ((perm.map Row.id).nodup_iff.mpr whole).sublist (part.map Row.id)
    · intro truthful other swap' before
      rcases before with ⟨existing, member, same⟩ | ⟨mark, marked, above⟩ | old
      · obtain ⟨log', swap'', told⟩ := truthful.rows existing member
        obtain rfl := same_log swap' swap'' (same.symm.trans told.same.1)
        exact stands other existing (List.mem_append_left _ member) told
      · obtain ⟨later, marked', above'⟩ := rises mark marked
        exact .inr (.inl ⟨later, marked', le_trans above above'⟩)
      · exact .inr (.inr old)
    · intro _
      exact stands log row (List.mem_append_right _ (.head _)) tells

theorem event_row (feed : Feed chain) (event : Event) (member : event ∈ feed.events)
    (kind : event.kind = .swap) : ∃ log, Swaps chain log ∧ Tells chain event.row log := by
  obtain ⟨time, _, log, placed, hash, index, place, body⟩ := feed.truly event member
  have block := chain.placed event.block log placed
  cases said : log.body with
  | swap amount0 amount1 =>
    rw [said] at body
    obtain ⟨_, first, second⟩ := body
    have row : logRow chain log = some { event.row with exact_ := true } := by
      simp only [logRow, said, Event.row, Log.id, hash, index, place, time, block, first, second]
    exact ⟨log, ⟨block ▸ placed, row ▸ rfl⟩, row⟩
  | mint => exact absurd kind (said ▸ body).1
  | burn amount => exact absurd kind (said ▸ body).1
  | modify liquidityDelta => exact absurd kind (said ▸ body).1
  | other => exact absurd kind (said ▸ body).1

theorem applyEvent_adds (feed : Feed chain) (selection : Selection) (event : Event)
    (member : event ∈ feed.events) : Adds chain selection (selection.applyEvent event) := by
  unfold Selection.applyEvent
  by_cases known : selection.currentEventIdentities.get event.identity = some event
  · rw [if_pos known]
    exact .refl selection
  · rw [if_neg known]
    have noted : ∀ identities dirty, Adds chain selection { selection with
        currentEventIdentities := identities
        curveDirtyFromBlock := dirty } :=
      fun identities dirty => .of_rows ⟨_, _, _, _, _, rfl⟩ rfl rfl
    by_cases kind : event.kind = .swap
    · obtain ⟨log, swap, tells⟩ := event_row feed event member kind
      rw [if_pos kind]
      exact (noted _ _).trans (mergeSwapRow_adds _ event.row log swap tells).1
    · rw [if_neg kind]
      exact noted _ _

theorem verifyBelowDirty_adds (selection : Selection) :
    Adds chain selection selection.verifyBelowDirty := by
  unfold Selection.verifyBelowDirty
  split
  · exact .of_rows ⟨_, _, _, _, _, rfl⟩ rfl rfl
  · exact .refl selection

theorem syncCurrentEvents_adds (selection : Selection) (feed : Feed chain) (throughBlock : Nat) :
    Adds chain selection (selection.syncCurrentEvents feed throughBlock) := by
  have folded : ∀ (events : List Event) (selection : Selection), (∀ event ∈ events,
      event ∈ feed.events) → Adds chain selection (events.foldl Selection.applyEvent selection) := by
    intro events
    induction events with
    | nil => exact fun selection _ => .refl selection
    | cons event rest ih =>
      intro selection inside
      exact (applyEvent_adds feed selection event (inside event (.head _))).trans
        (ih _ fun other member => inside other (.tail _ member))
  have inside : ∀ event ∈ sortedBy Event.place (feed.events.filter (·.block ≤ throughBlock)),
      event ∈ feed.events := by
    intro event member
    exact List.mem_of_mem_filter ((mem_sortedBy _ _ _).mp member)
  have synced := (folded _ selection inside).trans (verifyBelowDirty_adds _)
  unfold Selection.syncCurrentEvents
  split
  · exact synced
  · exact synced.trans (.of_rows ⟨_, _, _, _, _, rfl⟩ rfl rfl)

theorem expireSwaps_adds (selection : Selection) (cutoff : Int)
    (old : cutoff ≤ chain.timestamp selection.cursor - 3600) :
    Adds chain selection (selection.expireSwaps cutoff) := by
  have part : (selection.expireSwaps cutoff).swaps.Sublist selection.swaps :=
    List.dropWhile_sublist _
  refine ⟨⟨_, _, _, _, _, rfl⟩, ?_, ?_⟩
  · intro truthful
    exact ⟨fun row member => truthful.rows row (part.subset member),
      truthful.distinct.sublist (part.map Row.id)⟩
  · intro truthful log swap held
    rcases held with ⟨row, member, same⟩ | marked | late
    · by_cases stays : row ∈ (selection.expireSwaps cutoff).swaps
      · exact .inl ⟨row, stays, same⟩
      · -- The row was dropped, so it is older than the cutoff.
        obtain ⟨log', swap', tells⟩ := truthful.rows row member
        obtain rfl := same_log swap swap' (same.symm.trans tells.same.1)
        have gone : row.timestamp < cutoff := by
          have split_ := List.takeWhile_append_dropWhile (p := fun row : Row =>
            decide (row.timestamp < cutoff)) (l := selection.swaps)
          rw [← split_, List.mem_append] at member
          rcases member with dropped | kept
          · have young := List.mem_takeWhile_imp dropped
            simpa using young
          · exact absurd kept stays
        refine .inr (.inr ?_)
        show chain.timestamp log.block + 3600 < chain.timestamp selection.cursor
        rw [← tells.same.2.2]
        omega
    · exact .inr (.inl marked)
    · exact .inr (.inr late)

theorem appendRows_adds (logs : List Log) (selection : Selection)
    (inside : ∀ log ∈ logs, log ∈ chain.logs log.block) :
    Adds chain selection ((logs.filterMap (logRow chain)).foldl Selection.mergeSwapRow selection) ∧
      (Truthful chain selection → ∀ log ∈ logs, Swaps chain log →
        Held chain ((logs.filterMap (logRow chain)).foldl Selection.mergeSwapRow selection) log) := by
  induction logs generalizing selection with
  | nil => exact ⟨.refl selection, fun _ log wrong => by cases wrong⟩
  | cons log rest ih =>
    have later := fun selection => ih selection fun other member => inside other (.tail _ member)
    cases row : logRow chain log with
    | none =>
      rw [List.filterMap_cons_none row]
      refine ⟨(later selection).1, ?_⟩
      intro truthful other member swap
      rcases List.mem_cons.mp member with rfl | tail
      · have known := swap.2
        rw [row] at known
        cases known
      · exact (later selection).2 truthful other tail swap
    | some made =>
      rw [List.filterMap_cons_some row, List.foldl_cons]
      have swap : Swaps chain log := ⟨inside log (.head _), row ▸ rfl⟩
      have tells : Tells chain made log := by
        have exact_ : made.exact_ = true := by
          unfold logRow at row
          split at row
          · exact Option.some.inj row ▸ rfl
          · cases row
        rw [Tells, row, ← exact_]
      obtain ⟨first, held⟩ := mergeSwapRow_adds selection made log swap tells
      obtain ⟨adds, holds⟩ := later (selection.mergeSwapRow made)
      refine ⟨first.trans adds, ?_⟩
      intro truthful other member swap'
      rcases List.mem_cons.mp member with rfl | tail
      · exact adds.holds (first.truthful truthful) other swap' (held truthful)
      · exact holds (first.truthful truthful) other tail swap'

theorem appendSwaps_adds (selection : Selection) (logs : List Log)
    (inside : ∀ log ∈ logs, log ∈ chain.logs log.block ∧ log.block ≤ selection.cursor) :
    Adds chain selection (selection.appendSwaps chain logs) ∧
      (Truthful chain selection → ∀ log ∈ logs, Swaps chain log →
        Held chain (selection.appendSwaps chain logs) log) := by
  obtain ⟨adds, holds⟩ := appendRows_adds logs selection fun log member => (inside log member).1
  unfold Selection.appendSwaps
  split
  · exact ⟨adds, holds⟩
  · rename_i last found
    obtain ⟨member, _⟩ := List.max?_eq_some_iff.mp found
    obtain ⟨log, here, rfl⟩ := List.mem_map.mp member
    have old : chain.timestamp log.block - 3600 ≤ chain.timestamp ((logs.filterMap
        (logRow chain)).foldl Selection.mergeSwapRow selection).cursor - 3600 := by
      rw [adds.marks.cursor]
      have := chain.later log.block selection.cursor (inside log here).2
      omega
    have expired : Adds chain _ _ := expireSwaps_adds _ _ old
    refine ⟨adds.trans expired, ?_⟩
    intro truthful other member swap
    exact expired.holds (adds.truthful truthful) other swap (holds truthful other member swap)

structure Covered (chain : Chain) (selection : Selection) : Prop where
  fresh : selection.recentHistoryCursor = 0 → selection.swapCoverageStartBlock = none ∧
    selection.swapCoverageStartTimestamp = none ∧ selection.swapCoverageThroughBlock = none
  joined : 0 < selection.recentHistoryCursor → ∃ start,
    selection.swapCoverageStartBlock = some start ∧
    selection.swapCoverageStartTimestamp = some (chain.timestamp start) ∧
    selection.swapCoverageThroughBlock = some selection.recentHistoryCursor ∧
    start ≤ selection.recentHistoryCursor ∧ selection.recentHistoryCursor ≤ selection.cursor ∧
    ∀ log, Swaps chain log → start ≤ log.block → log.block ≤ selection.recentHistoryCursor →
      Held chain selection log

/-- Logs of the first second of the minute before the covered blocks have rows. -/
def EdgeKept (chain : Chain) (start : Option Nat) (cutoff : Int) (rows : List Row) : Prop :=
  ∀ first, start = some first → ∀ log, Swaps chain log → log.block < first →
    chain.timestamp log.block = cutoff → ∃ row ∈ rows, row.id = log.id

def NoneAbove (block : Nat) (cutoff : Int) (rows : List Row) : Prop :=
  ∀ row ∈ rows, cutoff ≤ row.timestamp → row.block ≤ block

def SnapshotSound (chain : Chain) (snapshot : Snapshot) : Prop :=
  snapshot.timestamp = chain.timestamp snapshot.block ∧ (snapshot.minuteComplete = true →
    (MinuteExact chain snapshot.block (snapshot.timestamp - 60) snapshot.swaps ↔
      NoneAbove snapshot.block (snapshot.timestamp - 60) snapshot.swaps ∧
      EdgeKept chain snapshot.swapCoverageStartBlock (snapshot.timestamp - 60) snapshot.swaps))

theorem minute_iff (truthful : Truthful chain selection) (covered : Covered chain selection)
    (complete : selection.minuteComplete (chain.timestamp selection.cursor) = true) :
    MinuteExact chain selection.cursor (chain.timestamp selection.cursor - 60) selection.swaps ↔
      NoneAbove selection.cursor (chain.timestamp selection.cursor - 60) selection.swaps ∧
      EdgeKept chain selection.swapCoverageStartBlock (chain.timestamp selection.cursor - 60)
        selection.swaps := by
  simp only [Selection.minuteComplete, Bool.and_eq_true] at complete
  obtain ⟨⟨⟨_, through⟩, early⟩, marked⟩ := complete
  obtain ⟨reached, held, at_⟩ := (Option.any_eq_true _ _).mp through
  have some_history : 0 < selection.recentHistoryCursor := by
    by_contra zero
    rw [(covered.fresh (by omega)).2.2] at held
    cases held
  obtain ⟨first, start, startTime, last, order, below, holds⟩ := covered.joined some_history
  -- The covered blocks reach the cursor, and the first of them is old enough.
  have whole : selection.recentHistoryCursor = selection.cursor := by
    obtain rfl : selection.recentHistoryCursor = reached := Option.some.inj (last.symm.trans held)
    have := of_decide_eq_true at_
    omega
  have old : chain.timestamp first ≤ chain.timestamp selection.cursor - 60 := by
    rw [startTime] at early
    exact of_decide_eq_true early
  constructor
  · intro exact_
    constructor
    · intro row member recent
      obtain ⟨log, _, inside, tells⟩ := exact_.only row member recent
      exact tells.same.2.1 ▸ inside
    · intro first' start' log swap before edge
      obtain rfl : first = first' := Option.some.inj (start.symm.trans start')
      obtain ⟨row, member, tells⟩ := exact_.all log swap (by omega) (by omega)
      exact ⟨row, member, tells.same.1⟩
  · rintro ⟨above, edge⟩
    refine ⟨truthful.distinct.sublist (List.filter_sublist.map Row.id), ?_, ?_⟩
    · intro row member recent
      obtain ⟨log, swap, tells⟩ := truthful.rows row member
      exact ⟨log, swap, tells.same.2.1 ▸ above row member recent, tells⟩
    · intro log swap inside recent
      have found : ∃ row ∈ selection.swaps, row.id = log.id := by
        rcases Nat.lt_or_ge log.block first with before | covered_
        · have := chain.later log.block first (by omega)
          exact edge first start log swap before (by omega)
        · rcases holds log swap covered_ (by omega) with row | ⟨mark, dropped, time⟩ | late
          · exact row
          · rw [dropped] at marked
            have := of_decide_eq_true marked
            omega
          · omega
      obtain ⟨row, member, same⟩ := found
      obtain ⟨log', swap', tells⟩ := truthful.rows row member
      obtain rfl := same_log swap swap' (same.symm.trans tells.same.1)
      exact ⟨row, member, tells⟩

theorem Adds.covered (adds : Adds chain before after) (truthful : Truthful chain before)
    (covered : Covered chain before) : Covered chain after := by
  have holds := adds.holds truthful
  obtain ⟨_, _, _, _, _, rfl⟩ := adds.marks
  refine ⟨covered.fresh, ?_⟩
  intro some_history
  obtain ⟨first, start, startTime, last, order, below, held⟩ := covered.joined some_history
  exact ⟨first, start, startTime, last, order, below, fun log swap from_ to_ =>
    holds log swap (held log swap from_ to_)⟩

structure Sound (chain : Chain) (selection : Selection) : Prop where
  truthful : Truthful chain selection
  covered : selection.needsSeed = false → Covered chain selection
  published : ∀ snapshot, selection.snapshot = some snapshot → SnapshotSound chain snapshot

theorem Sound.adds (sound : Sound chain before) (adds : Adds chain before after) :
    Sound chain after := by
  have truthful := adds.truthful sound.truthful
  have covered := adds.covered sound.truthful
  obtain ⟨_, _, _, _, _, rfl⟩ := adds.marks
  exact ⟨truthful, fun seeded => covered (sound.covered seeded), sound.published⟩

theorem publish_sound {block : Nat} (sound : Sound chain selection)
    (seeded : selection.needsSeed = false) (here : selection.cursor = block) :
    Sound chain (selection.publish chain block) := by
  subst here
  have expired : Sound chain (selection.expireSwaps (chain.timestamp selection.cursor - 3600)) :=
    sound.adds (expireSwaps_adds _ _ le_rfl)
  refine ⟨⟨expired.truthful.rows, expired.truthful.distinct⟩, ?_, ?_⟩
  · intro _
    have covered := expired.covered seeded
    exact ⟨covered.fresh, covered.joined⟩
  · rintro snapshot ⟨⟩
    exact ⟨rfl, minute_iff expired.truthful (expired.covered seeded)⟩

theorem Sound.elsewhere (sound : Sound chain selection) (recentHistoryPending : Bool)
    (historyError : Option String) (positionState : List (Int × Int))
    (tickNet : Int → Option Int) (curveWords : List Int) (curveStateBlock : Option Nat)
    (curveVerifiedThroughBlock : Option Int) (curveDirtyFromBlock : Option Nat)
    (curveReadBlock : Nat) : Sound chain { selection with
      recentHistoryPending := recentHistoryPending
      historyError := historyError
      positionState := positionState
      tickNet := tickNet
      curveWords := curveWords
      curveStateBlock := curveStateBlock
      curveVerifiedThroughBlock := curveVerifiedThroughBlock
      curveDirtyFromBlock := curveDirtyFromBlock
      curveReadBlock := curveReadBlock } := by
  refine ⟨⟨sound.truthful.rows, sound.truthful.distinct⟩, ?_, sound.published⟩
  intro seeded
  have covered := sound.covered seeded
  exact ⟨covered.fresh, covered.joined⟩

theorem distrusted_sound (sound : Sound chain selection) : Sound chain selection.distrusted := by
  refine ⟨⟨sound.truthful.rows, sound.truthful.distinct⟩, ?_, sound.published⟩
  intro seeded
  cases seeded

theorem loaded_sound {loaded : Selection} {block : Nat} {words : List Int}
    (sound : Sound chain selection)
    (found : selection.loadCurveState chain block words = some loaded) : Sound chain loaded := by
  obtain ⟨_, _, _, rfl⟩ := loadCurveState_changes found
  exact sound.elsewhere ..

theorem moved_sound (sound : Sound chain selection) (head : Nat) (hash : String)
    (later : selection.cursor ≤ head) :
    Sound chain { selection with cursor := head, cursorHash := hash } := by
  refine ⟨⟨sound.truthful.rows, sound.truthful.distinct⟩, ?_, sound.published⟩
  intro seeded
  have covered := sound.covered seeded
  refine ⟨covered.fresh, ?_⟩
  intro some_history
  obtain ⟨first, start, startTime, last, order, below, holds⟩ := covered.joined some_history
  refine ⟨first, start, startTime, last, order, le_trans below later, ?_⟩
  intro log swap from_ to_
  refine (holds log swap from_ to_).imp_right (Or.imp_right fun old => ?_)
  have := chain.later selection.cursor head later
  show chain.timestamp log.block + 3600 < chain.timestamp head
  omega

theorem cleared_sound (sound : Sound chain selection) (unseeded : selection.needsSeed = true) :
    Sound chain selection.cleared := by
  refine ⟨⟨fun row wrong => (List.not_mem_nil wrong).elim, List.nodup_nil⟩, ?_, sound.published⟩
  intro seeded
  rw [show selection.cleared.needsSeed = selection.needsSeed from rfl, unseeded] at seeded
  cases seeded

theorem seededAt_sound {loaded : Selection} {head : Nat} {words : List Int}
    (sound : Sound chain selection.cleared)
    (found : selection.cleared.loadCurveState chain head words = some loaded) :
    Sound chain (loaded.seededAt chain head) := by
  obtain ⟨_, _, _, rfl⟩ := loadCurveState_changes found
  refine ⟨⟨sound.truthful.rows, sound.truthful.distinct⟩, ?_, sound.published⟩
  intro _
  exact ⟨fun _ => ⟨rfl, rfl, rfl⟩, fun wrong => absurd wrong (lt_irrefl 0)⟩

theorem synced_same (selection : Selection) (feed : Feed chain) (head : Nat) :
    (selection.syncCurrentEvents feed head).needsSeed = selection.needsSeed ∧
      (selection.syncCurrentEvents feed head).cursor = selection.cursor ∧
      (selection.syncCurrentEvents feed head).historyGeneration = selection.historyGeneration ∧
      (selection.syncCurrentEvents feed head).recentHistoryCursor =
        selection.recentHistoryCursor := by
  obtain ⟨_, _, _, _, _, same⟩ := (syncCurrentEvents_adds selection feed head).marks
  rw [same]
  exact ⟨rfl, rfl, rfl, rfl⟩

theorem seed_sound (sound : Sound chain selection) (unseeded : selection.needsSeed = true)
    (head : Nat) (feed : Feed chain) (progress : Progress) (next : Selection)
    (seeded : selection.seed head feed progress = some next) : Sound chain next := by
  have cleared := cleared_sound sound unseeded
  cases progress with
  | begun => exact Option.some.inj seeded ▸ sound
  | synced => exact Option.some.inj seeded ▸ cleared
  | loaded =>
    simp only [Selection.seed] at seeded
    split at seeded
    · exact Option.some.inj seeded ▸ cleared
    · rename_i loaded found
      exact Option.some.inj seeded ▸ loaded_sound cleared found
  | published =>
    simp only [Selection.seed, reduceCtorEq, if_false] at seeded
    split at seeded
    · exact Option.some.inj seeded ▸ cleared
    · rename_i loaded found
      cases seeded
      have synced := synced_same (loaded.seededAt chain head) feed head
      exact publish_sound ((seededAt_sound cleared found).adds (syncCurrentEvents_adds _ feed head))
        synced.1 synced.2.1

theorem advancedTo_sound (sound : Sound chain selection) (head : Nat) (refreshed : Bool)
    (later : selection.cursor ≤ head) :
    Sound chain (selection.advancedTo chain head refreshed) := by
  have moved := moved_sound sound head (chain.hash head) later
  unfold Selection.advancedTo
  split
  · exact moved.elsewhere ..
  · split
    · exact moved.elsewhere ..
    · exact moved.elsewhere ..

theorem advance_sound (sound : Sound chain selection) (seeded : selection.needsSeed = false)
    (head : Nat) (feed : Feed chain) (progress : Progress) :
    Sound chain (selection.advance head feed progress) := by
  have distrusted := distrusted_sound sound
  have synced := sound.adds (syncCurrentEvents_adds selection feed head)
  have same := synced_same selection feed head
  unfold Selection.advance
  split
  · exact distrusted
  split
  · exact distrusted
  split
  · exact distrusted
  split
  · exact distrusted
  split
  · exact sound
  simp only
  split
  · exact synced
  split
  · exact synced
  · rename_i loaded refreshed found
    have read : Sound chain loaded ∧ loaded.needsSeed = false ∧ loaded.cursor = selection.cursor := by
      obtain ⟨_, _, _, rfl⟩ := refreshCurve_changes found
      exact ⟨synced.elsewhere .., same.1.trans seeded, same.2.1⟩
    split
    · exact read.1
    split
    · rename_i here
      split
      · exact publish_sound (read.1.elsewhere ..) read.2.1 (read.2.2.trans here.symm)
      · exact publish_sound read.1 read.2.1 (read.2.2.trans here.symm)
    · have advanced : Sound chain _ := advancedTo_sound read.1 head refreshed (by omega)
      refine publish_sound advanced ?_ rfl
      unfold Selection.advancedTo
      split
      · exact read.2.1
      · split <;> exact read.2.1

theorem boundaryFrom_le (chain : Chain) (block : Nat) (target : Int) (fuel distance : Nat) :
    boundaryFrom chain block target fuel distance ≤ block := by
  induction fuel generalizing distance with
  | zero => exact Nat.sub_le _ _
  | succ fuel ih =>
    rw [boundaryFrom]
    split
    · exact Nat.sub_le _ _
    · exact ih _

theorem mem_logsOf (chain : Chain) (start last : Nat) (log : Log) :
    log ∈ logsOf chain start last ↔
      log ∈ chain.logs log.block ∧ start ≤ log.block ∧ log.block ≤ last := by
  rw [logsOf, mem_sortedBy, List.mem_flatMap]
  constructor
  · rintro ⟨block, inside, member⟩
    obtain rfl := chain.placed block log member
    rw [List.mem_range'_1] at inside
    exact ⟨member, inside.1, by omega⟩
  · rintro ⟨member, first, final⟩
    exact ⟨log.block, List.mem_range'_1.mpr ⟨first, by omega⟩, member⟩

theorem coverSwaps_held (covered : Covered chain selection) (job : Job) (positive : 0 < job.block)
    (same : job.recentCursor = selection.recentHistoryCursor) :
    ∃ first, (selection.coverSwaps chain (job.start chain) job.block).swapCoverageStartBlock =
        some first ∧
      (selection.coverSwaps chain (job.start chain) job.block).swapCoverageStartTimestamp =
        some (chain.timestamp first) ∧
      (selection.coverSwaps chain (job.start chain) job.block).swapCoverageThroughBlock =
        some (max selection.recentHistoryCursor job.block) ∧
      first ≤ max selection.recentHistoryCursor job.block ∧
      selection.recentHistoryCursor ≤ selection.cursor ∧
      ∀ log, Swaps chain log → first ≤ log.block →
        log.block ≤ max selection.recentHistoryCursor job.block →
        Held chain selection log ∨ log ∈ logsOf chain (job.start chain) job.block := by
  rcases Nat.eq_zero_or_pos selection.recentHistoryCursor with zero | some_history
  · obtain ⟨start, startTime, last⟩ := covered.fresh zero
    have began : job.start chain ≤ job.block := by
      rw [Job.start, if_neg (by omega)]
      exact boundaryFrom_le ..
    refine ⟨job.start chain, ?_, ?_, ?_, by omega, by omega, ?_⟩
    · simp [Selection.coverSwaps, start]
    · simp [Selection.coverSwaps, start]
    · simp [Selection.coverSwaps, last, zero]
    · intro log swap from_ to_
      exact .inr ((mem_logsOf chain _ _ log).mpr ⟨swap.1, from_, by omega⟩)
  · obtain ⟨first, start, startTime, last, order, reached, holds⟩ := covered.joined some_history
    have began : job.start chain = selection.recentHistoryCursor + 1 := by
      rw [Job.start, same, if_pos some_history]
    have late : ¬selection.recentHistoryCursor + 1 < first := by omega
    refine ⟨first, ?_, ?_, ?_, by omega, reached, ?_⟩
    · simp [Selection.coverSwaps, start, began, late]
    · simp [Selection.coverSwaps, start, startTime, began, late]
    · simp [Selection.coverSwaps, last, Nat.max_comm]
    · intro log swap from_ to_
      rcases Nat.lt_or_ge selection.recentHistoryCursor log.block with new | old
      · exact .inr ((mem_logsOf chain _ _ log).mpr ⟨swap.1, by omega, by omega⟩)
      · exact .inl (holds log swap from_ old)

theorem coverShape_adds (selection : Selection) (logs : List Log) (start block : Nat) :
    Adds chain selection (selection.coverShape logs start block) := by
  unfold Selection.coverShape
  simp only
  split
  · exact .of_rows ⟨_, _, _, _, _, rfl⟩ rfl rfl
  · split
    · exact .of_rows ⟨_, _, _, _, _, rfl⟩ rfl rfl
    · exact .refl selection

theorem finishHistory_sound (sound : Sound chain selection) (job : Job) (positive : 0 < job.block)
    (same : job.generation = selection.historyGeneration →
      job.recentCursor = selection.recentHistoryCursor) :
    Sound chain (selection.finishHistory chain job) := by
  unfold Selection.finishHistory
  split
  · exact sound
  rename_i current
  split
  · exact distrusted_sound sound
  split
  · exact sound
  rename_i below
  rw [not_or, Bool.not_eq_true, not_not] at current
  have covered := sound.covered current.1
  obtain ⟨first, start, startTime, last, order, reached, either⟩ :=
    coverSwaps_held covered job positive (same current.2.symm)
  simp only
  generalize job.start chain = begin_ at start startTime last either
  have inside : ∀ log ∈ logsOf chain begin_ job.block, log ∈ chain.logs log.block ∧
      log.block ≤ (selection.coverSwaps chain begin_ job.block).cursor := by
    intro log member
    obtain ⟨placed, _, final⟩ := (mem_logsOf chain _ _ log).mp member
    exact ⟨placed, le_trans final (Nat.le_of_not_lt below)⟩
  obtain ⟨appended, holds⟩ := appendSwaps_adds (selection.coverSwaps chain begin_ job.block)
    (logsOf chain begin_ job.block) inside
  have adds := appended.trans (coverShape_adds _ (logsOf chain begin_ job.block) begin_ job.block)
  have shaped : Adds chain _ _ := coverShape_adds ((selection.coverSwaps chain begin_
    job.block).appendSwaps chain (logsOf chain begin_ job.block)) (logsOf chain begin_ job.block)
    begin_ job.block
  have before : Truthful chain (selection.coverSwaps chain begin_ job.block) :=
    ⟨sound.truthful.rows, sound.truthful.distinct⟩
  have truthful := adds.truthful before
  -- What was held is held, and what was read is held now.
  have held : ∀ log, Swaps chain log → Held chain selection log ∨
      log ∈ logsOf chain begin_ job.block → Held chain (((selection.coverSwaps chain begin_
        job.block).appendSwaps chain (logsOf chain begin_ job.block)).coverShape
        (logsOf chain begin_ job.block) begin_ job.block) log := by
    rintro log swap (old | read)
    · exact adds.holds before log swap old
    · exact shaped.holds (appended.truthful before) log swap (holds before log read swap)
  obtain ⟨rows, mark, identities, dirty, verified, whole⟩ := adds.marks
  rw [whole] at truthful held ⊢
  refine ⟨⟨truthful.rows, truthful.distinct⟩, ?_, sound.published⟩
  intro _
  constructor
  · intro zero
    have : max selection.recentHistoryCursor job.block = 0 := zero
    omega
  · intro _
    refine ⟨first, start, startTime, last, order, max_le reached (Nat.le_of_not_lt below), ?_⟩
    intro log swap from_ to_
    exact held log swap (either log swap from_ to_)

def Follows (before after : Selection) : Prop :=
  after.historyGeneration = before.historyGeneration ∧
    after.recentHistoryCursor = before.recentHistoryCursor ∨
  before.historyGeneration < after.historyGeneration

theorem seed_follows (selection next : Selection) (head : Nat) (feed : Feed chain)
    (progress : Progress) (seeded : selection.seed head feed progress = some next) :
    Follows selection next := by
  have newer : selection.historyGeneration < selection.cleared.historyGeneration :=
    Nat.lt_succ_self _
  have loads : ∀ loaded words, selection.cleared.loadCurveState chain head words = some loaded →
      loaded.historyGeneration = selection.cleared.historyGeneration := by
    intro loaded words found
    obtain ⟨_, _, _, rfl⟩ := loadCurveState_changes found
    rfl
  cases progress with
  | begun => exact Option.some.inj seeded ▸ .inl ⟨rfl, rfl⟩
  | synced => exact Option.some.inj seeded ▸ .inr newer
  | loaded =>
    simp only [Selection.seed] at seeded
    split at seeded
    · exact Option.some.inj seeded ▸ .inr newer
    · rename_i loaded found
      cases seeded
      exact .inr (loads _ _ found ▸ newer)
  | published =>
    simp only [Selection.seed, reduceCtorEq, if_false] at seeded
    split at seeded
    · exact Option.some.inj seeded ▸ .inr newer
    · rename_i loaded found
      cases seeded
      have synced := (synced_same (loaded.seededAt chain head) feed head).2.2.1
      right
      show _ < ((loaded.seededAt chain head).syncCurrentEvents feed head).historyGeneration
      rw [synced]
      exact loads _ _ found ▸ newer

theorem advance_follows (selection : Selection) (head : Nat) (feed : Feed chain)
    (progress : Progress) :
    (selection.advance head feed progress).historyGeneration = selection.historyGeneration ∧
      (selection.advance head feed progress).recentHistoryCursor =
        selection.recentHistoryCursor := by
  have synced := (synced_same selection feed head).2.2
  unfold Selection.advance
  split
  · exact ⟨rfl, rfl⟩
  split
  · exact ⟨rfl, rfl⟩
  split
  · exact ⟨rfl, rfl⟩
  split
  · exact ⟨rfl, rfl⟩
  split
  · exact ⟨rfl, rfl⟩
  simp only
  split
  · exact synced
  split
  · exact synced
  · rename_i loaded refreshed found
    have read : loaded.historyGeneration = selection.historyGeneration ∧
        loaded.recentHistoryCursor = selection.recentHistoryCursor := by
      obtain ⟨_, _, _, rfl⟩ := refreshCurve_changes found
      exact synced
    split
    · exact read
    split
    · split <;> exact read
    · unfold Selection.advancedTo
      split
      · exact read
      · split <;> exact read

structure WorldSound (chain : Chain) (world : World) : Prop where
  selection : Sound chain world.selection
  job : ∀ job, world.job = some job → 0 < job.block ∧
    job.generation ≤ world.selection.historyGeneration ∧
    (job.generation = world.selection.historyGeneration →
      job.recentCursor = world.selection.recentHistoryCursor)

theorem WorldSound.follows {world : World} {next : Selection} (sound : WorldSound chain world)
    (after : Sound chain next) (follows : Follows world.selection next) :
    WorldSound chain { world with selection := next } := by
  refine ⟨after, ?_⟩
  intro job held
  obtain ⟨positive, older, same⟩ := sound.job job held
  rcases follows with ⟨generation, cursor⟩ | newer
  · show _ ∧ _ ≤ next.historyGeneration ∧ (_ = next.historyGeneration → _ =
      next.recentHistoryCursor)
    rw [generation, cursor]
    exact ⟨positive, older, same⟩
  · refine ⟨positive, le_trans older (le_of_lt newer), ?_⟩
    intro equal
    exact absurd equal (ne_of_lt (lt_of_le_of_lt older newer))

theorem step_sound (world next : World) (sound : WorldSound chain world) (action : Action chain)
    (stepped : step chain world action = some next) : WorldSound chain next := by
  have here := sound.selection
  cases action with
  | seed head feed progress =>
    simp only [step] at stepped
    split at stepped
    · rename_i unseeded
      obtain ⟨selection, seeded, rfl⟩ := Option.map_eq_some_iff.mp stepped
      exact sound.follows (seed_sound here unseeded head feed progress selection seeded)
        (seed_follows _ _ head feed progress seeded)
    · cases stepped
  | advance head feed progress =>
    simp only [step] at stepped
    split at stepped
    · cases stepped
    · rename_i seeded
      cases stepped
      exact sound.follows
        (advance_sound here (Bool.not_eq_true _ ▸ seeded) head feed progress)
        (.inl (advance_follows _ head feed progress))
  | distrust =>
    cases stepped
    exact sound.follows (distrusted_sound here) (.inl ⟨rfl, rfl⟩)
  | beginHistory =>
    simp only [step] at stepped
    split at stepped
    · rename_i job _ begun
      cases stepped
      refine ⟨here, ?_⟩
      rintro _ ⟨⟩
      unfold Selection.beginHistory at begun
      split at begun
      · cases begun
      · rename_i ready
        cases begun
        rw [not_or, not_or] at ready
        exact ⟨Nat.pos_of_ne_zero ready.2.2, le_rfl, fun _ => rfl⟩
    · cases stepped
  | finishHistory =>
    obtain ⟨job, held, rfl⟩ := Option.map_eq_some_iff.mp stepped
    obtain ⟨positive, _, same⟩ := sound.job job held
    exact ⟨finishHistory_sound here job positive same, fun job wrong => by cases wrong⟩
  | historyFailed message =>
    obtain ⟨job, held, rfl⟩ := Option.map_eq_some_iff.mp stepped
    exact ⟨here.elsewhere .., fun job wrong => by cases wrong⟩
  | olderScanned =>
    simp only [step] at stepped
    split at stepped
    · cases stepped
    · cases stepped
      exact sound.follows (here.elsewhere ..) (.inl ⟨rfl, rfl⟩)
  | refreshed positions =>
    cases stepped
    exact sound.follows (here.elsewhere ..) (.inl ⟨rfl, rfl⟩)

def swapAt (place block : Nat) : List Log :=
  if block = place then [⟨"swap", 0, 0, place, .swap 5 (-5)⟩] else []

theorem mem_swapAt {place block : Nat} {log : Log} (member : log ∈ swapAt place block) :
    block = place ∧ log = ⟨"swap", 0, 0, place, .swap 5 (-5)⟩ := by
  unfold swapAt at member
  split at member
  · exact ⟨‹_›, List.mem_singleton.mp member⟩
  · cases member

def oneSwap (place : Nat) : Chain where
  concentrated := false
  spacing := 1
  timestamp block := if block < 50 then 900 else if block < 200 then 940 else 1000
  hash block := toString block
  logs := swapAt place
  tick _ := 0
  bitmap _ _ := 0
  gross _ _ := 0
  net _ _ := 0
  later := by
    intro earlier block order
    split_ifs <;> omega
  placed := by
    intro block log member
    obtain ⟨rfl, rfl⟩ := mem_swapAt member
    rfl
  distinct := by
    intro block other log member log' member' _
    rw [(mem_swapAt member).2, (mem_swapAt member').2]
  grossed := by
    intro block word bit _ set
    rw [Nat.zero_testBit] at set
    cases set
  unshaped := fun _ _ => ⟨rfl, rfl⟩

def minuteActions (place : Nat) : List (Action (oneSwap place)) :=
  [.seed 600 .none .published, .beginHistory, .finishHistory, .advance 600 .none .published]

theorem minuteActions_taken (place : Nat) (inside : place = 87 ∨ place = 300) :
    ((laneRuns (oneSwap place)).run ⟨.new, none⟩ (minuteActions place)).isSome := by
  rcases inside with rfl | rfl <;> decide +kernel

def minuteWorld (place : Nat) (inside : place = 87 ∨ place = 300) : World :=
  ((laneRuns (oneSwap place)).run ⟨.new, none⟩ (minuteActions place)).get
    (minuteActions_taken place inside)

theorem minuteWorld_reached (place : Nat) (inside : place = 87 ∨ place = 300) :
    (laneRuns (oneSwap place)).Reaches always (minuteWorld place inside) :=
  System.Reaches.run (⟨.new, none⟩ : World) _ (minuteActions place) (.start _ rfl)
    (System.runMeets_always _ _) (Option.some_get _).symm

end RhPools.SwapMinutes
