import Mathlib.Data.List.Pairwise
import RhPools.StoreLedger

/-! What a lane's coverage says: its intervals keep apart, their ends are stored blocks, and
each block number inside one was committed by an ingest of the lane and not cut off since. -/

namespace RhPools.StoreCoverage
open OrderedTables MarketTables MarketStore CheckedSteps StoreLedger
open EventWords (Hash)
open GuardedRuns

variable {Lp : Type}

def Inside (row : Coverage) (number : Int) : Prop :=
  row.startBlock ≤ number ∧ number ≤ row.endBlock

def Apart (left right : Coverage) : Prop :=
  left.endBlock + 1 < right.startBlock ∨ right.endBlock + 1 < left.startBlock

def Clear (left right : Coverage) : Prop := left.lane = right.lane → Apart left right

instance clearSymmetric : Std.Symm Clear :=
  ⟨fun _ _ clear same => Or.symm (clear same.symm)⟩

def Spaced (coverage : List Coverage) : Prop := coverage.Pairwise Clear

structure Anchored (blocks : OrderedTable Int Header) (row : Coverage) : Prop where
  ordered : row.startBlock ≤ row.endBlock
  start : Mined blocks row.startBlock row.startHash
  stop : Mined blocks row.endBlock row.endHash

theorem Anchored.kept {before after : OrderedTable Int Header} {row : Coverage}
    (anchored : Anchored before row)
    (blocks : ∀ number header, before.get number = some header → after.get number = some header) :
    Anchored after row :=
  ⟨anchored.ordered, anchored.start.kept blocks, anchored.stop.kept blocks⟩

structure Absorbed (interval : Coverage) (rows : List Coverage) (merged : Coverage) : Prop where
  lane : merged.lane = interval.lane
  low : merged.startBlock ≤ interval.startBlock
  high : interval.endBlock ≤ merged.endBlock
  within : ∀ row ∈ rows, merged.startBlock ≤ row.startBlock ∧ row.endBlock ≤ merged.endBlock
  start : ∃ row ∈ interval :: rows,
    merged.startBlock = row.startBlock ∧ merged.startHash = row.startHash
  stop : ∃ row ∈ interval :: rows, merged.endBlock = row.endBlock ∧ merged.endHash = row.endHash

theorem absorb_one (merged row : Coverage) : Absorbed merged [row] (absorb merged row) := by
  unfold absorb
  by_cases left : row.startBlock < merged.startBlock <;>
    by_cases right : row.endBlock > merged.endBlock <;>
    constructor <;> simp [left, right] <;> omega

theorem absorb_all (rows : List Coverage) (interval : Coverage) :
    Absorbed interval rows (rows.foldl absorb interval) := by
  induction rows generalizing interval with
  | nil => exact ⟨rfl, le_rfl, le_rfl, fun row member => absurd member List.not_mem_nil,
      ⟨interval, List.mem_singleton_self _, rfl, rfl⟩,
      ⟨interval, List.mem_singleton_self _, rfl, rfl⟩⟩
  | cons row rest ih =>
    have here := absorb_one interval row
    have later := ih (absorb interval row)
    rw [List.foldl_cons]
    constructor
    · exact later.lane.trans here.lane
    · exact later.low.trans here.low
    · exact here.high.trans later.high
    · intro other member
      rcases List.mem_cons.mp member with rfl | member
      · have inside := here.within other (List.mem_singleton_self other)
        exact ⟨later.low.trans inside.1, inside.2.trans later.high⟩
      · exact later.within other member
    · obtain ⟨other, member, same⟩ := later.start
      rcases List.mem_cons.mp member with rfl | member
      · obtain ⟨first, either, equal⟩ := here.start
        refine ⟨first, ?_, same.1.trans equal.1, same.2.trans equal.2⟩
        rcases List.mem_cons.mp either with rfl | taken
        · exact List.mem_cons_self
        · cases List.mem_singleton.mp taken
          exact List.mem_cons_of_mem _ List.mem_cons_self
      · exact ⟨other, List.mem_cons_of_mem _ (List.mem_cons_of_mem _ member), same⟩
    · obtain ⟨other, member, same⟩ := later.stop
      rcases List.mem_cons.mp member with rfl | member
      · obtain ⟨first, either, equal⟩ := here.stop
        refine ⟨first, ?_, same.1.trans equal.1, same.2.trans equal.2⟩
        rcases List.mem_cons.mp either with rfl | taken
        · exact List.mem_cons_self
        · cases List.mem_singleton.mp taken
          exact List.mem_cons_of_mem _ List.mem_cons_self
      · exact ⟨other, List.mem_cons_of_mem _ (List.mem_cons_of_mem _ member), same⟩

theorem touches_iff (interval row : Coverage) : touches interval row = true ↔
    row.lane = interval.lane ∧ row.startBlock ≤ interval.endBlock + 1 ∧
      interval.startBlock - 1 ≤ row.endBlock := by
  unfold touches
  rw [Bool.and_eq_true, Bool.and_eq_true, decide_eq_true_eq, decide_eq_true_eq, decide_eq_true_eq,
    and_assoc]

variable (projection : PriceProjection Lp) (db : Db Lp) (done : List (Call Lp))
  (blocks : OrderedTable Int Header) (ancestor : Int) (coverage : List Coverage)
  (interval : Coverage)

theorem merged_interval :
    ∃ rows merged, (∀ row, row ∈ rows ↔ row ∈ coverage ∧ touches interval row = true) ∧
      Absorbed interval rows merged ∧
      mergeCoverage coverage interval =
        coverage.filter (fun row => !touches interval row) ++ [merged] := by
  refine ⟨_, _, ?_, absorb_all _ interval, rfl⟩
  intro row
  rw [List.mem_insertionSort, List.mem_filter]

theorem merged_clear (coverage rows : List Coverage) (interval merged row : Coverage)
    (spaced : Spaced coverage) (ordered : ∀ row ∈ coverage, row.startBlock ≤ row.endBlock)
    (nonempty : interval.startBlock ≤ interval.endBlock)
    (touching : ∀ row, row ∈ rows ↔ row ∈ coverage ∧ touches interval row = true)
    (absorbed : Absorbed interval rows merged) (member : row ∈ coverage)
    (aside : touches interval row = false) : Clear row merged := by
  intro lane
  have outside : ¬(row.startBlock ≤ interval.endBlock + 1 ∧
      interval.startBlock - 1 ≤ row.endBlock) := by
    intro near
    have touched := (touches_iff interval row).mpr ⟨lane.trans absorbed.lane, near⟩
    rw [touched] at aside
    cases aside
  have valid := ordered row member
  -- An absorbed row reaches the interval, so it lies on the side of `row` that the interval does.
  have clear : ∀ other ∈ interval :: rows, (row.endBlock < interval.startBlock - 1 →
        row.endBlock + 1 < other.startBlock) ∧
      (interval.endBlock + 1 < row.startBlock → other.endBlock + 1 < row.startBlock) := by
    intro other either
    rcases List.mem_cons.mp either with rfl | taken
    · omega
    · obtain ⟨there, touched⟩ := (touching other).mp taken
      have near := (touches_iff interval other).mp touched
      have distinct : row ≠ other := by
        rintro rfl
        rw [touched] at aside
        cases aside
      have apart := List.Pairwise.forall spaced member there distinct
        ((lane.trans absorbed.lane).trans near.1.symm)
      have width := ordered other there
      unfold Apart at apart
      omega
  obtain ⟨first, firstMember, start, -⟩ := absorbed.start
  obtain ⟨last, lastMember, stop, -⟩ := absorbed.stop
  have left := (clear first firstMember).1
  have right := (clear last lastMember).2
  unfold Apart
  omega

theorem merge_spaced (spaced : Spaced coverage)
    (ordered : ∀ row ∈ coverage, row.startBlock ≤ row.endBlock)
    (nonempty : interval.startBlock ≤ interval.endBlock) :
    Spaced (mergeCoverage coverage interval) := by
  obtain ⟨rows, merged, touching, absorbed, same⟩ := merged_interval coverage interval
  rw [same]
  unfold Spaced
  rw [List.pairwise_append]
  refine ⟨spaced.sublist List.filter_sublist, List.pairwise_singleton _ _, ?_⟩
  intro row remaining other here
  obtain ⟨member, aside⟩ := List.mem_filter.mp remaining
  cases List.mem_singleton.mp here
  rw [Bool.not_eq_true'] at aside
  exact merged_clear coverage rows interval merged row spaced ordered nonempty touching absorbed
    member aside

theorem merge_inside (interval row : Coverage) (number : Int)
    (nonempty : interval.startBlock ≤ interval.endBlock)
    (member : row ∈ mergeCoverage coverage interval) (inside : Inside row number) :
    (∃ old ∈ coverage, old.lane = row.lane ∧ Inside old number) ∨
      row.lane = interval.lane ∧ Inside interval number := by
  obtain ⟨rows, merged, touching, absorbed, same⟩ := merged_interval coverage interval
  rw [same] at member
  rcases List.mem_append.mp member with remaining | here
  · exact Or.inl ⟨row, List.mem_of_mem_filter remaining, rfl, inside⟩
  · cases List.mem_singleton.mp here
    by_cases between : Inside interval number
    · exact Or.inr ⟨absorbed.lane, between⟩
    · left
      unfold Inside at inside between
      have known_inside : ∀ other ∈ interval :: rows, Inside other number → ∃ old ∈ coverage,
          old.lane = row.lane ∧ Inside old number := by
        intro other either there
        rcases List.mem_cons.mp either with rfl | taken
        · exact absurd there between
        · obtain ⟨known, touched⟩ := (touching other).mp taken
          exact ⟨other, known,
            ((touches_iff interval other).mp touched).1.trans absorbed.lane.symm, there⟩
      have reach : ∀ other ∈ interval :: rows, other.startBlock ≤ interval.endBlock + 1 ∧
          interval.startBlock - 1 ≤ other.endBlock := by
        intro other either
        rcases List.mem_cons.mp either with rfl | taken
        · omega
        · exact ((touches_iff interval other).mp ((touching other).mp taken).2).2
      by_cases early : number < interval.startBlock
      · obtain ⟨first, firstMember, start, -⟩ := absorbed.start
        apply known_inside first firstMember
        have far := reach first firstMember
        unfold Inside
        omega
      · obtain ⟨last, lastMember, stop, -⟩ := absorbed.stop
        apply known_inside last lastMember
        have far := reach last lastMember
        unfold Inside
        omega

theorem merge_anchored (anchored : ∀ row ∈ coverage, Anchored blocks row)
    (new : Anchored blocks interval) :
    ∀ row ∈ mergeCoverage coverage interval, Anchored blocks row := by
  obtain ⟨rows, merged, touching, absorbed, same⟩ := merged_interval coverage interval
  have each : ∀ row ∈ interval :: rows, Anchored blocks row := by
    intro row either
    rcases List.mem_cons.mp either with rfl | taken
    · exact new
    · exact anchored row ((touching row).mp taken).1
  intro row member
  rw [same] at member
  rcases List.mem_append.mp member with remaining | here
  · exact anchored row (List.mem_of_mem_filter remaining)
  · cases List.mem_singleton.mp here
    obtain ⟨first, firstMember, start, startHash⟩ := absorbed.start
    obtain ⟨last, lastMember, stop, stopHash⟩ := absorbed.stop
    constructor
    · exact absorbed.low.trans (new.ordered.trans absorbed.high)
    · rw [start, startHash]
      exact (each first firstMember).start
    · rw [stop, stopHash]
      exact (each last lastMember).stop

theorem mined_cut (ancestor number : Int) (hash : Hash) (mined : Mined blocks number hash)
    (below : number ≤ ancestor) :
    Mined (blocks.remove fun number _ => ancestor < number) number hash := by
  obtain ⟨header, found, same⟩ := mined
  refine ⟨header, ?_, same⟩
  rw [get_remove, found, Option.filter_some, if_pos]
  simp [below]

structure Shortened (row short : Coverage) : Prop where
  lane : short.lane = row.lane
  start : short.startBlock = row.startBlock
  stop : short.endBlock ≤ row.endBlock

theorem shorten_row (hash : Hash) (row : Coverage) :
    Shortened row (shorten ancestor hash row) := by
  unfold shorten
  split
  · rename_i high
    exact ⟨rfl, rfl, le_of_lt high⟩
  · exact ⟨rfl, rfl, le_rfl⟩

theorem cut_rows (anchored : ∀ row ∈ coverage, Anchored blocks row) (short : Coverage)
    (member : short ∈ cutCoverage (blocks.remove fun number _ => ancestor < number) ancestor
      coverage) :
    (∃ row ∈ coverage, Shortened row short) ∧ short.endBlock ≤ ancestor ∧
      Anchored (blocks.remove fun number _ => ancestor < number) short := by
  unfold cutCoverage at member
  dsimp only at member
  split at member
  · obtain ⟨member, low⟩ := List.mem_filter.mp member
    have known := List.mem_of_mem_filter member
    rw [decide_eq_true_eq] at low
    have old := anchored short known
    exact ⟨⟨short, known, rfl, rfl, le_rfl⟩, low, old.ordered,
      mined_cut blocks ancestor _ _ old.start (old.ordered.trans low),
      mined_cut blocks ancestor _ _ old.stop low⟩
  · rename_i header found
    obtain ⟨row, below, rfl⟩ := List.mem_map.mp member
    obtain ⟨known, start⟩ := List.mem_filter.mp below
    rw [decide_eq_true_eq] at start
    have old := anchored row known
    refine ⟨⟨row, known, shorten_row ancestor header.hash row⟩, ?_⟩
    unfold shorten
    split
    · exact ⟨le_rfl, start, mined_cut blocks ancestor _ _ old.start start, header, found, rfl⟩
    · rename_i low
      rw [gt_iff_lt, not_lt] at low
      exact ⟨low, old.ordered, mined_cut blocks ancestor _ _ old.start start,
        mined_cut blocks ancestor _ _ old.stop low⟩

theorem cut_spaced (spaced : Spaced coverage) : Spaced (cutCoverage blocks ancestor coverage) := by
  unfold cutCoverage
  have below : Spaced (coverage.filter fun row => row.startBlock ≤ ancestor) :=
    spaced.sublist List.filter_sublist
  dsimp only
  split
  · exact below.sublist List.filter_sublist
  · rename_i header _
    unfold Spaced
    rw [List.pairwise_map]
    apply below.imp
    intro left right clear lane
    have leftRow := shorten_row ancestor header.hash left
    have rightRow := shorten_row ancestor header.hash right
    have apart := clear (leftRow.lane.symm.trans (lane.trans rightRow.lane))
    have leftStart := leftRow.start
    have leftStop := leftRow.stop
    have rightStart := rightRow.start
    have rightStop := rightRow.stop
    unfold Apart at apart ⊢
    omega

def covers (call : IngestCall) : Option (Int × Int) :=
  call.cursor.bind fun cursor =>
    match Cursor.first cursor.1, Cursor.last cursor.1 with
    | some first, some last => some (first, last)
    | _, _ => none

inductive Covers (db after : Db Lp) (call : IngestCall) : Prop
  | aside (without : covers call = none) (same : after.coverage = db.coverage)
  | merged (first last : Int) (start stop : Header) (commits : covers call = some (first, last))
      (ordered : first ≤ last) (low : after.blocks.get first = some start)
      (high : after.blocks.get last = some stop)
      (same : after.coverage =
        mergeCoverage db.coverage ⟨call.lane, first, last, start.hash, stop.hash⟩)

theorem coverCursor_covers (normalized : OrderedTable Int Header) (call : IngestCall)
    (placed : ∀ number header, normalized.get number = some header →
      db.blocks.get number = some header) :
    Meets anyhow (fun after => Covers db after call) (coverCursor db normalized call) := by
  unfold coverCursor
  split
  · rename_i cursor expected known
    unfold cover
    split
    · rename_i first last low high
      have commits : covers call = some (first, last) := by
        rw [covers, known, Option.bind_some]
        simp only [low, high]
      split
      · trivial
      · rename_i ordered
        split
        · rename_i start stop supplied also
          exact .merged first last start stop commits (Int.not_lt.mp ordered)
            (placed first start supplied) (placed last stop also) rfl
        · trivial
    · rename_i missing
      apply Covers.aside _ rfl
      rw [covers, known, Option.bind_some]
      split
      · rename_i first last low high
        exact absurd high (missing first last low)
      · rfl
  · rename_i absent
    apply Covers.aside _ rfl
    rw [covers, absent]
    rfl

theorem ingest_covers (call : IngestCall) :
    Meets anyhow (fun after => Covers db after.1 call ∧
      ∀ number header, db.blocks.get number = some header →
        after.1.blocks.get number = some header) (ingest projection db call) := by
  apply (ingest_meets projection db call).mono
  rintro ⟨after, inserted⟩ ⟨headed, covered, normalized, ingested⟩
  refine ⟨?_, ingested.grows.blocks⟩
  have blocks : after.blocks = covered.blocks := ingested.fills.same
  have coverage : after.coverage = covered.coverage := ingested.fills.coverage
  have before : headed.coverage = db.coverage := by rw [ingested.only]
  rcases (coverCursor_covers headed normalized call ingested.stored.placed).value ingested.covers
    with ⟨without, same⟩ | ⟨first, last, start, stop, commits, ordered, low, high, same⟩
  · exact .aside without (coverage.trans (same.trans before))
  · exact .merged first last start stop commits ordered (blocks ▸ low) (blocks ▸ high)
      (coverage.trans (before ▸ same))

/-- The number lies in an interval that an ingest of the lane committed, and no later
rollback went below it. The calls stand latest first. -/
def Held (done : List (Call Lp)) (lane : String) (number : Int) : Prop :=
  ∃ later call earlier first last, done = later ++ .ingest call :: earlier ∧ call.lane = lane ∧
    covers call = some (first, last) ∧ first ≤ number ∧ number ≤ last ∧
    ∀ ancestor header, .rollback ancestor header ∈ later → number ≤ ancestor

theorem Held.next {done : List (Call Lp)} {lane : String} {number : Int}
    (held : Held done lane number) (call : Call Lp)
    (above : ∀ ancestor header, call = .rollback ancestor header → number ≤ ancestor) :
    Held (call :: done) lane number := by
  obtain ⟨later, ingested, earlier, first, last, rfl, same, commits, low, high, uncut⟩ := held
  refine ⟨call :: later, ingested, earlier, first, last, rfl, same, commits, low, high, ?_⟩
  intro ancestor header member
  rcases List.mem_cons.mp member with here | old
  · exact above ancestor header here.symm
  · exact uncut ancestor header old

structure Covered (db : Db Lp) (done : List (Call Lp)) : Prop where
  spaced : Spaced db.coverage
  anchored : ∀ row ∈ db.coverage, Anchored db.blocks row
  held : ∀ row ∈ db.coverage, ∀ number, Inside row number → Held done row.lane number

theorem ingest_covered (call : IngestCall) (covered : Covered db done) :
    Meets anyhow (fun after => Covered after.1 (.ingest call :: done))
      (ingest projection db call) := by
  apply (ingest_covers projection db call).mono
  rintro ⟨after, inserted⟩ ⟨covers, kept⟩
  have next : ∀ lane number, Held done lane number →
      Held (.ingest call :: done) lane number := by
    intro lane number held
    apply held.next
    intro ancestor header same
    cases same
  have anchored : ∀ row ∈ db.coverage, Anchored after.blocks row := fun row member =>
    (covered.anchored row member).kept kept
  cases covers with
  | aside without same =>
    dsimp only at same
    constructor
    · rw [same]
      exact covered.spaced
    · rw [same]
      exact anchored
    · rw [same]
      exact fun row member number inside =>
        next row.lane number (covered.held row member number inside)
  | merged first last start stop commits ordered low high same =>
    dsimp only at same low high
    constructor
    · rw [same]
      exact merge_spaced db.coverage _ covered.spaced
        (fun row member => (covered.anchored row member).ordered) ordered
    · rw [same]
      exact merge_anchored after.blocks db.coverage _ anchored
        ⟨ordered, ⟨start, low, rfl⟩, ⟨stop, high, rfl⟩⟩
    · rw [same]
      intro row member number inside
      rcases merge_inside db.coverage _ row number ordered member inside
        with ⟨old, known, lane, there⟩ | ⟨lane, between⟩
      · rw [← lane]
        exact next old.lane number (covered.held old known number there)
      · exact ⟨[], call, done, first, last, rfl, lane.symm, commits, between.1, between.2,
          fun _ _ none => absurd none List.not_mem_nil⟩

theorem rollback_covered (header : Option Header) (covered : Covered db done) :
    Meets anyhow (fun after => Covered after (.rollback ancestor header :: done))
      (rollback projection db ancestor header) := by
  apply (rollback_ledger projection db ancestor header).mono
  rintro after ⟨blocks, normalized, stored, same⟩
  have coverage : after.coverage = cutCoverage (blocks.remove fun number _ => ancestor < number)
      ancestor db.coverage := congrArg Ledger.coverage same
  have left : after.blocks = blocks.remove fun number _ => ancestor < number :=
    congrArg Ledger.blocks same
  have rows := cut_rows blocks ancestor db.coverage fun row member =>
    (covered.anchored row member).kept stored.kept
  constructor
  · rw [coverage]
    exact cut_spaced _ ancestor db.coverage covered.spaced
  · rw [coverage, left]
    exact fun row member => (rows row member).2.2
  · rw [coverage]
    intro short member number inside
    obtain ⟨⟨row, known, shortened⟩, below, -⟩ := rows short member
    have there : Inside row number :=
      ⟨shortened.start ▸ inside.1, inside.2.trans shortened.stop⟩
    rw [shortened.lane]
    apply (covered.held row known number there).next
    intro other _ called
    cases called
    exact inside.2.trans below

theorem perform_covered (call : Call Lp) (covered : Covered db done) :
    Meets anyhow (fun after => Covered after (call :: done)) (perform projection db call) := by
  by_cases keeps : Call.keepsBlocks call
  · apply (perform_fills projection db call keeps).mono
    intro after fills
    have blocks : after.blocks = db.blocks := fills.same
    have coverage : after.coverage = db.coverage := fills.coverage
    constructor
    · rw [coverage]
      exact covered.spaced
    · rw [coverage, blocks]
      exact covered.anchored
    · rw [coverage]
      intro row member number inside
      apply (covered.held row member number inside).next
      rintro ancestor header rfl
      cases keeps
  · cases call with
    | ingest call =>
      apply meets_bind _ (ingest_covered projection db done call covered)
      intro after holds
      exact holds
    | rollback ancestor header => exact rollback_covered projection db done ancestor header covered
    | _ => exact absurd trivial keeps

/-- The coverage of every reachable store: a lane's intervals keep apart, their ends are
stored with the recorded hashes, and what lies inside was committed and not cut off. -/
theorem coverage_holds (projection : PriceProjection Lp) (state : Db Lp × List (Call Lp))
    (reached : (store projection).Reaches always state) : Covered state.1 state.2 := by
  apply store_invariant projection Covered _ _ state reached
  · intro lp
    exact ⟨List.Pairwise.nil, fun row member => absurd member List.not_mem_nil,
      fun row member => absurd member List.not_mem_nil⟩
  · exact perform_covered projection

/-! A lane that indexes blocks 1 to 2 and 3 to 4, and a reorganisation above block 3. -/

def sampleIngest (first last : Nat) : IngestCall :=
  { headers := [sampleHeader first, sampleHeader last], events := [], lane := "history"
    cursor := some ({ fromBlock := some first, startBlock := none, toBlock := some last
                      endBlock := none, blockNumber := none, blockHash := none, nextTo := none
                      lowBlock := none }, ⟨none, none, none, none⟩)
    transactions := [], project := false }

def sampleCalls : List (Call Unit) :=
  [.ingest (sampleIngest 1 2), .ingest (sampleIngest 3 4), .rollback 3 none]

theorem sample_runs : ((store unpriced).run (.fresh (), []) sampleCalls).isSome := by
  decide

def sampleStore : Db Unit × List (Call Unit) :=
  ((store unpriced).run (.fresh (), []) sampleCalls).get sample_runs

theorem coverage_holds_sample :
    sampleStore.1.coverage = [⟨"history", 1, 3, (sampleHeader 1).hash, (sampleHeader 3).hash⟩] ∧
      Covered sampleStore.1 sampleStore.2 := by
  refine ⟨by decide +kernel, coverage_holds unpriced sampleStore ?_⟩
  apply System.Reaches.run (.fresh (), []) sampleStore sampleCalls
  · exact .start _ ⟨(), rfl⟩
  · exact System.runMeets_always _ _
  · exact (Option.some_get sample_runs).symm

end RhPools.StoreCoverage
