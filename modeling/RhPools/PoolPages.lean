import Mathlib.Data.Rat.Lemmas
import Mathlib.Algebra.Order.Field.Rat
import Mathlib.Data.Prod.Lex
import RhPools.OrderedTables
import RhPools.OffsetPaging

/-! Pages of pools under a bucket sort. A page is stitched from the ranked pools, those
with a metric in the frame, and the others in the order of their ids. Both the number of
matching pools and the front of the ranked ones come from caches. -/

namespace RhPools.PoolPages
open OrderedTables OffsetPaging

variable {Id Pool Filter Token : Type} [LinearOrder Id]

structure BucketValues where
  events : Nat
  swaps : Nat
  adds : Nat
  removes : Nat
  volumeUsd : ℚ
  feesUsd : ℚ
  depositUsd : ℚ
  withdrawalUsd : ℚ
  pricedSwaps : Nat
  pricedFees : Nat
  pricedFlows : Nat

inductive BucketSort where
  | volume | fees | flow | swaps | adds | removes | activity
  deriving DecidableEq

inductive Direction where
  | asc | desc
  deriving DecidableEq

def BucketSort.counts : BucketSort → Bool
  | .swaps | .adds | .removes | .activity => true
  | .volume | .fees | .flow => false

abbrev Frame (Id : Type) := OrderedTable Id BucketValues

def bucketSortValue (sort : BucketSort) : Option BucketValues → Option ℚ
  | none => if sort.counts then some 0 else none
  | some values =>
    match sort with
    | .volume => if 0 < values.pricedSwaps then some values.volumeUsd else none
    | .fees => if 0 < values.pricedFees then some values.feesUsd else none
    | .flow =>
      if 0 < values.pricedFlows then some (values.depositUsd - values.withdrawalUsd) else none
    | .activity => some values.events
    | .swaps => some values.swaps
    | .adds => some values.adds
    | .removes => some values.removes

def bucketMetricIsRanked (sort : BucketSort) : Option ℚ → Bool
  | none => false
  | some value => if sort.counts then value ≠ 0 else true

def metric (frame : Frame Id) (sort : BucketSort) (pool : Id) : Option ℚ :=
  bucketSortValue sort (frame.get pool)

def isRanked (frame : Frame Id) (sort : BucketSort) (pool : Id) : Bool :=
  bucketMetricIsRanked sort (metric frame sort pool)

def signed : Direction → ℚ → ℚ
  | .asc, value => value
  | .desc, value => -value

structure Catalog (Id Pool Filter Token : Type) where
  pools : Token → OrderedTable Id Pool
  admits : Filter → Pool → Bool

/-- `SELECT p.id FROM pools p WHERE ..`. -/
def Catalog.matching (catalog : Catalog Id Pool Filter Token) (token : Token) (filter : Filter) :
    List Id :=
  ((catalog.pools token).entries.filter fun entry => catalog.admits filter entry.2).map Prod.fst

def updateMatched (catalog : Catalog Id Pool Filter Token) (token : Token) (filter : Filter)
    (matched batch : List Id) : List Id :=
  ((catalog.matching token filter).filter fun pool => batch.contains pool) ∪ matched

def matchStep (catalog : Catalog Id Pool Filter Token) (token : Token) (filter : Filter)
    (state : List Id × List Id) (pool : Id) : List Id × List Id :=
  let batch := state.2 ++ [pool]
  if batch.length < 500 then (state.1, batch)
  else (updateMatched catalog token filter state.1 batch, [])

def filteredBucketPoolIds (catalog : Catalog Id Pool Filter Token) (frame : Frame Id)
    (token : Token) (filter : Filter) : List Id :=
  let last := (frame.entries.map Prod.fst).foldl (matchStep catalog token filter) ([], [])
  if last.2.isEmpty then last.1 else updateMatched catalog token filter last.1 last.2

def scanRows (frame : Frame Id) (sort : BucketSort) (offset limit : Nat) :
    List Id → Nat × List Id → Nat × List Id
  | [], state => state
  | pool :: rest, (skipped, selected) =>
    if isRanked frame sort pool then scanRows frame sort offset limit rest (skipped, selected)
    else if skipped < offset then
      scanRows frame sort offset limit rest (skipped + 1, selected)
    else if (selected ++ [pool]).length = limit then (skipped, selected ++ [pool])
    else scanRows frame sort offset limit rest (skipped, selected ++ [pool])

def fetchRows (frame : Frame Id) (sort : BucketSort) (offset limit : Nat) (rows : List Id)
    (state : Nat × List Id) : List Id :=
  if state.2.length < limit then
    if rows.take 512 = [] then state.2
    else fetchRows frame sort offset limit (rows.drop 512)
      (scanRows frame sort offset limit (rows.take 512) state)
  else state.2
termination_by rows.length
decreasing_by
  cases rows with
  | nil => simp_all
  | cons pool rest => simp only [List.length_drop, List.length_cons]; omega

/-- `.. ORDER BY p.id`. -/
def orderedIds (catalog : Catalog Id Pool Filter Token) (token : Token) (filter : Filter) : List Id :=
  (catalog.matching token filter).insertionSort (· ≤ ·)

def fallbackPoolIds (catalog : Catalog Id Pool Filter Token) (frame : Frame Id)
    (sort : BucketSort) (token : Token) (filter : Filter) (offset limit : Nat) : List Id :=
  fetchRows frame sort offset limit (orderedIds catalog token filter) (0, [])

structure Request (Filter Token : Type) where
  token : Token
  filter : Filter
  sort : BucketSort
  order : Direction
  offset : Nat
  limit : Nat

abbrev RankingKey (Filter Token : Type) := Token × Filter × BucketSort × Direction × Nat

structure Caches (Id Filter Token : Type) where
  totals : OrderedTable (Token × Filter) Nat
  rankings : OrderedTable (RankingKey Filter Token) (Nat × List (Id × ℚ))

/-- The generator `ranked`. -/
def ranked (catalog : Catalog Id Pool Filter Token) (frame : Frame Id) (sort : BucketSort)
    (token : Token) (filter : Filter) : List (Id × ℚ) :=
  (filteredBucketPoolIds catalog frame token filter).filterMap fun pool =>
    if isRanked frame sort pool then (metric frame sort pool).map fun value => (pool, value)
    else none

def rankKey (order : Direction) (item : Id × ℚ) : ℚ ×ₗ Id := toLex (signed order item.2, item.1)

/-- `heapq.nsmallest`. -/
def nsmallest (order : Direction) (keep : Nat) (items : List (Id × ℚ)) : List (Id × ℚ) :=
  (items.insertionSort (ordered (rankKey order))).take keep

def rankedHead (catalog : Catalog Id Pool Filter Token) (frame : Frame Id)
    (key : RankingKey Filter Token) : Nat × List (Id × ℚ) :=
  let items := ranked catalog frame key.2.2.1 key.1 key.2.1
  (items.length, nsmallest key.2.2.2.1 key.2.2.2.2 items)

def stitch (catalog : Catalog Id Pool Filter Token) (frame : Frame Id)
    (request : Request Filter Token) (total rankedCount : Nat) (head : List (Id × ℚ)) : List Id :=
  let fallback := fallbackPoolIds catalog frame request.sort request.token request.filter
  let fallbackCount := total - rankedCount
  if request.sort.counts && request.order = .asc then
    let fallbackOffset := min request.offset fallbackCount
    let front :=
      if fallbackOffset < fallbackCount then
        fallback fallbackOffset (min request.limit (fallbackCount - fallbackOffset))
      else []
    let rankedOffset := request.offset - fallbackCount
    if front.length < request.limit then
      front ++ (slice rankedOffset (request.limit - front.length) head).map Prod.fst
    else front
  else
    let rankedOffset := min request.offset rankedCount
    let front := (slice rankedOffset request.limit head).map Prod.fst
    let fallbackOffset := request.offset - rankedCount
    if front.length < request.limit ∧ fallbackOffset < fallbackCount then
      front ++ fallback fallbackOffset (request.limit - front.length)
    else front

/-- The scan of the rows so far, of which `seen` were not ranked. -/
def Scanned (offset limit : Nat) (seen : List Id) (state : Nat × List Id) : Prop :=
  state.2 = slice offset limit seen ∧
    (state.2.length < limit → state.1 = min offset seen.length)

omit [LinearOrder Id] in
theorem Scanned.push {offset limit : Nat} {seen : List Id} {state : Nat × List Id}
    (scanned : Scanned offset limit seen state) (room : state.2.length < limit) (pool : Id) :
    if state.1 < offset then Scanned offset limit (seen ++ [pool]) (state.1 + 1, state.2)
    else Scanned offset limit (seen ++ [pool]) (state.1, state.2 ++ [pool]) := by
  obtain ⟨same, counted⟩ := scanned
  have skipped := counted room
  by_cases before : state.1 < offset
  · have short : seen.length < offset := by omega
    rw [if_pos before]
    constructor
    · rw [same, slice_beyond _ _ _ short.le, slice_beyond]
      rw [List.length_append, List.length_singleton]
      exact short
    · intro _
      rw [skipped, List.length_append, List.length_singleton]
      omega
  · rw [if_neg before]
    have reached : offset - seen.length = 0 := by omega
    have left : limit - (slice offset limit seen).length ≠ 0 := by
      rw [← same]
      omega
    obtain ⟨more, enough⟩ := Nat.exists_eq_succ_of_ne_zero left
    constructor
    · rw [slice_append, reached, enough, ← same]
      simp [slice]
    · intro _
      rw [skipped, List.length_append]
      omega

theorem scanRows_scanned (frame : Frame Id) (sort : BucketSort) (offset limit : Nat)
    (rows seen : List Id) (state : Nat × List Id) (scanned : Scanned offset limit seen state)
    (room : state.2.length < limit) :
    Scanned offset limit (seen ++ rows.filter fun pool => !isRanked frame sort pool)
      (scanRows frame sort offset limit rows state) := by
  induction rows generalizing seen state with
  | nil => simpa [scanRows] using scanned
  | cons pool rest ih =>
    obtain ⟨skipped, selected⟩ := state
    rw [scanRows]
    cases here : isRanked frame sort pool with
    | true => simpa [here] using ih seen _ scanned room
    | false =>
      have split : seen ++ (pool :: rest).filter (fun pool => !isRanked frame sort pool) =
          (seen ++ [pool]) ++ rest.filter fun pool => !isRanked frame sort pool := by
        simp [here]
      have pushed := scanned.push room pool
      rw [split, if_neg Bool.false_ne_true]
      by_cases before : skipped < offset
      · rw [if_pos before]
        rw [if_pos before] at pushed
        exact ih _ _ pushed room
      · rw [if_neg before]
        rw [if_neg before] at pushed
        by_cases full : (selected ++ [pool]).length = limit
        · rw [if_pos full]
          constructor
          · have done : limit - (slice offset limit (seen ++ [pool])).length = 0 := by
              rw [← pushed.1, full, Nat.sub_self]
            rw [slice_append, done, ← pushed.1]
            simp [slice]
          · intro room
            exact absurd full room.ne
        · rw [if_neg full]
          apply ih _ _ pushed
          rw [List.length_append, List.length_singleton] at full ⊢
          exact lt_of_le_of_ne room full

theorem fetchRows_slice (frame : Frame Id) (sort : BucketSort) (offset limit : Nat)
    (rows seen : List Id) (state : Nat × List Id) (scanned : Scanned offset limit seen state) :
    fetchRows frame sort offset limit rows state =
      slice offset limit (seen ++ rows.filter fun pool => !isRanked frame sort pool) := by
  fun_induction fetchRows frame sort offset limit rows state generalizing seen with
  | case1 rows state room done =>
    have empty : rows = [] := by simpa using done
    rw [scanned.1, empty, List.filter_nil, List.append_nil]
  | case2 rows state room more ih =>
    rw [ih _ (scanRows_scanned frame sort offset limit _ seen state scanned room),
      List.append_assoc, ← List.filter_append, List.take_append_drop]
  | case3 rows state full =>
    have done : limit - (slice offset limit seen).length = 0 := by
      rw [← scanned.1]
      omega
    rw [slice_append, done, scanned.1]
    simp [slice]

def unrankedIds (catalog : Catalog Id Pool Filter Token) (frame : Frame Id) (token : Token)
    (filter : Filter) (sort : BucketSort) : List Id :=
  (orderedIds catalog token filter).filter fun pool => !isRanked frame sort pool

theorem fallbackPoolIds_slice (catalog : Catalog Id Pool Filter Token) (frame : Frame Id)
    (sort : BucketSort) (token : Token) (filter : Filter) (offset limit : Nat) :
    fallbackPoolIds catalog frame sort token filter offset limit =
      slice offset limit (unrankedIds catalog frame token filter sort) := by
  apply fetchRows_slice frame sort offset limit _ []
  constructor
  · simp [slice]
  · intro _
    simp

theorem mem_updateMatched (catalog : Catalog Id Pool Filter Token) (token : Token)
    (filter : Filter) (matched batch : List Id) (pool : Id) :
    pool ∈ updateMatched catalog token filter matched batch ↔
      (pool ∈ catalog.matching token filter ∧ pool ∈ batch) ∨ pool ∈ matched := by
  simp [updateMatched]

/-- The set and the open batch, after the keys `seen`. -/
structure Matched (catalog : Catalog Id Pool Filter Token) (token : Token) (filter : Filter)
    (seen : List Id) (state : List Id × List Id) : Prop where
  distinct : state.1.Nodup
  members : ∀ pool, pool ∈ state.1 ∨ (pool ∈ catalog.matching token filter ∧ pool ∈ state.2) ↔
    pool ∈ catalog.matching token filter ∧ pool ∈ seen

section
variable (catalog : Catalog Id Pool Filter Token) (frame : Frame Id) (token : Token)
  (filter : Filter)

omit [LinearOrder Id] in
theorem matching_nodup : (catalog.matching token filter).Nodup :=
  (catalog.pools token).distinct.sublist (List.filter_sublist.map Prod.fst)

theorem Matched.update {catalog : Catalog Id Pool Filter Token} {token : Token} {filter : Filter}
    {seen matched batch : List Id} (known : Matched catalog token filter seen (matched, batch)) :
    Matched catalog token filter seen (updateMatched catalog token filter matched batch, []) := by
  constructor
  · exact known.distinct.union _
  · intro pool
    rw [← known.members pool, mem_updateMatched, or_comm (a := pool ∈ matched)]
    simp

theorem matchStep_matched {catalog : Catalog Id Pool Filter Token} {token : Token}
    {filter : Filter} {seen : List Id} {state : List Id × List Id}
    (known : Matched catalog token filter seen state) (pool : Id) :
    Matched catalog token filter (seen ++ [pool]) (matchStep catalog token filter state pool) := by
  have pushed : Matched catalog token filter (seen ++ [pool]) (state.1, state.2 ++ [pool]) := by
    constructor
    · exact known.distinct
    · intro other
      simp only [List.mem_append, and_or_left, ← or_assoc, known.members other]
  unfold matchStep
  dsimp only
  split
  · exact pushed
  · exact pushed.update

theorem foldl_matched {catalog : Catalog Id Pool Filter Token} {token : Token} {filter : Filter}
    (keys : List Id) {seen : List Id} {state : List Id × List Id}
    (known : Matched catalog token filter seen state) :
    Matched catalog token filter (seen ++ keys)
      (keys.foldl (matchStep catalog token filter) state) := by
  induction keys generalizing seen state with
  | nil => simpa using known
  | cons pool rest ih => simpa using ih (matchStep_matched known pool)

theorem filteredBucketPoolIds_matched :
    (filteredBucketPoolIds catalog frame token filter).Nodup ∧
      ∀ pool, pool ∈ filteredBucketPoolIds catalog frame token filter ↔
        pool ∈ catalog.matching token filter ∧ pool ∈ frame.entries.map Prod.fst := by
  have start : Matched catalog token filter [] ([], []) := ⟨List.nodup_nil, by simp⟩
  have last := foldl_matched (frame.entries.map Prod.fst) start
  unfold filteredBucketPoolIds
  dsimp only
  split
  · rename_i empty
    constructor
    · exact last.distinct
    · intro pool
      have members := last.members pool
      rw [List.isEmpty_iff.mp empty] at members
      simpa using members
  · have updated := last.update
    constructor
    · exact updated.distinct
    · intro pool
      simpa using updated.members pool

theorem ranked_inFrame {frame : Frame Id} {sort : BucketSort} {pool : Id}
    (here : isRanked frame sort pool = true) : pool ∈ frame.entries.map Prod.fst := by
  cases found : frame.get pool with
  | none =>
    rw [isRanked, metric, found] at here
    cases counts : sort.counts <;> simp [bucketSortValue, bucketMetricIsRanked, counts] at here
  | some values =>
    exact List.mem_map_of_mem (f := Prod.fst) ((get_some frame pool values).mp found)

theorem ranked_metric {frame : Frame Id} {sort : BucketSort} {pool : Id}
    (here : isRanked frame sort pool = true) :
    metric frame sort pool = some ((metric frame sort pool).getD 0) := by
  cases found : metric frame sort pool with
  | none =>
    rw [isRanked, found] at here
    cases here
  | some value => rfl

variable (sort : BucketSort)

theorem ranked_eq (token : Token) (filter : Filter) :
    ranked catalog frame sort token filter =
      ((filteredBucketPoolIds catalog frame token filter).filter (isRanked frame sort)).map
        fun pool => (pool, (metric frame sort pool).getD 0) := by
  rw [ranked]
  induction filteredBucketPoolIds catalog frame token filter with
  | nil => rfl
  | cons pool rest ih =>
    cases here : isRanked frame sort pool with
    | true =>
      rw [List.filterMap_cons, if_pos here, ranked_metric here, List.filter_cons_of_pos here,
        ih]
      rfl
    | false =>
      rw [List.filterMap_cons, here, List.filter_cons_of_neg (by simp [here]), ih]
      rfl

theorem ranked_perm (token : Token) (filter : Filter) :
    ((ranked catalog frame sort token filter).map Prod.fst).Perm
      ((catalog.matching token filter).filter (isRanked frame sort)) := by
  have known := filteredBucketPoolIds_matched catalog frame token filter
  rw [ranked_eq, List.map_map]
  have plain : (Prod.fst ∘ fun pool => (pool, (metric frame sort pool).getD 0)) = (id : Id → Id) := rfl
  rw [plain, List.map_id]
  apply (List.perm_ext_iff_of_nodup (known.1.filter _)
    ((matching_nodup catalog token filter).filter _)).mpr
  intro pool
  rw [List.mem_filter, List.mem_filter, known.2]
  constructor
  · rintro ⟨⟨matching, _⟩, here⟩
    exact ⟨matching, here⟩
  · rintro ⟨matching, here⟩
    exact ⟨⟨matching, ranked_inFrame here⟩, here⟩

def sortKey (frame : Frame Id) (sort : BucketSort) (order : Direction) (pool : Id) :
    Bool ×ₗ ℚ ×ₗ Id :=
  toLex ((metric frame sort pool).isNone,
    toLex (signed order ((metric frame sort pool).getD 0), pool))

def ranking (catalog : Catalog Id Pool Filter Token) (frame : Frame Id) (token : Token)
    (filter : Filter) (sort : BucketSort) (order : Direction) : List Id :=
  (catalog.matching token filter).insertionSort (ordered (sortKey frame sort order))

theorem sortKey_injective {frame : Frame Id} {sort : BucketSort} {order : Direction}
    {one other : Id} (forth : ordered (sortKey frame sort order) one other)
    (back : ordered (sortKey frame sort order) other one) : one = other := by
  have same : sortKey frame sort order one = sortKey frame sort order other := le_antisymm forth back
  have inner := congrArg (fun key => (ofLex (ofLex key).2).2) same
  exact inner

theorem metric_count {sort : BucketSort} (counts : sort.counts = true) (pool : Id) :
    ∃ count : Nat, metric frame sort pool = some (count : ℚ) := by
  rw [metric]
  cases frame.get pool with
  | none =>
    refine ⟨0, ?_⟩
    simp [bucketSortValue, counts]
  | some values => cases sort <;> first | exact ⟨_, rfl⟩ | cases counts

theorem unranked_metric {frame : Frame Id} {sort : BucketSort} {pool : Id}
    (here : isRanked frame sort pool = false) :
    metric frame sort pool = if sort.counts then some 0 else none := by
  rw [isRanked] at here
  cases counts : sort.counts with
  | true =>
    obtain ⟨count, found⟩ := metric_count frame counts pool
    rw [found] at here ⊢
    simpa [bucketMetricIsRanked, counts] using here
  | false =>
    cases found : metric frame sort pool with
    | none => rfl
    | some value => simp [found, bucketMetricIsRanked, counts] at here

theorem ranked_positive {frame : Frame Id} {sort : BucketSort} {pool : Id}
    (counts : sort.counts = true) (here : isRanked frame sort pool = true) :
    0 < (metric frame sort pool).getD 0 := by
  rw [isRanked] at here
  obtain ⟨count, found⟩ := metric_count frame counts pool
  rw [found] at here ⊢
  have nonzero : (count : ℚ) ≠ 0 := by simpa [bucketMetricIsRanked, counts] using here
  exact lt_of_le_of_ne (Nat.cast_nonneg count) nonzero.symm

theorem seam_ranked_first {frame : Frame Id} {sort : BucketSort} {order : Direction}
    {one other : Id} (here : isRanked frame sort one = true)
    (there : isRanked frame sort other = false) (falls : ¬ (sort.counts && order = .asc) = true) :
    ordered (sortKey frame sort order) one other := by
  have known := ranked_metric here
  have unknown := unranked_metric there
  apply le_of_lt
  rw [sortKey, sortKey, Prod.Lex.toLex_lt_toLex, known, unknown]
  cases counts : sort.counts with
  | false => simp [Bool.lt_iff]
  | true =>
    have positive := ranked_positive counts here
    right
    refine ⟨rfl, ?_⟩
    rw [Prod.Lex.toLex_lt_toLex]
    left
    cases order with
    | asc => simp [counts] at falls
    | desc => simpa [signed] using positive

theorem seam_unranked_first {frame : Frame Id} {sort : BucketSort} {order : Direction}
    {one other : Id} (here : isRanked frame sort one = false)
    (there : isRanked frame sort other = true) (rises : (sort.counts && order = .asc) = true) :
    ordered (sortKey frame sort order) one other := by
  have unknown := unranked_metric here
  have known := ranked_metric there
  have counts : sort.counts = true := (Bool.and_eq_true_iff.mp rises).1
  have upward : order = .asc := by simpa [counts] using rises
  have positive := ranked_positive counts there
  apply le_of_lt
  rw [sortKey, sortKey, Prod.Lex.toLex_lt_toLex, known, unknown, counts, upward]
  right
  refine ⟨rfl, ?_⟩
  rw [Prod.Lex.toLex_lt_toLex]
  left
  simpa [signed] using positive

def rankedIds (catalog : Catalog Id Pool Filter Token) (frame : Frame Id) (token : Token)
    (filter : Filter) (sort : BucketSort) (order : Direction) : List Id :=
  ((ranked catalog frame sort token filter).insertionSort (ordered (rankKey order))).map Prod.fst

variable (order : Direction)

theorem rankedIds_perm :
    (rankedIds catalog frame token filter sort order).Perm
      ((catalog.matching token filter).filter (isRanked frame sort)) :=
  ((List.perm_insertionSort _ _).map Prod.fst).trans (ranked_perm catalog frame sort token filter)

theorem unrankedIds_perm :
    (unrankedIds catalog frame token filter sort).Perm
      ((catalog.matching token filter).filter fun pool => !isRanked frame sort pool) :=
  (List.perm_insertionSort _ _).filter _

theorem rankedIds_ranked {catalog : Catalog Id Pool Filter Token} {frame : Frame Id}
    {token : Token} {filter : Filter} {sort : BucketSort} {order : Direction} {pool : Id}
    (member : pool ∈ rankedIds catalog frame token filter sort order) :
    isRanked frame sort pool = true :=
  (List.mem_filter.mp ((rankedIds_perm _ _ _ _ _ _).mem_iff.mp member)).2

theorem unrankedIds_unranked {catalog : Catalog Id Pool Filter Token} {frame : Frame Id}
    {token : Token} {filter : Filter} {sort : BucketSort} {pool : Id}
    (member : pool ∈ unrankedIds catalog frame token filter sort) :
    isRanked frame sort pool = false := by
  simpa using (List.mem_filter.mp member).2

theorem rankedIds_pairwise :
    (rankedIds catalog frame token filter sort order).Pairwise
      (ordered (sortKey frame sort order)) := by
  have items : ∀ item ∈ (ranked catalog frame sort token filter).insertionSort
      (ordered (rankKey order)),
      metric frame sort item.1 = some item.2 := by
    intro item member
    have inside := (List.mem_insertionSort _).mp member
    rw [ranked_eq] at inside
    obtain ⟨pool, kept, rfl⟩ := List.mem_map.mp inside
    exact ranked_metric (List.mem_filter.mp kept).2
  rw [rankedIds, List.pairwise_map]
  apply (List.pairwise_insertionSort (ordered (rankKey order)) _).imp_of_mem
  intro one other inOne inOther order
  have first := items one inOne
  have second := items other inOther
  rw [ordered, sortKey, sortKey, first, second, Prod.Lex.toLex_le_toLex]
  exact Or.inr ⟨rfl, order⟩

theorem unrankedIds_pairwise :
    (unrankedIds catalog frame token filter sort).Pairwise
      (ordered (sortKey frame sort order)) := by
  have byId : (unrankedIds catalog frame token filter sort).Pairwise (· ≤ ·) :=
    (List.pairwise_insertionSort (· ≤ ·) _).filter _
  apply byId.imp_of_mem
  intro one other inOne inOther le
  have first := unranked_metric (unrankedIds_unranked inOne)
  have second := unranked_metric (unrankedIds_unranked inOther)
  rw [ordered, sortKey, sortKey, first, second, Prod.Lex.toLex_le_toLex]
  exact Or.inr ⟨rfl, Prod.Lex.toLex_le_toLex.mpr (Or.inr ⟨rfl, le⟩)⟩

theorem ranking_parts :
    ranking catalog frame token filter sort order =
      if (sort.counts && order = .asc) = true then
        unrankedIds catalog frame token filter sort ++
          rankedIds catalog frame token filter sort order
      else
        rankedIds catalog frame token filter sort order ++
          unrankedIds catalog frame token filter sort := by
  have parts : (catalog.matching token filter).Perm
      (rankedIds catalog frame token filter sort order ++
        unrankedIds catalog frame token filter sort) :=
    (List.filter_append_perm (isRanked frame sort) _).symm.trans
      ((rankedIds_perm catalog frame token filter sort order).symm.append
        (unrankedIds_perm catalog frame token filter sort).symm)
  split
  · rename_i rises
    apply sorted_parts (ordered (sortKey frame sort order)) (parts.trans List.perm_append_comm)
      (fun one _ other _ => sortKey_injective) (unrankedIds_pairwise _ _ _ _ _ _)
      (rankedIds_pairwise _ _ _ _ _ _)
    intro one inOne other inOther
    exact seam_unranked_first (unrankedIds_unranked inOne) (rankedIds_ranked inOther) rises
  · rename_i falls
    apply sorted_parts (ordered (sortKey frame sort order)) parts
      (fun one _ other _ => sortKey_injective) (rankedIds_pairwise _ _ _ _ _ _)
      (unrankedIds_pairwise _ _ _ _ _ _)
    intro one inOne other inOther
    exact seam_ranked_first (rankedIds_ranked inOne) (unrankedIds_unranked inOther) falls

theorem unranked_count :
    (catalog.matching token filter).length - (ranked catalog frame sort token filter).length =
      (unrankedIds catalog frame token filter sort).length := by
  have whole := (List.filter_append_perm (isRanked frame sort)
    (catalog.matching token filter)).length_eq
  have ones := (ranked_perm catalog frame sort token filter).length_eq
  have others := (unrankedIds_perm catalog frame token filter sort).length_eq
  rw [List.length_append] at whole
  rw [List.length_map] at ones
  omega

theorem rankedHead_slice (offset limit keep : Nat) (reaches : offset + limit ≤ keep) :
    (slice offset limit (rankedHead catalog frame (token, filter, sort, order, keep)).2).map
        Prod.fst =
      slice offset limit (rankedIds catalog frame token filter sort order) := by
  rw [rankedHead, nsmallest, slice_front _ _ _ _ reaches, slice_map, rankedIds]

theorem rankedIds_length :
    (ranked catalog frame sort token filter).length =
      (rankedIds catalog frame token filter sort order).length := by
  rw [rankedIds, List.length_map, List.length_insertionSort]

theorem stitch_slice (request : Request Filter Token) :
    stitch catalog frame request (catalog.matching request.token request.filter).length
        (ranked catalog frame request.sort request.token request.filter).length
        (rankedHead catalog frame (request.token, request.filter, request.sort, request.order,
          request.offset + request.limit)).2 =
      slice request.offset request.limit
        (ranking catalog frame request.token request.filter request.sort request.order) := by
  obtain ⟨token, filter, sort, order, offset, limit⟩ := request
  have others := unranked_count catalog frame token filter sort
  have ones := rankedIds_length catalog frame token filter sort order
  have scanned := fun offset limit =>
    fallbackPoolIds_slice catalog frame sort token filter offset limit
  have head := rankedHead_slice catalog frame token filter sort order
  simp only [stitch, others, scanned, ranking_parts]
  split
  · rw [head _ _ _ (by omega)]
    apply slice_seam
    · split
      · rename_i inside
        rw [slice_limit, slice_min]
      · rename_i outside
        rw [slice_beyond _ _ _ (by omega)]
    · intro full
      exact Or.inl (not_lt.mp full)
  · rw [head _ _ _ (by omega), ones]
    apply slice_seam
    · exact slice_min _ _ _
    · intro stops
      rcases not_and_or.mp stops with full | beyond
      · exact Or.inl (not_lt.mp full)
      · exact Or.inr (not_lt.mp beyond)

end

variable [DecidableEq Filter] [DecidableEq Token]

def bucketPageIds (catalog : Catalog Id Pool Filter Token) (frame : Frame Id)
    (caches : Caches Id Filter Token) (request : Request Filter Token) :
    (Nat × List Id) × Caches Id Filter Token :=
  let total := caches.totals.cached 16 (request.token, request.filter)
    (fun state => ((catalog.matching request.token request.filter).length, state)) ()
  let key := (request.token, request.filter, request.sort, request.order,
    request.offset + request.limit)
  let ranking := caches.rankings.cached 16 key (fun state => (rankedHead catalog frame key, state)) ()
  ((total.1, stitch catalog frame request total.1 ranking.1.1 ranking.1.2),
    ⟨total.2.1, ranking.2.1⟩)

structure Caches.Right (catalog : Catalog Id Pool Filter Token) (frame : Frame Id)
    (caches : Caches Id Filter Token) : Prop where
  totals : ∀ entry ∈ caches.totals.entries,
    entry.2 = (catalog.matching entry.1.1 entry.1.2).length
  rankings : ∀ entry ∈ caches.rankings.entries, entry.2 = rankedHead catalog frame entry.1

def Request.page (request : Request Filter Token) (catalog : Catalog Id Pool Filter Token)
    (frame : Frame Id) : List Id :=
  slice request.offset request.limit
    (ranking catalog frame request.token request.filter request.sort request.order)

theorem bucketPageIds_right (catalog : Catalog Id Pool Filter Token) (frame : Frame Id)
    {caches : Caches Id Filter Token} (right : caches.Right catalog frame)
    (request : Request Filter Token) :
    (bucketPageIds catalog frame caches request).1 =
        ((catalog.matching request.token request.filter).length, request.page catalog frame) ∧
      (bucketPageIds catalog frame caches request).2.Right catalog frame := by
  have total := @cached_right _ _ _ _
    (fun key value => value = (catalog.matching key.1 key.2).length)
    caches.totals 16 (request.token, request.filter)
    (fun state => ((catalog.matching request.token request.filter).length, state)) ()
    right.totals rfl
  have ranking := @cached_right _ _ _ _ (fun key value => value = rankedHead catalog frame key)
    caches.rankings 16 (request.token, request.filter, request.sort, request.order,
      request.offset + request.limit)
    (fun state => (rankedHead catalog frame (request.token, request.filter, request.sort,
      request.order, request.offset + request.limit), state)) () right.rankings rfl
  refine ⟨?_, ⟨total.2, ranking.2⟩⟩
  simp only [bucketPageIds, total.1, ranking.1, Request.page]
  exact congrArg _ (stitch_slice catalog frame request)

/-- Requests one after the other; other queries may drop totals from their cache. -/
inductive Turn (Filter Token : Type) where
  | page (request : Request Filter Token)
  | churn (gone : Token × Filter → Bool)

def served (catalog : Catalog Id Pool Filter Token) (frame : Frame Id) :
    Caches Id Filter Token → List (Turn Filter Token) → List (Request Filter Token × Nat × List Id)
  | _, [] => []
  | caches, .churn gone :: rest =>
    served catalog frame
      ⟨caches.totals.keep (caches.totals.entries.filter fun entry => !gone entry.1)
        List.filter_sublist, caches.rankings⟩ rest
  | caches, .page request :: rest =>
    let answer := bucketPageIds catalog frame caches request
    (request, answer.1) :: served catalog frame answer.2 rest

theorem served_right (catalog : Catalog Id Pool Filter Token) (frame : Frame Id)
    (turns : List (Turn Filter Token)) (caches : Caches Id Filter Token)
    (right : caches.Right catalog frame) :
    ∀ answer ∈ served catalog frame caches turns,
      answer.2.1 = (catalog.matching answer.1.token answer.1.filter).length ∧
        answer.2.2 = answer.1.page catalog frame := by
  induction turns generalizing caches with
  | nil => simp [served]
  | cons turn rest ih =>
    cases turn with
    | churn gone =>
      apply ih
      exact ⟨fun entry member => right.totals entry (List.mem_filter.mp member).1,
        right.rankings⟩
    | page request =>
      obtain ⟨here, kept⟩ := bucketPageIds_right catalog frame right request
      intro answer member
      rcases List.mem_cons.mp member with same | later
      · rw [same, here]
        exact ⟨rfl, rfl⟩
      · exact ih _ kept answer later

/-- Whatever was asked before, a page is the slice of one total order. That order lists
every matching pool once, and so do consecutive pages, front to back. -/
theorem pages_sliced (catalog : Catalog Id Pool Filter Token) (frame : Frame Id)
    (turns : List (Turn Filter Token)) :
    (∀ answer ∈ served catalog frame ⟨.empty, .empty⟩ turns,
      answer.2.2 = slice answer.1.offset answer.1.limit
        (ranking catalog frame answer.1.token answer.1.filter answer.1.sort answer.1.order)) ∧
    ∀ token filter sort order,
      (ranking catalog frame token filter sort order).Perm (catalog.matching token filter) ∧
      (ranking catalog frame token filter sort order).Nodup ∧
      ∀ limit count, pages limit count (ranking catalog frame token filter sort order) =
        (ranking catalog frame token filter sort order).take (count * limit) := by
  constructor
  · intro answer member
    have empty : (⟨.empty, .empty⟩ : Caches Id Filter Token).Right catalog frame :=
      ⟨fun _ absent => absurd absent List.not_mem_nil,
        fun _ absent => absurd absent List.not_mem_nil⟩
    exact (served_right catalog frame turns _ empty answer member).2
  · intro token filter sort order
    have same := List.perm_insertionSort (ordered (sortKey frame sort order))
      (catalog.matching token filter)
    refine ⟨same, same.nodup_iff.mpr (matching_nodup catalog token filter), ?_⟩
    intro limit count
    exact pages_take limit count _

end RhPools.PoolPages
