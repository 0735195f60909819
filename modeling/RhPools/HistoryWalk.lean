import RhPools.TradeHistory

/-! Following `next_before` through the trade history. On a quiet chain the pages are
those of keyset paging over the wallet's stored trades, the page cache included, so
a walk returns every trade exactly when no block is cut by a page edge. -/

namespace RhPools.HistoryWalk
open TxChain OrderedTables KeysetPaging TradeHistory

variable {Hash : Type} [LinearOrder Hash]

instance {Row : Type} (key : Row → Int × Hash) : Std.Total (newer key) :=
  ⟨fun _ _ => le_total _ _⟩

instance {Row : Type} (key : Row → Int × Hash) : IsTrans Row (newer key) :=
  ⟨fun _ _ _ first second => second.trans first⟩

theorem newestFirst_pairwise {Row : Type} (key : Row → Int × Hash) (rows : List Row) :
    (newestFirst key rows).Pairwise (newer key) :=
  List.pairwise_insertionSort (newer key) rows

theorem newestFirst_filter {Row : Type} (key : Row → Int × Hash) (rows : List Row)
    (distinct : ∀ first ∈ rows, ∀ second ∈ rows, key first = key second → first = second)
    (keep : Row → Bool) :
    newestFirst key (rows.filter keep) = (newestFirst key rows).filter keep := by
  refine List.Perm.eq_of_pairwise ?_ (newestFirst_pairwise key _)
    ((newestFirst_pairwise key rows).filter keep) ?_
  · intro first second inFirst inSecond less more
    have here := (List.mem_insertionSort (newer key)).mp inFirst
    have there := (List.mem_insertionSort (newer key)).mp (List.mem_filter.mp inSecond).1
    exact distinct first (List.mem_filter.mp here).1 second there
      (toLex.injective (le_antisymm more less))
  · exact (List.perm_insertionSort _ _).trans
      ((List.perm_insertionSort (newer key) rows).symm.filter keep)

def trades (store : TradeStore Hash) (wallet : Address) : List (Trade Hash) :=
  newestFirst Trade.key ((store.rows.filter fun row => row.1 = wallet).map Prod.snd)

def service (store : TradeStore Hash) (wallet : Address) : Service (Trade Hash) Int :=
  { cursor := Trade.block, size := HISTORY_LIMIT, admits := (0 < ·), items := trades store wallet }

variable (core : Core Hash) (store : TradeStore Hash) (views : Nat → View Hash) (view : View Hash)
  (wallet : Address)

theorem service_next (rest : List (Trade Hash)) :
    (service store wallet).next rest =
      if HISTORY_LIMIT < rest.length then (rest[HISTORY_LIMIT - 1]?).map Trade.block else none :=
  rfl

theorem service_falling :
    (service store wallet).Falling := by
  refine (newestFirst_pairwise Trade.key _).imp ?_
  intro first second order
  rcases Prod.Lex.le_iff.mp order with less | same
  · exact less.le
  · exact same.1.le

omit [LinearOrder Hash] in
theorem stored_distinct :
    ∀ first ∈ (store.rows.filter fun row => row.1 = wallet).map Prod.snd,
      ∀ second ∈ (store.rows.filter fun row => row.1 = wallet).map Prod.snd,
        first.key = second.key → first = second := by
  intro first inFirst second inSecond same
  obtain ⟨row, inside, rfl⟩ := List.mem_map.mp inFirst
  obtain ⟨other, there, rfl⟩ := List.mem_map.mp inSecond
  have equal := List.inj_on_of_nodup_map store.distinct (List.mem_filter.mp inside).1
    (List.mem_filter.mp there).1 (congrArg Prod.snd same)
  rw [equal]

variable (before : Option Int)

theorem history_behind :
    store.history wallet before = ((service store wallet).behind before).take STORED_LIMIT := by
  cases before with
  | none => simp [TradeStore.history, Service.behind, service, trades]
  | some bound =>
    have left : (service store wallet).behind (some bound) =
        (trades store wallet).filter fun trade => decide (trade.block < bound) := rfl
    rw [left, trades, ← newestFirst_filter Trade.key _ (stored_distinct store wallet)]
    simp only [TradeStore.history, List.filter_map, List.filter_filter, Option.mem_some_iff,
      forall_eq', Function.comp_def, Bool.decide_and, Bool.and_comm]

def bareLegs (legs : List Leg) : List Leg := legs.map fun leg => { leg with described := none }

def bare (row : Row Hash) : Row Hash :=
  { row with sent := bareLegs row.sent, received := bareLegs row.received }

def Quiet (view : View Hash) : Prop :=
  ∀ lower upper position, view.logs lower upper position = .ok []

structure Answers (view : View Hash) : Prop where
  latest : ∃ number, view.latest = .ok number
  describes : ∀ token, ∃ described, view.describe token = .ok described

structure Serves (store : TradeStore Hash) (wallet : Address) (before : Option Int)
    (page : Page Hash) : Prop where
  rows : page.rows.map bare =
    (((service store wallet).behind before).take HISTORY_LIMIT).map Trade.row
  next : page.nextBefore = (service store wallet).next ((service store wallet).behind before)

omit [LinearOrder Hash] in
theorem discovered_quiet (quiet : Quiet view) (ranges : List (Int × Int)) :
    discovered view ranges = .ok [] := by
  induction ranges with
  | nil => rfl
  | cons range rest ih => simp [discovered, quiet _ _ _, ih]

theorem transactions_quiet (quiet : Quiet view) (latest : Int) (before : Option Int) :
    transactions view latest before = .ok [] := by
  simp [transactions, discovered_quiet view quiet, newestFirst]

omit [LinearOrder Hash] in
theorem describeLegs_bare (legs : List (Token × Int)) (described : List Leg)
    (made : describeLegs view legs = .ok described) :
    bareLegs described = legs.map fun leg => ⟨leg.1, leg.2, none⟩ := by
  induction legs generalizing described with
  | nil =>
    simp only [describeLegs, List.mapM_nil, Try.pure_ok, Except.ok.injEq] at made
    simp [← made, bareLegs]
  | cons leg rest ih =>
    simp only [describeLegs, List.mapM_cons, Try.bind_ok, Try.pure_ok, Except.ok.injEq] at made
    obtain ⟨_, ⟨info, -, rfl⟩, later, made, rfl⟩ := made
    have tail := ih later made
    simp only [bareLegs, List.map_cons] at tail ⊢
    rw [tail]

omit [LinearOrder Hash] in
theorem describeRow_bare (row described : Row Hash) (made : describeRow view row = .ok described) :
    bare described = bare row := by
  unfold describeRow at made
  split at made
  · cases made
    rfl
  · simp only [Try.bind_ok, Try.pure_ok, Except.ok.injEq] at made
    obtain ⟨sent, sentMade, received, receivedMade, rfl⟩ := made
    have out := describeLegs_bare view _ _ sentMade
    have in_ := describeLegs_bare view _ _ receivedMade
    simp only [bare, out, in_, List.map_map]
    rfl

omit [LinearOrder Hash] in
theorem describeRows_bare (rows page : List (Row Hash))
    (made : rows.mapM (describeRow view) = .ok page) : page.map bare = rows.map bare := by
  induction rows generalizing page with
  | nil =>
    simp only [List.mapM_nil, Try.pure_ok, Except.ok.injEq] at made
    simp [← made]
  | cons row rest ih =>
    simp only [List.mapM_cons, Try.bind_ok, Try.pure_ok, Except.ok.injEq] at made
    obtain ⟨described, here, later, made, rfl⟩ := made
    simp only [List.map_cons, describeRow_bare view row described here, ih later made]

omit [LinearOrder Hash] in
theorem bare_row (trade : Trade Hash) : bare trade.row = trade.row := by
  simp [bare, bareLegs, Trade.row]

theorem newestFirst_stored :
    newestFirst Row.key ((store.history wallet before).map Trade.row) =
      (store.history wallet before).map Trade.row := by
  refine List.Pairwise.insertionSort_eq ?_
  rw [List.pairwise_map]
  exact (newestFirst_pairwise Trade.key _).sublist (List.take_sublist _ _)

theorem freshPage_serves (page : Page Hash) (stored : core.store = some store) (quiet : Quiet view)
    (made : freshPage core view wallet before = .ok page) :
    Serves store wallet before page := by
  simp only [freshPage, stored, transactions_quiet view quiet, chainRows, Try.ok_bind,
    List.append_nil, newestFirst_stored, Try.bind_ok, Try.pure_ok, Except.ok.injEq] at made
  obtain ⟨latest, -, rows, described, rfl⟩ := made
  have same := describeRows_bare view _ _ described
  rw [history_behind, ← List.map_take, List.take_take, List.map_map,
    show bare ∘ Trade.row = (Trade.row : Trade Hash → Row Hash) from funext bare_row] at same
  refine ⟨same, ?_⟩
  have blocks : rows.map Row.block =
      (((service store wallet).behind before).take HISTORY_LIMIT).map Trade.block := by
    have each := congrArg (List.map Row.block) same
    rw [List.map_map, List.map_map] at each
    exact each
  simp only [history_behind, List.length_map, List.length_take, service_next]
  by_cases long : HISTORY_LIMIT < ((service store wallet).behind before).length
  · have past : HISTORY_LIMIT <
        min STORED_LIMIT ((service store wallet).behind before).length := lt_min (by decide) long
    have whole : min HISTORY_LIMIT ((service store wallet).behind before).length = HISTORY_LIMIT :=
      min_eq_left long.le
    rw [if_pos past, if_pos long, ← List.getLast?_map, blocks, List.getLast?_map,
      List.getLast?_eq_getElem?, List.length_take, whole, List.getElem?_take_of_lt (by decide)]
  · have short : ¬HISTORY_LIMIT <
        min STORED_LIMIT ((service store wallet).behind before).length :=
      fun past => long (past.trans_le (min_le_right _ _))
    rw [if_neg short, if_neg long]

omit [LinearOrder Hash] in
theorem describeLegs_ok (answers : Answers view) (legs : List (Token × Int)) :
    ∃ described, describeLegs view legs = .ok described := by
  induction legs with
  | nil => exact ⟨[], rfl⟩
  | cons leg rest ih =>
    obtain ⟨info, there⟩ := answers.describes leg.1
    obtain ⟨later, made⟩ := ih
    exact ⟨_, by rw [describeLegs, List.mapM_cons, there, ← describeLegs, made]; rfl⟩

omit [LinearOrder Hash] in
theorem describeRows_ok (answers : Answers view) (rows : List (Row Hash)) :
    ∃ page, rows.mapM (describeRow view) = .ok page := by
  induction rows with
  | nil => exact ⟨[], rfl⟩
  | cons row rest ih =>
    obtain ⟨later, made⟩ := ih
    obtain ⟨sent, sentMade⟩ := describeLegs_ok view answers
      (row.sent.map fun leg => (leg.token, leg.amount))
    obtain ⟨received, receivedMade⟩ := describeLegs_ok view answers
      (row.received.map fun leg => (leg.token, leg.amount))
    have here : ∃ described, describeRow view row = .ok described := by
      unfold describeRow
      split
      · exact ⟨row, rfl⟩
      · rw [sentMade, receivedMade]
        exact ⟨_, rfl⟩
    obtain ⟨described, here⟩ := here
    exact ⟨_, by rw [List.mapM_cons, here, made]; rfl⟩

theorem freshPage_ok (quiet : Quiet view) (answers : Answers view) :
    ∃ page, freshPage core view wallet before = .ok page := by
  obtain ⟨number, latest⟩ := answers.latest
  simp only [freshPage, latest, transactions_quiet view quiet, chainRows, Try.ok_bind]
  obtain ⟨page, made⟩ := describeRows_ok view answers _
  exact ⟨_, by rw [made]; rfl⟩

structure Coherent (core : Core Hash) (store : TradeStore Hash) : Prop where
  stored : core.store = some store
  pages : ∀ entry ∈ core.pages.entries, Serves store entry.1.1 entry.1.2 entry.2.2

theorem fetchPage_serves (core next : Core Hash) (store : TradeStore Hash) (view : View Hash)
    (wallet : Address) (before : Option Int) (page : Page Hash) (coherent : Coherent core store)
    (quiet : Quiet view) (made : fetchPage core view wallet before = .ok (page, next)) :
    Serves store wallet before page ∧ Coherent next store := by
  simp only [fetchPage, Try.bind_ok, Try.pure_ok, Except.ok.injEq, Prod.mk.injEq] at made
  obtain ⟨page, fresh, rfl, rfl⟩ := made
  have serves := freshPage_serves core store view wallet before _ coherent.stored quiet fresh
  have kept : ∀ entry ∈ (core.pages.put (wallet, before)
      (view.clock + HISTORY_CACHE_SECONDS, page)).entries,
      Serves store entry.1.1 entry.1.2 entry.2.2 := by
    intro entry member
    rcases (mem_put _ _ _ _).mp member with ⟨old, -⟩ | rfl
    · exact coherent.pages entry old
    · exact serves
  refine ⟨serves, coherent.stored, ?_⟩
  intro entry member
  simp only [remember] at member
  split at member
  · exact kept entry (mem_popFirst _ _ member)
  · exact kept entry member

theorem history_serves (core next : Core Hash) (store : TradeStore Hash) (view : View Hash)
    (wallet : Address) (before : Option Int) (page : Page Hash) (coherent : Coherent core store)
    (quiet : Quiet view) (made : history core view wallet before = .ok (page, next)) :
    (service store wallet).admitted before ∧ Serves store wallet before page ∧
      Coherent next store := by
  unfold history at made
  split at made
  · cases made
  rename_i positive
  have admitted : (service store wallet).admitted before := by
    cases before with
    | none => trivial
    | some bound => simpa [Service.admitted, service] using positive
  refine ⟨admitted, ?_⟩
  split at made
  · exact fetchPage_serves core next store view wallet before page coherent quiet made
  · rename_i expiry cached found
    split at made
    · simp only [Except.ok.injEq, Prod.mk.injEq] at made
      obtain ⟨rfl, rfl⟩ := made
      refine ⟨coherent.pages _ ((get_some _ _ _).mp found), coherent.stored, ?_⟩
      intro entry member
      exact coherent.pages entry ((mem_touch _ _ _).mp member)
    · exact fetchPage_serves core next store view wallet before page coherent quiet made

theorem history_ok (quiet : Quiet view) (answers : Answers view)
    (admitted : (service store wallet).admitted before) :
    ∃ page next, history core view wallet before = .ok (page, next) := by
  obtain ⟨page, fresh⟩ := freshPage_ok core view wallet before quiet answers
  have allowed : ¬before.any (· ≤ 0) = true := by
    cases before with
    | none => simp
    | some bound => simpa [Service.admitted, service] using admitted
  unfold history
  rw [if_neg allowed]
  simp only [fetchPage, fresh, Try.ok_bind, Try.pure_ok]
  split
  · exact ⟨_, _, rfl⟩
  · split <;> exact ⟨_, _, rfl⟩

def SameSender (store : TradeStore Hash) (wallet : Address) (trade : Trade Hash) : Prop :=
  ∀ row ∈ store.rows, row.2.hash = trade.hash → row.1 = wallet

theorem upsert_others (wallet other : Address) (trade : Trade Hash) (apart : wallet ≠ other)
    (rows : List (Address × Trade Hash))
    (sender : ∀ row ∈ rows, row.2.hash = trade.hash → row.1 = wallet) :
    (upsert wallet trade rows).filter (fun row => row.1 = other) =
      rows.filter fun row => row.1 = other := by
  induction rows with
  | nil => simp [upsert, apart]
  | cons row rest ih =>
    obtain ⟨here, later⟩ := List.forall_mem_cons.mp sender
    unfold upsert
    split
    · rename_i same
      have mine : row.1 ≠ other := by rw [here same]; exact apart
      simp [apart, mine]
    · rw [List.filter_cons, List.filter_cons, ih later]

theorem recorded_coherent (trade : Trade Hash) (coherent : Coherent core store)
    (sender : SameSender store wallet trade) :
    Coherent (recorded core store wallet trade) (store.save wallet trade) := by
  refine ⟨rfl, ?_⟩
  intro entry member
  obtain ⟨old, other⟩ := List.mem_filter.mp member
  have apart : wallet ≠ entry.1.1 := fun same => by simp [same] at other
  have same : service (store.save wallet trade) entry.1.1 = service store entry.1.1 := by
    simp only [service, trades, TradeStore.save]
    rw [upsert_others wallet entry.1.1 trade apart store.rows sender]
  obtain ⟨rows, next⟩ := coherent.pages entry old
  exact ⟨by rw [same]; exact rows, by rw [same]; exact next⟩

/-- Cores reached from an empty cache by page requests on a quiet chain and by recorded
receipts. -/
inductive Reached : Core Hash → TradeStore Hash → Prop
  | start (store : TradeStore Hash) : Reached ⟨some store, .empty⟩ store
  | paged (core next : Core Hash) (store : TradeStore Hash) (view : View Hash) (wallet : Address)
      (before : Option Int) (page : Page Hash) (reached : Reached core store) (quiet : Quiet view)
      (made : history core view wallet before = .ok (page, next)) : Reached next store
  | saved (core : Core Hash) (store : TradeStore Hash) (wallet : Address) (trade : Trade Hash)
      (reached : Reached core store) (sender : SameSender store wallet trade) :
      Reached (recorded core store wallet trade) (store.save wallet trade)

theorem reached_coherent (reached : Reached core store) : Coherent core store := by
  induction reached with
  | start store => exact ⟨rfl, by simp [OrderedTable.empty]⟩
  | paged core next store view wallet before page reached quiet made ih =>
    exact (history_serves core next store view wallet before page ih quiet made).2.2
  | saved core store wallet trade reached sender ih =>
    exact recorded_coherent core store wallet trade ih sender

/-- Following `next_before`; call number `turn` sees its own view. -/
inductive Follows (views : Nat → View Hash) (wallet : Address) :
    Nat → Core Hash → Option Int → List (List (Row Hash)) → Prop
  | last (turn : Nat) (core next : Core Hash) (before : Option Int) (page : Page Hash)
      (made : history core (views turn) wallet before = .ok (page, next))
      (done : page.nextBefore = none) : Follows views wallet turn core before [page.rows]
  | more (turn : Nat) (core next : Core Hash) (before : Option Int) (page : Page Hash)
      (bound : Int) (pages : List (List (Row Hash)))
      (made : history core (views turn) wallet before = .ok (page, next))
      (follow : page.nextBefore = some bound)
      (later : Follows views wallet (turn + 1) next (some bound) pages) :
      Follows views wallet turn core before (page.rows :: pages)

theorem follows_walk (quiet : ∀ turn, Quiet (views turn)) (turn : Nat) (core : Core Hash)
    (before : Option Int) (pages : List (List (Row Hash))) (coherent : Coherent core store)
    (walk : Follows views wallet turn core before pages) :
    ∃ served, Walk (service store wallet) before served ∧
      pages.map (List.map bare) = served.map (List.map Trade.row) := by
  induction walk with
  | last turn core next before page made done =>
    obtain ⟨admitted, serves, -⟩ :=
      history_serves core next store _ wallet before page coherent (quiet turn) made
    exact ⟨_, .last before admitted (serves.next.symm.trans done), by
      simp only [List.map_cons, List.map_nil, serves.rows]; rfl⟩
  | more turn core next before page bound pages made follow later ih =>
    obtain ⟨admitted, serves, still⟩ :=
      history_serves core next store _ wallet before page coherent (quiet turn) made
    obtain ⟨served, walk, same⟩ := ih still
    exact ⟨_, .more before bound served admitted (serves.next.symm.trans follow) walk, by
      simp only [List.map_cons, serves.rows, same]; rfl⟩

theorem walk_follows (quiet : ∀ turn, Quiet (views turn)) (answers : ∀ turn, Answers (views turn))
    (before : Option Int) (served : List (List (Trade Hash)))
    (walk : Walk (service store wallet) before served) (turn : Nat) (core : Core Hash)
    (coherent : Coherent core store) :
    ∃ pages, Follows views wallet turn core before pages ∧
      pages.map (List.map bare) = served.map (List.map Trade.row) := by
  induction walk generalizing turn core with
  | last before admitted done =>
    obtain ⟨page, next, made⟩ :=
      history_ok core store (views turn) wallet before (quiet turn) (answers turn) admitted
    obtain ⟨-, serves, -⟩ :=
      history_serves core next store _ wallet before page coherent (quiet turn) made
    exact ⟨_, .last turn core next before page made (serves.next.trans done), by
      simp only [List.map_cons, List.map_nil, serves.rows]; rfl⟩
  | more before bound served admitted follow later ih =>
    obtain ⟨page, next, made⟩ :=
      history_ok core store (views turn) wallet before (quiet turn) (answers turn) admitted
    obtain ⟨-, serves, still⟩ :=
      history_serves core next store _ wallet before page coherent (quiet turn) made
    obtain ⟨pages, walk, same⟩ := ih (turn + 1) next still
    exact ⟨_, .more turn core next before page bound pages made (serves.next.trans follow) walk, by
      simp only [List.map_cons, serves.rows, same]; rfl⟩

omit [LinearOrder Hash] in
theorem row_injective : Function.Injective (Trade.row : Trade Hash → Row Hash) := by
  rintro ⟨hash, block, timestamp, kind, sent, received, via, fee⟩
    ⟨hash', block', timestamp', kind', sent', received', via', fee'⟩ same
  have legs : Function.Injective fun leg : Token × Int => (⟨leg.1, leg.2, none⟩ : Leg) := by
    rintro ⟨token, amount⟩ ⟨other, value⟩ equal
    simpa using equal
  simp only [Trade.row, Row.mk.injEq, Option.some.injEq, (List.map_injective_iff.mpr legs).eq_iff]
    at same
  obtain ⟨rfl, rfl, rfl, rfl, rfl, rfl, rfl, rfl, -⟩ := same
  rfl

/-- Wherever a page ends and trades are left, the cut falls between two blocks, and the
last block of the page is one that can be asked for. -/
def CutsBetweenBlocks (trades : List (Trade Hash)) : Prop :=
  ∀ turn, ∀ last ∈ trades[HISTORY_LIMIT * (turn + 1) - 1]?,
    ∀ next ∈ trades[HISTORY_LIMIT * (turn + 1)]?, 0 < last.block ∧ next.block < last.block

/-- The pages from the first on are all the trades of the wallet in order exactly when
no page edge cuts through a block. -/
theorem history_complete (core : Core Hash) (store : TradeStore Hash) (wallet : Address)
    (views : Nat → View Hash) (reached : Reached core store)
    (quiet : ∀ turn, Quiet (views turn)) (answers : ∀ turn, Answers (views turn)) :
    (∃ pages, Follows views wallet 0 core none pages ∧
      pages.flatten.map bare = (trades store wallet).map Trade.row) ↔
      CutsBetweenBlocks (trades store wallet) := by
  have coherent := reached_coherent core store reached
  have complete := walk_complete (service_falling store wallet)
    (show 0 < HISTORY_LIMIT by decide) none
  have clean : (service store wallet).Clean ((service store wallet).behind none) ↔
      CutsBetweenBlocks (trades store wallet) := by
    simp only [Service.Clean, CutsBetweenBlocks]
    simp [service, Service.behind]
  rw [← clean]
  constructor
  · rintro ⟨pages, walk, all⟩
    obtain ⟨served, stored, same⟩ :=
      follows_walk store views wallet quiet 0 core none pages coherent walk
    rw [List.map_flatten, same, ← List.map_flatten] at all
    exact (complete.mp ⟨served, stored, List.map_injective_iff.mpr row_injective all⟩).2
  · intro cuts
    obtain ⟨served, stored, all⟩ := complete.mpr ⟨trivial, cuts⟩
    obtain ⟨pages, walk, same⟩ :=
      walk_follows store views wallet quiet answers none served stored 0 core coherent
    refine ⟨pages, walk, ?_⟩
    rw [List.map_flatten, same, ← List.map_flatten, all]
    rfl

theorem history_ends (views : Nat → View Hash) (reached : Reached core store)
    (quiet : ∀ turn, Quiet (views turn)) (answers : ∀ turn, Answers (views turn))
    (positive : ∀ trade ∈ trades store wallet, 0 < trade.block) :
    ∃ pages, Follows views wallet 0 core none pages := by
  obtain ⟨served, walk⟩ := walk_ends (service_falling store wallet)
    (show 0 < HISTORY_LIMIT by decide)
    (fun trade member => decide_eq_true (positive trade member)) none trivial
  obtain ⟨pages, follows, -⟩ := walk_follows store views wallet quiet answers none served walk 0
    core (reached_coherent core store reached)
  exact ⟨pages, follows⟩

def sampleWallet : Address := 0xaaaa#160

/-- A trade whose hash is the number `hash`. -/
def sampleStored (hash : Nat) (block : Int) : Trade Nat :=
  ⟨hash, block, 0, .swap, [(.native, 4)], [], "UR", none⟩

def quietView : View Nat :=
  { clock := 0, latest := .ok 1000, logs := fun _ _ _ => .ok []
    chainTrade := fun _ _ traces => .ok (none, traces), timestamp := fun _ => .ok 0
    describe := fun _ => .ok ⟨"ETH", 18⟩ }

theorem quietView_quiet : Quiet quietView := fun _ _ _ => rfl

theorem quietView_answers : Answers quietView := ⟨⟨_, rfl⟩, fun _ => ⟨_, rfl⟩⟩

def samplePair : TradeStore Nat :=
  ⟨[(sampleWallet, sampleStored 1 100), (sampleWallet, sampleStored 2 101)], by decide⟩

theorem history_complete_sample :
    ∃ pages, Follows (fun _ => quietView) sampleWallet 0 ⟨some samplePair, .empty⟩ none pages ∧
      pages.flatten.map bare = (trades samplePair sampleWallet).map Trade.row := by
  refine (history_complete _ samplePair sampleWallet _ (.start samplePair)
    (fun _ => quietView_quiet) (fun _ => quietView_answers)).mpr ?_
  intro turn last _ next there
  have two : (trades samplePair sampleWallet).length = 2 := by decide
  have past := (List.getElem?_eq_some_iff.mp there).1
  have grows : HISTORY_LIMIT ≤ HISTORY_LIMIT * (turn + 1) := Nat.le_mul_of_pos_right _ (by omega)
  have limit : HISTORY_LIMIT = 50 := rfl
  omega

def sampleBlock : TradeStore Nat :=
  ⟨(List.range 51).map fun hash => (sampleWallet, sampleStored hash 100), by decide⟩

/-- The fifty-first trade of a block is on no page. -/
theorem sampleBlock_skips :
    ¬∃ pages, Follows (fun _ => quietView) sampleWallet 0 ⟨some sampleBlock, .empty⟩ none pages ∧
      pages.flatten.map bare = (trades sampleBlock sampleWallet).map Trade.row := by
  rintro ⟨pages, walk, all⟩
  obtain ⟨served, stored, same⟩ := follows_walk sampleBlock _ sampleWallet
    (fun _ => quietView_quiet) 0 _ none pages (reached_coherent _ _ (.start sampleBlock)) walk
  rw [List.map_flatten, same, ← List.map_flatten] at all
  obtain ⟨-, clean⟩ := (walk_complete (service_falling sampleBlock sampleWallet)
    (show 0 < HISTORY_LIMIT by decide) none).mp
      ⟨served, stored, List.map_injective_iff.mpr row_injective all⟩
  have edge : (trades sampleBlock sampleWallet)[49]? = some (sampleStored 1 100) ∧
      (trades sampleBlock sampleWallet)[50]? = some (sampleStored 0 100) := by decide +kernel
  have cut := clean 0 _ edge.1 _ edge.2
  exact absurd cut.2 (by decide)

end RhPools.HistoryWalk
