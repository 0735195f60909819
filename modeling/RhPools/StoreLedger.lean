import RhPools.CheckedSteps
import RhPools.MarketStore

/-! The ledger of a store: which block each of its rows stands in. Queues, pools, tokens,
counters and prices are not part of it, and the statements that write only those leave it
as it was. -/

namespace RhPools.StoreLedger
open TxChain (Address)
open OrderedTables MarketTables MarketStore CheckedSteps GuardedRuns
open EventWords (Hash)

variable {Lp : Type}

structure Ledger where
  blocks : OrderedTable Int Header
  coverage : List Coverage
  place : EventId → Option Place
  receipt : Hash → Option (Int × Hash)
  balances : OrderedTable (PoolId × Int) Balance
  epoch : Nat

def ledger (db : Db Lp) : Ledger :=
  { blocks := db.blocks, coverage := db.coverage, epoch := db.epoch
    place := fun id => (db.events.get id).map EventRow.place
    receipt := fun hash =>
      (db.transactions.get hash).map fun row => (row.blockNumber, row.blockHash)
    balances := db.poolBalances }

def Refusal : Failure → Prop
  | .conflict _ => True
  | .value _ => True
  | .integrity => True
  | _ => False

abbrev Keeps {View : Type} (view : Db Lp → View) (db : Db Lp) (step : Write (Db Lp)) : Prop :=
  Meets anyhow (fun after => view after = view db) step

abbrev Aside (db : Db Lp) (step : Write (Db Lp)) : Prop := Keeps ledger db step

/-- A view of neither pools nor tokens, nor of the queues and counters that an upsert of pools
writes. -/
def PoolBlind {View : Type} (view : Db Lp → View) : Prop :=
  ∀ db pools provenance tokens tokenJobs unpublish reprojections counter,
    view { db with
      pools := pools, provenance := provenance, tokenMetadata := tokens
      pendingTokenMetadata := tokenJobs, pendingPoolUnpublish := unpublish
      pendingReprojection := reprojections, counter := counter } = view db

def Blind {View : Type} (view : Db Lp → View) : Prop :=
  ∀ db pools provenance tokens tokenJobs unpublish reprojections enrichments counter,
    view { db with
      pools := pools, provenance := provenance, tokenMetadata := tokens
      pendingTokenMetadata := tokenJobs, pendingPoolUnpublish := unpublish
      pendingReprojection := reprojections, pendingEnrichment := enrichments
      counter := counter } = view db

theorem Blind.pools {View : Type} {view : Db Lp → View} (blind : Blind view) : PoolBlind view :=
  fun db pools provenance tokens tokenJobs unpublish reprojections counter =>
    blind db pools provenance tokens tokenJobs unpublish reprojections db.pendingEnrichment counter

theorem ledger_blind : Blind (@ledger Lp) := fun _ _ _ _ _ _ _ _ _ => rfl

section View

variable {View : Type} (view : Db Lp → View)

theorem keeps_bind (db : Db Lp) (first : Write (Db Lp)) (next : Db Lp → Write (Db Lp))
    (before : Keeps view db first) (after : ∀ middle, Keeps view middle (next middle)) :
    Keeps view db (first >>= next) := by
  apply meets_bind _ before
  intro middle same
  exact (after middle).mono fun last kept => kept.trans same

theorem bump_keeps (blind : ∀ db counter, view { db with counter := counter } = view db)
    (db : Db Lp) (key : Counter) (amount : Int) : Keeps view db (db.bump key amount) := by
  unfold Db.bump
  split
  · trivial
  · exact blind db _

variable {view} (blind : PoolBlind view)
include blind

variable (db : Db Lp)

theorem PoolBlind.bump (key : Counter) (amount : Int) :
    Keeps view db (db.bump key amount) :=
  bump_keeps view (fun db _ => blind db db.pools db.provenance db.tokenMetadata
    db.pendingTokenMetadata db.pendingPoolUnpublish db.pendingReprojection _)
    db key amount

theorem PoolBlind.queueEvents (chosen : EventId → EventRow → Bool) :
    view (queueEvents db chosen).1 = view db :=
  blind db db.pools db.provenance db.tokenMetadata db.pendingTokenMetadata
    db.pendingPoolUnpublish _ db.counter

theorem PoolBlind.requeue (chosen : EventId → EventRow → Bool) :
    Keeps view db (requeue db chosen) :=
  (blind.bump (MarketStore.queueEvents db chosen).1 _ _).mono
    fun _ kept => kept.trans (blind.queueEvents db chosen)

theorem PoolBlind.observe (id : PoolId) (observation : Option Observation) :
    view (observe db id observation) = view db := by
  cases observation with
  | none => rfl
  | some observation =>
    rw [MarketStore.observe]
    split
    · exact blind db db.pools _ db.tokenMetadata db.pendingTokenMetadata
        db.pendingPoolUnpublish db.pendingReprojection db.counter
    · rfl

variable (tally : Tally)

theorem PoolBlind.activate (id : PoolId) (activated : Bool) :
    view (activate db tally id activated).1 = view db := by
  cases activated with
  | false => rfl
  | true =>
    exact blind.queueEvents db fun _ row => row.terms.poolId = some id

theorem PoolBlind.resolveToken (address : Address) (symbol : Option String) (decimals : Option Int)
    :
    view (resolveToken db tally address symbol decimals).1 = view db := by
  have written := fun pools tokens tokenJobs => blind db pools db.provenance tokens tokenJobs
    db.pendingPoolUnpublish db.pendingReprojection db.counter
  simp only [MarketStore.resolveToken]
  cases db.tokenMetadata.get address with
  | some _ => rfl
  | none =>
    cases symbol with
    | none => exact written db.pools db.tokenMetadata _
    | some symbol =>
      cases decimals with
      | none => exact written db.pools db.tokenMetadata _
      | some decimals => exact written _ _ _

theorem PoolBlind.settlePool (id : PoolId) (row : PoolRow) (activated : Bool) :
    view (settlePool db tally id row activated).1 = view db := by
  simp only [MarketStore.settlePool]
  rw [blind.resolveToken, blind.resolveToken]
  have queued := blind.activate db tally id activated
  generalize MarketStore.activate db tally id activated = state at queued ⊢
  exact (blind state.1 state.1.pools state.1.provenance state.1.tokenMetadata
    state.1.pendingTokenMetadata _ state.1.pendingReprojection state.1.counter).trans queued

theorem PoolBlind.upsertPool (fields : PoolFields) :
    Meets anyhow (fun after => view after.1 = view db) (upsertPool (db, tally) fields) := by
  have stored := fun (db : Db Lp) pools => blind db pools db.provenance db.tokenMetadata
    db.pendingTokenMetadata db.pendingPoolUnpublish db.pendingReprojection db.counter
  simp only [MarketStore.upsertPool]
  split
  · rw [meets_ok, blind.settlePool]
    exact (stored _ _).trans (blind.observe db fields.id fields.observation)
  · split
    · trivial
    · rw [meets_ok, blind.settlePool]
      exact (stored _ _).trans (blind.observe db fields.id fields.observation)

theorem PoolBlind.upsertPools (rows : List PoolFields) :
    Keeps view db (upsertPools db rows) := by
  apply meets_bind fun _ => True
  · exact (meets_anyhow _ _).mpr fun _ _ => trivial
  · intro normalized _
    apply meets_bind fun after : Db Lp × Tally => view after.1 = view db
    · apply meets_foldlM (fun after : Db Lp × Tally => view after.1 = view db) normalized _ rfl
      intro state fields _ same
      exact (blind.upsertPool state.1 state.2 fields).mono fun after kept => kept.trans same
    · rintro ⟨upserted, tally⟩ same
      rw [← same]
      apply keeps_bind view _ _ _ (blind.bump _ _ _)
      intro db
      apply keeps_bind view _ _ _ (blind.bump _ _ _)
      intro db
      apply keeps_bind view _ _ _ (blind.bump _ _ _)
      intro db
      apply keeps_bind view _ _ _ (blind.bump _ _ _)
      intro db
      exact blind.bump _ _ _

omit blind in
theorem Blind.bump (blind : Blind view) (db : Db Lp) (key : Counter) (amount : Int) :
    Keeps view db (db.bump key amount) :=
  blind.pools.bump db key amount

omit blind in
theorem Blind.queueEnrichment (blind : Blind view) (db : Db Lp) (events : List EventRow) :
    Keeps view db (queueEnrichment db events) :=
  (blind.bump _ _ _).mono fun _ kept => kept.trans
    (blind db db.pools db.provenance db.tokenMetadata db.pendingTokenMetadata
      db.pendingPoolUnpublish db.pendingReprojection _ db.counter)

end View

variable (projection : PriceProjection Lp) (db : Db Lp)

theorem bump_aside (key : Counter) (amount : Int) : Aside db (db.bump key amount) :=
  ledger_blind.bump db key amount

theorem valued_ledger (change : EventId → EventRow → EventRow) (lp : Lp)
    (kept : ∀ id row, (change id row).place = row.place) :
    ledger { db with events := db.events.modify change, lp := lp } = ledger db := by
  simp only [ledger, get_modify, Option.map_map, Function.comp_def, kept]

theorem apply_aside (events : Delivered) :
    Aside db (projection.apply db events) := by
  unfold PriceProjection.apply
  split
  · trivial
  · rename_i repriced _
    apply meets_bind fun after => ledger after = ledger db
    · apply meets_foldlM fun after => ledger after = ledger db
      · apply valued_ledger
        intro id row
        split <;> rfl
      · intro state chosen _ same
        exact (ledger_blind.pools.requeue state chosen).mono fun after kept => kept.trans same
    · intro requeued same
      rw [meets_pure, ← same]
      simp only [ledger, get_modify, Option.map_map, Function.comp_def]
      congr 1
      funext hash
      congr 1
      funext row
      split <;> rfl

variable (ancestor : Int)

theorem unwind_aside :
    Aside db (projection.rollback db ancestor) := by
  unfold PriceProjection.rollback
  split
  · trivial
  · apply valued_ledger
    intro id row
    unfold Unwinding.value
    split <;> rfl

/-! What the other statements do: blocks are added, and rows of stored blocks. -/

def Stands (blocks : OrderedTable Int Header) (place : Place) : Prop :=
  ∃ header, blocks.get place.blockNumber = some header ∧
    header.hash = place.blockHash ∧ header.timestamp = place.timestamp

def Mined (blocks : OrderedTable Int Header) (number : Int) (hash : Hash) : Prop :=
  ∃ header, blocks.get number = some header ∧ header.hash = hash

structure Grows (before after : Ledger) : Prop where
  blocks : ∀ number header, before.blocks.get number = some header →
    after.blocks.get number = some header
  place : ∀ id place, after.place id = some place →
    before.place id = some place ∨ Stands after.blocks place
  receipt : ∀ hash number block, after.receipt hash = some (number, block) →
    before.receipt hash = some (number, block) ∨ Mined after.blocks number block
  balance : ∀ key balance, after.balances.get key = some balance →
    before.balances.get key = some balance ∨ Mined after.blocks key.2 balance.blockHash
  epoch : after.epoch = before.epoch

theorem Stands.kept {before after : OrderedTable Int Header} {place : Place}
    (stands : Stands before place)
    (blocks : ∀ number header, before.get number = some header → after.get number = some header) :
    Stands after place := by
  obtain ⟨header, found, same⟩ := stands
  exact ⟨header, blocks _ header found, same⟩

theorem Mined.kept {before after : OrderedTable Int Header} {number : Int} {hash : Hash}
    (mined : Mined before number hash)
    (blocks : ∀ number header, before.get number = some header → after.get number = some header) :
    Mined after number hash := by
  obtain ⟨header, found, same⟩ := mined
  exact ⟨header, blocks _ header found, same⟩

theorem Grows.refl (state : Ledger) : Grows state state :=
  ⟨fun _ _ found => found, fun _ _ found => Or.inl found, fun _ _ _ found => Or.inl found,
    fun _ _ found => Or.inl found, rfl⟩

theorem Grows.trans {first second third : Ledger} (before : Grows first second)
    (after : Grows second third) : Grows first third := by
  constructor
  · intro number header found
    exact after.blocks number header (before.blocks number header found)
  · intro id place found
    rcases after.place id place found with old | new
    · exact (before.place id place old).imp_right fun stands => stands.kept after.blocks
    · exact Or.inr new
  · intro hash number block found
    rcases after.receipt hash number block found with old | new
    · exact (before.receipt hash number block old).imp_right fun mined => mined.kept after.blocks
    · exact Or.inr new
  · intro key balance found
    rcases after.balance key balance found with old | new
    · exact (before.balance key balance old).imp_right fun mined => mined.kept after.blocks
    · exact Or.inr new
  · exact after.epoch.trans before.epoch

theorem Grows.of_eq {before after : Ledger} (same : after = before) : Grows before after :=
  same ▸ Grows.refl after

structure Fills (before after : Ledger) : Prop extends Grows before after where
  same : after.blocks = before.blocks
  coverage : after.coverage = before.coverage

theorem Fills.of_eq {before after : Ledger} (same : after = before) : Fills before after :=
  ⟨.of_eq same, by rw [same], by rw [same]⟩

theorem Fills.trans {first second third : Ledger} (before : Fills first second)
    (after : Fills second third) : Fills first third :=
  ⟨before.toGrows.trans after.toGrows, after.same.trans before.same,
    after.coverage.trans before.coverage⟩

structure Stored (before after normalized : OrderedTable Int Header) : Prop where
  kept : ∀ number header, before.get number = some header → after.get number = some header
  placed : ∀ number header, normalized.get number = some header → after.get number = some header
  only : ∀ number header, after.get number = some header →
    before.get number = some header ∨ normalized.get number = some header

def Numbered (blocks : OrderedTable Int Header) : Prop :=
  ∀ number header, blocks.get number = some header → header.number = number

structure Supplied (headers : List Header) (normalized : OrderedTable Int Header) : Prop where
  numbered : Numbered normalized
  only : ∀ number header, normalized.get number = some header → header ∈ headers
  taken : ∀ header ∈ headers, normalized.get header.number = some header

variable (headers : List Header) (normalized : OrderedTable Int Header)

theorem addHeader_meets (header : Header) (member : header ∈ headers)
    (numbered : Numbered normalized)
    (only : ∀ number header, normalized.get number = some header → header ∈ headers) :
    Meets Refusal (fun next => (Numbered next ∧
        ∀ number header, next.get number = some header → header ∈ headers) ∧
      next.get header.number = some header ∧
      ∀ other : Header, normalized.get other.number = some other →
        next.get other.number = some other) (addHeader normalized header) := by
  unfold addHeader
  split
  · trivial
  · split
    · rename_i prior found
      split
      · trivial
      · rename_i same
        rw [not_not] at same
        exact ⟨⟨numbered, only⟩, same ▸ found, fun _ was => was⟩
    · rename_i absent
      refine ⟨⟨?_, ?_⟩, ?_, ?_⟩
      · intro number found placed
        rw [get_put] at placed
        split at placed
        · rename_i here
          rw [here, ← Option.some.inj placed]
        · exact numbered number found placed
      · intro number found placed
        rw [get_put] at placed
        split at placed
        · rw [← Option.some.inj placed]
          exact member
        · exact only number found placed
      · rw [get_put, if_pos rfl]
      · intro other was
        rw [get_put]
        split
        · rename_i here
          rw [here, absent] at was
          cases was
        · exact was

theorem addHeaders_meets :
    Meets Refusal (Supplied headers) (headers.foldlM addHeader .empty) := by
  apply (meets_foldlM_each
    (fun normalized => Numbered normalized ∧
      ∀ number header, normalized.get number = some header → header ∈ headers)
    (fun header normalized => normalized.get header.number = some header) headers .empty ?_
    fun normalized header member holds =>
      addHeader_meets headers normalized header member holds.1 holds.2).mono
  · rintro normalized ⟨⟨numbered, only⟩, taken, -⟩
    exact ⟨numbered, only, taken⟩
  · constructor
    · intro number header found
      cases found
    · intro number header found
      cases found

theorem storeHeader_meets (before blocks normalized : OrderedTable Int Header) (header : Header)
    (member : normalized.get header.number = some header)
    (agrees : contradicts before header = false)
    (kept : ∀ number old, before.get number = some old → blocks.get number = some old)
    (only : ∀ number found, blocks.get number = some found →
      before.get number = some found ∨ normalized.get number = some found) :
    Meets anyhow (fun next =>
      ((∀ number old, before.get number = some old → next.get number = some old) ∧
        ∀ number found, next.get number = some found →
          before.get number = some found ∨ normalized.get number = some found) ∧
      next.get header.number = some header ∧
      ∀ other : Header, blocks.get other.number = some other → next.get other.number = some other)
      (storeHeader blocks header) := by
  unfold storeHeader
  split
  · rename_i existing found
    have same : existing = header := by
      rcases only header.number existing found with old | new
      · unfold contradicts at agrees
        rw [old, Option.any_some, decide_eq_false_iff_not, not_not] at agrees
        exact agrees
      · rw [member] at new
        exact (Option.some.inj new).symm
    exact ⟨⟨kept, only⟩, same ▸ found, fun _ was => was⟩
  · rename_i absent
    split
    · trivial
    · have grown : ∀ number old, blocks.get number = some old →
          (blocks.put header.number header).get number = some old := by
        intro number old found
        rw [get_put, if_neg]
        · exact found
        · rintro rfl
          rw [absent] at found
          cases found
      refine ⟨⟨fun number old found => grown number old (kept number old found), ?_⟩, ?_,
        fun other was => grown other.number other was⟩
      · intro number found placed
        rw [get_put] at placed
        split at placed
        · rename_i here
          rw [here, ← Option.some.inj placed]
          exact Or.inr member
        · exact only number found placed
      · rw [get_put, if_pos rfl]

theorem mem_inNumberOrder (numbered : Numbered normalized) (header : Header) :
    header ∈ inNumberOrder normalized ↔
      normalized.get header.number = some header := by
  unfold inNumberOrder
  rw [List.mem_insertionSort, List.mem_map]
  constructor
  · rintro ⟨entry, member, rfl⟩
    have found := (get_some normalized entry.1 entry.2).mpr member
    rw [numbered entry.1 entry.2 found]
    exact found
  · intro found
    exact ⟨(header.number, header), (get_some _ _ _).mp found, rfl⟩

theorem checkHeaders_agree (blocks : OrderedTable Int Header) (ordered : List Header) :
    Meets anyhow (fun _ => ∀ header ∈ ordered, contradicts blocks header = false)
      (checkHeaders blocks ordered) := by
  unfold checkHeaders
  split
  · trivial
  · split
    · trivial
    · rename_i agree
      intro header member
      rw [Bool.not_eq_true, List.any_eq_false] at agree
      exact Bool.not_eq_true _ ▸ agree header member

theorem storeHeaders_meets :
    Meets anyhow (fun after => after.1 = { db with blocks := after.1.blocks } ∧
      Stored db.blocks after.1.blocks after.2 ∧ Supplied headers after.2)
      (storeHeaders db headers) := by
  apply meets_bind _ (addHeaders_meets headers).forget
  · intro normalized supplied
    have numbered := supplied.numbered
    apply meets_bind _ (checkHeaders_agree db.blocks (inNumberOrder normalized))
    intro _ agree
    apply meets_bind _ (meets_foldlM_each
      (fun blocks => (∀ number old, db.blocks.get number = some old →
          blocks.get number = some old) ∧
        ∀ number found, blocks.get number = some found →
          db.blocks.get number = some found ∨ normalized.get number = some found)
      (fun header blocks => blocks.get header.number = some header) _ db.blocks
      ⟨fun _ _ found => found, fun _ _ found => Or.inl found⟩
      fun blocks header member holds => storeHeader_meets db.blocks blocks normalized header
        ((mem_inNumberOrder normalized numbered header).mp member) (agree header member)
        holds.1 holds.2)
    rintro blocks ⟨⟨kept, only⟩, placed, -⟩
    refine ⟨rfl, ⟨kept, ?_, only⟩, supplied⟩
    intro number header found
    have same := numbered number header found
    subst same
    exact placed header ((mem_inNumberOrder normalized numbered header).mpr found)

theorem storeHeaders_get :
    Meets anyhow (fun after => ∀ number header, after.1.blocks.get number = some header ↔
        db.blocks.get number = some header ∨ header ∈ headers ∧ header.number = number)
      (storeHeaders db headers) := by
  apply (storeHeaders_meets db headers).mono
  rintro ⟨after, normalized⟩ ⟨-, stored, supplied⟩ number header
  constructor
  · intro found
    rcases stored.only number header found with old | new
    · exact Or.inl old
    · exact Or.inr ⟨supplied.only number header new, supplied.numbered number header new⟩
  · rintro (old | ⟨member, rfl⟩)
    · exact stored.kept number header old
    · exact stored.placed header.number header (supplied.taken header member)

theorem prepareEvent_meets (fields : EventFields)
    (placed : ∀ number header, normalized.get number = some header →
      db.blocks.get number = some header) :
    Meets anyhow (fun row => Stands db.blocks row.place) (prepareEvent db normalized fields) := by
  apply meets_bind fun _ => True
  · exact (meets_anyhow _ _).mpr fun _ _ => trivial
  · intro row _
    cases found : (normalized.get row.place.blockNumber).or
        (db.blocks.get row.place.blockNumber) with
    | none => trivial
    | some header =>
      dsimp only
      split
      · trivial
      · rename_i agree
        push Not at agree
        refine ⟨header, ?_, agree.1.symm, agree.2.symm⟩
        rcases Option.or_eq_some_iff.mp found with supplied | ⟨-, stored⟩
        · exact placed _ header supplied
        · exact stored

theorem insertEvent_fills (row : EventRow) (stands : Stands db.blocks row.place) :
    Fills (ledger db) (ledger (insertEvent db row).1) := by
  refine ⟨⟨fun _ _ found => found, ?_, fun _ _ _ found => Or.inl found,
    fun _ _ found => Or.inl found, rfl⟩, rfl, rfl⟩
  intro id place found
  simp only [ledger, insertEvent, get_put] at found
  split at found
  · cases found
    exact Or.inr stands
  · exact Or.inl found

theorem insertNewEvents_fills (rows : List EventRow) (state : Db Lp × Delivered)
    (stands : ∀ row ∈ rows, Stands state.1.blocks row.place) :
    Fills (ledger state.1) (ledger (rows.foldl insertNewEvent state).1) := by
  induction rows generalizing state with
  | nil => exact .of_eq rfl
  | cons row rest ih =>
    have here : Fills (ledger state.1) (ledger (insertNewEvent state row).1) := by
      unfold insertNewEvent
      split
      · exact .of_eq rfl
      · exact insertEvent_fills state.1 row (stands row List.mem_cons_self)
    have blocks : (insertNewEvent state row).1.blocks = state.1.blocks := here.same
    apply here.trans
    apply ih (insertNewEvent state row)
    intro other member
    rw [blocks]
    exact stands other (List.mem_cons_of_mem row member)

theorem canonical_mined (row : TransactionRow) (canonical : canonicalTransaction db row = true) :
    Mined db.blocks row.blockNumber row.blockHash := by
  obtain ⟨header, found, same⟩ := Option.any_eq_true _ _ |>.mp canonical
  exact ⟨header, found, of_decide_eq_true same⟩

theorem upserted_receipt (blocks : OrderedTable Int Header) (rows : List (Hash × TransactionRow))
    (table : OrderedTable Hash TransactionRow)
    (mined : ∀ row ∈ rows, Mined blocks row.2.blockNumber row.2.blockHash) (hash : Hash)
    (row : TransactionRow)
    (found : (table.upsertAll (rows.map fun row => (row.1, coalesceTransaction row.2))).get hash =
      some row) :
    table.get hash = some row ∨ Mined blocks row.blockNumber row.blockHash := by
  induction rows generalizing table with
  | nil => exact Or.inl found
  | cons first rest ih =>
    rcases ih _ (fun row member => mined row (List.mem_cons_of_mem first member)) found
      with here | later
    · simp only [OrderedTable.upsert, get_put] at here
      split at here
      · right
        have block := mined first List.mem_cons_self
        cases Option.some.inj here
        cases table.get first.1 <;> exact block
      · exact Or.inl here
    · exact Or.inr later

theorem upsertTransactions_fills (rows : List (Hash × TransactionRow)) :
    Meets anyhow (fun after => Fills (ledger db) (ledger after)) (upsertTransactions db rows) := by
  unfold upsertTransactions
  split
  · trivial
  · rename_i canonical
    have mined : ∀ row ∈ rows, Mined db.blocks row.2.blockNumber row.2.blockHash := by
      intro row member
      rw [Bool.not_eq_true, Bool.not_eq_false', List.all_eq_true] at canonical
      exact canonical_mined db row.2 (canonical row member)
    apply (bump_aside _ _ _).mono
    intro after same
    rw [same]
    refine ⟨⟨fun _ _ found => found, fun _ _ found => Or.inl found, ?_,
      fun _ _ found => Or.inl found, rfl⟩, rfl, rfl⟩
    intro hash number block found
    obtain ⟨row, here, same⟩ := Option.map_eq_some_iff.mp found
    cases same
    rcases upserted_receipt db.blocks rows db.transactions mined hash row here with old | new
    · left
      simp only [ledger, old, Option.map_some]
    · exact Or.inr new

theorem recordInserted_aside (lane : String) (inserted : Delivered) :
    Aside db (recordInserted db lane inserted) := by
  unfold recordInserted
  split
  · rfl
  · apply keeps_bind ledger _ _ _ (bump_aside _ _ _)
    intro bumped
    apply meets_bind _ (ledger_blind.queueEnrichment { bumped with eventsRevision := bumped.revision } _)
    intro queued same
    split <;> exact same

theorem deferInserted_aside (inserted : Delivered) :
    Aside db (deferInserted projection db inserted) := by
  apply keeps_bind ledger _ _ _ (bump_aside _ _ _)
  intro deferred
  rfl

theorem deliver_aside (events : Delivered) :
    Aside db (projection.deliver db events) := by
  unfold PriceProjection.deliver
  split
  · rfl
  · exact apply_aside projection db events

variable (call : IngestCall)

theorem project_aside (inserted : Delivered) : Aside db (project projection db call inserted) := by
  unfold project
  split
  · exact deliver_aside projection db inserted
  · split
    · rfl
    · exact deferInserted_aside projection db inserted

theorem ingestRows_fills
    (placed : ∀ number header, normalized.get number = some header →
      db.blocks.get number = some header) :
    Meets anyhow (fun after => Fills (ledger db) (ledger after.1))
      (ingestRows db normalized call) := by
  apply meets_bind _ (ledger_blind.pools.upsertPools db.nextRevision _)
  intro pooled same
  have blocks : pooled.blocks = db.blocks := congrArg Ledger.blocks same
  apply meets_bind _ (meets_mapM call.events fun fields _ =>
    prepareEvent_meets pooled normalized fields (blocks ▸ placed))
  intro prepared stands
  have fills := insertNewEvents_fills prepared (pooled, []) stands
  generalize prepared.foldl insertNewEvent (pooled, []) = state at fills ⊢
  obtain ⟨filled, inserted⟩ := state
  apply meets_bind _ (recordInserted_aside filled call.lane (inOrder inserted))
  intro recorded kept
  apply meets_bind _ (upsertTransactions_fills recorded call.transactions)
  intro stored received
  rw [kept] at received
  exact ((Fills.of_eq same).trans fills).trans received

theorem keepCursor_ledger :
    ledger (keepCursor db call) = ledger db := by
  unfold keepCursor
  split <;> rfl

theorem coverCursor_only :
    Meets anyhow (fun after => after = { db with coverage := after.coverage })
      (coverCursor db normalized call) := by
  unfold coverCursor
  split
  · unfold cover
    split
    · split
      · trivial
      · split <;> trivial
    · rfl
  · rfl

structure Ingested (db : Db Lp) (call : IngestCall) (after headed covered : Db Lp)
    (normalized : OrderedTable Int Header) : Prop where
  only : headed = { db with blocks := headed.blocks }
  stored : Stored db.blocks headed.blocks normalized
  covers : coverCursor headed normalized call = .ok covered
  aside : covered = { headed with coverage := covered.coverage }
  fills : Fills (ledger covered) (ledger after)

theorem ingest_meets :
    Meets anyhow (fun after => ∃ headed covered normalized,
      Ingested db call after.1 headed covered normalized) (ingest projection db call) := by
  unfold ingest
  split
  · trivial
  · apply meets_bind fun _ => True
    · exact (meets_anyhow _ _).mpr fun _ _ => trivial
    · intro _ _
      apply meets_bind _ (storeHeaders_meets db call.headers)
      rintro ⟨headed, normalized⟩ ⟨only, stored, -⟩
      apply meets_bind fun covered => coverCursor headed normalized call = .ok covered
      · exact (meets_anyhow _ _).mpr fun _ same => same
      · intro covered covers
        have aside := (coverCursor_only headed normalized call).value covers
        have blocks : covered.blocks = headed.blocks := by rw [aside]
        apply meets_bind _ (ingestRows_fills covered normalized call (blocks ▸ stored.placed))
        rintro ⟨filled, inserted⟩ fills
        apply meets_bind _ (project_aside projection (keepCursor filled call) call inserted)
        intro after same
        rw [keepCursor_ledger] at same
        exact ⟨headed, covered, normalized, only, stored, covers, aside,
          fills.trans (Fills.of_eq same)⟩

theorem Ingested.grows {db after headed covered : Db Lp} {call : IngestCall}
    {normalized : OrderedTable Int Header}
    (ingested : Ingested db call after headed covered normalized) :
    Grows (ledger db) (ledger after) := by
  have heads : Grows (ledger db) (ledger headed) := by
    rw [ingested.only]
    exact ⟨ingested.stored.kept, fun _ _ found => Or.inl found, fun _ _ _ found => Or.inl found,
      fun _ _ found => Or.inl found, rfl⟩
  have aside : Grows (ledger headed) (ledger covered) := by
    rw [ingested.aside]
    exact ⟨fun _ _ found => found, fun _ _ found => Or.inl found, fun _ _ _ found => Or.inl found,
      fun _ _ found => Or.inl found, rfl⟩
  exact (heads.trans aside).trans ingested.fills.toGrows

theorem ingest_blocks :
    Meets anyhow (fun after => ∃ headed, storeHeaders db call.headers = .ok headed ∧
        after.1.blocks = headed.1.blocks) (ingest projection db call) := by
  unfold ingest
  split
  · trivial
  · apply meets_bind fun _ => True
    · exact (meets_anyhow _ _).mpr fun _ _ => trivial
    · intro _ _
      apply meets_bind fun headed => storeHeaders db call.headers = .ok headed
      · exact (meets_anyhow _ _).mpr fun _ same => same
      · rintro ⟨headed, normalized⟩ returned
        have stored := ((storeHeaders_meets db call.headers).value returned).2.1
        apply meets_bind _ (coverCursor_only headed normalized call)
        intro covered aside
        have blocks : covered.blocks = headed.blocks := by rw [aside]
        apply meets_bind _ (ingestRows_fills covered normalized call (blocks ▸ stored.placed))
        rintro ⟨filled, inserted⟩ fills
        have kept : filled.blocks = covered.blocks := fills.same
        apply meets_bind _ (project_aside projection (keepCursor filled call) call inserted)
        intro after same
        rw [keepCursor_ledger] at same
        have last : after.blocks = filled.blocks := congrArg Ledger.blocks same
        exact ⟨(headed, normalized), returned, last.trans (kept.trans blocks)⟩

theorem currentEvent_meets (update : EventFields) :
    Meets anyhow (fun found => ∀ entry ∈ found, entry ∈ db.events.entries)
      (currentEvent db update) := by
  unfold currentEvent
  split
  · split
    · rename_i id _ _ row found
      rintro entry ⟨⟩
      exact (get_some db.events id row).mp found
    · trivial
  · apply (meets_anyhow _ _).mpr
    intro found returned
    obtain ⟨_, -, returned⟩ := (EventWords.bind_ok _ _ _).mp returned
    obtain ⟨_, -, returned⟩ := (EventWords.bind_ok _ _ _).mp returned
    obtain ⟨_, -, returned⟩ := (EventWords.bind_ok _ _ _).mp returned
    cases returned
    intro entry here
    exact List.mem_of_find?_eq_some here

theorem canonicalPlace_stands (place : Place) (canonical : canonicalPlace db place) :
    Stands db.blocks place := by
  obtain ⟨header, found, same⟩ := Option.any_eq_true _ _ |>.mp canonical
  rw [Bool.and_eq_true, decide_eq_true_eq, decide_eq_true_eq] at same
  exact ⟨header, found, same⟩

def Settled (db : Db Lp) (events : List Enriched) : Prop :=
  ∀ event ∈ events, Stands db.blocks event.row.place

theorem enrichEvent_fills (receipts : List (Hash × TransactionRow)) (state : EnrichState Lp)
    (update : EventFields) (settled : Settled state.db state.enriched) :
    Meets anyhow (fun after => Fills (ledger state.db) (ledger after.db) ∧
      Settled after.db after.enriched) (enrichEvent receipts state update) := by
  apply meets_bind fun _ => True
  · exact (meets_anyhow _ _).mpr fun _ _ => trivial
  · intro found _
    cases found with
    | some entry =>
      apply meets_bind fun _ => True
      · exact (meets_anyhow _ _).mpr fun _ _ => trivial
      · intro row _
        dsimp only
        split
        · trivial
        · split
          · trivial
          · rename_i canonical
            rw [Bool.not_eq_true, Bool.not_eq_false'] at canonical
            refine ⟨.of_eq rfl, ?_⟩
            intro event member
            rcases List.mem_append.mp member with old | new
            · exact settled event old
            · cases List.mem_singleton.mp new
              exact canonicalPlace_stands state.db row.place canonical
    | none =>
      apply meets_bind fun _ => True
      · exact (meets_anyhow _ _).mpr fun _ _ => trivial
      · intro row _
        dsimp only
        split
        · trivial
        · split
          · trivial
          · rename_i canonical
            rw [Bool.not_eq_true, Bool.not_eq_false'] at canonical
            have stands := canonicalPlace_stands state.db row.place canonical
            have fills := insertEvent_fills state.db row stands
            refine ⟨fills, ?_⟩
            intro event member
            rcases List.mem_append.mp member with old | new
            · exact settled event old
            · cases List.mem_singleton.mp new
              exact stands

theorem enrichEvents_fills (receipts : List (Hash × TransactionRow)) (updates : List EventFields)
    (db : Db Lp) : Meets anyhow (fun after => Fills (ledger db) (ledger after.db) ∧
      Settled after.db after.enriched)
      (updates.foldlM (enrichEvent receipts) (⟨db, [], 0⟩ : EnrichState Lp)) := by
  apply meets_foldlM (fun after : EnrichState Lp => Fills (ledger db) (ledger after.db) ∧
    Settled after.db after.enriched)
  · exact ⟨.of_eq rfl, fun event member => absurd member List.not_mem_nil⟩
  · rintro state update _ ⟨fills, settled⟩
    apply (enrichEvent_fills receipts state update settled).mono
    rintro after ⟨next, settles⟩
    exact ⟨fills.trans next, settles⟩

/-- The rows of enriched events replace rows of events, where they stood before or in
stored blocks. -/
theorem persist_fills (events : List Enriched)
    (settled : ∀ event ∈ events, (ledger db).place event.id = some event.row.place ∨
      Stands db.blocks event.row.place) : Fills (ledger db) (ledger (persist db events)) := by
  have replaced : ∀ (table : OrderedTable EventId EventRow) (id : EventId) (row : EventRow),
      (events.foldl (fun table event =>
        table.modify fun id row => if id = event.id then event.row else row) table).get id =
          some row → (table.get id).map EventRow.place = some row.place ∨
            (ledger db).place id = some row.place ∨ Stands db.blocks row.place := by
    induction events with
    | nil =>
      intro table id row found
      left
      rw [List.foldl_nil] at found
      rw [found, Option.map_some]
    | cons event rest ih =>
      intro table id row found
      rcases ih (fun other member => settled other (List.mem_cons_of_mem event member)) _ id row
        found with before | later
      · rw [get_modify, Option.map_map] at before
        obtain ⟨old, there, same⟩ := Option.map_eq_some_iff.mp before
        rw [Function.comp_apply] at same
        split at same
        · rename_i here
          right
          rw [here, ← same]
          exact settled event List.mem_cons_self
        · left
          rw [there, Option.map_some, same]
      · exact Or.inr later
  refine ⟨⟨fun _ _ found => found, ?_, fun _ _ _ found => Or.inl found,
    fun _ _ found => Or.inl found, rfl⟩, rfl, rfl⟩
  intro id place found
  obtain ⟨row, here, rfl⟩ := Option.map_eq_some_iff.mp found
  rcases replaced db.events id row here with old | settled
  · exact Or.inl old
  · exact settled

theorem dequeueEnrichment_aside (completed : List Hash) :
    Aside db (dequeueEnrichment db completed) :=
  bump_aside _ _ _

theorem companions_place (transactions : List (Hash × TransactionRow)) (represented : List Enriched)
    (event : Enriched) (member : event ∈ companions db transactions represented) :
    (ledger db).place event.id = some event.row.place := by
  obtain ⟨entry, there, rfl⟩ := List.mem_map.mp member
  have found := (get_some db.events entry.1 entry.2).mpr (List.mem_of_mem_filter there)
  simp only [ledger, found, Option.map_some]

theorem publishEnriched_fills (enriched : List Enriched)
    (transactions : List (Hash × TransactionRow))
    (settled : ∀ event ∈ enriched, (ledger db).place event.id = some event.row.place ∨
      Stands db.blocks event.row.place) :
    Meets anyhow (fun after => Fills (ledger db) (ledger after))
      (publishEnriched projection db enriched transactions) := by
  apply meets_bind _ (ledger_blind.pools.upsertPools db _)
  intro pooled same
  have persisted : Fills (ledger db)
      (ledger (if enriched.isEmpty then pooled else persist pooled enriched)) := by
    split
    · exact .of_eq same
    · apply (Fills.of_eq same).trans
      apply persist_fills pooled enriched
      have blocks : pooled.blocks = db.blocks := congrArg Ledger.blocks same
      rw [same, blocks]
      exact settled
  generalize (if enriched.isEmpty then pooled else persist pooled enriched) = middle at persisted ⊢
  apply meets_bind _ (upsertTransactions_fills middle transactions)
  intro stored received
  apply meets_bind _ (deliver_aside projection stored _)
  intro priced kept
  apply (dequeueEnrichment_aside priced _).mono
  intro after dequeued
  rw [dequeued, kept]
  exact persisted.trans received

theorem enrich_fills (updates : List EventFields) (transactions : List (Hash × TransactionRow)) :
    Meets anyhow (fun after => Fills (ledger db) (ledger after))
      (enrich projection db updates transactions) := by
  unfold enrich
  split
  · exact .of_eq rfl
  · apply meets_bind _ (enrichEvents_fills transactions updates db.nextRevision)
    rintro state ⟨fills, settled⟩
    apply meets_bind _ (bump_aside state.db _ _)
    intro bumped same
    have blocks : bumped.blocks = state.db.blocks := congrArg Ledger.blocks same
    apply (publishEnriched_fills projection bumped _ transactions ?_).mono
    · intro after published
      rw [same] at published
      exact fills.trans published
    · intro event member
      unfold enrichedOrder at member
      rw [List.mem_insertionSort] at member
      rcases List.mem_append.mp member with updated | companion
      · right
        rw [blocks]
        exact settled event updated
      · left
        exact companions_place bumped transactions state.enriched event companion

theorem reproject_aside (ids : List EventId) :
    Aside db (reproject projection db ids) := by
  unfold reproject
  split
  · rfl
  · apply meets_bind fun after => ledger after = ledger db
    · apply (deliver_aside projection _ _).mono
      intro after same
      apply same.trans (valued_ledger db _ db.lp _)
      intro id row
      split <;> rfl
    · intro repriced same
      rw [← same]
      exact bump_aside _ _ _

theorem saveTokenMetadata_aside (address : Address) (symbol : String) (decimals : Int) :
    Aside db (saveTokenMetadata db address symbol decimals) := by
  unfold saveTokenMetadata
  split
  · trivial
  · apply meets_bind _ (ledger_blind.pools.requeue _ _)
    intro queued same
    apply meets_bind _ (bump_aside _ _ _)
    intro after dequeued
    exact dequeued.trans same

theorem recoverMissingEnrichment_aside (reader db : Db Lp) (limit : Nat) :
    Aside db (recoverMissingEnrichment reader db limit) := by
  unfold recoverMissingEnrichment
  dsimp only
  split
  · rfl
  · split
    · rfl
    · apply meets_bind _ (ledger_blind.queueEnrichment _ _)
      intro queued same
      exact same

theorem upsertPoolsCall_aside (rows : List PoolFields) :
    Aside db (upsertPoolsCall db rows) := by
  apply meets_bind _ (ledger_blind.pools.upsertPools db rows)
  intro after same
  split <;> exact same

theorem accepted_mined (item : BalanceItem) (accepted : refused db item = none) :
    Mined db.blocks item.blockNumber item.blockHash := by
  unfold refused at accepted
  split at accepted
  · cases accepted
  · split at accepted
    · cases accepted
    · rename_i canonical
      rw [Bool.not_eq_true, Bool.not_eq_false'] at canonical
      obtain ⟨header, found, same⟩ := Option.any_eq_true _ _ |>.mp canonical
      exact ⟨header, found, of_decide_eq_true same⟩

theorem publishBalances_fills (items : List BalanceItem)
    (mined : ∀ item ∈ items, Mined db.blocks item.blockNumber item.blockHash) :
    Meets anyhow (fun after => Fills (ledger db) (ledger after)) (publishBalances db items) := by
  unfold publishBalances
  dsimp only
  split
  · trivial
  · apply meets_bind _ (bump_aside _ _ _)
    intro after same
    apply Fills.trans _ (Fills.of_eq same)
    refine ⟨⟨fun _ _ found => found, fun _ _ found => Or.inl found,
      fun _ _ _ found => Or.inl found, ?_, rfl⟩, rfl, rfl⟩
    intro key balance found
    rcases mem_putAll _ _ _ ((get_some _ _ _).mp found) with old | new
    · exact Or.inl ((get_some _ _ _).mpr old)
    · obtain ⟨item, member, same⟩ := List.mem_map.mp new
      cases same
      exact Or.inr (mined item member)

theorem saveV3Balances_fills (items : List BalanceItem) :
    Meets anyhow (fun after => Fills (ledger db) (ledger after.1)) (saveV3Balances db items) := by
  unfold saveV3Balances
  dsimp only
  split
  · exact .of_eq rfl
  · apply meets_bind _ (publishBalances_fills db _ _)
    · intro after fills
      exact fills
    · intro item member
      obtain ⟨entry, publishable, rfl⟩ := List.mem_map.mp member
      have accepted := (List.mem_filter.mp publishable).2
      rw [decide_eq_true_eq, itemOutcome, Option.or_eq_none_iff] at accepted
      exact accepted_mined db entry.1 accepted.2

def Call.keepsBlocks : Call Lp → Prop
  | .ingest _ => False
  | .rollback _ _ => False
  | _ => True

theorem perform_fills (call : Call Lp) (keeps : Call.keepsBlocks call) :
    Meets anyhow (fun after => Fills (ledger db) (ledger after)) (perform projection db call) := by
  cases call with
  | ingest call => cases keeps
  | rollback ancestor header => cases keeps
  | enrich updates transactions => exact enrich_fills projection db updates transactions
  | reproject ids => exact (reproject_aside projection db ids).mono fun _ => .of_eq
  | upsertPools rows => exact (upsertPoolsCall_aside db rows).mono fun _ => .of_eq
  | saveTokenMetadata address symbol decimals =>
    exact (saveTokenMetadata_aside db address symbol decimals).mono fun _ => .of_eq
  | queueV3Balances pools number hash => exact (bump_aside _ _ _).mono fun _ => .of_eq
  | saveV3Balances items =>
    apply meets_bind _ (saveV3Balances_fills db items)
    intro after fills
    exact fills
  | recoverMissingEnrichment reader limit =>
    exact (recoverMissingEnrichment_aside reader db limit).mono fun _ => .of_eq
  | completePoolUnpublishes pools => exact (bump_aside _ _ _).mono fun _ => .of_eq
  | recordEnrichmentFailure hash error next => exact .of_eq rfl
  | markReprojectionError ids error next => exact .of_eq rfl
  | markTokenMetadataError address error next => exact .of_eq rfl
  | markV3BalanceError key hash error next => exact .of_eq rfl

def cutLedger (state : Ledger) (ancestor : Int) : Ledger :=
  let blocks := state.blocks.remove fun number _ => ancestor < number
  { blocks := blocks
    coverage := cutCoverage blocks ancestor state.coverage
    place := fun id => (state.place id).filter fun place => place.blockNumber ≤ ancestor
    receipt := fun hash => (state.receipt hash).filter fun block => block.1 ≤ ancestor
    balances := state.balances.remove fun key _ => ancestor < key.2
    epoch := state.epoch + 1 }

theorem lowerCounters_keeps {View : Type} (view : Db Lp → View)
    (blind : ∀ db counter, view { db with counter := counter } = view db) (db : Db Lp)
    (removed : Removed) (tokens : Nat) :
    Meets anyhow (fun after => view after = view db) (lowerCounters db removed tokens) := by
  have bumps := fun key amount (other : Db Lp) (same : view other = view db) =>
    (bump_keeps view blind other key amount).mono fun _ kept => kept.trans same
  apply meets_bind _ (bumps .indexedEvents _ db rfl)
  intro first same
  apply meets_bind _ (bumps .indexedTransactions _ first same)
  intro second same
  apply meets_bind _ (bumps .pendingEnrichment _ second same)
  intro third same
  apply meets_bind _ (bumps .pendingBalances _ third same)
  intro fourth same
  apply meets_bind _ (bumps .pendingReprojection _ fourth same)
  intro fifth same
  apply meets_bind _ (bumps .pendingMetadata _ fifth same)
  intro sixth same
  exact bumps .indexedPools _ sixth same

theorem rewindCursor_ledger (lane : String) :
    ledger (rewindCursor db ancestor lane) = ledger db := by
  unfold rewindCursor
  split
  · split <;> rfl
  · rfl

theorem filter_map_not {α β : Type} (value : Option α) (view : α → β) (above : β → Prop)
    [DecidablePred above] (below : β → Prop) [DecidablePred below]
    (opposite : ∀ item, ¬above item ↔ below item) :
    (value.filter fun item => !decide (above (view item))).map view =
      (value.map view).filter fun item => decide (below item) := by
  cases value with
  | none => rfl
  | some item => by_cases high : above (view item) <;> simp [Option.filter, high, ← opposite]

theorem cut_ledger :
    Meets anyhow (fun after => ledger after = cutLedger (ledger db) ancestor) (cut db ancestor) := by
  apply meets_bind _ (bump_aside _ _ _)
  intro unpublished same
  dsimp only
  split
  · trivial
  · apply meets_bind _ (lowerCounters_keeps ledger (fun _ _ => rfl) _ _ _)
    intro lowered kept
    refine Eq.trans ?_ (congrArg (cutLedger · ancestor) same)
    rw [rewindCursor_ledger, rewindCursor_ledger] at kept
    refine Eq.trans (congrArg (fun state : Ledger => { state with epoch := state.epoch + 1 }) kept) ?_
    simp only [ledger, cutBlocks, cutOrphans, cutRows, cutLedger, get_remove]
    congr 1
    · funext id
      exact filter_map_not _ EventRow.place (fun place => ancestor < place.blockNumber)
        (fun place => place.blockNumber ≤ ancestor) fun _ => Int.not_lt
    · funext hash
      exact filter_map_not _ (fun row : TransactionRow => (row.blockNumber, row.blockHash))
        (fun block => ancestor < block.1) (fun block => block.1 ≤ ancestor) fun _ => Int.not_lt

theorem rollback_ledger (header : Option Header) :
    Meets anyhow (fun after => ∃ blocks normalized, Stored db.blocks blocks normalized ∧
        ledger after = cutLedger { ledger db with blocks := blocks } ancestor)
      (rollback projection db ancestor header) := by
  unfold rollback
  split
  · trivial
  · split
    · trivial
    · apply meets_bind _ (unwind_aside projection db ancestor)
      intro unwound same
      apply meets_bind _ (storeHeaders_meets unwound header.toList)
      rintro ⟨headed, normalized⟩ ⟨only, stored, -⟩
      apply (cut_ledger headed ancestor).mono
      intro after cuts
      have blocks : unwound.blocks = db.blocks := congrArg Ledger.blocks same
      refine ⟨headed.blocks, normalized, blocks ▸ stored, ?_⟩
      rw [cuts, ← same]
      dsimp only at only
      rw [only]
      rfl

theorem rollback_blocks (header : Option Header) :
    Meets anyhow (fun after => ∃ unwound headed, projection.rollback db ancestor = .ok unwound ∧
        storeHeaders unwound header.toList = .ok headed ∧
        after.blocks = headed.1.blocks.remove fun number _ => ancestor < number)
      (rollback projection db ancestor header) := by
  unfold rollback
  split
  · trivial
  · split
    · trivial
    · apply meets_bind fun unwound => projection.rollback db ancestor = .ok unwound
      · exact (meets_anyhow _ _).mpr fun _ same => same
      · intro unwound values
        apply meets_bind fun headed => storeHeaders unwound header.toList = .ok headed
        · exact (meets_anyhow _ _).mpr fun _ same => same
        · intro headed returned
          apply (cut_ledger headed.1 ancestor).mono
          intro after cuts
          exact ⟨unwound, headed, values, returned, congrArg Ledger.blocks cuts⟩

theorem perform_blocks (holds : OrderedTable Int Header → Prop)
    (stores : ∀ (db : Db Lp) headers, holds db.blocks →
      Meets anyhow (fun after => holds after.1.blocks) (storeHeaders db headers))
    (cuts : ∀ blocks ancestor, holds blocks →
      holds (blocks.remove fun number _ => ancestor < number)) (db : Db Lp) (call : Call Lp)
    (before : holds db.blocks) :
    Meets anyhow (fun after => holds after.blocks) (perform projection db call) := by
  have others := fun keeps => (perform_fills projection db call keeps).mono
    fun after fills => (show after.blocks = db.blocks from fills.same) ▸ before
  cases call with
  | ingest call =>
    apply meets_bind _ (ingest_blocks projection db call)
    rintro after ⟨headed, returned, same⟩
    rw [meets_pure, same]
    exact (stores db call.headers before).value returned
  | rollback ancestor header =>
    apply (rollback_blocks projection db ancestor header).mono
    rintro after ⟨unwound, headed, values, returned, same⟩
    have blocks : unwound.blocks = db.blocks :=
      congrArg Ledger.blocks ((unwind_aside projection db ancestor).value values)
    rw [same]
    exact cuts _ ancestor ((stores unwound header.toList (blocks ▸ before)).value returned)
  | _ => exact others trivial

/-- What every committed call that meets a condition keeps holds of every store that such
calls reach. -/
theorem store_guarded (allowed : Db Lp → Call Lp → Prop) (holds : Db Lp → List (Call Lp) → Prop)
    (initially : ∀ lp, holds (.fresh lp) [])
    (kept : ∀ db done call, holds db done → allowed db call →
      Meets anyhow (fun after => holds after (call :: done)) (perform projection db call))
    (state : Db Lp × List (Call Lp))
    (reached : (store projection).Reaches (fun state call => allowed state.1 call) state) :
    holds state.1 state.2 := by
  apply System.Reaches.invariant (fun state => holds state.1 state.2) _ _ state reached
  · rintro state ⟨lp, rfl⟩
    exact initially lp
  · intro before call next holds met taken
    simp only [store] at taken
    split at taken
    · rename_i after performed
      cases taken
      exact (kept before.1 before.2 call holds met).value performed
    · cases taken
      exact holds

theorem store_invariant (holds : Db Lp → List (Call Lp) → Prop)
    (initially : ∀ lp, holds (.fresh lp) [])
    (kept : ∀ db done call, holds db done →
      Meets anyhow (fun after => holds after (call :: done)) (perform projection db call))
    (state : Db Lp × List (Call Lp)) (reached : (store projection).Reaches always state) :
    holds state.1 state.2 :=
  store_guarded projection (fun _ _ => True) holds initially
    (fun db done call was _ => kept db done call was) state reached

def unpriced : PriceProjection Unit where
  reprice db _ := .ok
    { valuation := fun id => ((db.events.get id).map EventRow.valuation).getD
        ⟨fun _ => none, none, fun _ => none⟩
      successors := [], gas := fun _ => none, tables := () }
  unwind _ _ := .ok { valuation := fun _ => none, tables := () }
  rollUp _ _ := ()

def sampleHeader (number : Nat) : Header :=
  ⟨number, BitVec.ofNat 256 (number + 10), BitVec.ofNat 256 (number + 9), number⟩

end RhPools.StoreLedger
