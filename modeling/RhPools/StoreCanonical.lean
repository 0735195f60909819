import RhPools.StoreCounters

/-! Reorganisations. Every stored row stands in a stored block; a rollback removes what is
above the ancestor and leaves the rest as it was; and a call that comes too late, for a block
that is no longer stored, is refused. An ingest brings its headers along, and is refused by
what it says of the store it was prepared on: its epoch, or a header that is stored otherwise. -/

namespace RhPools.StoreCanonical
open OrderedTables MarketTables MarketStore CheckedSteps StoreLedger StoreCounters
open EventWords (Hash)
open GuardedRuns

variable {Lp : Type}

structure Canonical (state : Ledger) : Prop where
  place : ∀ id place, state.place id = some place → Stands state.blocks place
  receipt : ∀ hash number block, state.receipt hash = some (number, block) →
    Mined state.blocks number block
  balance : ∀ key balance, state.balances.get key = some balance →
    Mined state.blocks key.2 balance.blockHash

theorem grows_canonical {before after : Ledger} (grows : Grows before after)
    (canonical : Canonical before) : Canonical after := by
  constructor
  · intro id place found
    rcases grows.place id place found with old | new
    · exact (canonical.place id place old).kept grows.blocks
    · exact new
  · intro hash number block found
    rcases grows.receipt hash number block found with old | new
    · exact (canonical.receipt hash number block old).kept grows.blocks
    · exact new
  · intro key balance found
    rcases grows.balance key balance found with old | new
    · exact (canonical.balance key balance old).kept grows.blocks
    · exact new

variable (blocks : OrderedTable Int Header)

theorem cut_header (ancestor number : Int) (header : Header)
    (found : blocks.get number = some header) (below : number ≤ ancestor) :
    (blocks.remove fun number _ => ancestor < number).get number = some header := by
  rw [get_remove, found, Option.filter_some, if_pos]
  simp [below]

theorem cut_canonical (state : Ledger) (ancestor : Int) (canonical : Canonical state) :
    Canonical (cutLedger state ancestor) := by
  constructor
  · intro id place found
    obtain ⟨held, below⟩ := Option.filter_eq_some_iff.mp found
    obtain ⟨header, stored, same⟩ := canonical.place id place held
    exact ⟨header, cut_header _ _ _ header stored (of_decide_eq_true below), same⟩
  · intro hash number block found
    obtain ⟨held, below⟩ := Option.filter_eq_some_iff.mp found
    obtain ⟨header, stored, same⟩ := canonical.receipt hash number block held
    exact ⟨header, cut_header _ _ _ header stored (of_decide_eq_true below), same⟩
  · intro key balance found
    dsimp only [cutLedger] at found
    rw [get_remove] at found
    obtain ⟨held, below⟩ := Option.filter_eq_some_iff.mp found
    obtain ⟨header, stored, same⟩ := canonical.balance key balance held
    rw [Bool.not_eq_true', decide_eq_false_iff_not, Int.not_lt] at below
    exact ⟨header, cut_header _ _ _ header stored below, same⟩

def rollbacks : List (Call Lp) → Nat
  | [] => 0
  | .rollback _ _ :: earlier => rollbacks earlier + 1
  | _ :: earlier => rollbacks earlier

theorem keepsBlocks_rollbacks (call : Call Lp) (done : List (Call Lp))
    (keeps : Call.keepsBlocks call) : rollbacks (call :: done) = rollbacks done := by
  cases call with
  | rollback ancestor header => cases keeps
  | _ => rfl

structure Standing (db : Db Lp) (done : List (Call Lp)) : Prop where
  canonical : Canonical (ledger db)
  epoch : db.epoch = rollbacks done

variable (projection : PriceProjection Lp) (db : Db Lp)

theorem perform_standing (done : List (Call Lp)) (call : Call Lp) (standing : Standing db done) :
    Meets anyhow (fun after => Standing after (call :: done)) (perform projection db call) := by
  by_cases keeps : Call.keepsBlocks call
  · apply (perform_fills projection db call keeps).mono
    intro after fills
    have epoch : after.epoch = db.epoch := fills.epoch
    exact ⟨grows_canonical fills.toGrows standing.canonical,
      epoch.trans (standing.epoch.trans (keepsBlocks_rollbacks call done keeps).symm)⟩
  · cases call with
    | ingest call =>
      apply meets_bind _ (ingest_meets projection db call)
      rintro ⟨after, inserted⟩ ⟨headed, covered, normalized, ingested⟩
      have epoch : after.epoch = db.epoch := ingested.grows.epoch
      exact ⟨grows_canonical ingested.grows standing.canonical, epoch.trans standing.epoch⟩
    | rollback ancestor header =>
      apply (rollback_ledger projection db ancestor header).mono
      rintro after ⟨blocks, normalized, stored, same⟩
      have epoch : after.epoch = db.epoch + 1 := congrArg Ledger.epoch same
      constructor
      · rw [same]
        apply cut_canonical
        have grown : Grows (ledger db) { ledger db with blocks := blocks } :=
          ⟨stored.kept, fun _ _ found => Or.inl found, fun _ _ _ found => Or.inl found,
            fun _ _ found => Or.inl found, rfl⟩
        exact grows_canonical grown standing.canonical
      · rw [epoch, standing.epoch]
        rfl
    | _ => exact absurd trivial keeps

theorem store_standing (state : Db Lp × List (Call Lp))
    (reached : (store projection).Reaches always state) : Standing state.1 state.2 := by
  apply store_invariant projection Standing _ _ state reached
  · intro lp
    refine ⟨⟨?_, ?_, ?_⟩, rfl⟩
    · intro id place found
      cases found
    · intro hash number block found
      cases found
    · intro key balance found
      cases found
  · exact perform_standing projection

structure Chain where
  events : OrderedTable EventId EventRow
  transactions : OrderedTable Hash TransactionRow
  balances : OrderedTable (PoolId × Int) Balance
  blocks : OrderedTable Int Header
  coverage : List Coverage
  enrichments : OrderedTable Hash EnrichmentJob
  reprojections : OrderedTable EventId ReprojectionJob
  balanceJobs : OrderedTable (PoolId × Int) BalanceJob

def chain (db : Db Lp) : Chain :=
  { events := db.events, transactions := db.transactions, balances := db.poolBalances
    blocks := db.blocks, coverage := db.coverage, enrichments := db.pendingEnrichment
    reprojections := db.pendingReprojection, balanceJobs := db.pendingBalances }

def cutChain (state : Chain) (ancestor : Int) : Chain :=
  let blocks := state.blocks.remove fun number _ => ancestor < number
  { events := state.events.remove fun _ row => ancestor < row.place.blockNumber
    transactions := state.transactions.remove fun _ row => ancestor < row.blockNumber
    balances := state.balances.remove fun key _ => ancestor < key.2
    blocks := blocks, coverage := cutCoverage blocks ancestor state.coverage
    enrichments := state.enrichments.remove fun _ job => ancestor < job.blockNumber
    reprojections := state.reprojections.remove fun _ job => ancestor < job.blockNumber
    balanceJobs := state.balanceJobs.remove fun key _ => ancestor < key.2 }

variable (ancestor : Int)

theorem rewindCursor_chain (lane : String) :
    chain (rewindCursor db ancestor lane) = chain db := by
  unfold rewindCursor
  split
  · split <;> rfl
  · rfl

theorem cut_chain :
    Meets anyhow (fun after => chain after = cutChain (chain db) ancestor) (cut db ancestor) := by
  unfold cut
  apply meets_bind _ (bump_keeps chain (fun _ _ => rfl) _ _ _)
  intro unpublished same
  dsimp only
  split
  · trivial
  · apply meets_bind _ (lowerCounters_keeps chain (fun _ _ => rfl) _ _ _)
    intro lowered kept
    rw [rewindCursor_chain, rewindCursor_chain] at kept
    exact Eq.trans kept (congrArg (cutChain · ancestor) same)

structure RolledBack (before after : Db Lp) (ancestor : Int) : Prop where
  events : ∀ id row, after.events.get id = some row → row.place.blockNumber ≤ ancestor
  transactions : ∀ hash row, after.transactions.get hash = some row → row.blockNumber ≤ ancestor
  balances : ∀ key balance, after.poolBalances.get key = some balance → key.2 ≤ ancestor
  blocks : ∀ number header, after.blocks.get number = some header → number ≤ ancestor
  coverage : ∀ row ∈ after.coverage, row.endBlock ≤ ancestor
  enrichments : ∀ hash job, after.pendingEnrichment.get hash = some job →
    job.blockNumber ≤ ancestor
  reprojections : ∀ id job, after.pendingReprojection.get id = some job →
    job.blockNumber ≤ ancestor
  balanceJobs : ∀ key job, after.pendingBalances.get key = some job → key.2 ≤ ancestor
  keptEvents : ∀ id row, before.events.get id = some row → row.place.blockNumber ≤ ancestor →
    ∃ kept, after.events.get id = some kept ∧ kept.place = row.place ∧ kept.terms = row.terms
  keptTransactions : ∀ hash row, before.transactions.get hash = some row →
    row.blockNumber ≤ ancestor → after.transactions.get hash = some row
  keptBalances : ∀ key balance, before.poolBalances.get key = some balance →
    key.2 ≤ ancestor → after.poolBalances.get key = some balance
  keptBlocks : ∀ number header, before.blocks.get number = some header →
    number ≤ ancestor → after.blocks.get number = some header

theorem removed_below {Key Value : Type} [DecidableEq Key] (table : OrderedTable Key Value)
    (number : Key → Value → Int) (ancestor : Int) (key : Key) (value : Value)
    (found : (table.remove fun key value => ancestor < number key value).get key = some value) :
    number key value ≤ ancestor := by
  rw [get_remove] at found
  have below := (Option.filter_eq_some_iff.mp found).2
  rw [Bool.not_eq_true', decide_eq_false_iff_not, Int.not_lt] at below
  exact below

theorem removed_keeps {Key Value : Type} [DecidableEq Key] (table : OrderedTable Key Value)
    (number : Key → Value → Int) (ancestor : Int) (key : Key) (value : Value)
    (found : table.get key = some value) (below : number key value ≤ ancestor) :
    (table.remove fun key value => ancestor < number key value).get key = some value := by
  rw [get_remove, found, Option.filter_some, if_pos]
  simp [below]

theorem cut_coverage_below (coverage : List Coverage) (row : Coverage)
    (member : row ∈ cutCoverage blocks ancestor coverage) : row.endBlock ≤ ancestor := by
  unfold cutCoverage at member
  dsimp only at member
  split at member
  · exact of_decide_eq_true (List.mem_filter.mp member).2
  · obtain ⟨old, _, rfl⟩ := List.mem_map.mp member
    unfold shorten
    split
    · exact le_rfl
    · rename_i low
      exact Int.not_lt.mp low

theorem unwind_events :
    Meets anyhow (fun after => chain after = { chain db with events := after.events } ∧
      ∀ id row, db.events.get id = some row → ∃ kept, after.events.get id = some kept ∧
        kept.place = row.place ∧ kept.terms = row.terms) (projection.rollback db ancestor) := by
  unfold PriceProjection.rollback
  split
  · trivial
  · refine ⟨rfl, ?_⟩
    intro id row found
    dsimp only
    rw [get_modify, found, Option.map_some]
    refine ⟨_, rfl, ?_⟩
    unfold Unwinding.value
    split <;> exact ⟨rfl, rfl⟩

theorem rolled_back (db after : Db Lp) (ancestor : Int) (events : OrderedTable EventId EventRow)
    (blocks : OrderedTable Int Header)
    (valued : ∀ id row, db.events.get id = some row → ∃ kept, events.get id = some kept ∧
      kept.place = row.place ∧ kept.terms = row.terms)
    (stored : ∀ number header, db.blocks.get number = some header →
      blocks.get number = some header)
    (cuts : chain after = cutChain { chain db with events := events, blocks := blocks } ancestor) :
    RolledBack db after ancestor := by
  have eventsCut : after.events = events.remove fun _ row => ancestor < row.place.blockNumber :=
    congrArg Chain.events cuts
  have transactionsCut : after.transactions = db.transactions.remove fun _ row =>
    ancestor < row.blockNumber := congrArg Chain.transactions cuts
  have balancesCut : after.poolBalances = db.poolBalances.remove fun key _ => ancestor < key.2 :=
    congrArg Chain.balances cuts
  have blocksCut : after.blocks = blocks.remove fun number _ => ancestor < number :=
    congrArg Chain.blocks cuts
  have coverageCut : after.coverage = cutCoverage (blocks.remove fun number _ => ancestor < number)
    ancestor db.coverage := congrArg Chain.coverage cuts
  have enrichmentsCut : after.pendingEnrichment = db.pendingEnrichment.remove fun _ job =>
    ancestor < job.blockNumber := congrArg Chain.enrichments cuts
  have reprojectionsCut : after.pendingReprojection = db.pendingReprojection.remove fun _ job =>
    ancestor < job.blockNumber := congrArg Chain.reprojections cuts
  have balanceJobsCut : after.pendingBalances = db.pendingBalances.remove fun key _ =>
    ancestor < key.2 := congrArg Chain.balanceJobs cuts
  constructor
  · intro id row found
    exact removed_below events (fun _ row => row.place.blockNumber) ancestor id row
      (eventsCut ▸ found)
  · intro hash row found
    exact removed_below db.transactions (fun _ row => row.blockNumber) ancestor hash row
      (transactionsCut ▸ found)
  · intro key balance found
    exact removed_below db.poolBalances (fun key _ => key.2) ancestor key balance
      (balancesCut ▸ found)
  · intro number header found
    exact removed_below blocks (fun number _ => number) ancestor number header (blocksCut ▸ found)
  · intro row member
    exact cut_coverage_below _ ancestor db.coverage row (coverageCut ▸ member)
  · intro hash job found
    exact removed_below db.pendingEnrichment (fun _ job => job.blockNumber) ancestor hash job
      (enrichmentsCut ▸ found)
  · intro id job found
    exact removed_below db.pendingReprojection (fun _ job => job.blockNumber) ancestor id job
      (reprojectionsCut ▸ found)
  · intro key job found
    exact removed_below db.pendingBalances (fun key _ => key.2) ancestor key job
      (balanceJobsCut ▸ found)
  · intro id row found below
    obtain ⟨kept, there, place, terms⟩ := valued id row found
    refine ⟨kept, ?_, place, terms⟩
    rw [eventsCut]
    exact removed_keeps events (fun _ row => row.place.blockNumber) ancestor id kept there
      (place ▸ below)
  · intro hash row found below
    rw [transactionsCut]
    exact removed_keeps db.transactions (fun _ row => row.blockNumber) ancestor hash row found below
  · intro key balance found below
    rw [balancesCut]
    exact removed_keeps db.poolBalances (fun key _ => key.2) ancestor key balance found below
  · intro number header found below
    rw [blocksCut]
    exact removed_keeps blocks (fun number _ => number) ancestor number header
      (stored number header found) below

theorem rollback_rolls (header : Option Header) :
    Meets anyhow (fun after => RolledBack db after ancestor)
      (rollback projection db ancestor header) := by
  unfold rollback
  split
  · trivial
  · split
    · trivial
    · apply meets_bind _ (unwind_events projection db ancestor)
      rintro unwound ⟨same, valued⟩
      apply meets_bind _ (storeHeaders_meets unwound header.toList)
      rintro ⟨headed, normalized⟩ ⟨only, stored, -⟩
      apply (cut_chain headed ancestor).mono
      intro after cuts
      have heads : chain headed = { chain unwound with blocks := headed.blocks } := by
        dsimp only at only
        rw [only]
        rfl
      rw [heads, same] at cuts
      have blocks : unwound.blocks = db.blocks := congrArg Chain.blocks same
      exact rolled_back db after ancestor unwound.events headed.blocks valued
        (fun number header found => stored.kept number header (blocks ▸ found)) cuts

end RhPools.StoreCanonical
