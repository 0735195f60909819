import RhPools.StoreLedger

/-! The row counts in the metadata of a store. Within a transaction a count may owe what its
table has gained or lost; every statement that counts pays exactly that, so that no count is
ever negative. -/

namespace RhPools.StoreCounters
open TxChain (Address)
open OrderedTables MarketTables MarketStore CheckedSteps StoreLedger
open EventWords (Hash)
open GuardedRuns

variable {Lp : Type}

abbrev Debt := Counter → Int

structure Owing (debt : Debt) (db : Db Lp) : Prop where
  rows : ∀ key, (db.rows key : Int) = db.counter key + debt key
  fresh : ∀ id row, db.events.get id = some row → id ≤ db.lastEventId

abbrev Counted (db : Db Lp) : Prop := Owing (fun _ => 0) db

def notNegative (failure : Failure) : Prop := ∀ key, failure ≠ .negative key

theorem refusal_notNegative (failure : Failure) (refusal : Refusal failure) :
    notNegative failure := by
  rintro key rfl
  exact refusal

theorem counting {α : Type} {post : α → Prop} {step : Write α} (meets : Meets Refusal post step) :
    Meets notNegative post step :=
  meets.allow refusal_notNegative

variable {allowed : Failure → Prop}

/-- The debt once a table has `amount` rows more. -/
def owe (debt : Debt) (key : Counter) (amount : Int) : Debt :=
  Function.update debt key (debt key + amount)

variable (debt : Debt) (projection : PriceProjection Lp) (db : Db Lp) (events : Delivered)
  (tally : Tally) (id : PoolId) (key : Counter) (amount : Int)

theorem owe_self :
    owe debt key amount key = debt key + amount :=
  Function.update_self ..

theorem owe_other (key other : Counter) (amount : Int) (distinct : other ≠ key) :
    owe debt key amount other = debt other :=
  Function.update_of_ne distinct ..

theorem owe_paid :
    owe (owe debt key amount) key (-amount) = debt := by
  funext other
  by_cases same : other = key
  · rw [same, owe_self, owe_self, add_neg_cancel_right]
  · rw [owe_other _ _ _ _ same, owe_other _ _ _ _ same]

theorem bump_pays (owing : Owing debt db) (covers : debt key ≤ amount) :
    Meets allowed (Owing (owe debt key (-amount))) (db.bump key amount) := by
  have rows := owing.rows key
  unfold Db.bump
  split
  · rename_i negative
    omega
  · refine ⟨?_, owing.fresh⟩
    intro other
    by_cases same : other = key
    · subst same
      rw [owe_self]
      dsimp only
      rw [Function.update_self]
      change (db.rows other : Int) = _
      omega
    · rw [owe_other _ _ _ _ same]
      dsimp only
      rw [Function.update_of_ne same]
      exact owing.rows other

theorem bump_settles (owing : Owing (owe debt key amount) db) (before : debt key ≤ 0) :
    Meets allowed (Owing debt) (db.bump key amount) := by
  have covers : owe debt key amount key ≤ amount := by
    rw [owe_self]
    omega
  have pays := @bump_pays Lp allowed _ db key amount owing covers
  rw [owe_paid] at pays
  exact pays

theorem Owing.gain {debt : Debt} {db after : Db Lp} (owing : Owing debt db) (key : Counter)
    (amount : Int) (gained : (after.rows key : Int) = db.rows key + amount)
    (rows : ∀ other, other ≠ key → after.rows other = db.rows other)
    (counter : after.counter = db.counter)
    (fresh : ∀ id row, after.events.get id = some row → id ≤ after.lastEventId) :
    Owing (owe debt key amount) after := by
  refine ⟨?_, fresh⟩
  intro other
  rw [counter]
  by_cases same : other = key
  · subst same
    rw [owe_self, gained, owing.rows other, add_assoc]
  · rw [owe_other _ _ _ _ same, rows other same]
    exact owing.rows other

theorem bump_gain (db after : Db Lp) (key : Counter) (amount : Int) (owing : Owing debt db)
    (before : debt key ≤ 0) (gained : (after.rows key : Int) = db.rows key + amount)
    (rows : ∀ other, other ≠ key → after.rows other = db.rows other)
    (counter : after.counter = db.counter)
    (fresh : ∀ id row, after.events.get id = some row → id ≤ after.lastEventId) :
    Meets allowed (Owing debt) (after.bump key amount) :=
  bump_settles debt after key amount (owing.gain key amount gained rows counter fresh) before

theorem queueEvents_owing (chosen : EventId → EventRow → Bool) (owing : Owing debt db) :
    Owing (owe debt .pendingReprojection (queueEvents db chosen).2)
      (queueEvents db chosen).1 := by
  apply owing.gain
  · have grows := size_insertAll db.pendingReprojection
      ((db.events.entries.filter fun entry => chosen entry.1 entry.2).map fun entry =>
        (entry.1, ⟨entry.2.place.blockNumber, entry.2.place.txIndex, entry.2.place.logIndex,
          .fresh⟩))
    simp only [queueEvents, Db.rows]
    omega
  · intro other distinct
    cases other <;> first | rfl | exact absurd rfl distinct
  · rfl
  · exact owing.fresh

theorem requeue_owing (chosen : EventId → EventRow → Bool) (owing : Owing debt db)
    (before : debt .pendingReprojection ≤ 0) :
    Meets allowed (Owing debt) (requeue db chosen) :=
  bump_settles debt _ _ _ (queueEvents_owing debt db chosen owing) before

theorem queueEnrichment_owing (events : List EventRow) (owing : Owing debt db)
    (before : debt .pendingEnrichment ≤ 0) :
    Meets allowed (Owing debt) (queueEnrichment db events) := by
  apply bump_gain debt db _ _ _ owing before
  · have grows := size_insertAll db.pendingEnrichment
      ((events.filter fun row => row.terms.kind ∈ ENRICHMENT_KINDS).map fun row =>
        (row.place.txHash, ⟨row.place.blockNumber, row.place.blockHash, .fresh, 0⟩))
    simp only [Db.rows]
    omega
  · intro other distinct
    cases other <;> first | rfl | exact absurd rfl distinct
  · rfl
  · exact owing.fresh

theorem dequeueEnrichment_owing (completed : List Hash) (owing : Owing debt db)
    (before : debt .pendingEnrichment ≤ 0) :
    Meets allowed (Owing debt) (dequeueEnrichment db completed) := by
  apply bump_gain debt db _ _ _ owing before
  · have shrinks := size_remove db.pendingEnrichment fun hash _ => decide (hash ∈ completed)
    simp only [Db.rows]
    omega
  · intro other distinct
    cases other <;> first | rfl | exact absurd rfl distinct
  · rfl
  · exact owing.fresh

def tallied (tally : Tally) : Debt
  | .indexedPools => tally.inserted
  | .pendingMetadata => tally.queuedMetadata - tally.resolvedMetadata
  | .pendingPoolUnpublish => -tally.resolvedUnpublish
  | .pendingReprojection => tally.queuedReprojection
  | _ => 0

theorem activate_owing (activated : Bool) (debt : Debt) (owing : Owing (debt + tallied tally) db) :
    Owing (debt + tallied (activate db tally id activated).2) (activate db tally id activated).1 := by
  cases activated with
  | false => exact owing
  | true =>
    have queued := queueEvents_owing _ db (fun _ row => row.terms.poolId = some id) owing
    refine ⟨?_, queued.fresh⟩
    intro key
    rw [show (activate db tally id true).1 = (queueEvents db fun _ row =>
      row.terms.poolId = some id).1 from rfl, queued.rows key]
    cases key <;> simp [owe, activate, tallied, Function.update]
    omega

theorem republish_owing (debt : Debt) (owing : Owing (debt + tallied tally) db) :
    Owing (debt + tallied (republish db tally id).2) (republish db tally id).1 := by
  have shrinks := size_remove db.pendingPoolUnpublish fun other _ => decide (other = id)
  refine ⟨?_, owing.fresh⟩
  intro key
  have rows := owing.rows key
  cases key
  case pendingPoolUnpublish =>
      simp only [republish, Db.rows, tallied, Pi.add_apply] at rows ⊢
      omega
  all_goals exact rows

theorem resolveToken_owing (address : Address) (symbol : Option String) (decimals : Option Int)
    (debt : Debt) (owing : Owing (debt + tallied tally) db) :
    Owing (debt + tallied (resolveToken db tally address symbol decimals).2)
      (resolveToken db tally address symbol decimals).1 := by
  have shrinks := size_remove db.pendingTokenMetadata fun other _ => decide (other = address)
  have grows := size_insertNew db.pendingTokenMetadata address .fresh
  have queues : Owing (debt + tallied { tally with
        queuedMetadata := tally.queuedMetadata +
          ((db.pendingTokenMetadata.insertNew address .fresh).size -
            db.pendingTokenMetadata.size) })
      { db with pendingTokenMetadata := db.pendingTokenMetadata.insertNew address .fresh } := by
    refine ⟨?_, owing.fresh⟩
    intro key
    have rows := owing.rows key
    cases key
    case pendingMetadata =>
        simp only [Db.rows, tallied, Pi.add_apply] at rows ⊢
        omega
    all_goals exact rows
  simp only [resolveToken]
  cases db.tokenMetadata.get address with
  | some _ => exact owing
  | none =>
    cases symbol with
    | none => exact queues
    | some symbol =>
      cases decimals with
      | none => exact queues
      | some decimals =>
        refine ⟨?_, owing.fresh⟩
        intro key
        have rows := owing.rows key
        cases key
        case pendingMetadata =>
            simp only [Db.rows, tallied, Pi.add_apply, nameToken] at rows ⊢
            omega
        case indexedPools =>
            simp only [Db.rows, nameToken, size_modify]
            exact rows
        all_goals exact rows

theorem settlePool_owing (row : PoolRow) (activated : Bool) (debt : Debt)
    (owing : Owing (debt + tallied tally) db) :
    Owing (debt + tallied (settlePool db tally id row activated).2)
      (settlePool db tally id row activated).1 := by
  have active := activate_owing db tally id activated debt owing
  have published := republish_owing _ _ id debt active
  have left := resolveToken_owing _ _ row.token0 row.symbol0 row.decimals0 debt published
  exact resolveToken_owing _ _ row.token1 row.symbol1 row.decimals1 debt left

theorem observe_owing (observation : Option Observation) (debt : Debt) (owing : Owing debt db) :
    Owing debt (observe db id observation) := by
  cases observation with
  | none => exact owing
  | some observation =>
    rw [observe]
    split
    · exact ⟨owing.rows, owing.fresh⟩
    · exact owing

theorem observe_pools (observation : Option Observation) :
    (observe db id observation).pools = db.pools := by
  cases observation with
  | none => rfl
  | some observation =>
    rw [observe]
    split <;> rfl

theorem upsertPool_owing (state : Db Lp × Tally) (fields : PoolFields)
    (owing : Owing (tallied state.2) state.1) :
    Meets Refusal (fun after => Owing (tallied after.2) after.1) (upsertPool state fields) := by
  obtain ⟨db, tally⟩ := state
  have observed := observe_owing db fields.id fields.observation _ owing
  have pools := observe_pools db fields.id fields.observation
  simp only [upsertPool]
  cases found : db.pools.get fields.id with
  | none =>
    have stored : Owing (owe (fun _ => 0) .indexedPools 1 + tallied tally)
        { observe db fields.id fields.observation with
          pools := (observe db fields.id fields.observation).pools.put fields.id
            (knownTokens db fields.row) } := by
      refine ⟨?_, observed.fresh⟩
      intro key
      have rows := observed.rows key
      have added := size_put_new db.pools fields.id (knownTokens db fields.row) found
      cases key
      case indexedPools =>
          simp only [Db.rows, pools, Pi.add_apply, owe_self] at rows ⊢
          omega
      all_goals
        rw [Pi.add_apply, owe_other _ _ _ _ (by decide), zero_add]
        exact rows
    have settled := settlePool_owing _ tally fields.id (knownTokens db fields.row) true _ stored
    refine ⟨?_, settled.fresh⟩
    intro key
    have rows := settled.rows key
    cases key
    case indexedPools =>
        simp only [Pi.add_apply, owe_self, tallied] at rows ⊢
        omega
    all_goals
      rw [Pi.add_apply, owe_other _ _ _ _ (by decide), zero_add] at rows
      exact rows
  | some existing =>
    dsimp only
    split
    · trivial
    · -- The row replaces one of the same pool.
      have replaced : ∀ row, Owing (0 + tallied tally)
          { observe db fields.id fields.observation with
            pools := (observe db fields.id fields.observation).pools.put fields.id row } := by
        intro row
        rw [zero_add]
        refine ⟨?_, observed.fresh⟩
        intro key
        have rows := observed.rows key
        have same := size_put_old db.pools fields.id row (by rw [found]; exact Option.some_ne_none _)
        cases key
        case indexedPools =>
            simp only [Db.rows, pools] at rows ⊢
            omega
        all_goals exact rows
      have settled := fun stored row activated =>
        settlePool_owing _ tally fields.id row activated 0 (replaced stored)
      simp only [zero_add] at settled
      exact settled _ _ _

theorem poolRow_meets (fields : PoolFields) :
    Meets Refusal (fun _ => True) (poolRow fields) := by
  unfold poolRow
  repeat' split
  all_goals trivial

theorem upsertPools_owing (rows : List PoolFields) (counted : Counted db) :
    Meets Refusal Counted (upsertPools db rows) := by
  unfold upsertPools
  apply meets_bind _ (meets_mapM rows fun fields _ => poolRow_meets fields)
  intro normalized _
  apply meets_bind fun after : Db Lp × Tally => Owing (tallied after.2) after.1
  · apply meets_foldlM (fun after : Db Lp × Tally => Owing (tallied after.2) after.1)
    · refine ⟨?_, counted.fresh⟩
      intro key
      have rows := counted.rows key
      cases key <;> exact rows
    · intro state fields _ owing
      exact upsertPool_owing state fields owing
  · rintro ⟨upserted, tally⟩ owing
    apply meets_bind _ (bump_pays _ upserted .indexedPools tally.inserted owing le_rfl)
    intro first owing
    apply meets_bind _ (bump_pays _ first .pendingMetadata tally.queuedMetadata owing ?_)
    · intro second owing
      apply meets_bind _ (bump_pays _ second .pendingMetadata (-tally.resolvedMetadata) owing ?_)
      · intro third owing
        apply meets_bind _ (bump_pays _ third .pendingPoolUnpublish (-tally.resolvedUnpublish)
          owing ?_)
        · intro fourth owing
          apply (bump_pays _ fourth .pendingReprojection tally.queuedReprojection owing ?_).mono
          · intro last owing
            refine ⟨?_, owing.fresh⟩
            intro key
            rw [owing.rows key]
            cases key <;> simp [owe, tallied, Function.update]
            omega
          · simp [owe, tallied, Function.update]
        · simp [owe, tallied, Function.update]
      · simp [owe, tallied, Function.update]
    · simp [owe, tallied, Function.update]

theorem insertEvent_owing (row : EventRow) (owing : Owing debt db) :
    Owing (owe debt .indexedEvents 1) (insertEvent db row).1 := by
  have absent : db.events.get (db.lastEventId + 1) = none := by
    cases found : db.events.get (db.lastEventId + 1) with
    | none => rfl
    | some old => exact absurd (owing.fresh _ old found) (Nat.not_succ_le_self _)
  apply owing.gain
  · have added := size_put_new db.events (db.lastEventId + 1) row absent
    simp only [insertEvent, Db.rows]
    omega
  · intro other distinct
    cases other <;> first | rfl | exact absurd rfl distinct
  · rfl
  · intro id held found
    simp only [insertEvent, get_put] at found ⊢
    split at found
    · rename_i here
      exact Nat.le_of_eq here
    · exact Nat.le_succ_of_le (owing.fresh id held found)

theorem insertNewEvents_owing (rows : List EventRow) (state : Db Lp × Delivered)
    (owing : Owing (owe (fun _ => 0) .indexedEvents state.2.length) state.1) :
    Owing (owe (fun _ => 0) .indexedEvents (rows.foldl insertNewEvent state).2.length)
      (rows.foldl insertNewEvent state).1 := by
  induction rows generalizing state with
  | nil => exact owing
  | cons row rest ih =>
    apply ih (insertNewEvent state row)
    unfold insertNewEvent
    split
    · exact owing
    · have inserted := insertEvent_owing _ state.1 row owing
      refine ⟨?_, inserted.fresh⟩
      intro key
      rw [inserted.rows key]
      cases key <;> simp [insertEvent, owe, Function.update]

theorem upsertTransactions_owing (rows : List (Hash × TransactionRow)) (counted : Counted db) :
    Meets Refusal Counted (upsertTransactions db rows) := by
  unfold upsertTransactions
  split
  · trivial
  · apply bump_gain _ db _ _ _ counted le_rfl
    · have added := size_upsertAll db.transactions
        (rows.map fun row => (row.1, coalesceTransaction row.2))
      rw [List.map_map] at added
      simp only [Db.rows]
      rw [added]
      exact Nat.cast_add _ _
    · intro other distinct
      cases other <;> first | rfl | exact absurd rfl distinct
    · rfl
    · exact counted.fresh

theorem size_inOrder : (inOrder events).length = events.length :=
  List.length_insertionSort _ events

theorem modified_owing (db after : Db Lp) (owing : Owing debt db)
    (change : EventId → EventRow → EventRow) (events : after.events = db.events.modify change)
    (last : after.lastEventId = db.lastEventId) (counter : after.counter = db.counter)
    (rows : ∀ key, key ≠ .indexedEvents → after.rows key = db.rows key) : Owing debt after := by
  constructor
  · intro key
    rw [counter]
    by_cases same : key = .indexedEvents
    · subst same
      rw [← owing.rows .indexedEvents]
      simp only [Db.rows, events, size_modify]
    · rw [rows key same]
      exact owing.rows key
  · intro id row found
    rw [events, get_modify] at found
    obtain ⟨old, there, -⟩ := Option.map_eq_some_iff.mp found
    rw [last]
    exact owing.fresh id old there

theorem apply_owing (counted : Counted db) :
    Meets notNegative Counted (projection.apply db events) := by
  unfold PriceProjection.apply
  split
  · exact fun key => Failure.noConfusion
  · rename_i repriced _
    apply meets_bind Counted
    · apply meets_foldlM Counted
      · refine modified_owing _ db _ counted (fun id row =>
          if id ∈ known db events then { row with valuation := repriced.valuation id } else row)
          rfl rfl rfl ?_
        intro key distinct
        cases key <;> first | rfl | exact absurd rfl distinct
      · intro state chosen _ counted
        exact requeue_owing _ state chosen counted le_rfl
    · intro requeued counted
      refine ⟨?_, counted.fresh⟩
      intro key
      have rows := counted.rows key
      cases key
      case indexedTransactions =>
          simp only [Db.rows, size_modify]
          exact rows
      all_goals exact rows

theorem deliver_owing (counted : Counted db) :
    Meets notNegative Counted (projection.deliver db events) := by
  unfold PriceProjection.deliver
  split
  · exact counted
  · exact apply_owing projection db events counted

theorem recordInserted_owing (lane : String) (inserted : Delivered)
    (owing : Owing (owe (fun _ => 0) .indexedEvents inserted.length) db) :
    Meets allowed Counted (recordInserted db lane inserted) := by
  unfold recordInserted
  split
  · rename_i none
    rw [List.isEmpty_iff.mp none] at owing
    refine ⟨?_, owing.fresh⟩
    intro key
    rw [owing.rows key]
    cases key <;> simp [owe, Function.update]
  · apply meets_bind _ (bump_settles _ db .indexedEvents _ owing le_rfl)
    intro bumped counted
    apply meets_bind _ (queueEnrichment_owing _ { bumped with eventsRevision := bumped.revision } _
      ⟨counted.rows, counted.fresh⟩ le_rfl)
    intro queued counted
    rw [meets_pure]
    split
    · exact ⟨counted.rows, counted.fresh⟩
    · exact counted

theorem deferInserted_owing (inserted : Delivered) (counted : Counted db) :
    Meets allowed Counted (deferInserted projection db inserted) := by
  unfold deferInserted
  refine meets_bind Counted (bump_gain _ db _ _ _ counted le_rfl ?_ ?_ ?_ ?_) ?_
  · have grows := size_insertAll db.pendingReprojection (inserted.map fun event =>
      (event.1, ⟨event.2.place.blockNumber, event.2.place.txIndex, event.2.place.logIndex, .fresh⟩))
    simp only [Db.rows]
    omega
  · intro other distinct
    cases other <;> first | rfl | exact absurd rfl distinct
  · rfl
  · exact counted.fresh
  · intro deferred counted
    exact ⟨counted.rows, counted.fresh⟩

variable (normalized : OrderedTable Int Header) (fields : EventFields) (call : IngestCall)

theorem project_owing (inserted : Delivered) (counted : Counted db) :
    Meets notNegative Counted (project projection db call inserted) := by
  unfold project
  split
  · exact deliver_owing projection db inserted counted
  · split
    · exact counted
    · exact deferInserted_owing projection db inserted counted

theorem storeHeaders_owing (headers : List Header) (counted : Counted db) :
    Meets Refusal (fun after => Counted after.1) (storeHeaders db headers) := by
  unfold storeHeaders
  apply meets_bind _ (addHeaders_meets headers)
  · intro normalized _
    apply meets_bind fun _ => True
    · unfold checkHeaders
      split
      · trivial
      · split <;> trivial
    · intro _ _
      apply meets_bind fun _ => True
      · apply meets_foldlM fun _ => True
        · trivial
        · intro blocks header _ _
          unfold storeHeader
          split
          · trivial
          · split <;> trivial
      · intro blocks _
        exact ⟨counted.rows, counted.fresh⟩

theorem required_meets {Value : Type} (value : Option Value) (column : String) :
    Meets Refusal (fun _ => True) (required value column) := by
  cases value with
  | none => trivial
  | some value => trivial

theorem eventPlace_meets :
    Meets Refusal (fun _ => True) (eventPlace fields) := by
  unfold eventPlace
  apply meets_bind _ (required_meets _ _)
  intro _ _
  apply meets_bind _ (required_meets _ _)
  intro _ _
  apply meets_bind _ (required_meets _ _)
  intro _ _
  apply meets_bind _ (required_meets _ _)
  intro _ _
  apply meets_bind _ (required_meets _ _)
  intro _ _
  apply meets_bind _ (required_meets _ _)
  intro _ _
  dsimp only
  split
  · trivial
  · trivial

theorem checkPoolShape_meets (terms : Terms) :
    Meets Refusal (fun _ => True) (checkPoolShape terms) := by
  unfold checkPoolShape
  split
  · trivial
  · apply meets_bind fun _ => True
    · unfold poolProtocol
      split
      · split
        · trivial
        · trivial
        · trivial
      · trivial
    · intro _ _
      split
      · trivial
      · trivial

theorem eventRow_meets (revision : Nat) :
    Meets Refusal (fun _ => True) (eventRow fields revision) := by
  unfold eventRow
  apply meets_bind _ (eventPlace_meets fields)
  intro place _
  apply meets_bind fun _ => True
  · unfold eventTerms
    apply meets_bind _ (required_meets _ _)
    intro protocol _
    apply meets_bind _ (required_meets _ _)
    intro kind _
    apply meets_bind _ (checkPoolShape_meets _)
    intro _ _
    trivial
  · intro terms _
    trivial

theorem prepareEvent_owing : Meets Refusal (fun _ => True) (prepareEvent db normalized fields) := by
  unfold prepareEvent
  apply meets_bind _ (eventRow_meets fields db.revision)
  intro row _
  split
  · trivial
  · dsimp only
    split
    · trivial
    · trivial

theorem ingestRows_owing (counted : Counted db) :
    Meets Refusal (fun after => Counted after.1) (ingestRows db normalized call) := by
  unfold ingestRows
  apply meets_bind _ (upsertPools_owing db.nextRevision _ ⟨counted.rows, counted.fresh⟩)
  intro pooled counted
  apply meets_bind _ (meets_mapM call.events fun fields _ =>
    prepareEvent_owing pooled normalized fields)
  intro prepared _
  have inserted := insertNewEvents_owing prepared (pooled, []) (by
    refine ⟨?_, counted.fresh⟩
    intro key
    rw [counted.rows key]
    cases key <;> simp [owe, Function.update])
  generalize prepared.foldl insertNewEvent (pooled, []) = state at inserted ⊢
  obtain ⟨filled, delivered⟩ := state
  rw [← size_inOrder] at inserted
  apply meets_bind _ (recordInserted_owing filled call.lane (inOrder delivered) inserted)
  intro recorded counted
  apply meets_bind _ (upsertTransactions_owing recorded call.transactions counted)
  intro after counted
  exact counted

theorem checkCursor_meets :
    Meets Refusal (fun _ => True) (checkCursor db call) := by
  unfold checkCursor
  split
  · unfold checkExpected
    dsimp only
    repeat' split
    all_goals trivial
  · trivial

theorem coverCursor_owing (counted : Counted db) :
    Meets Refusal Counted (coverCursor db normalized call) := by
  unfold coverCursor
  split
  · unfold cover
    split
    · split
      · trivial
      · split
        · exact ⟨counted.rows, counted.fresh⟩
        · trivial
    · exact counted
  · exact counted

theorem ingest_owing (counted : Counted db) :
    Meets notNegative (fun after => Counted after.1) (ingest projection db call) := by
  unfold ingest
  split
  · exact fun key => Failure.noConfusion
  · apply meets_bind _ (counting (checkCursor_meets db call))
    intro _ _
    apply meets_bind _ (counting (storeHeaders_owing db call.headers counted))
    rintro ⟨headed, normalized⟩ counted
    apply meets_bind _ (counting (coverCursor_owing headed normalized call counted))
    intro covered counted
    apply meets_bind _ (counting (ingestRows_owing covered normalized call counted))
    rintro ⟨filled, inserted⟩ counted
    have kept : Counted (keepCursor filled call) := by
      unfold keepCursor
      split
      · exact ⟨counted.rows, counted.fresh⟩
      · exact counted
    apply meets_bind _ (project_owing projection _ call inserted kept)
    intro after counted
    exact counted

theorem currentEvent_owing (update : EventFields) :
    Meets Refusal (fun _ => True) (currentEvent db update) := by
  unfold currentEvent
  split
  · split
    · trivial
    · trivial
  · apply meets_bind _ (required_meets _ _)
    intro _ _
    apply meets_bind _ (required_meets _ _)
    intro _ _
    apply meets_bind _ (required_meets _ _)
    intro _ _
    trivial

theorem enrichEvent_owing (receipts : List (Hash × TransactionRow)) (state : EnrichState Lp)
    (update : EventFields)
    (owing : Owing (owe (fun _ => 0) .indexedEvents state.inserted) state.db) :
    Meets Refusal (fun after : EnrichState Lp =>
      Owing (owe (fun _ => 0) .indexedEvents after.inserted) after.db)
      (enrichEvent receipts state update) := by
  unfold enrichEvent
  apply meets_bind _ (currentEvent_owing state.db update)
  intro found _
  cases found with
  | some entry =>
    obtain ⟨id, current⟩ := entry
    apply meets_bind _ (eventRow_meets _ _)
    intro row _
    dsimp only
    split
    · trivial
    · split
      · trivial
      · exact owing
  | none =>
    apply meets_bind _ (eventRow_meets _ _)
    intro row _
    dsimp only
    split
    · trivial
    · split
      · trivial
      · have inserted := insertEvent_owing _ state.db row owing
        refine ⟨?_, inserted.fresh⟩
        intro key
        rw [inserted.rows key]
        cases key <;> simp [insertEvent, owe, Function.update]

theorem persist_owing (events : List Enriched) (owing : Owing debt db) :
    Owing debt (persist db events) := by
  have same : ∀ table : OrderedTable EventId EventRow,
      (events.foldl (fun table event =>
        table.modify fun id row => if id = event.id then event.row else row) table).size =
          table.size ∧ ∀ id row, (events.foldl (fun table event =>
        table.modify fun id row => if id = event.id then event.row else row) table).get id =
          some row → ∃ old, table.get id = some old := by
    induction events with
    | nil => exact fun table => ⟨rfl, fun id row found => ⟨row, found⟩⟩
    | cons event rest ih =>
      intro table
      obtain ⟨size, known⟩ := ih (table.modify fun id row =>
        if id = event.id then event.row else row)
      refine ⟨size.trans (size_modify _ _), ?_⟩
      intro id row found
      obtain ⟨old, there⟩ := known id row found
      rw [get_modify] at there
      obtain ⟨before, here, -⟩ := Option.map_eq_some_iff.mp there
      exact ⟨before, here⟩
  constructor
  · intro key
    have rows := owing.rows key
    cases key
    case indexedEvents =>
        simp only [Db.rows, persist, (same db.events).1]
        exact rows
    all_goals exact rows
  · intro id row found
    obtain ⟨old, there⟩ := (same db.events).2 id row found
    exact owing.fresh id old there

theorem publishEnriched_owing (enriched : List Enriched)
    (transactions : List (Hash × TransactionRow)) (counted : Counted db) :
    Meets notNegative Counted (publishEnriched projection db enriched transactions) := by
  unfold publishEnriched
  apply meets_bind _ (counting (upsertPools_owing db _ counted))
  intro pooled counted
  have persisted : Counted (if enriched.isEmpty then pooled else persist pooled enriched) := by
    split
    · exact counted
    · exact persist_owing _ pooled enriched counted
  apply meets_bind _ (counting (upsertTransactions_owing _ transactions persisted))
  intro stored counted
  apply meets_bind _ (deliver_owing projection stored _ counted)
  intro priced counted
  exact dequeueEnrichment_owing _ priced _ counted le_rfl

theorem enrich_owing (updates : List EventFields) (transactions : List (Hash × TransactionRow))
    (counted : Counted db) :
    Meets notNegative Counted (enrich projection db updates transactions) := by
  unfold enrich
  split
  · exact counted
  · apply meets_bind fun state : EnrichState Lp =>
      Owing (owe (fun _ => 0) .indexedEvents state.inserted) state.db
    · apply meets_foldlM fun state : EnrichState Lp =>
        Owing (owe (fun _ => 0) .indexedEvents state.inserted) state.db
      · refine ⟨?_, counted.fresh⟩
        intro key
        have rows := counted.rows key
        cases key <;> exact rows
      · intro state update _ owing
        exact counting (enrichEvent_owing transactions state update owing)
    · intro state owing
      apply meets_bind _ (bump_settles _ state.db .indexedEvents _ owing le_rfl)
      intro bumped counted
      exact publishEnriched_owing projection bumped _ transactions counted

theorem reproject_owing (ids : List EventId) (counted : Counted db) :
    Meets notNegative Counted (reproject projection db ids) := by
  unfold reproject
  split
  · exact counted
  · apply meets_bind Counted
    · apply deliver_owing
      refine modified_owing _ db _ counted (fun id row =>
        if id ∈ ids then { row with revision := db.nextRevision.revision } else row) rfl rfl rfl ?_
      intro key distinct
      cases key <;> first | rfl | exact absurd rfl distinct
    · intro repriced counted
      apply bump_gain _ repriced _ _ _ counted le_rfl
      · have shrinks := size_remove repriced.pendingReprojection fun id _ => decide (id ∈ ids)
        simp only [Db.rows]
        omega
      · intro other distinct
        cases other <;> first | rfl | exact absurd rfl distinct
      · rfl
      · exact counted.fresh

theorem saveTokenMetadata_owing (address : Address) (symbol : String) (decimals : Int)
    (counted : Counted db) :
    Meets Refusal Counted (saveTokenMetadata db address symbol decimals) := by
  unfold saveTokenMetadata
  split
  · trivial
  · apply meets_bind Counted
    · apply requeue_owing _ _ _ _ le_rfl
      refine ⟨?_, counted.fresh⟩
      intro key
      have rows := counted.rows key
      cases key
      case indexedPools =>
          simp only [Db.rows, nameToken, size_modify]
          exact rows
      all_goals exact rows
    · intro queued counted
      apply meets_bind Counted
      · apply bump_gain _ queued _ _ _ counted le_rfl
        · have shrinks := size_remove queued.pendingTokenMetadata fun other _ =>
            decide (other = address)
          simp only [Db.rows]
          omega
        · intro other distinct
          cases other <;> first | rfl | exact absurd rfl distinct
        · rfl
        · exact counted.fresh
      · intro after counted
        exact ⟨counted.rows, counted.fresh⟩

theorem completePoolUnpublishes_owing (pools : List PoolId) (counted : Counted db) :
    Meets allowed Counted (completePoolUnpublishes db pools) := by
  apply bump_gain _ db _ _ _ counted le_rfl
  · have shrinks := size_remove db.pendingPoolUnpublish fun id _ => decide (id ∈ pools)
    simp only [Db.rows]
    omega
  · intro other distinct
    cases other <;> first | rfl | exact absurd rfl distinct
  · rfl
  · exact counted.fresh

theorem queueV3Balances_owing (pools : List PoolId) (number : Int) (hash : Hash)
    (counted : Counted db) : Meets allowed Counted (queueV3Balances db pools number hash) := by
  apply bump_gain _ db _ _ _ counted le_rfl
  · have grows := size_insertAll db.pendingBalances
      (pools.map fun id => ((id, number), ⟨hash, .fresh⟩))
    simp only [Db.rows]
    omega
  · intro other distinct
    cases other <;> first | rfl | exact absurd rfl distinct
  · rfl
  · exact counted.fresh

theorem publishBalances_owing (items : List BalanceItem) (counted : Counted db) :
    Meets notNegative Counted (publishBalances db items) := by
  unfold publishBalances
  dsimp only
  split
  · exact fun key => Failure.noConfusion
  · apply meets_bind Counted
    · apply bump_gain _ db _ _ _ counted le_rfl
      · have shrinks := size_remove db.pendingBalances fun key job =>
          items.any fun item => item.key = key && item.blockHash = job.blockHash
        simp only [Db.rows]
        omega
      · intro other distinct
        cases other
        case indexedPools => simp only [Db.rows, size_modify]
        all_goals first | rfl | exact absurd rfl distinct
      · rfl
      · exact counted.fresh
    · intro after counted
      exact ⟨counted.rows, counted.fresh⟩

theorem saveV3Balances_owing (items : List BalanceItem) (counted : Counted db) :
    Meets notNegative (fun after => Counted after.1) (saveV3Balances db items) := by
  unfold saveV3Balances
  dsimp only
  split
  · exact counted
  · apply meets_bind _ (publishBalances_owing db _ counted)
    intro after counted
    exact counted

theorem recoverMissingEnrichment_owing (reader db : Db Lp) (limit : Nat) (counted : Counted db) :
    Meets allowed Counted (recoverMissingEnrichment reader db limit) := by
  unfold recoverMissingEnrichment
  dsimp only
  split
  · exact counted
  · split
    · exact counted
    · apply meets_bind _ (queueEnrichment_owing _ db _ counted le_rfl)
      intro queued counted
      exact ⟨counted.rows, counted.fresh⟩

theorem upsertPoolsCall_owing (rows : List PoolFields) (counted : Counted db) :
    Meets Refusal Counted (upsertPoolsCall db rows) := by
  unfold upsertPoolsCall
  apply meets_bind _ (upsertPools_owing db rows counted)
  intro after counted
  rw [meets_pure]
  split
  · exact counted
  · exact ⟨counted.rows, counted.fresh⟩

/-! Rollback: the counts taken before the deletions are what the tables lose. -/

def lost (removed : Removed) (tokens : Nat) : Debt
  | .indexedEvents => -removed.events
  | .indexedTransactions => -removed.transactions
  | .pendingEnrichment => -removed.pending
  | .pendingBalances => -removed.balances
  | .pendingReprojection => -removed.reprojections
  | .pendingMetadata => -tokens
  | .indexedPools => -removed.pools
  | .pendingPoolUnpublish => 0

variable (ancestor : Int)

theorem unpublish_owing (counted : Counted db) :
    Meets allowed Counted (unpublish db ancestor) := by
  apply bump_gain _ db _ _ _ counted le_rfl
  · have grows := size_insertAll db.pendingPoolUnpublish
      ((db.pools.entries.filter fun entry => removable db ancestor entry.1 entry.2).map
        fun entry => (entry.1, db.epoch + 1))
    simp only [Db.rows]
    omega
  · intro other distinct
    cases other <;> first | rfl | exact absurd rfl distinct
  · rfl
  · exact counted.fresh

theorem unpublish_counts :
    Meets anyhow (fun after => countRemoved after ancestor = countRemoved db ancestor)
      (unpublish db ancestor) := by
  unfold unpublish Db.bump
  dsimp only
  split
  · trivial
  · rfl

theorem cutRows_owing (counted : Counted db) :
    Owing (lost (countRemoved db ancestor) ((cutRows db ancestor).pendingTokenMetadata.size -
        (cutOrphans (cutRows db ancestor)).pendingTokenMetadata.size))
      (cutOrphans (cutRows db ancestor)) := by
  constructor
  · intro key
    have rows := counted.rows key
    cases key
    case indexedEvents =>
        have left := size_remove_count db.events fun _ row =>
          decide (ancestor < row.place.blockNumber)
        simp only [Db.rows, lost, countRemoved, cutOrphans, cutRows] at rows ⊢
        omega
    case indexedTransactions =>
        have left := size_remove_count db.transactions fun _ row =>
          decide (ancestor < row.blockNumber)
        simp only [Db.rows, lost, countRemoved, cutOrphans, cutRows] at rows ⊢
        omega
    case pendingEnrichment =>
        have left := size_remove_count db.pendingEnrichment fun _ job =>
          decide (ancestor < job.blockNumber)
        simp only [Db.rows, lost, countRemoved, cutOrphans, cutRows] at rows ⊢
        omega
    case pendingBalances =>
        have left := size_remove_count db.pendingBalances fun key _ => decide (ancestor < key.2)
        simp only [Db.rows, lost, countRemoved, cutOrphans, cutRows] at rows ⊢
        omega
    case pendingReprojection =>
        have left := size_remove_count db.pendingReprojection fun _ job =>
          decide (ancestor < job.blockNumber)
        simp only [Db.rows, lost, countRemoved, cutOrphans, cutRows] at rows ⊢
        omega
    case indexedPools =>
        have left := size_remove_count db.pools (removable db ancestor)
        simp only [Db.rows, lost, countRemoved, cutOrphans, cutRows] at rows ⊢
        omega
    case pendingMetadata =>
        have shrinks : (cutOrphans (cutRows db ancestor)).pendingTokenMetadata.size ≤
            (cutRows db ancestor).pendingTokenMetadata.size := size_remove _ _
        have same : (cutRows db ancestor).pendingTokenMetadata = db.pendingTokenMetadata := rfl
        have counter : (cutOrphans (cutRows db ancestor)).counter = db.counter := rfl
        simp only [Db.rows, lost] at rows ⊢
        generalize (cutOrphans (cutRows db ancestor)).pendingTokenMetadata.size = left at shrinks ⊢
        rw [same] at shrinks ⊢
        rw [counter]
        omega
    case pendingPoolUnpublish => exact rows
  · intro id row found
    dsimp only [cutOrphans, cutRows] at found
    rw [get_remove] at found
    exact counted.fresh id row (Option.filter_eq_some_iff.mp found).1

theorem lowerCounters_owing (removed : Removed) (tokens : Nat)
    (owing : Owing (lost removed tokens) db) :
    Meets allowed Counted (lowerCounters db removed tokens) := by
  unfold lowerCounters
  apply meets_bind _ (bump_pays _ db .indexedEvents (-removed.events) owing le_rfl)
  intro first owing
  apply meets_bind _ (bump_pays _ first .indexedTransactions (-removed.transactions) owing le_rfl)
  intro second owing
  apply meets_bind _ (bump_pays _ second .pendingEnrichment (-removed.pending) owing le_rfl)
  intro third owing
  apply meets_bind _ (bump_pays _ third .pendingBalances (-removed.balances) owing le_rfl)
  intro fourth owing
  apply meets_bind _ (bump_pays _ fourth .pendingReprojection (-removed.reprojections) owing le_rfl)
  intro fifth owing
  apply meets_bind _ (bump_pays _ fifth .pendingMetadata (-tokens) owing le_rfl)
  intro sixth owing
  apply (bump_pays _ sixth .indexedPools (-removed.pools) owing le_rfl).mono
  intro last owing
  refine ⟨?_, owing.fresh⟩
  intro key
  rw [owing.rows key]
  cases key <;> simp [owe, lost, Function.update]

theorem rewindCursor_owing (lane : String) (owing : Owing debt db) :
    Owing debt (rewindCursor db ancestor lane) := by
  unfold rewindCursor
  split
  · split
    · exact ⟨owing.rows, owing.fresh⟩
    · exact owing
  · exact owing

theorem cut_owing (counted : Counted db) :
    Meets Refusal Counted (cut db ancestor) := by
  unfold cut
  apply meets_bind _ ((unpublish_owing db ancestor counted).and (unpublish_counts db ancestor))
  rintro unpublished ⟨counted, same⟩
  dsimp only
  split
  · trivial
  · have owing := cutRows_owing unpublished ancestor counted
    rw [same] at owing
    apply meets_bind Counted
    · apply lowerCounters_owing
      apply rewindCursor_owing
      apply rewindCursor_owing
      refine ⟨?_, owing.fresh⟩
      intro key
      have rows := owing.rows key
      cases key
      case indexedPools =>
          simp only [Db.rows, cutBlocks, size_modify]
          exact rows
      all_goals exact rows
    · intro lowered counted
      exact ⟨counted.rows, counted.fresh⟩

theorem rollback_owing (header : Option Header) (counted : Counted db) :
    Meets notNegative Counted (rollback projection db ancestor header) := by
  unfold rollback
  split
  · exact fun key => Failure.noConfusion
  · split
    · exact fun key => Failure.noConfusion
    · apply meets_bind Counted
      · unfold PriceProjection.rollback
        split
        · exact fun key => Failure.noConfusion
        · rename_i unwound _
          refine modified_owing _ db _ counted unwound.value rfl rfl rfl ?_
          intro key distinct
          cases key <;> first | rfl | exact absurd rfl distinct
      · intro unwound counted
        apply meets_bind _ (counting (storeHeaders_owing unwound header.toList counted))
        rintro ⟨headed, normalized⟩ counted
        exact counting (cut_owing headed ancestor counted)

theorem perform_owing (call : Call Lp) (counted : Counted db) :
    Meets notNegative Counted (perform projection db call) := by
  cases call with
  | ingest call =>
    apply meets_bind _ (ingest_owing projection db call counted)
    intro after counted
    exact counted
  | enrich updates transactions => exact enrich_owing projection db updates transactions counted
  | reproject ids => exact reproject_owing projection db ids counted
  | upsertPools rows => exact counting (upsertPoolsCall_owing db rows counted)
  | saveTokenMetadata address symbol decimals =>
    exact counting (saveTokenMetadata_owing db address symbol decimals counted)
  | queueV3Balances pools number hash => exact queueV3Balances_owing db pools number hash counted
  | saveV3Balances items =>
    apply meets_bind _ (saveV3Balances_owing db items counted)
    intro after counted
    exact counted
  | recoverMissingEnrichment reader limit =>
    exact recoverMissingEnrichment_owing reader db limit counted
  | completePoolUnpublishes pools => exact completePoolUnpublishes_owing db pools counted
  | rollback ancestor header => exact rollback_owing projection db ancestor header counted
  | recordEnrichmentFailure hash error next =>
    refine ⟨?_, counted.fresh⟩
    intro key
    have rows := counted.rows key
    cases key
    case pendingEnrichment =>
        simp only [Db.rows, recordEnrichmentFailure, size_modify]
        exact rows
    all_goals exact rows
  | markReprojectionError ids error next =>
    refine ⟨?_, counted.fresh⟩
    intro key
    have rows := counted.rows key
    cases key
    case pendingReprojection =>
        simp only [Db.rows, markReprojectionError, size_modify]
        exact rows
    all_goals exact rows
  | markTokenMetadataError address error next =>
    refine ⟨?_, counted.fresh⟩
    intro key
    have rows := counted.rows key
    cases key
    case pendingMetadata =>
        simp only [Db.rows, markTokenMetadataError, size_modify]
        exact rows
    all_goals exact rows
  | markV3BalanceError key hash error next =>
    refine ⟨?_, counted.fresh⟩
    intro key
    have rows := counted.rows key
    cases key
    case pendingBalances =>
        simp only [Db.rows, markV3BalanceError, size_modify]
        exact rows
    all_goals exact rows

theorem store_counted (state : Db Lp × List (Call Lp))
    (reached : (store projection).Reaches always state) : Counted state.1 := by
  apply store_invariant projection (fun db _ => Counted db) _ _ state reached
  · intro lp
    refine ⟨?_, fun id row found => by cases found⟩
    intro key
    cases key <;> rfl
  · intro db done call counted
    exact (perform_owing projection db call counted).forget

/-- In every reachable store the counters are the numbers of rows of their tables, and no
call raises because one would become negative. -/
theorem counters_match (projection : PriceProjection Lp) (state : Db Lp × List (Call Lp))
    (reached : (store projection).Reaches always state) :
    (∀ key, state.1.counter key = state.1.rows key) ∧
      ∀ call key, perform projection state.1 call ≠ .error (.negative key) := by
  have counted := store_counted projection state reached
  constructor
  · intro key
    have rows := counted.rows key
    omega
  · intro call key raised
    exact (perform_owing projection state.1 call counted).failure raised key rfl

/-! A block with one event, indexed and then dropped by a reorganisation. -/

def sampleEvent : EventFields :=
  { id := none, blockNumber := some 1, blockHash := some (sampleHeader 1).hash
    txHash := some 7, txIndex := some 0, logIndex := some 0, timestamp := some 1
    poolId := none, protocol := some .v3, kind := some .add, quantity := fun _ => none
    party := fun _ => none, label := fun _ => none, data := fun _ => none, usd := fun _ => none
    basis := none, notes := fun _ => none, dataPool := none, pool := none }

def sampleCalls : List (Call Unit) :=
  [.ingest { headers := [sampleHeader 1], events := [sampleEvent], lane := "live"
             cursor := none, transactions := [], project := false },
    .rollback 0 none]

theorem sample_runs : ((store unpriced).run (.fresh (), []) sampleCalls).isSome := by
  decide

def sampleStore : Db Unit × List (Call Unit) :=
  ((store unpriced).run (.fresh (), []) sampleCalls).get sample_runs

theorem counters_match_sample :
    (((store unpriced).run (.fresh (), []) (sampleCalls.take 1)).map fun state =>
      (state.1.counter .indexedEvents, state.1.counter .pendingEnrichment,
        state.1.counter .pendingReprojection)) = some (1, 1, 1) ∧
      (∀ key, sampleStore.1.counter key = sampleStore.1.rows key) ∧
        ∀ call key, perform unpriced sampleStore.1 call ≠ .error (.negative key) := by
  refine ⟨by decide +kernel, counters_match unpriced sampleStore ?_⟩
  apply System.Reaches.run (.fresh (), []) sampleStore sampleCalls
  · exact .start _ ⟨(), rfl⟩
  · exact System.runMeets_always _ _
  · exact (Option.some_get sample_runs).symm

end RhPools.StoreCounters
