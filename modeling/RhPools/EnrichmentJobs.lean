import RhPools.LateCalls
import RhPools.StoreRows

/-! The enrichment queue. An event that moves liquidity needs the receipt of its transaction,
so until a row of `transactions` names its block its hash should be queued. Which calls keep
it so: an enrich takes every transaction that it touches off the queue, whether or not its
receipt arrived. -/

namespace RhPools.EnrichmentJobs
open OrderedTables MarketTables MarketStore CheckedSteps GuardedRuns StoreLedger StoreCanonical
open EventWords (Hash)

variable {Lp : Type}

structure Docket where
  event : EventId → Option (Place × Kind)
  receipt : Hash → Option (Int × Hash)
  job : Hash → Option Int

def docket (db : Db Lp) : Docket :=
  { event := fun id => (db.events.get id).map fun row => (row.place, row.terms.kind)
    receipt := fun hash =>
      (db.transactions.get hash).map fun row => (row.blockNumber, row.blockHash)
    job := fun hash => (db.pendingEnrichment.get hash).map EnrichmentJob.blockNumber }

theorem docket_blind : PoolBlind (@docket Lp) := fun _ _ _ _ _ _ _ _ => rfl

def names (receipt : Option (Int × Hash)) (place : Place) : Bool :=
  receipt.any fun block => block.2 = place.blockHash

def Attended (state : Docket) : Prop :=
  ∀ id place kind, state.event id = some (place, kind) → kind ∈ ENRICHMENT_KINDS →
    names (state.receipt place.txHash) place ∨ state.job place.txHash ≠ none

def updated (db : Db Lp) (update : EventFields) : Option (EventId × EventRow) :=
  match currentEvent db update with
  | .ok found => found
  | .error _ => none

def touched (db : Db Lp) (updates : List EventFields) (transactions : List (Hash × TransactionRow))
    (hash : Hash) : Bool :=
  hash ∈ transactions.map Prod.fst ||
    updates.any fun update => (updated db update).any fun entry => entry.2.place.txHash = hash

def kindsAfter (db : Db Lp) (updates : List EventFields) (id : EventId) (row : EventRow) :
    List Kind :=
  match updates.filter fun update => (updated db update).any fun entry => entry.1 = id with
  | [] => [row.terms.kind]
  | named => named.map fun update => update.kind.getD row.terms.kind

/-- The condition on a call: an enrich that touches the transaction of an LP event brings its
receipt or finds it stored, and receipts and rollbacks keep to the one block of a transaction
that has no job left to fetch it again. -/
def Answers (db : Db Lp) : Call Lp → Prop
  | .ingest call => ∀ entry ∈ db.events.entries, entry.2.terms.kind ∈ ENRICHMENT_KINDS →
      (docket db).job entry.2.place.txHash = none →
        (receiptOf call.transactions entry.2.place.txHash).all fun block =>
          block.2 = entry.2.place.blockHash
  | .enrich updates transactions => ∀ entry ∈ db.events.entries,
      touched db updates transactions entry.2.place.txHash →
        (∃ kind ∈ kindsAfter db updates entry.1 entry.2, kind ∈ ENRICHMENT_KINDS) →
          names ((receiptOf transactions entry.2.place.txHash).or
            ((docket db).receipt entry.2.place.txHash)) entry.2.place
  | .rollback ancestor _ => ∀ entry ∈ db.events.entries, entry.2.terms.kind ∈ ENRICHMENT_KINDS →
      entry.2.place.blockNumber ≤ ancestor →
        names ((docket db).receipt entry.2.place.txHash) entry.2.place ∨
          ((docket db).job entry.2.place.txHash).all fun number => number ≤ ancestor
  | _ => True

instance (db : Db Lp) (call : Call Lp) : Decidable (Answers db call) :=
  match call with
  | .ingest call => inferInstanceAs (Decidable (∀ entry ∈ db.events.entries,
      entry.2.terms.kind ∈ ENRICHMENT_KINDS → (docket db).job entry.2.place.txHash = none →
        ((receiptOf call.transactions entry.2.place.txHash).all fun block =>
          block.2 = entry.2.place.blockHash) = true))
  | .enrich updates transactions => inferInstanceAs (Decidable (∀ entry ∈ db.events.entries,
      touched db updates transactions entry.2.place.txHash = true →
        (∃ kind ∈ kindsAfter db updates entry.1 entry.2, kind ∈ ENRICHMENT_KINDS) →
          names ((receiptOf transactions entry.2.place.txHash).or
            ((docket db).receipt entry.2.place.txHash)) entry.2.place = true))
  | .rollback ancestor _ => inferInstanceAs (Decidable (∀ entry ∈ db.events.entries,
      entry.2.terms.kind ∈ ENRICHMENT_KINDS → entry.2.place.blockNumber ≤ ancestor →
        names ((docket db).receipt entry.2.place.txHash) entry.2.place = true ∨
          (((docket db).job entry.2.place.txHash).all fun number => number ≤ ancestor) = true))
  | .reproject _ | .upsertPools _ | .saveTokenMetadata _ _ _ | .queueV3Balances _ _ _
  | .saveV3Balances _ | .recoverMissingEnrichment _ _ | .completePoolUnpublishes _
  | .recordEnrichmentFailure _ _ _ | .markReprojectionError _ _ _
  | .markTokenMetadataError _ _ _ | .markV3BalanceError _ _ _ _ => .isTrue trivial

/-! Statements that leave the docket as it is, and those that write it. -/

variable (projection : PriceProjection Lp) (db : Db Lp)

theorem revalued_docket (change : EventId → EventRow → EventRow)
    (transactions : OrderedTable Hash TransactionRow) (lp : Lp)
    (kept : ∀ id row, (change id row).place = row.place ∧ (change id row).terms = row.terms)
    (receipts : ∀ hash, (transactions.get hash).map (fun row => (row.blockNumber, row.blockHash)) =
      (docket db).receipt hash) :
    docket { db with events := db.events.modify change, transactions := transactions, lp := lp } =
      docket db := by
  unfold docket
  congr 1
  · funext id
    simp only [get_modify, Option.map_map, Function.comp_def, kept]
  · funext hash
    exact receipts hash

theorem apply_docket (events : Delivered) :
    Keeps docket db (projection.apply db events) := by
  unfold PriceProjection.apply
  split
  · trivial
  · rename_i repriced _
    apply meets_bind fun after => docket after = docket db
    · apply meets_foldlM fun after => docket after = docket db
      · apply revalued_docket db _ db.transactions repriced.tables
        · intro id row
          split <;> exact ⟨rfl, rfl⟩
        · intro hash
          rfl
      · intro state chosen _ same
        exact (docket_blind.requeue state chosen).mono fun after kept => kept.trans same
    · intro requeued same
      rw [meets_pure, ← same]
      unfold docket
      congr 1
      funext hash
      rw [get_modify, Option.map_map]
      congr 1
      funext row
      split <;> rfl

theorem deliver_docket (events : Delivered) :
    Keeps docket db (projection.deliver db events) := by
  unfold PriceProjection.deliver
  split
  · rfl
  · exact apply_docket projection db events

variable (call : IngestCall) (ancestor : Int)

theorem unwind_docket :
    Keeps docket db (projection.rollback db ancestor) := by
  unfold PriceProjection.rollback
  split
  · trivial
  · rename_i unwound _
    apply revalued_docket db unwound.value db.transactions unwound.tables
    · intro id row
      unfold Unwinding.value
      split <;> exact ⟨rfl, rfl⟩
    · intro hash
      rfl

theorem project_docket (inserted : Delivered) :
    Keeps docket db (project projection db call inserted) := by
  unfold project
  split
  · exact deliver_docket projection db inserted
  · split
    · rfl
    · unfold deferInserted
      apply keeps_bind docket _ _ _ (docket_blind.bump _ _ _)
      intro deferred
      rfl

theorem queueEnrichment_docket (events : List EventRow) :
    Meets anyhow (fun after => docket after = { docket db with job := (docket after).job } ∧
        (∀ hash, (docket db).job hash ≠ none → (docket after).job hash ≠ none) ∧
        ∀ row ∈ events, row.terms.kind ∈ ENRICHMENT_KINDS →
          (docket after).job row.place.txHash ≠ none) (queueEnrichment db events) := by
  apply (bump_keeps docket (fun _ _ => rfl) _ _ _).mono
  intro after same
  rw [same]
  refine ⟨rfl, ?_, ?_⟩
  · intro hash queued
    simp only [docket, ne_eq, Option.map_eq_none_iff, get_insertAll_none] at queued ⊢
    exact fun absent => queued absent.1
  · intro row member financial
    simp only [docket, ne_eq, Option.map_eq_none_iff, get_insertAll_none, List.map_map]
    rintro ⟨-, absent⟩
    apply absent
    exact List.mem_map.mpr ⟨row, List.mem_filter.mpr ⟨member, decide_eq_true financial⟩, rfl⟩

theorem receiptOf_cons (first : Hash × TransactionRow) (rest : List (Hash × TransactionRow))
    (hash : Hash) : receiptOf (first :: rest) hash = (receiptOf rest hash).or
      (if first.1 = hash then some (first.2.blockNumber, first.2.blockHash) else none) := by
  unfold receiptOf
  congr 1
  by_cases here : first.1 = hash <;> simp [here]

variable (rows : List (Hash × TransactionRow))

theorem receiptOf_mem (hash : Hash) (block : Int × Hash) (found : receiptOf rows hash = some block) :
    hash ∈ rows.map Prod.fst := by
  obtain ⟨row, here, -⟩ := Option.map_eq_some_iff.mp found
  have same := List.find?_some here
  rw [decide_eq_true_eq] at same
  exact List.mem_map.mpr ⟨row, List.mem_reverse.mp (List.mem_of_find?_eq_some here), same⟩

theorem upserted_block (table : OrderedTable Hash TransactionRow) (hash : Hash) :
    ((table.upsertAll (rows.map fun row => (row.1, coalesceTransaction row.2))).get hash).map
        (fun row => (row.blockNumber, row.blockHash)) =
      (receiptOf rows hash).or
        ((table.get hash).map fun row => (row.blockNumber, row.blockHash)) := by
  induction rows generalizing table with
  | nil => rfl
  | cons first rest ih =>
    refine (ih (table.upsert first.1 (coalesceTransaction first.2))).trans ?_
    rw [receiptOf_cons, Option.or_assoc, OrderedTable.upsert, get_put]
    congr 1
    by_cases here : hash = first.1
    · rw [if_pos here, if_pos here.symm]
      cases table.get first.1 <;> rfl
    · rw [if_neg here, if_neg (Ne.symm here), Option.none_or]

theorem upsertTransactions_docket :
    Meets anyhow (fun after => docket after = { docket db with
        receipt := fun hash => (receiptOf rows hash).or ((docket db).receipt hash) })
      (upsertTransactions db rows) := by
  unfold upsertTransactions
  split
  · trivial
  · apply (docket_blind.bump _ _ _).mono
    intro after same
    rw [same]
    unfold docket
    congr 1
    funext hash
    exact upserted_block rows db.transactions hash

structure Hires (before after : Docket) (transactions : List (Hash × TransactionRow)) : Prop where
  event : ∀ id place kind, after.event id = some (place, kind) →
    before.event id = some (place, kind) ∨
      (kind ∈ ENRICHMENT_KINDS → after.job place.txHash ≠ none)
  receipt : ∀ hash, after.receipt hash = (receiptOf transactions hash).or (before.receipt hash)
  job : ∀ hash, before.job hash ≠ none → after.job hash ≠ none

theorem recordInserted_docket (lane : String) (inserted : Delivered) :
    Meets anyhow (fun after => docket after = { docket db with job := (docket after).job } ∧
        (∀ hash, (docket db).job hash ≠ none → (docket after).job hash ≠ none) ∧
        ∀ entry ∈ inserted, entry.2.terms.kind ∈ ENRICHMENT_KINDS →
          (docket after).job entry.2.place.txHash ≠ none) (recordInserted db lane inserted) := by
  unfold recordInserted
  split
  · rename_i none
    rw [List.isEmpty_iff.mp none]
    exact ⟨rfl, fun _ queued => queued, fun entry member => absurd member List.not_mem_nil⟩
  · apply meets_bind _ (docket_blind.bump db _ _)
    intro bumped same
    apply meets_bind _ (queueEnrichment_docket { bumped with eventsRevision := bumped.revision } _)
    rintro queued ⟨only, kept, hired⟩
    rw [meets_pure, ← same]
    have recorded : docket (if lane = "live" then { queued with liveRevision := queued.revision }
        else queued) = docket queued := by
      split <;> rfl
    rw [recorded]
    refine ⟨only, kept, ?_⟩
    intro entry member financial
    exact hired entry.2 (List.mem_map_of_mem member) financial

theorem ingestRows_hires (normalized : OrderedTable Int Header) (call : IngestCall)
    (issued : StoreRows.Issued (StoreRows.sheet db)) :
    Meets anyhow (fun after => Hires (docket db) (docket after.1) call.transactions)
      (ingestRows db normalized call) := by
  apply meets_bind _ ((docket_blind.upsertPools db.nextRevision _).and
    (StoreRows.sheet_blind.pools.upsertPools db.nextRevision _))
  rintro pooled ⟨same, seen⟩
  have events : pooled.events = db.events := congrArg StoreRows.Sheet.events seen
  have last : pooled.lastEventId = db.lastEventId := congrArg StoreRows.Sheet.lastEventId seen
  apply meets_bind _ (meets_mapM call.events fun fields _ =>
    StoreRows.prepareEvent_revision pooled normalized fields)
  intro prepared revised
  have inserted := StoreRows.insertNewEvents_inserted pooled prepared (pooled, []) revised
    (StoreRows.inserted_none pooled fun id row found => by
      rw [events] at found
      rw [last]
      exact issued.id id row found)
  generalize prepared.foldl insertNewEvent (pooled, []) = state at inserted ⊢
  obtain ⟨filled, list⟩ := state
  apply meets_bind _ (recordInserted_docket filled call.lane (inOrder list))
  rintro recorded ⟨only, kept, hired⟩
  apply meets_bind _ (upsertTransactions_docket recorded call.transactions)
  intro after stored
  have unread : docket filled = { docket db with event := (docket filled).event } := by
    have base : filled =
      { pooled with events := filled.events, lastEventId := filled.lastEventId } := inserted.only
    rw [← show docket pooled = docket db from same, base]
    rfl
  rw [meets_pure]
  rw [stored, only, unread]
  rw [unread] at kept
  constructor
  · intro id place kind found
    rcases inserted.changed id with same | ⟨row, member, there⟩
    · left
      rw [← found]
      simp only [docket, ← events, same]
    · right
      intro financial
      simp only [docket, there, Option.map_some, Option.some.injEq, Prod.mk.injEq] at found
      obtain ⟨rfl, rfl⟩ := found
      exact hired (id, row) ((StoreRows.mem_inOrder list _).mpr member) financial
  · intro hash
    rfl
  · exact kept

theorem keepCursor_docket :
    docket (keepCursor db call) = docket db := by
  unfold keepCursor
  split <;> rfl

theorem ingest_hires (issued : StoreRows.Issued (StoreRows.sheet db)) :
    Meets anyhow (fun after => Hires (docket db) (docket after.1) call.transactions)
      (ingest projection db call) := by
  unfold ingest
  split
  · trivial
  · apply meets_bind fun _ => True
    · exact (meets_anyhow _ _).mpr fun _ _ => trivial
    · intro _ _
      apply meets_bind _ (storeHeaders_meets db call.headers)
      rintro ⟨headed, normalized⟩ ⟨only, -, -⟩
      dsimp only at only ⊢
      apply meets_bind _ (coverCursor_only headed normalized call)
      intro covered aside
      have seen : StoreRows.sheet covered = StoreRows.sheet db := by
        rw [aside, only]
        rfl
      have same : docket covered = docket db := by
        rw [aside, only]
        rfl
      apply meets_bind _ (ingestRows_hires covered normalized call (seen ▸ issued))
      rintro ⟨filled, inserted⟩ hires
      apply meets_bind _ (project_docket projection (keepCursor filled call) call inserted)
      intro after kept
      rw [meets_pure]
      rw [kept, keepCursor_docket, ← same]
      exact hires

theorem required_ok {Value : Type} (value : Option Value) (column : String) (result : Value) :
    required value column = .ok result ↔ value = some result := by
  cases value with
  | none =>
    constructor
    · intro raised
      cases raised
    · intro absent
      cases absent
  | some value => simp [required]

theorem currentEvent_place (update : EventFields) (anonymous : update.id = none)
    (found : Option (EventId × EventRow)) : currentEvent db update = .ok found ↔
      ∃ blockHash txHash logIndex, update.blockHash = some blockHash ∧
        update.txHash = some txHash ∧ update.logIndex = some logIndex ∧
          findEvent db ⟨0, blockHash, txHash, 0, logIndex, 0⟩ = found := by
  unfold currentEvent
  rw [anonymous]
  simp only [EventWords.bind_ok, required_ok, pure, Except.pure, Except.ok.injEq]
  constructor
  · rintro ⟨blockHash, block, txHash, transaction, logIndex, log, same⟩
    exact ⟨blockHash, txHash, logIndex, block, transaction, log, same⟩
  · rintro ⟨blockHash, txHash, logIndex, block, transaction, log, same⟩
    exact ⟨blockHash, block, txHash, transaction, logIndex, log, same⟩

def Appended (base db : Db Lp) : Prop :=
  ∃ new, db.events.entries = base.events.entries ++ new

theorem Appended.get {base db : Db Lp} (appended : Appended base db) (id : EventId)
    (row : EventRow) (found : base.events.get id = some row) : db.events.get id = some row := by
  obtain ⟨new, entries⟩ := appended
  rw [get_some, entries]
  exact List.mem_append_left new ((get_some _ _ _).mp found)

theorem Appended.current {base db : Db Lp} (appended : Appended base db) (update : EventFields)
    (entry : EventId × EventRow) (found : updated base update = some entry) :
    currentEvent db update = .ok (some entry) := by
  have returned : currentEvent base update = .ok (some entry) := by
    unfold updated at found
    split at found
    · rename_i result same
      rw [same, found]
    · cases found
  cases anonymous : update.id with
  | some id =>
    unfold currentEvent at returned ⊢
    rw [anonymous] at returned ⊢
    dsimp only at returned ⊢
    split at returned
    · rename_i row here
      rw [appended.get id row here]
      exact returned
    · cases returned
  | none =>
    rw [currentEvent_place _ _ anonymous] at returned ⊢
    obtain ⟨blockHash, txHash, logIndex, block, transaction, log, here⟩ := returned
    refine ⟨blockHash, txHash, logIndex, block, transaction, log, ?_⟩
    obtain ⟨new, entries⟩ := appended
    unfold findEvent at here ⊢
    rw [entries, List.find?_append, here, Option.some_or]

theorem Appended.updated {base db : Db Lp} (appended : Appended base db) (update : EventFields)
    (id : EventId) (row old : EventRow) (returned : currentEvent db update = .ok (some (id, row)))
    (before : base.events.get id = some old) : updated base update = some (id, row) := by
  have here : db.events.get id = some old := appended.get id old before
  unfold EnrichmentJobs.updated
  cases anonymous : update.id with
  | some other =>
    unfold currentEvent at returned ⊢
    rw [anonymous] at returned ⊢
    dsimp only at returned ⊢
    split at returned
    · rename_i found there
      cases returned
      rw [here, Option.some.injEq] at there
      rw [before, there]
    · cases returned
  | none =>
    obtain ⟨blockHash, txHash, logIndex, block, transaction, log, found⟩ :=
      (currentEvent_place _ _ anonymous _).mp returned
    have again : currentEvent base update = .ok (some (id, row)) := by
      apply (currentEvent_place _ _ anonymous _).mpr
      refine ⟨blockHash, txHash, logIndex, block, transaction, log, ?_⟩
      obtain ⟨new, entries⟩ := appended
      unfold findEvent at found ⊢
      rw [entries, List.find?_append] at found
      rcases Option.or_eq_some_iff.mp found with early | ⟨-, late⟩
      · exact early
      · -- a key of the base is none of those behind it
        have apart := (List.nodup_append.mp (List.map_append ▸ entries ▸ db.events.distinct)).2.2
        exact absurd rfl (apart id
          (List.mem_map_of_mem (f := Prod.fst) ((get_some _ _ _).mp before)) id
          (List.mem_map_of_mem (f := Prod.fst) (List.mem_of_find?_eq_some late)))
    rw [again]

theorem mergeEvent_kind (current update : EventFields) :
    (mergeEvent current update).kind = update.kind.or current.kind := rfl

theorem eventRow_kind (fields : EventFields) (revision : Nat) :
    Meets anyhow (fun row => fields.kind = some row.terms.kind) (eventRow fields revision) := by
  apply (meets_anyhow _ _).mpr
  intro row returned
  obtain ⟨place, -, returned⟩ := (EventWords.bind_ok _ _ _).mp returned
  obtain ⟨terms, termed, returned⟩ := (EventWords.bind_ok _ _ _).mp returned
  cases returned
  obtain ⟨protocol, -, termed⟩ := (EventWords.bind_ok _ _ _).mp termed
  obtain ⟨kind, named, termed⟩ := (EventWords.bind_ok _ _ _).mp termed
  obtain ⟨_, -, termed⟩ := (EventWords.bind_ok _ _ _).mp termed
  cases termed
  exact (required_ok _ _ _).mp named

def Discovered (base : Db Lp) (receipts : List (Hash × TransactionRow)) (id : EventId)
    (place : Place) : Prop :=
  base.events.get id = none ∧ names (receiptOf receipts place.txHash) place

def Corrected (base : Db Lp) (updates : List EventFields) (id : EventId) (row : EventRow) : Prop :=
  ∃ update ∈ updates, ∃ current, updated base update = some (id, current) ∧
    row.place = current.place ∧ row.terms.kind = update.kind.getD current.terms.kind

/-- What merging updates keeps: stored events are as they were, and each enriched one is
corrected or discovered. -/
structure Merging (base : Db Lp) (updates : List EventFields)
    (receipts : List (Hash × TransactionRow)) (state : EnrichState Lp) : Prop
    extends StoreRows.Enriching base state where
  appended : Appended base state.db
  stored : ∀ id row, state.db.events.get id = some row →
    base.events.get id = some row ∨ Discovered base receipts id row.place
  source : ∀ event ∈ state.enriched, Corrected base updates event.id event.row ∨
    Discovered base receipts event.id event.row.place

theorem enrichEvent_merging (base : Db Lp) (updates : List EventFields)
    (receipts : List (Hash × TransactionRow)) (state : EnrichState Lp) (update : EventFields)
    (member : update ∈ updates) (merging : Merging base updates receipts state) :
    Meets anyhow (fun next => Merging base updates receipts next ∧
        (∀ entry ∈ updated base update, ∃ event ∈ next.enriched, event.id = entry.1) ∧
        ∀ event ∈ state.enriched, event ∈ next.enriched)
      (enrichEvent receipts state update) := by
  apply (Meets.and (StoreRows.enrichEvent_enriching base receipts state update
    merging.toEnriching) (?_ : Meets anyhow (fun next => Appended base next.db ∧
      (∀ id row, next.db.events.get id = some row →
        base.events.get id = some row ∨ Discovered base receipts id row.place) ∧
      (∀ event ∈ next.enriched, Corrected base updates event.id event.row ∨
        Discovered base receipts event.id event.row.place) ∧
      (∀ entry ∈ updated base update, ∃ event ∈ next.enriched, event.id = entry.1) ∧
      ∀ event ∈ state.enriched, event ∈ next.enriched) _)).mono
  · rintro next ⟨enriching, appended, stored, source, represented, kept⟩
    exact ⟨⟨enriching, appended, stored, source⟩, represented, kept⟩
  apply meets_bind fun found => currentEvent state.db update = .ok found
  · exact (meets_anyhow _ _).mpr fun _ same => same
  intro found returned
  have same : ∀ entry ∈ updated base update, found = some entry := by
    intro entry here
    have again := merging.appended.current update entry here
    rw [returned] at again
    exact Except.ok.inj again
  cases found with
  | some entry =>
    obtain ⟨id, current⟩ := entry
    have here : state.db.events.get id = some current := (get_some _ _ _).mpr
      ((currentEvent_meets state.db update).value returned (id, current) rfl)
    apply meets_bind _ (eventRow_kind _ state.db.revision)
    intro row kind
    rw [mergeEvent_kind] at kind
    have named : row.terms.kind = update.kind.getD current.terms.kind := by
      cases given : update.kind with
      | none =>
        rw [given] at kind
        exact (Option.some.inj kind).symm
      | some other =>
        rw [given] at kind
        exact (Option.some.inj kind).symm
    dsimp only
    split
    · trivial
    · rename_i placed
      rw [not_not] at placed
      split
      · trivial
      · refine ⟨merging.appended, merging.stored, ?_, ?_, fun event old =>
          List.mem_append_left _ old⟩
        · intro event inside
          rcases List.mem_append.mp inside with old | new
          · exact merging.source event old
          · cases List.mem_singleton.mp new
            rcases merging.stored id current here with before | discovered
            · left
              have was := merging.appended.updated update id current current returned before
              exact ⟨update, member, current, was, placed.symm, named⟩
            · right
              rw [← placed]
              exact discovered
        · intro entry updates
          cases same entry updates
          exact ⟨_, List.mem_append_right _ (List.mem_singleton_self _), rfl⟩
  | none =>
    apply meets_bind _ ((meets_anyhow (fun _ : EventRow => True) _).mpr fun _ _ => trivial)
    intro row _
    dsimp only
    split
    · trivial
    · rename_i receipt
      rw [not_not] at receipt
      split
      · trivial
      · have absent : state.db.events.get (state.db.lastEventId + 1) = none := by
          apply Option.eq_none_iff_forall_ne_some.mpr
          intro old found
          exact Nat.not_succ_le_self _ (merging.issued _ old found)
        have discovered : Discovered base receipts (state.db.lastEventId + 1) row.place := by
          refine ⟨?_, ?_⟩
          · apply Option.eq_none_iff_forall_ne_some.mpr
            intro old found
            rw [merging.kept _ old found] at absent
            cases absent
          · rw [receipt]
            exact decide_eq_true rfl
        refine ⟨?_, ?_, ?_, ?_, fun event old => List.mem_append_left _ old⟩
        · obtain ⟨new, entries⟩ := merging.appended
          refine ⟨new ++ [(state.db.lastEventId + 1, row)], ?_⟩
          rw [← List.append_assoc, ← entries]
          exact entries_put_new state.db.events _ row absent
        · intro id other found
          simp only [insertEvent, get_put] at found
          split at found
          · rename_i here
            cases found
            exact Or.inr (here ▸ discovered)
          · exact merging.stored id other found
        · intro event inside
          rcases List.mem_append.mp inside with old | new
          · exact merging.source event old
          · cases List.mem_singleton.mp new
            exact Or.inr discovered
        · intro entry updates
          cases same entry updates

theorem updated_stored (update : EventFields) (entry : EventId × EventRow)
    (found : updated db update = some entry) : db.events.get entry.1 = some entry.2 := by
  unfold updated at found
  split at found
  · rename_i result returned
    exact (get_some _ _ _).mpr ((currentEvent_meets db update).value returned entry found)
  · cases found

def Sourced (base : Db Lp) (updates : List EventFields) (receipts : List (Hash × TransactionRow))
    (id : EventId) (row : EventRow) : Prop :=
  (∃ old, base.events.get id = some old ∧ old.place = row.place ∧
    row.terms.kind ∈ kindsAfter base updates id old) ∨
  Discovered base receipts id row.place

theorem kindsAfter_unnamed (base : Db Lp) (updates : List EventFields) (id : EventId)
    (row : EventRow) (unnamed : ∀ update ∈ updates, ∀ entry ∈ updated base update, entry.1 ≠ id) :
    kindsAfter base updates id row = [row.terms.kind] := by
  have none : (updates.filter fun update =>
      (updated base update).any fun entry => entry.1 = id) = [] := by
    apply List.filter_eq_nil_iff.mpr
    intro update member named
    obtain ⟨entry, found, here⟩ := (Option.any_eq_true _ _).mp named
    exact unnamed update member entry found (of_decide_eq_true here)
  unfold kindsAfter
  rw [none]

theorem kindsAfter_named (base : Db Lp) (updates : List EventFields) (id : EventId)
    (row : EventRow) (update : EventFields) (member : update ∈ updates)
    (found : updated base update = some (id, row)) :
    update.kind.getD row.terms.kind ∈ kindsAfter base updates id row := by
  have named : update ∈ updates.filter fun update =>
      (updated base update).any fun entry => entry.1 = id := by
    apply List.mem_filter.mpr
    rw [found]
    exact ⟨member, decide_eq_true rfl⟩
  unfold kindsAfter
  split
  · rename_i none
    rw [none] at named
    cases named
  · exact List.mem_map_of_mem (f := fun update : EventFields =>
      update.kind.getD row.terms.kind) named

section Merged

variable {base : Db Lp} {updates : List EventFields} {receipts : List (Hash × TransactionRow)}
  {state : EnrichState Lp} (merging : Merging base updates receipts state)
  (represented : ∀ update ∈ updates, ∀ entry ∈ updated base update,
    ∃ event ∈ state.enriched, event.id = entry.1)
include merging represented

theorem unrepresented_sourced (id : EventId) (row : EventRow)
    (found : state.db.events.get id = some row)
    (apart : ∀ event ∈ state.enriched, event.id ≠ id) : Sourced base updates receipts id row := by
  rcases merging.stored id row found with before | discovered
  · left
    refine ⟨row, before, rfl, ?_⟩
    rw [kindsAfter_unnamed base updates id row]
    · exact List.mem_singleton_self _
    · intro update member entry here same
      obtain ⟨event, inside, there⟩ := represented update member entry here
      exact apart event inside (there.trans same)
  · exact Or.inr discovered

theorem enriched_sourced (db : Db Lp) (events : db.events = state.db.events) (event : Enriched)
    (member : event ∈ enrichedOrder (state.enriched ++ companions db receipts state.enriched)) :
    Sourced base updates receipts event.id event.row := by
  rw [enrichedOrder, List.mem_insertionSort] at member
  rcases List.mem_append.mp member with merged | companion
  · rcases merging.source event merged with ⟨update, inside, current, found, place, kind⟩ | fresh
    · left
      refine ⟨current, updated_stored base update _ found, place.symm, ?_⟩
      rw [kind]
      exact kindsAfter_named base updates event.id current update inside found
    · exact Or.inr fresh
  · obtain ⟨entry, there, rfl⟩ := List.mem_map.mp companion
    obtain ⟨stored, chosen⟩ := List.mem_filter.mp there
    rw [Bool.and_eq_true, decide_eq_true_eq, decide_eq_true_eq] at chosen
    apply unrepresented_sourced merging represented entry.1 entry.2
    · exact (get_some _ _ _).mpr (events ▸ stored)
    · intro event inside same
      exact chosen.2 (same ▸ List.mem_map_of_mem inside)

omit represented in
theorem completed_touched (db : Db Lp) (hash : Hash)
    (member : hash ∈ receipts.map Prod.fst ++
      (enrichedOrder (state.enriched ++ companions db receipts state.enriched)).map
        fun event => event.row.place.txHash) : touched base updates receipts hash := by
  unfold touched
  rw [Bool.or_eq_true, decide_eq_true_eq, List.any_eq_true]
  rcases List.mem_append.mp member with received | enriched
  · exact Or.inl received
  obtain ⟨event, inside, rfl⟩ := List.mem_map.mp enriched
  rw [enrichedOrder, List.mem_insertionSort] at inside
  rcases List.mem_append.mp inside with merged | companion
  · rcases merging.source event merged with ⟨update, given, current, found, place, -⟩ | fresh
    · right
      refine ⟨update, given, ?_⟩
      rw [found, place]
      exact decide_eq_true rfl
    · left
      obtain ⟨block, receipt, -⟩ := (Option.any_eq_true _ _).mp fresh.2
      exact receiptOf_mem receipts _ block receipt
  · left
    obtain ⟨entry, there, rfl⟩ := List.mem_map.mp companion
    have chosen := (List.mem_filter.mp there).2
    rw [Bool.and_eq_true, decide_eq_true_eq] at chosen
    exact chosen.1

end Merged

/-- What an enrich does to the docket: receipts are stored, events keep to their kinds, and the
jobs of the transactions it touches are gone. -/
structure Completes (base after : Db Lp) (updates : List EventFields)
    (receipts : List (Hash × TransactionRow)) : Prop where
  event : ∀ id place kind, (docket after).event id = some (place, kind) →
    ∃ row : EventRow, row.place = place ∧ row.terms.kind = kind ∧
      Sourced base updates receipts id row
  receipt : ∀ hash, (docket after).receipt hash =
    (receiptOf receipts hash).or ((docket base).receipt hash)
  job : ∀ hash, touched base updates receipts hash = false →
    (docket after).job hash = (docket base).job hash

theorem dequeueEnrichment_docket (completed : List Hash) :
    Meets anyhow (fun after => docket after = { docket db with
        job := fun hash => if hash ∈ completed then none else (docket db).job hash })
      (dequeueEnrichment db completed) := by
  apply (bump_keeps docket (fun _ _ => rfl) _ _ _).mono
  intro after same
  rw [same]
  simp only [docket, get_remove, Docket.mk.injEq, true_and]
  funext hash
  cases db.pendingEnrichment.get hash with
  | none => exact (ite_self none).symm
  | some job => by_cases gone : hash ∈ completed <;> simp [gone, Option.filter]

theorem publishEnriched_docket (enriched : List Enriched)
    (transactions : List (Hash × TransactionRow)) :
    Meets anyhow (fun after =>
      (docket after).event = (fun id => ((StoreRows.replaceRows db.events enriched).get id).map
        fun row => (row.place, row.terms.kind)) ∧
      (docket after).receipt =
        (fun hash => (receiptOf transactions hash).or ((docket db).receipt hash)) ∧
      (docket after).job = fun hash =>
        if hash ∈ transactions.map Prod.fst ++ enriched.map fun event => event.row.place.txHash
        then none else (docket db).job hash)
      (publishEnriched projection db enriched transactions) := by
  apply meets_bind _ ((docket_blind.upsertPools db _).and
    (StoreRows.sheet_blind.pools.upsertPools db _))
  rintro pooled ⟨same, seen⟩
  have events : pooled.events = db.events := congrArg StoreRows.Sheet.events seen
  have persisted : docket (if enriched.isEmpty then pooled else persist pooled enriched) =
      { docket db with
        event := fun id => ((StoreRows.replaceRows db.events enriched).get id).map
          (fun row => (row.place, row.terms.kind)) } := by
    rw [← same, ← events]
    cases enriched with
    | nil => rfl
    | cons event rest => rfl
  generalize (if enriched.isEmpty then pooled else persist pooled enriched) = middle
    at persisted ⊢
  apply meets_bind _ (upsertTransactions_docket middle transactions)
  intro stored received
  apply meets_bind _ (deliver_docket projection stored _)
  intro priced kept
  apply (dequeueEnrichment_docket priced _).mono
  intro after dequeued
  rw [dequeued, kept, received, persisted]
  exact ⟨rfl, rfl, rfl⟩

theorem enrich_completes (updates : List EventFields) (transactions : List (Hash × TransactionRow))
    (issued : StoreRows.Issued (StoreRows.sheet db)) :
    Meets anyhow (fun after => after = db ∨ Completes db after updates transactions)
      (enrich projection db updates transactions) := by
  unfold enrich
  split
  · exact Or.inl rfl
  have started : Merging db.nextRevision updates transactions ⟨db.nextRevision, [], 0⟩ := by
    refine ⟨⟨rfl, issued.id, fun _ => Or.inl rfl, fun _ _ found => found, ?_⟩,
      ⟨[], (List.append_nil _).symm⟩, fun _ _ found => Or.inl found, ?_⟩
    · exact fun event member => absurd member List.not_mem_nil
    · exact fun event member => absurd member List.not_mem_nil
  apply meets_bind _ (meets_foldlM_each (Merging db.nextRevision updates transactions)
    (fun update state => ∀ entry ∈ updated db.nextRevision update,
      ∃ event ∈ state.enriched, event.id = entry.1) updates _ started
    fun state update member merging =>
      (enrichEvent_merging db.nextRevision updates transactions state update member merging).mono
        fun next ⟨merges, here, kept⟩ => ⟨merges, here, fun other was entry found =>
          (was entry found).imp fun event inside => ⟨kept event inside.1, inside.2⟩⟩)
  rintro state ⟨merging, represented, -⟩
  apply meets_bind _ ((docket_blind.bump state.db _ _).and (StoreRows.sheet_blind.bump state.db _ _))
  rintro bumped ⟨same, seen⟩
  have events : bumped.events = state.db.events := congrArg StoreRows.Sheet.events seen
  have unread : docket state.db = { docket db with event := (docket state.db).event } := by
    rw [merging.only]
    rfl
  apply (publishEnriched_docket projection bumped _ transactions).mono
  rintro after ⟨replaced, received, dequeued⟩
  right
  constructor
  · intro id place kind found
    rw [replaced] at found
    obtain ⟨row, here, same⟩ := Option.map_eq_some_iff.mp found
    cases same
    refine ⟨row, rfl, rfl, ?_⟩
    rcases StoreRows.replaceRows_get _ bumped.events id with ⟨kept, apart⟩ |
      ⟨event, member, rfl, changed⟩
    · rw [kept, events] at here
      apply unrepresented_sourced merging represented id row here
      intro event merged
      apply apart event
      rw [enrichedOrder, List.mem_insertionSort]
      exact List.mem_append_left _ merged
    · rw [changed] at here
      obtain ⟨old, -, rfl⟩ := Option.map_eq_some_iff.mp here
      exact enriched_sourced merging represented bumped events event member
  · intro hash
    rw [received, same, unread]
  · intro hash untouched
    rw [dequeued, same, unread]
    refine if_neg fun completed => ?_
    have touches := completed_touched merging bumped hash completed
    rw [show touched db.nextRevision updates transactions hash = false from untouched] at touches
    cases touches

def cutDocket (state : Docket) (ancestor : Int) : Docket :=
  { event := fun id => (state.event id).filter fun entry => entry.1.blockNumber ≤ ancestor
    receipt := fun hash => (state.receipt hash).filter fun block => block.1 ≤ ancestor
    job := fun hash => (state.job hash).filter fun number => number ≤ ancestor }

theorem rewindCursor_docket (lane : String) :
    docket (rewindCursor db ancestor lane) = docket db := by
  unfold rewindCursor
  split
  · split <;> rfl
  · rfl

theorem cut_docket :
    Meets anyhow (fun after => docket after = cutDocket (docket db) ancestor) (cut db ancestor) := by
  apply meets_bind _ (docket_blind.bump _ _ _)
  intro unpublished same
  dsimp only
  split
  · trivial
  · apply meets_bind _ (lowerCounters_keeps docket (fun _ _ => rfl) _ _ _)
    intro lowered kept
    rw [rewindCursor_docket, rewindCursor_docket] at kept
    refine Eq.trans kept (Eq.trans ?_ (congrArg (cutDocket · ancestor) same))
    simp only [docket, cutBlocks, cutOrphans, cutRows, cutDocket, get_remove]
    congr 1
    · funext id
      exact filter_map_not _ (fun row : EventRow => (row.place, row.terms.kind))
        (fun entry => ancestor < entry.1.blockNumber) (fun entry => entry.1.blockNumber ≤ ancestor)
        fun _ => Int.not_lt
    · funext hash
      exact filter_map_not _ (fun row : TransactionRow => (row.blockNumber, row.blockHash))
        (fun block => ancestor < block.1) (fun block => block.1 ≤ ancestor) fun _ => Int.not_lt
    · funext hash
      exact filter_map_not _ EnrichmentJob.blockNumber (fun number => ancestor < number)
        (fun number => number ≤ ancestor) fun _ => Int.not_lt

theorem rollback_docket (header : Option Header) :
    Meets anyhow (fun after => docket after = cutDocket (docket db) ancestor)
      (rollback projection db ancestor header) := by
  unfold rollback
  split
  · trivial
  · split
    · trivial
    · apply meets_bind _ (unwind_docket projection db ancestor)
      intro unwound same
      apply meets_bind _ (storeHeaders_meets unwound header.toList)
      rintro ⟨headed, normalized⟩ ⟨only, -, -⟩
      apply (cut_docket headed ancestor).mono
      intro after cuts
      dsimp only at only
      rw [cuts, ← same, only]
      rfl

def Stays (before after : Docket) : Prop :=
  after = { before with job := after.job } ∧
    ∀ hash, before.job hash ≠ none → after.job hash ≠ none

theorem Stays.of_eq {before after : Docket} (same : after = before) : Stays before after := by
  rw [same]
  exact ⟨rfl, fun _ queued => queued⟩

theorem reproject_stays (ids : List EventId) :
    Meets anyhow (fun after => Stays (docket db) (docket after)) (reproject projection db ids) := by
  unfold reproject
  split
  · exact .of_eq rfl
  · apply meets_bind fun after => docket after = docket db
    · apply (deliver_docket projection _ _).mono
      intro after same
      apply same.trans (revalued_docket db _ db.transactions db.lp _ _)
      · intro id row
        split <;> exact ⟨rfl, rfl⟩
      · intro hash
        rfl
    · intro priced same
      apply (docket_blind.bump _ _ _).mono
      intro after kept
      exact .of_eq (kept.trans same)

theorem upsertPoolsCall_stays (rows : List PoolFields) :
    Meets anyhow (fun after => Stays (docket db) (docket after)) (upsertPoolsCall db rows) := by
  apply meets_bind _ (docket_blind.upsertPools db rows)
  intro after same
  split <;> exact .of_eq same

theorem saveTokenMetadata_stays (address : TxChain.Address) (symbol : String) (decimals : Int) :
    Meets anyhow (fun after => Stays (docket db) (docket after))
      (saveTokenMetadata db address symbol decimals) := by
  unfold saveTokenMetadata
  split
  · trivial
  · apply meets_bind _ (docket_blind.requeue _ _)
    intro queued same
    apply meets_bind _ (docket_blind.bump _ _ _)
    intro after dequeued
    exact .of_eq (dequeued.trans same)

theorem saveV3Balances_stays (items : List BalanceItem) :
    Meets anyhow (fun after => Stays (docket db) (docket after.1)) (saveV3Balances db items) := by
  unfold saveV3Balances
  dsimp only
  split
  · exact .of_eq rfl
  · apply meets_bind fun after => Stays (docket db) (docket after)
    · unfold publishBalances
      dsimp only
      split
      · trivial
      · apply meets_bind _ (bump_keeps docket (fun _ _ => rfl) _ _ _)
        intro after same
        exact .of_eq same
    · intro after stays
      exact stays

theorem recoverMissingEnrichment_stays (reader db : Db Lp) (limit : Nat) :
    Meets anyhow (fun after => Stays (docket db) (docket after))
      (recoverMissingEnrichment reader db limit) := by
  unfold recoverMissingEnrichment
  dsimp only
  split
  · exact .of_eq rfl
  · split
    · exact .of_eq rfl
    · apply meets_bind _ (queueEnrichment_docket db _)
      rintro queued ⟨only, kept, -⟩
      exact ⟨only, kept⟩

theorem recordEnrichmentFailure_docket (hash : Hash) (error : String) (nextAttempt : ℚ) :
    docket (recordEnrichmentFailure db hash error nextAttempt) = docket db := by
  unfold docket recordEnrichmentFailure
  congr 1
  funext other
  rw [get_modify, Option.map_map]
  congr 1
  funext job
  split <;> rfl

/-! No two stored blocks have one hash, so a receipt stands in the block of its event. -/

def Unshared (blocks : OrderedTable Int Header) : Prop :=
  ∀ number other header same, blocks.get number = some header → blocks.get other = some same →
    header.hash = same.hash → number = other

theorem storeHeader_unshared (blocks : OrderedTable Int Header) (header : Header)
    (unshared : Unshared blocks) : Meets anyhow Unshared (storeHeader blocks header) := by
  unfold storeHeader
  split
  · exact unshared
  · split
    · trivial
    · rename_i fresh
      rw [Bool.not_eq_true, List.any_eq_false] at fresh
      have apart : ∀ number found, blocks.get number = some found → found.hash ≠ header.hash :=
        fun number found here same =>
          fresh (number, found) ((get_some _ _ _).mp here) (decide_eq_true same)
      intro number other found same here there hashes
      rw [get_put] at here there
      split at here <;> split at there
      · rename_i first second
        exact first.trans second.symm
      · rw [← Option.some.inj here] at hashes
        exact absurd hashes.symm (apart other same there)
      · rw [← Option.some.inj there] at hashes
        exact absurd hashes (apart number found here)
      · exact unshared number other found same here there hashes

theorem storeHeaders_unshared (headers : List Header) (unshared : Unshared db.blocks) :
    Meets anyhow (fun after => Unshared after.1.blocks) (storeHeaders db headers) := by
  apply meets_bind fun _ => True
  · exact (meets_anyhow _ _).mpr fun _ _ => trivial
  · intro normalized _
    apply meets_bind fun _ => True
    · exact (meets_anyhow _ _).mpr fun _ _ => trivial
    · intro _ _
      apply meets_bind Unshared
      · apply meets_foldlM Unshared _ _ unshared
        intro blocks header _ unshared
        exact storeHeader_unshared blocks header unshared
      · intro blocks unshared
        exact unshared

theorem perform_unshared (call : Call Lp) (unshared : Unshared db.blocks) :
    Meets anyhow (fun after => Unshared after.blocks) (perform projection db call) := by
  apply perform_blocks projection Unshared storeHeaders_unshared _ db call unshared
  intro blocks ancestor unshared number other header same here there hashes
  rw [get_remove] at here there
  exact unshared number other header same (Option.filter_eq_some_iff.mp here).1
    (Option.filter_eq_some_iff.mp there).1 hashes

theorem docket_event (id : EventId) (row : EventRow) (found : db.events.get id = some row) :
    (docket db).event id = some (row.place, row.terms.kind) := by
  simp only [docket, found, Option.map_some]

theorem event_docket (id : EventId) (place : Place) (kind : Kind)
    (found : (docket db).event id = some (place, kind)) :
    ∃ row, (id, row) ∈ db.events.entries ∧ row.place = place ∧ row.terms.kind = kind := by
  obtain ⟨row, here, same⟩ := Option.map_eq_some_iff.mp found
  cases same
  exact ⟨row, (get_some _ _ _).mp here, rfl, rfl⟩

theorem stays_attended (before after : Docket) (stays : Stays before after)
    (attended : Attended before) : Attended after := by
  intro id place kind found financial
  rw [stays.1] at found ⊢
  exact (attended id place kind found financial).imp_right (stays.2 place.txHash)

theorem hires_attended (after : Docket) (call : IngestCall)
    (hires : Hires (docket db) after call.transactions) (answers : Answers db (.ingest call))
    (attended : Attended (docket db)) : Attended after := by
  intro id place kind found financial
  rcases hires.event id place kind found with before | hired
  · by_cases queued : (docket db).job place.txHash = none
    · left
      obtain ⟨row, member, rfl, rfl⟩ := event_docket db id place kind before
      have received := (attended id row.place row.terms.kind before financial).resolve_right
        fun job => job queued
      have agrees := answers (id, row) member financial queued
      rw [hires.receipt]
      cases given : receiptOf call.transactions row.place.txHash with
      | none =>
        exact received
      | some block =>
        rw [given] at agrees
        exact agrees
    · exact Or.inr (hires.job place.txHash queued)
  · exact Or.inr (hired financial)

theorem completes_attended (db after : Db Lp) (updates : List EventFields)
    (receipts : List (Hash × TransactionRow)) (completes : Completes db after updates receipts)
    (answers : Answers db (.enrich updates receipts)) (attended : Attended (docket db)) :
    Attended (docket after) := by
  intro id place kind found financial
  rw [completes.receipt]
  obtain ⟨row, rfl, rfl, ⟨old, stored, placed, kind⟩ | ⟨-, received⟩⟩ :=
    completes.event id place kind found
  · rw [← placed]
    cases touches : touched db updates receipts old.place.txHash with
    | true =>
      -- the job may be gone, so the receipt has to be here
      left
      exact answers (id, old) ((get_some _ _ _).mp stored) touches ⟨_, kind, financial⟩
    | false =>
      have untouched : old.place.txHash ∉ receipts.map Prod.fst ∧ ∀ update ∈ updates,
          ∀ entry ∈ updated db update, entry.2.place.txHash ≠ old.place.txHash := by
        unfold touched at touches
        rw [Bool.or_eq_false_iff, decide_eq_false_iff_not, List.any_eq_false] at touches
        refine ⟨touches.1, ?_⟩
        intro update member entry here same
        apply touches.2 update member
        rw [here]
        exact decide_eq_true same
      have own : row.terms.kind = old.terms.kind := by
        rw [kindsAfter_unnamed db updates id old] at kind
        · exact List.mem_singleton.mp kind
        · intro update member entry here same
          have there := updated_stored db update entry here
          rw [same, stored, Option.some.injEq] at there
          exact untouched.2 update member entry here (there ▸ rfl)
      have none : receiptOf receipts old.place.txHash = none := by
        apply Option.eq_none_iff_forall_ne_some.mpr
        exact fun block given => untouched.1 (receiptOf_mem receipts _ block given)
      rw [none, Option.none_or, completes.job _ touches]
      exact attended id old.place old.terms.kind (docket_event db id old stored)
        (own ▸ financial)
  · left
    obtain ⟨block, given, same⟩ := (Option.any_eq_true _ _).mp received
    rw [given]
    exact same

theorem receipt_number (canonical : Canonical (ledger db)) (unshared : Unshared db.blocks)
    (id : EventId) (row : EventRow) (number : Int) (found : db.events.get id = some row)
    (received : (docket db).receipt row.place.txHash = some (number, row.place.blockHash)) :
    number = row.place.blockNumber := by
  have stood : (ledger db).place id = some row.place := by
    simp only [ledger, found, Option.map_some]
  obtain ⟨header, here, hash, -⟩ := canonical.place id row.place stood
  obtain ⟨other, there, same⟩ := canonical.receipt row.place.txHash number row.place.blockHash received
  exact unshared number row.place.blockNumber other header there here (same.trans hash.symm)

theorem cut_attended (header : Option Header) (canonical : Canonical (ledger db))
    (unshared : Unshared db.blocks) (answers : Answers db (.rollback ancestor header))
    (attended : Attended (docket db)) :
    Attended (cutDocket (docket db) ancestor) := by
  intro id place kind found financial
  obtain ⟨before, low⟩ := Option.filter_eq_some_iff.mp found
  have below : place.blockNumber ≤ ancestor := of_decide_eq_true low
  have owed := attended id place kind before financial
  obtain ⟨row, member, rfl, rfl⟩ := event_docket db id place kind before
  by_cases received : names ((docket db).receipt row.place.txHash) row.place
  · left
    obtain ⟨block, given, same⟩ := (Option.any_eq_true _ _).mp received
    obtain ⟨number, hash⟩ := block
    have here : hash = row.place.blockHash := of_decide_eq_true same
    subst here
    have there := receipt_number db canonical unshared id row number
      ((get_some _ _ _).mpr member) given
    simp only [cutDocket, given, names, there]
    rw [Option.filter_some, if_pos (decide_eq_true below)]
    exact decide_eq_true rfl
  · right
    obtain ⟨number, queued⟩ := Option.ne_none_iff_exists'.mp (owed.resolve_left received)
    have stays := (answers (id, row) member financial below).resolve_left received
    rw [queued, Option.all_some] at stays
    simp only [cutDocket, queued]
    rw [Option.filter_some, if_pos stays]
    exact Option.some_ne_none _

structure Sound (db : Db Lp) : Prop where
  issued : StoreRows.Issued (StoreRows.sheet db)
  canonical : Canonical (ledger db)
  unshared : Unshared db.blocks
  attended : Attended (docket db)

theorem perform_attended (call : Call Lp) (sound : Sound db) (answers : Answers db call) :
    Meets anyhow (fun after => Attended (docket after)) (perform projection db call) := by
  have attended := sound.attended
  have unchanged := fun (after : Db Lp) (same : docket after = docket db) =>
    stays_attended _ _ (.of_eq same) attended
  have stays := fun (after : Db Lp) kept => stays_attended (docket db) (docket after) kept attended
  cases call with
  | ingest call =>
    apply meets_bind _ (ingest_hires projection db call sound.issued)
    intro after hires
    exact hires_attended db _ call hires answers attended
  | enrich updates transactions =>
    apply (enrich_completes projection db updates transactions sound.issued).mono
    rintro after (rfl | completes)
    · exact attended
    · exact completes_attended db after updates transactions completes answers attended
  | rollback ancestor header =>
    apply (rollback_docket projection db ancestor header).mono
    intro after cuts
    rw [cuts]
    exact cut_attended db ancestor header sound.canonical sound.unshared answers attended
  | reproject ids => exact (reproject_stays projection db ids).mono stays
  | upsertPools rows => exact (upsertPoolsCall_stays db rows).mono stays
  | saveTokenMetadata address symbol decimals =>
    exact (saveTokenMetadata_stays db address symbol decimals).mono stays
  | queueV3Balances pools number hash =>
    exact (bump_keeps docket (fun _ _ => rfl) _ _ _).mono unchanged
  | saveV3Balances items =>
    apply meets_bind _ (saveV3Balances_stays db items)
    intro after kept
    exact stays_attended _ _ kept attended
  | recoverMissingEnrichment reader limit =>
    exact (recoverMissingEnrichment_stays reader db limit).mono stays
  | completePoolUnpublishes pools => exact (docket_blind.bump _ _ _).mono unchanged
  | recordEnrichmentFailure hash error next =>
    exact unchanged _ (recordEnrichmentFailure_docket db hash error next)
  | markReprojectionError ids error next => exact attended
  | markTokenMetadataError address error next => exact attended
  | markV3BalanceError key hash error next => exact attended

theorem store_sound (state : Db Lp × List (Call Lp))
    (reached : (store projection).Reaches (fun state call => Answers state.1 call) state) :
    Sound state.1 := by
  have held : Standing state.1 state.2 ∧ Sound state.1 := by
    apply store_guarded projection Answers (fun db done => Standing db done ∧ Sound db) _ _
      state reached
    · intro lp
      have empty : Standing (Db.fresh lp) [] := by
        refine ⟨⟨?_, ?_, ?_⟩, rfl⟩
        · intro id place found
          cases found
        · intro hash number block found
          cases found
        · intro key balance found
          cases found
      refine ⟨empty, ⟨?_, ?_⟩, empty.canonical, ?_, ?_⟩
      · intro id row found
        cases found
      · intro id row found
        cases found
      · intro number other header same found
        cases found
      · intro id place kind found
        cases found
    · rintro db done call ⟨standing, sound⟩ answers
      apply ((perform_standing projection db done call standing).and
        ((StoreRows.perform_issued projection db call sound.issued).and
          ((perform_unshared projection db call sound.unshared).and
            (perform_attended projection db call sound answers)))).mono
      rintro after ⟨stands, issued, unshared, attended⟩
      exact ⟨stands, issued, stands.canonical, unshared, attended⟩
  exact held.2

/-- Where every call answers, every LP event has the receipt of its transaction, or its
transaction waits for it. -/
theorem lp_events_attended (projection : PriceProjection Lp) (state : Db Lp × List (Call Lp))
    (reached : (store projection).Reaches (fun state call => Answers state.1 call) state)
    (id : EventId) (row : EventRow) (found : state.1.events.get id = some row)
    (financial : row.terms.kind ∈ ENRICHMENT_KINDS) :
    (∃ receipt, state.1.transactions.get row.place.txHash = some receipt ∧
        receipt.blockHash = row.place.blockHash) ∨
      ∃ job, state.1.pendingEnrichment.get row.place.txHash = some job := by
  rcases (store_sound projection state reached).attended id row.place row.terms.kind
    (docket_event state.1 id row found) financial with received | queued
  · left
    obtain ⟨block, given, same⟩ := (Option.any_eq_true _ _).mp received
    obtain ⟨receipt, here, rfl⟩ := Option.map_eq_some_iff.mp given
    exact ⟨receipt, here, of_decide_eq_true same⟩
  · right
    obtain ⟨number, there⟩ := Option.ne_none_iff_exists'.mp queued
    obtain ⟨job, here, -⟩ := Option.map_eq_some_iff.mp there
    exact ⟨job, here⟩

/-! A block with one event, and an enrich that corrects it before its receipt was fetched. -/

def sampleCorrection : EventFields :=
  { id := some 1, blockNumber := none, blockHash := none, txHash := none, txIndex := none
    logIndex := none, timestamp := none, poolId := none, protocol := none, kind := none
    quantity := fun _ => none, party := fun _ => some (some 3), label := fun _ => none
    data := fun _ => none, usd := fun _ => none, basis := none, notes := fun _ => none
    dataPool := none, pool := none }

def sampleReceipt : TransactionRow :=
  { blockNumber := 1, blockHash := (sampleHeader 1).hash, payer := some 3, gasUsed := some 21000
    gasPrice := some 1, gasNative := some 21000, gasUsd := none, status := some 1, data := none }

def answeredCalls : List (Call Unit) :=
  [.ingest (LateCalls.bareIngest [sampleHeader 1] [StoreCounters.sampleEvent]),
    .recordEnrichmentFailure 7 "timeout" 5, .enrich [sampleCorrection] [(7, sampleReceipt)],
    .rollback 1 none]

theorem answered_runs : ((store unpriced).run (.fresh (), []) answeredCalls).isSome := by
  decide

def answeredStore : Db Unit × List (Call Unit) :=
  ((store unpriced).run (.fresh (), []) answeredCalls).get answered_runs

theorem answered_kind :
    ((answeredStore.1.events.get 1).map fun row => row.terms.kind) = some .add := by
  decide

theorem lp_events_attended_sample : ∃ row, answeredStore.1.events.get 1 = some row ∧
    ((∃ receipt, answeredStore.1.transactions.get row.place.txHash = some receipt ∧
        receipt.blockHash = row.place.blockHash) ∨
      ∃ job, answeredStore.1.pendingEnrichment.get row.place.txHash = some job) := by
  obtain ⟨row, found, kind⟩ := Option.map_eq_some_iff.mp answered_kind
  refine ⟨row, found, lp_events_attended unpriced answeredStore ?_ 1 row found ?_⟩
  · apply System.Reaches.run (.fresh (), []) answeredStore answeredCalls
    · exact .start _ ⟨(), rfl⟩
    · decide +kernel
    · exact (Option.some_get answered_runs).symm
  · rw [kind]
    decide

def correctingCalls : List (Call Unit) :=
  [.ingest (LateCalls.bareIngest [sampleHeader 1] [StoreCounters.sampleEvent]),
    .enrich [sampleCorrection] []]

theorem correction_runs : ((store unpriced).run (.fresh (), []) correctingCalls).isSome := by
  decide

def correctedStore : Db Unit × List (Call Unit) :=
  ((store unpriced).run (.fresh (), []) correctingCalls).get correction_runs

/-- The correction takes the transaction off the queue, and nothing has its receipt. -/
theorem correction_drops_job : ¬∀ (state : Db Unit × List (Call Unit))
    (_ : (store unpriced).Reaches always state) (id : EventId) (row : EventRow)
    (_ : state.1.events.get id = some row) (_ : row.terms.kind ∈ ENRICHMENT_KINDS),
    (∃ receipt, state.1.transactions.get row.place.txHash = some receipt ∧
        receipt.blockHash = row.place.blockHash) ∨
      ∃ job, state.1.pendingEnrichment.get row.place.txHash = some job := by
  intro claim
  have reached : (store unpriced).Reaches always correctedStore := by
    apply System.Reaches.run (.fresh (), []) correctedStore correctingCalls
    · exact .start _ ⟨(), rfl⟩
    · exact System.runMeets_always _ _
    · exact (Option.some_get correction_runs).symm
  have held : ((correctedStore.1.events.get 1).map fun row => (row.place.txHash, row.terms.kind)) =
      some (7, .add) := by decide +kernel
  obtain ⟨row, found, same⟩ := Option.map_eq_some_iff.mp held
  obtain ⟨hash, kind⟩ := Prod.mk.inj same
  have owed := claim correctedStore reached 1 row found (by rw [kind]; decide)
  rw [hash] at owed
  have unreceived : correctedStore.1.transactions.get 7 = none := by decide +kernel
  have unqueued : correctedStore.1.pendingEnrichment.get 7 = none := by decide +kernel
  rw [unreceived, unqueued] at owed
  rcases owed with ⟨receipt, absent, -⟩ | ⟨job, absent⟩
  · cases absent
  · cases absent

end RhPools.EnrichmentJobs
