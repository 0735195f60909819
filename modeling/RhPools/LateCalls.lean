import RhPools.StoreCanonical

/-! Calls that come too late: prepared for a block that a rollback has dropped, and committed
after it. What such a call names is not in a stored block, or its ingest says on which store it
was prepared; it is refused then, and changes nothing. -/

namespace RhPools.LateCalls
open OrderedTables MarketTables MarketStore CheckedSteps StoreLedger StoreCounters StoreCanonical
open EventWords (Hash)
open GuardedRuns

variable {Lp : Type}

def Unknown (blocks : OrderedTable Int Header) (headers : List Header) (number : Int)
    (hash : Hash) : Prop :=
  ¬Mined blocks number hash ∧ ∀ header ∈ headers, header.number = number → header.hash ≠ hash

inductive Late (db : Db Lp) (done : List (Call Lp)) : Call Lp → Prop
  /-- The ingest carries the epoch of a store that was rolled back since. -/
  | epoch (call : IngestCall) (cursor : Cursor) (expected : Expected)
      (given : call.cursor = some (cursor, expected)) (later earlier : List (Call Lp))
      (since : done = later ++ earlier) (prepared : expected.epoch = some (rollbacks earlier))
      (ancestor : Int) (header : Option Header) (rolled : .rollback ancestor header ∈ later) :
      Late db done (.ingest call)
  | header (call : IngestCall) (header stored : Header) (member : header ∈ call.headers)
      (found : db.blocks.get header.number = some stored) (differs : stored ≠ header) :
      Late db done (.ingest call)
  | event (call : IngestCall) (fields : EventFields) (member : fields ∈ call.events) (number : Int)
      (hash : Hash) (block : fields.blockNumber = some number)
      (named : fields.blockHash = some hash)
      (unknown : Unknown db.blocks call.headers number hash) : Late db done (.ingest call)
  | transaction (call : IngestCall) (row : Hash × TransactionRow)
      (member : row ∈ call.transactions)
      (unknown : Unknown db.blocks call.headers row.2.blockNumber row.2.blockHash) :
      Late db done (.ingest call)
  | update (updates : List EventFields) (transactions : List (Hash × TransactionRow))
      (update : EventFields) (member : update ∈ updates) (number : Int) (hash : Hash)
      (block : update.blockNumber = some number) (named : update.blockHash = some hash)
      (dropped : ¬Mined db.blocks number hash) : Late db done (.enrich updates transactions)
  | receipt (updates : List EventFields) (transactions : List (Hash × TransactionRow))
      (row : Hash × TransactionRow) (member : row ∈ transactions)
      (dropped : ¬Mined db.blocks row.2.blockNumber row.2.blockHash) :
      Late db done (.enrich updates transactions)

theorem rollbacks_append (later earlier : List (Call Lp)) :
    rollbacks (later ++ earlier) = rollbacks later + rollbacks earlier := by
  induction later with
  | nil => exact (Nat.zero_add _).symm
  | cons call rest ih =>
    cases call with
    | rollback ancestor header =>
      simp only [List.cons_append, rollbacks, ih]
      omega
    | _ => exact ih

theorem rollbacks_pos (calls : List (Call Lp)) (ancestor : Int) (header : Option Header)
    (member : .rollback ancestor header ∈ calls) : 0 < rollbacks calls := by
  obtain ⟨later, earlier, rfl⟩ := List.append_of_mem member
  rw [rollbacks_append]
  exact Nat.lt_of_lt_of_le (Nat.succ_pos (rollbacks earlier)) (Nat.le_add_left _ _)

theorem required_some {Value : Type} (value : Value) (column : String) :
    Meets Refusal (· = value) (required (some value) column) := rfl

variable (current update : EventFields) (projection : PriceProjection Lp) (db : Db Lp)
  (done : List (Call Lp)) (normalized : OrderedTable Int Header) (fields : EventFields)

theorem eventRow_block (revision : Nat) (number : Int) (hash : Hash)
    (block : fields.blockNumber = some number) (named : fields.blockHash = some hash) :
    Meets Refusal (fun row => row.place.blockNumber = number ∧ row.place.blockHash = hash)
      (eventRow fields revision) := by
  unfold eventRow
  apply meets_bind fun place : Place => place.blockNumber = number ∧ place.blockHash = hash
  · unfold eventPlace
    rw [block, named]
    apply meets_bind _ (required_some number _)
    rintro _ rfl
    apply meets_bind _ (required_some hash _)
    rintro _ rfl
    apply meets_bind _ (required_meets _ _)
    intro _ _
    apply meets_bind _ (required_meets _ _)
    intro _ _
    apply meets_bind _ (required_meets _ _)
    intro _ _
    apply meets_bind _ (required_meets _ _)
    intro _ _
    dsimp only
    split
    · trivial
    · exact ⟨rfl, rfl⟩
  · intro place same
    apply meets_bind fun _ => True
    · unfold eventTerms
      apply meets_bind _ (required_meets _ _)
      intro protocol _
      apply meets_bind _ (required_meets _ _)
      intro kind _
      apply meets_bind _ (checkPoolShape_meets _)
      intro _ _
      trivial
    · intro terms _
      exact same

theorem unknown_headed {db headed : Db Lp} {headers : List Header}
    {normalized : OrderedTable Int Header} (stored : Stored db.blocks headed.blocks normalized)
    (supplied : Supplied headers normalized) {number : Int} {hash : Hash}
    (unknown : Unknown db.blocks headers number hash) (header : Header)
    (found : (normalized.get number).or (headed.blocks.get number) = some header) :
    header.hash ≠ hash := by
  have brought : ∀ header, normalized.get number = some header → header.hash ≠ hash :=
    fun header here =>
      unknown.2 header (supplied.only number header here) (supplied.numbered number header here)
  rcases Option.or_eq_some_iff.mp found with here | ⟨-, there⟩
  · exact brought header here
  · rcases stored.only number header there with old | new
    · exact fun same => unknown.1 ⟨header, old, same⟩
    · exact brought header new

theorem prepareEvent_fails (number : Int) (hash : Hash) (block : fields.blockNumber = some number)
    (named : fields.blockHash = some hash)
    (differs : ∀ header, (normalized.get number).or (db.blocks.get number) = some header →
      header.hash ≠ hash) :
    Meets Refusal (fun _ => False) (prepareEvent db normalized fields) := by
  unfold prepareEvent
  apply meets_bind _ (eventRow_block fields db.revision number hash block named)
  rintro row ⟨rfl, rfl⟩
  cases found : (normalized.get row.place.blockNumber).or
      (db.blocks.get row.place.blockNumber) with
  | none => trivial
  | some header =>
    dsimp only
    rw [if_pos (Or.inl (differs header found).symm)]
    trivial

theorem upsertTransactions_fails (rows : List (Hash × TransactionRow)) (row : Hash × TransactionRow)
    (member : row ∈ rows) (dropped : ¬Mined db.blocks row.2.blockNumber row.2.blockHash) :
    Meets Refusal (fun _ => False) (upsertTransactions db rows) := by
  unfold upsertTransactions
  rw [if_pos]
  · trivial
  · rw [Bool.not_eq_true', List.all_eq_false]
    exact ⟨row, member, fun canonical => dropped (canonical_mined db row.2 canonical)⟩

theorem contradicted_fails (headers : List Header) (header stored : Header)
    (member : header ∈ headers) (found : db.blocks.get header.number = some stored)
    (differs : stored ≠ header) : Meets Refusal (fun _ => False) (storeHeaders db headers) := by
  unfold storeHeaders
  apply meets_bind _ (addHeaders_meets headers)
  intro normalized supplied
  apply meets_bind fun _ => False
  · unfold checkHeaders
    split
    · trivial
    · rw [if_pos]
      · trivial
      · rw [List.any_eq_true]
        refine ⟨header, (mem_inNumberOrder normalized supplied.numbered header).mpr
          (supplied.taken header member), ?_⟩
        simp [contradicts, found, differs]
  · exact fun _ none => none.elim

variable (call : IngestCall)

theorem ingestRows_fails (counted : Counted db)
    (placed : ∀ number header, normalized.get number = some header →
      db.blocks.get number = some header)
    (late : (∃ fields ∈ call.events, ∃ number hash, fields.blockNumber = some number ∧
        fields.blockHash = some hash ∧ ∀ header,
          (normalized.get number).or (db.blocks.get number) = some header → header.hash ≠ hash) ∨
      ∃ row ∈ call.transactions, ¬Mined db.blocks row.2.blockNumber row.2.blockHash) :
    Meets Refusal (fun _ => False) (ingestRows db normalized call) := by
  unfold ingestRows
  apply meets_bind _ ((upsertPools_owing db.nextRevision _ ⟨counted.rows, counted.fresh⟩).and
    (ledger_blind.pools.upsertPools db.nextRevision _))
  rintro pooled ⟨counted, same⟩
  have blocks : pooled.blocks = db.blocks := congrArg Ledger.blocks same
  rcases late with ⟨fields, member, number, hash, block, named, differs⟩ | ⟨row, member, dropped⟩
  · apply meets_bind _ (meets_mapM_fails call.events
      (fun fields _ => prepareEvent_owing pooled normalized fields) fields member
      (prepareEvent_fails pooled normalized fields number hash block named (by
        rw [blocks]
        exact differs)))
    exact fun _ none => none.elim
  · apply meets_bind _ ((meets_mapM call.events fun fields _ =>
      prepareEvent_owing pooled normalized fields).and (meets_mapM call.events fun fields _ =>
        prepareEvent_meets pooled normalized fields (blocks ▸ placed)))
    rintro prepared ⟨-, stands⟩
    have fills := insertNewEvents_fills prepared (pooled, []) stands
    have owing := insertNewEvents_owing prepared (pooled, []) (by
      refine ⟨?_, counted.fresh⟩
      intro key
      rw [counted.rows key]
      cases key <;> simp [owe, Function.update])
    generalize prepared.foldl insertNewEvent (pooled, []) = state at fills owing ⊢
    obtain ⟨filled, delivered⟩ := state
    rw [← size_inOrder] at owing
    apply meets_bind _ ((recordInserted_owing filled call.lane (inOrder delivered) owing).and
      (recordInserted_aside filled call.lane (inOrder delivered)))
    rintro recorded ⟨-, kept⟩
    have still : recorded.blocks = db.blocks :=
      (congrArg Ledger.blocks kept).trans (fills.same.trans blocks)
    apply meets_bind _ (upsertTransactions_fails recorded call.transactions row member (by
      rw [still]
      exact dropped))
    exact fun _ none => none.elim

theorem checkCursor_moved (cursor : Cursor) (expected : Expected) (epoch : Nat)
    (given : call.cursor = some (cursor, expected)) (prepared : expected.epoch = some epoch)
    (moved : epoch ≠ db.epoch) :
    checkCursor db call = .error (.conflict "epoch moved while an interval was fetched") := by
  unfold checkCursor
  rw [given]
  dsimp only [checkExpected]
  rw [prepared, Option.any_some, if_pos (decide_eq_true moved)]

theorem moved_conflicts (cursor : Cursor) (expected : Expected) (epoch : Nat)
    (lane : call.lane ≠ "") (given : call.cursor = some (cursor, expected))
    (prepared : expected.epoch = some epoch) (moved : epoch ≠ db.epoch) :
    ingest projection db call =
      .error (.conflict "epoch moved while an interval was fetched") := by
  unfold ingest
  rw [if_neg lane, checkCursor_moved db call cursor expected epoch given prepared moved]
  rfl

theorem epoch_moved (done later earlier : List (Call Lp)) (ancestor : Int) (header : Option Header)
    (standing : Standing db done) (since : done = later ++ earlier)
    (rolled : .rollback ancestor header ∈ later) : rollbacks earlier ≠ db.epoch := by
  have after := rollbacks_pos later ancestor header rolled
  rw [standing.epoch, since, rollbacks_append]
  omega

def NamesUnknown (db : Db Lp) (call : IngestCall) : Prop :=
  (∃ fields ∈ call.events, ∃ number hash, fields.blockNumber = some number ∧
      fields.blockHash = some hash ∧ Unknown db.blocks call.headers number hash) ∨
    ∃ row ∈ call.transactions,
      Unknown db.blocks call.headers row.2.blockNumber row.2.blockHash

theorem unknown_fails (counted : Counted db) (unknown : NamesUnknown db call) :
    Meets Refusal (fun _ => False) (ingest projection db call) := by
  unfold ingest
  split
  · trivial
  · apply meets_bind _ (checkCursor_meets db call)
    intro _ _
    apply meets_bind _ ((storeHeaders_owing db call.headers counted).and
      (storeHeaders_meets db call.headers))
    rintro ⟨headed, normalized⟩ ⟨counted, only, stored, supplied⟩
    apply meets_bind _ ((coverCursor_owing headed normalized call counted).and
      (coverCursor_only headed normalized call))
    rintro covered ⟨counted, aside⟩
    have blocks : covered.blocks = headed.blocks := by rw [aside]
    apply meets_bind _ (ingestRows_fails covered normalized call counted
      (blocks ▸ stored.placed) ?_)
    · exact fun _ none => none.elim
    · rw [blocks]
      rcases unknown with ⟨fields, member, number, hash, block, named, unknown⟩ |
        ⟨row, member, unknown⟩
      · exact Or.inl ⟨fields, member, number, hash, block, named,
          unknown_headed stored supplied unknown⟩
      · refine Or.inr ⟨row, member, ?_⟩
        rintro ⟨header, found, same⟩
        rcases stored.only _ header found with old | new
        · exact unknown.1 ⟨header, old, same⟩
        · exact unknown.2 header (supplied.only _ header new) (supplied.numbered _ header new) same

theorem ingest_fails (counted : Counted db) (standing : Standing db done)
    (late : Late db done (.ingest call)) :
    Meets Refusal (fun _ => False) (ingest projection db call) := by
  cases late with
  | epoch _ cursor expected given later earlier since prepared ancestor header rolled =>
    unfold ingest
    split
    · trivial
    · rw [checkCursor_moved db call cursor expected _ given prepared
        (epoch_moved db done later earlier ancestor header standing since rolled)]
      trivial
  | header _ header stored member found differs =>
    unfold ingest
    split
    · trivial
    · apply meets_bind _ (checkCursor_meets db call)
      intro _ _
      apply meets_bind _ (contradicted_fails db call.headers header stored member found differs)
      exact fun _ none => none.elim
  | event _ fields member number hash block named unknown =>
    exact unknown_fails projection db call counted
      (Or.inl ⟨fields, member, number, hash, block, named, unknown⟩)
  | transaction _ row member unknown =>
    exact unknown_fails projection db call counted (Or.inr ⟨row, member, unknown⟩)

theorem mergeEvent_block (number : Int) (hash : Hash) (block : update.blockNumber = some number)
    (named : update.blockHash = some hash) :
    (mergeEvent current update).blockNumber = some number ∧
      (mergeEvent current update).blockHash = some hash := by
  simp only [mergeEvent, block, named, Option.some_or, and_self]

theorem orphaned_place (row : EventRow) (number : Int) (hash : Hash)
    (same : row.place.blockNumber = number ∧ row.place.blockHash = hash)
    (dropped : ¬Mined db.blocks number hash) : canonicalPlace db row.place = false := by
  rw [Bool.eq_false_iff]
  intro canonical
  obtain ⟨header, found, agrees, -⟩ := canonicalPlace_stands db row.place canonical
  exact dropped ⟨header, same.1 ▸ found, agrees.trans same.2⟩

variable (receipts : List (Hash × TransactionRow)) (state : EnrichState Lp)

theorem enrichEvent_fails (update : EventFields) (number : Int) (hash : Hash)
    (block : update.blockNumber = some number) (named : update.blockHash = some hash)
    (dropped : ¬Mined state.db.blocks number hash) :
    Meets Refusal (fun _ => False) (enrichEvent receipts state update) := by
  unfold enrichEvent
  apply meets_bind _ (currentEvent_owing state.db update)
  intro found _
  cases found with
  | some entry =>
    obtain ⟨id, current⟩ := entry
    have merged := mergeEvent_block (EventRow.fields id current) update number hash block named
    apply meets_bind _ (eventRow_block _ _ number hash merged.1 merged.2)
    intro row same
    dsimp only
    split
    · trivial
    · rw [orphaned_place state.db row number hash same dropped, Bool.not_false, if_pos rfl]
      trivial
  | none =>
    apply meets_bind _ (eventRow_block update _ number hash block named)
    intro row same
    dsimp only
    split
    · trivial
    · rw [orphaned_place state.db row number hash same dropped, Bool.not_false, if_pos rfl]
      trivial

structure Merging (db : Db Lp) (state : EnrichState Lp) : Prop where
  owing : Owing (owe (fun _ => 0) .indexedEvents state.inserted) state.db
  settled : Settled state.db state.enriched
  blocks : state.db.blocks = db.blocks

theorem enrichEvent_merging (update : EventFields) (merging : Merging db state) :
    Meets Refusal (Merging db) (enrichEvent receipts state update) := by
  apply ((enrichEvent_owing receipts state update merging.owing).and
    (enrichEvent_fills receipts state update merging.settled)).mono
  rintro after ⟨owing, fills, settled⟩
  exact ⟨owing, settled, fills.same.trans merging.blocks⟩

theorem enrich_fails (updates : List EventFields) (transactions : List (Hash × TransactionRow))
    (counted : Counted db) (late : Late db done (.enrich updates transactions)) :
    Meets Refusal (fun _ => False) (enrich projection db updates transactions) := by
  have initially : Merging db ⟨db.nextRevision, [], 0⟩ := by
    refine ⟨⟨?_, counted.fresh⟩, fun event member => absurd member List.not_mem_nil, rfl⟩
    intro key
    have rows := counted.rows key
    cases key <;> exact rows
  unfold enrich
  cases late with
  | update _ _ update member number hash block named dropped =>
    split
    · rename_i none
      rw [List.isEmpty_iff.mp none.1] at member
      exact absurd member List.not_mem_nil
    · apply meets_bind _ (meets_foldlM_fails (Merging db) updates _ initially
        (fun state other _ merging => enrichEvent_merging db transactions state other merging)
        update member fun state merging =>
          enrichEvent_fails transactions state update number hash block named
            (merging.blocks ▸ dropped))
      exact fun _ none => none.elim
  | receipt _ _ row member dropped =>
    split
    · rename_i none
      rw [List.isEmpty_iff.mp none.2] at member
      exact absurd member List.not_mem_nil
    · apply meets_bind _ (meets_foldlM (Merging db) updates _ initially
        fun state other _ merging => enrichEvent_merging db transactions state other merging)
      intro state merging
      apply meets_bind _ ((bump_settles _ state.db .indexedEvents _ merging.owing le_rfl).and
        (bump_aside state.db _ _))
      rintro bumped ⟨counted, same⟩
      unfold publishEnriched
      apply meets_bind _ ((upsertPools_owing bumped _ counted).and (ledger_blind.pools.upsertPools bumped _))
      rintro pooled ⟨-, kept⟩
      apply meets_bind _ (upsertTransactions_fails _ transactions row member ?_)
      · exact fun _ none => none.elim
      · have blocks : pooled.blocks = db.blocks :=
          (congrArg Ledger.blocks kept).trans
            ((congrArg Ledger.blocks same).trans merging.blocks)
        split
        · rw [blocks]
          exact dropped
        · change ¬Mined pooled.blocks _ _
          rw [blocks]
          exact dropped

def Reported (db : Db Lp) (item : BalanceItem) (outcome : Option Failure) : Prop :=
  ¬Mined db.blocks item.blockNumber item.blockHash →
    ∃ failure, outcome = some failure ∧ Refusal failure

theorem refused_orphan (item : BalanceItem)
    (dropped : ¬Mined db.blocks item.blockNumber item.blockHash) :
    ∃ failure, refused db item = some failure ∧ Refusal failure := by
  unfold refused
  split
  · exact ⟨_, rfl, trivial⟩
  · rw [if_pos]
    · exact ⟨_, rfl, trivial⟩
    · rw [Bool.not_eq_true', Bool.eq_false_iff]
      intro canonical
      obtain ⟨header, found, same⟩ := Option.any_eq_true _ _ |>.mp canonical
      exact dropped ⟨header, found, of_decide_eq_true same⟩

theorem outcome_reported (seen : List (PoolId × Int)) (items : List BalanceItem) :
    List.Forall₂ (Reported db) items ((normalizeItems seen items).map (itemOutcome db)) := by
  induction items generalizing seen with
  | nil => exact .nil
  | cons item rest ih =>
    rw [normalizeItems]
    split
    · rename_i failure wrong
      refine .cons ?_ (ih seen)
      intro _
      refine ⟨failure, rfl, ?_⟩
      unfold malformed at wrong
      split at wrong
      · cases wrong
        trivial
      · split at wrong
        · cases wrong
          trivial
        · cases wrong
    · exact .cons (fun dropped => refused_orphan db item dropped) (ih _)

theorem saveV3Balances_reports (items : List BalanceItem) :
    Meets anyhow (fun after => List.Forall₂ (Reported db) items after.2)
      (saveV3Balances db items) := by
  unfold saveV3Balances
  dsimp only
  split
  · exact outcome_reported db [] items
  · apply meets_bind fun _ => True
    · exact (meets_anyhow _ _).mpr fun _ _ => trivial
    · intro _ _
      exact outcome_reported db [] items

def Conflicts (failure : Failure) : Prop := ∃ detail, failure = .conflict detail

def Complete (update : EventFields) : Prop :=
  update.poolId.isSome ∧ ∃ row, eventRow update 0 = .ok row

theorem required_ok {Value : Type} (value : Option Value) (column : String) (found : Value)
    (returned : required value column = .ok found) : value = some found := by
  cases value with
  | none => cases returned
  | some other =>
    cases returned
    rfl

theorem merge_place (place : Place) (complete : eventPlace update = .ok place) :
    eventPlace (mergeEvent current update) = .ok place := by
  have unmerged := complete
  unfold eventPlace at complete
  obtain ⟨number, first, complete⟩ := (EventWords.bind_ok _ _ _).mp complete
  obtain ⟨hash, second, complete⟩ := (EventWords.bind_ok _ _ _).mp complete
  obtain ⟨tx, third, complete⟩ := (EventWords.bind_ok _ _ _).mp complete
  obtain ⟨index, fourth, complete⟩ := (EventWords.bind_ok _ _ _).mp complete
  obtain ⟨log, fifth, complete⟩ := (EventWords.bind_ok _ _ _).mp complete
  obtain ⟨time, sixth, -⟩ := (EventWords.bind_ok _ _ _).mp complete
  rw [← unmerged]
  unfold eventPlace
  simp only [mergeEvent, required_ok _ _ _ first, required_ok _ _ _ second,
    required_ok _ _ _ third, required_ok _ _ _ fourth, required_ok _ _ _ fifth,
    required_ok _ _ _ sixth, Option.some_or]

theorem merge_protocol (protocol found : Protocol) (update current : String → Option String)
    (named : poolProtocol protocol update = .ok found) :
    poolProtocol protocol (fun key => (update key).or (current key)) = .ok found := by
  unfold poolProtocol at named ⊢
  cases protocol with
  | nft =>
    dsimp only at named ⊢
    cases manager : update "manager_protocol" with
    | none =>
      rw [manager] at named
      cases named
    | some name =>
      rw [manager] at named
      rw [Option.some_or]
      exact named
  | _ => exact named

theorem merge_terms (terms : Terms) (pool : update.poolId.isSome)
    (complete : eventTerms update = .ok terms) :
    ∃ merged, eventTerms (mergeEvent current update) = .ok merged := by
  unfold eventTerms at complete
  obtain ⟨protocol, first, complete⟩ := (EventWords.bind_ok _ _ _).mp complete
  obtain ⟨kind, second, complete⟩ := (EventWords.bind_ok _ _ _).mp complete
  obtain ⟨_, shape, -⟩ := (EventWords.bind_ok _ _ _).mp complete
  obtain ⟨id, known⟩ := Option.isSome_iff_exists.mp pool
  unfold eventTerms
  simp only [mergeEvent, required_ok _ _ _ first, required_ok _ _ _ second, known,
    Option.some_or, required, Option.join_some] at shape ⊢
  cases id with
  | none => exact ⟨_, rfl⟩
  | some id =>
    obtain ⟨manager, named, fits⟩ := (EventWords.bind_ok _ _ _).mp shape
    have still := merge_protocol protocol manager update.data current.data named
    refine ⟨_, (EventWords.bind_ok _ _ _).mpr ⟨protocol, rfl, (EventWords.bind_ok _ _ _).mpr
      ⟨kind, rfl, (EventWords.bind_ok _ _ _).mpr ⟨(), ?_, rfl⟩⟩⟩⟩
    exact (EventWords.bind_ok _ _ _).mpr ⟨manager, still, fits⟩

theorem eventRow_parts (update : EventFields) (revision : Nat) (row : EventRow)
    (complete : eventRow update revision = .ok row) :
    (∃ place, eventPlace update = .ok place) ∧ ∃ terms, eventTerms update = .ok terms := by
  unfold eventRow at complete
  obtain ⟨place, first, complete⟩ := (EventWords.bind_ok _ _ _).mp complete
  obtain ⟨terms, second, -⟩ := (EventWords.bind_ok _ _ _).mp complete
  exact ⟨⟨place, first⟩, terms, second⟩

theorem eventRow_returns (revision : Nat) (place : Place) (terms : Terms)
    (first : eventPlace fields = .ok place) (second : eventTerms fields = .ok terms) :
    Meets Conflicts (fun _ => True) (eventRow fields revision) := by
  unfold eventRow
  rw [first, second]
  trivial

theorem currentEvent_conflicts (update : EventFields) (place : Place)
    (complete : eventPlace update = .ok place) :
    Meets Conflicts (fun _ => True) (currentEvent db update) := by
  unfold eventPlace at complete
  obtain ⟨number, first, complete⟩ := (EventWords.bind_ok _ _ _).mp complete
  obtain ⟨hash, second, complete⟩ := (EventWords.bind_ok _ _ _).mp complete
  obtain ⟨tx, third, complete⟩ := (EventWords.bind_ok _ _ _).mp complete
  obtain ⟨index, fourth, complete⟩ := (EventWords.bind_ok _ _ _).mp complete
  obtain ⟨log, fifth, -⟩ := (EventWords.bind_ok _ _ _).mp complete
  unfold currentEvent
  split
  · split
    · trivial
    · exact ⟨_, rfl⟩
  · rw [second, third, fifth]
    trivial

theorem enrichEvent_conflicts (update : EventFields) (complete : Complete update) :
    Meets Conflicts (fun _ => True) (enrichEvent receipts state update) := by
  obtain ⟨pool, row, returned⟩ := complete
  obtain ⟨⟨place, placed⟩, terms, named⟩ := eventRow_parts update 0 row returned
  unfold enrichEvent
  apply meets_bind _ (currentEvent_conflicts state.db update place placed)
  intro found _
  cases found with
  | some entry =>
    obtain ⟨id, current⟩ := entry
    obtain ⟨merged, merges⟩ := merge_terms (EventRow.fields id current) update terms pool named
    apply meets_bind _ (eventRow_returns _ _ place merged (merge_place _ update place placed) merges)
    intro row _
    dsimp only
    split
    · exact ⟨_, rfl⟩
    · split
      · exact ⟨_, rfl⟩
      · trivial
  | none =>
    apply meets_bind _ (eventRow_returns update _ place terms placed named)
    intro row _
    dsimp only
    split
    · exact ⟨_, rfl⟩
    · split
      · exact ⟨_, rfl⟩
      · trivial

theorem orphaned_conflicts (updates : List EventFields)
    (transactions : List (Hash × TransactionRow)) (counted : Counted db)
    (complete : ∀ update ∈ updates, Complete update) (update : EventFields)
    (member : update ∈ updates) (number : Int) (hash : Hash)
    (block : update.blockNumber = some number) (named : update.blockHash = some hash)
    (dropped : ¬Mined db.blocks number hash) :
    Meets Conflicts (fun _ => False) (enrich projection db updates transactions) := by
  have initially : Merging db ⟨db.nextRevision, [], 0⟩ := by
    refine ⟨⟨?_, counted.fresh⟩, fun event member => absurd member List.not_mem_nil, rfl⟩
    intro key
    have rows := counted.rows key
    cases key <;> exact rows
  unfold enrich
  split
  · rename_i none
    rw [List.isEmpty_iff.mp none.1] at member
    exact absurd member List.not_mem_nil
  · apply meets_bind _ (meets_foldlM_fails (Merging db) updates _ initially ?_ update member ?_)
    · exact fun _ none => none.elim
    · intro state other inside merging
      apply ((enrichEvent_conflicts transactions state other (complete other inside)).and
        (enrichEvent_merging db transactions state other merging).forget).mono
      exact fun _ both => both.2
    · intro state merging
      have fails := enrichEvent_fails transactions state update number hash block named
        (merging.blocks ▸ dropped)
      apply ((enrichEvent_conflicts transactions state update (complete update member)).and
        fails.forget).mono
      exact fun _ both => both.2

theorem addHeader_conflicts (header : Header) (valid : 0 ≤ header.number ∧ 0 ≤ header.timestamp) :
    Meets Conflicts (fun _ => True) (addHeader normalized header) := by
  unfold addHeader
  rw [if_neg (by omega)]
  split
  · split
    · exact ⟨_, rfl⟩
    · trivial
  · trivial

theorem contradicted_conflicts (lane : call.lane ≠ "")
    (valid : ∀ header ∈ call.headers, 0 ≤ header.number ∧ 0 ≤ header.timestamp)
    (header stored : Header) (member : header ∈ call.headers)
    (found : db.blocks.get header.number = some stored) (differs : stored ≠ header) :
    Meets Conflicts (fun _ => False) (ingest projection db call) := by
  unfold ingest
  rw [if_neg lane]
  apply meets_bind fun _ => True
  · unfold checkCursor
    split
    · unfold checkExpected
      dsimp only
      repeat' split
      all_goals first | trivial | exact ⟨_, rfl⟩
    · trivial
  · intro _ _
    apply meets_bind fun _ => False
    · unfold storeHeaders
      apply meets_bind (Supplied call.headers)
      · apply ((meets_foldlM (fun _ => True) call.headers .empty trivial
          fun normalized header member _ =>
            addHeader_conflicts normalized header (valid header member)).and
          (addHeaders_meets call.headers).forget).mono
        exact fun _ both => both.2
      · intro normalized supplied
        apply meets_bind fun _ => False
        · unfold checkHeaders
          split
          · exact ⟨_, rfl⟩
          · rw [if_pos]
            · exact ⟨_, rfl⟩
            · rw [List.any_eq_true]
              refine ⟨header, (mem_inNumberOrder normalized supplied.numbered header).mpr
                (supplied.taken header member), ?_⟩
              simp [contradicts, found, differs]
        · exact fun _ none => none.elim
    · exact fun _ none => none.elim

structure Safe (projection : PriceProjection Lp) (db : Db Lp) (done : List (Call Lp)) : Prop where
  canonical : Canonical (ledger db)
  epoch : db.epoch = rollbacks done
  refused : ∀ call, Late db done call →
    ∃ failure, perform projection db call = .error failure ∧ Refusal failure
  unchanged : ∀ call, Late db done call →
    (store projection).step (db, done) call = some (db, done)
  /-- The epoch alone makes an ingest conflict. -/
  moved : ∀ (call : IngestCall) (cursor : Cursor) (expected : Expected)
    (later earlier : List (Call Lp)) (ancestor : Int) (header : Option Header),
    call.lane ≠ "" → call.cursor = some (cursor, expected) →
    expected.epoch = some (rollbacks earlier) → done = later ++ earlier →
    .rollback ancestor header ∈ later →
    ∃ failure, perform projection db (.ingest call) = .error failure ∧ Conflicts failure
  contradicted : ∀ (call : IngestCall) (header stored : Header), call.lane ≠ "" →
    (∀ header ∈ call.headers, 0 ≤ header.number ∧ 0 ≤ header.timestamp) →
    header ∈ call.headers → db.blocks.get header.number = some stored → stored ≠ header →
    ∃ failure, perform projection db (.ingest call) = .error failure ∧ Conflicts failure
  orphaned : ∀ (updates : List EventFields) (transactions : List (Hash × TransactionRow))
    (update : EventFields) (number : Int) (hash : Hash),
    (∀ update ∈ updates, Complete update) → update ∈ updates →
    update.blockNumber = some number → update.blockHash = some hash →
    ¬Mined db.blocks number hash →
    ∃ failure, perform projection db (.enrich updates transactions) = .error failure ∧
      Conflicts failure
  reported : ∀ items after outcomes, saveV3Balances db items = .ok (after, outcomes) →
    List.Forall₂ (Reported db) items outcomes
  rolledBack : ∀ ancestor header after,
    perform projection db (.rollback ancestor header) = .ok after → RolledBack db after ancestor

theorem late_raises (call : Call Lp) (counted : Counted db) (standing : Standing db done)
    (late : Late db done call) :
    ∃ failure, perform projection db call = .error failure ∧ Refusal failure := by
  apply Meets.raises
  cases call with
  | ingest call =>
    apply meets_bind _ (ingest_fails projection db done call counted standing late)
    exact fun _ none => none.elim
  | enrich updates transactions =>
    exact enrich_fails projection db done updates transactions counted late
  | _ => cases late

/-- In every reachable store each row stands in a stored block, late calls are refused and
change nothing, and a rollback leaves exactly what is not above its ancestor. -/
theorem reorganisations_safe (projection : PriceProjection Lp) (state : Db Lp × List (Call Lp))
    (reached : (store projection).Reaches always state) : Safe projection state.1 state.2 := by
  obtain ⟨db, done⟩ := state
  have counted : Counted db := store_counted projection (db, done) reached
  have standing : Standing db done := store_standing projection (db, done) reached
  have raises := fun call => late_raises projection db done call counted standing
  refine ⟨standing.canonical, standing.epoch, raises, ?_, ?_, ?_, ?_, ?_, ?_⟩
  · intro call late
    obtain ⟨failure, raised, -⟩ := raises call late
    simp only [store, raised]
  · intro call cursor expected later earlier ancestor header lane given prepared since rolled
    have moved := epoch_moved db done later earlier ancestor header standing since rolled
    refine ⟨.conflict "epoch moved while an interval was fetched", ?_, ⟨_, rfl⟩⟩
    simp only [perform, moved_conflicts projection db call cursor expected _ lane given prepared
      moved]
    rfl
  · intro call header stored lane valid member found differs
    apply Meets.raises
    apply meets_bind _ (contradicted_conflicts projection db call lane valid header stored member
      found differs)
    exact fun _ none => none.elim
  · intro updates transactions update number hash complete member block named dropped
    exact (orphaned_conflicts projection db updates transactions counted complete update member
      number hash block named dropped).raises
  · intro items after outcomes saved
    exact (saveV3Balances_reports db items).value saved
  · intro ancestor header after rolled
    exact (rollback_rolls projection db ancestor header).value rolled

/-! An ingest without an epoch: block 2 is dropped, and then ingested once more. -/

def Dropped (done : List (Call Lp)) (number : Int) (hash : Hash) : Prop :=
  ∃ later ancestor header earlier call, done = later ++ .rollback ancestor header :: earlier ∧
    ancestor < number ∧ .ingest call ∈ earlier ∧
    ∃ header ∈ call.headers, header.number = number ∧ header.hash = hash

def secondEvent : EventFields :=
  { sampleEvent with
    blockNumber := some 2, blockHash := some (sampleHeader 2).hash, timestamp := some 2 }

def bareIngest (headers : List Header) (events : List EventFields) : IngestCall :=
  { headers := headers, events := events, lane := "live", cursor := none, transactions := []
    project := false }

def sampleCalls : List (Call Unit) :=
  [.ingest (bareIngest [sampleHeader 1, sampleHeader 2] []), .rollback 1 none]

theorem sample_runs : ((store unpriced).run (.fresh (), []) sampleCalls).isSome := by
  decide

def sampleStore : Db Unit × List (Call Unit) :=
  ((store unpriced).run (.fresh (), []) sampleCalls).get sample_runs

theorem sample_reached : (store unpriced).Reaches always sampleStore := by
  apply System.Reaches.run (.fresh (), []) sampleStore sampleCalls
  · exact .start _ ⟨(), rfl⟩
  · exact System.runMeets_always _ _
  · exact (Option.some_get sample_runs).symm

theorem sample_done : sampleStore.2 = sampleCalls.reverse := by
  rfl

theorem second_dropped : Dropped sampleStore.2 2 (sampleHeader 2).hash := by
  rw [sample_done]
  exact ⟨[], 1, none, [.ingest (bareIngest [sampleHeader 1, sampleHeader 2] [])], _, rfl,
    by decide, List.mem_cons_self, sampleHeader 2, by simp [bareIngest], rfl, rfl⟩

def accepted (outcome : Write (Db Unit)) : Bool :=
  match outcome with
  | .ok _ => true
  | .error _ => false

/-- The store does not remember which headers it has dropped. -/
theorem dropped_block_accepted : ¬∀ (state : Db Unit × List (Call Unit))
    (_ : (store unpriced).Reaches always state) (call : IngestCall) (fields : EventFields)
    (number : Int) (hash : Hash), fields ∈ call.events → fields.blockNumber = some number →
    fields.blockHash = some hash → Dropped state.2 number hash →
    ¬Mined state.1.blocks number hash →
    ∃ detail, perform unpriced state.1 (.ingest call) = .error (.conflict detail) := by
  intro claim
  have absent : sampleStore.1.blocks.get 2 = none := by decide +kernel
  obtain ⟨detail, raised⟩ := claim sampleStore sample_reached
    (bareIngest [sampleHeader 2] [secondEvent]) secondEvent 2 (sampleHeader 2).hash
    List.mem_cons_self rfl rfl second_dropped (by
      rintro ⟨header, found, -⟩
      rw [absent] at found
      cases found)
  have taken : accepted (perform unpriced sampleStore.1
      (.ingest (bareIngest [sampleHeader 2] [secondEvent]))) = true := by decide +kernel
  rw [raised] at taken
  cases taken

theorem reorganisations_safe_sample :
    Late sampleStore.1 sampleStore.2 (.ingest (bareIngest [] [secondEvent])) ∧
      Safe unpriced sampleStore.1 sampleStore.2 := by
  refine ⟨?_, reorganisations_safe unpriced sampleStore sample_reached⟩
  have absent : sampleStore.1.blocks.get 2 = none := by decide +kernel
  apply Late.event _ secondEvent List.mem_cons_self 2 (sampleHeader 2).hash rfl rfl
  constructor
  · rintro ⟨header, found, -⟩
    rw [absent] at found
    cases found
  · intro header member
    exact absurd member List.not_mem_nil

end RhPools.LateCalls
