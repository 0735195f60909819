import RhPools.StoreLedger

/-! The events of a store and the tables of its projection, before and after the calls that
write them: which rows a call delivers, that it changes no others, and that the projection
then sees exactly these. -/

namespace RhPools.StoreRows
open OrderedTables MarketTables MarketStore CheckedSteps StoreLedger
open EventWords (Hash)

variable {Lp : Type}

structure Sheet (Lp : Type) where
  events : OrderedTable EventId EventRow
  lastEventId : EventId
  lp : Lp
  revision : Nat
  eventsRevision : Nat
  epoch : Nat

def sheet (db : Db Lp) : Sheet Lp :=
  { events := db.events, lastEventId := db.lastEventId, lp := db.lp, revision := db.revision
    eventsRevision := db.eventsRevision, epoch := db.epoch }

theorem sheet_blind : Blind (@sheet Lp) := fun _ _ _ _ _ _ _ _ _ => rfl

structure Issued (state : Sheet Lp) : Prop where
  id : ∀ id row, state.events.get id = some row → id ≤ state.lastEventId
  revision : ∀ id row, state.events.get id = some row → row.revision ≤ state.revision

/-- Between two states: the delivered rows are those of the second, under the revision of the
call, and other rows are those of the first. -/
structure Delivery (before mid : Sheet Lp) (delivered : Delivered) : Prop where
  lp : mid.lp = before.lp
  epoch : mid.epoch = before.epoch
  revision : mid.revision = before.revision + 1
  eventsRevision : mid.eventsRevision =
    if delivered.isEmpty then before.eventsRevision else mid.revision
  changed : ∀ id, mid.events.get id = before.events.get id ∨
    ∃ row, (id, row) ∈ delivered ∧ mid.events.get id = some row
  kept : ∀ id row, before.events.get id = some row →
    ∃ now, mid.events.get id = some now ∧ now.place = row.place
  stored : ∀ id row, (id, row) ∈ delivered → ∃ now, mid.events.get id = some now ∧
    (id, now) ∈ delivered ∧ now.place = row.place ∧ now.revision = mid.revision
  issued : ∀ id row, mid.events.get id = some row → id ≤ mid.lastEventId

theorem Delivery.issues {before mid : Sheet Lp} {delivered : Delivered}
    (delivery : Delivery before mid delivered) (issued : Issued before) : Issued mid := by
  refine ⟨delivery.issued, ?_⟩
  intro id row found
  rcases delivery.changed id with same | ⟨now, member, here⟩
  · rw [delivery.revision]
    exact Nat.le_succ_of_le (issued.revision id row (same ▸ found))
  · obtain ⟨stored, there, -, -, revised⟩ := delivery.stored id now member
    rw [found, Option.some.injEq] at there
    rw [there, revised]

structure Inserted (base : Db Lp) (state : Db Lp × Delivered) : Prop where
  only : state.1 = { base with events := state.1.events, lastEventId := state.1.lastEventId }
  issued : ∀ id row, state.1.events.get id = some row → id ≤ state.1.lastEventId
  changed : ∀ id, state.1.events.get id = base.events.get id ∨
    ∃ row, (id, row) ∈ state.2 ∧ state.1.events.get id = some row
  kept : ∀ id row, base.events.get id = some row → state.1.events.get id = some row
  stored : ∀ id row, (id, row) ∈ state.2 → state.1.events.get id = some row ∧
    row.revision = base.revision
  fresh : ∀ id row, (id, row) ∈ state.2 → base.events.get id = none

variable (base : Db Lp)

theorem inserted_none (issued : ∀ id row, base.events.get id = some row → id ≤ base.lastEventId) :
    Inserted base (base, []) :=
  { only := rfl
    issued := issued
    changed := fun _ => Or.inl rfl
    kept := fun _ _ found => found
    stored := fun _ _ member => absurd member List.not_mem_nil
    fresh := fun _ _ member => absurd member List.not_mem_nil }

theorem insertNewEvent_inserted (state : Db Lp × Delivered) (row : EventRow)
    (revised : row.revision = base.revision) (inserted : Inserted base state) :
    Inserted base (insertNewEvent state row) := by
  obtain ⟨db, list⟩ := state
  unfold insertNewEvent
  dsimp only
  split
  · exact inserted
  · have only : db = { base with events := db.events, lastEventId := db.lastEventId } :=
      inserted.only
    have above : ∀ id row, db.events.get id = some row → id ≠ db.lastEventId + 1 := by
      intro id row found same
      exact Nat.not_succ_le_self _ (same ▸ inserted.issued id row found)
    constructor
    · simp only [insertEvent]
      rw [only]
    · intro id other found
      simp only [insertEvent, get_put] at found ⊢
      split at found
      · rename_i here
        exact here.le
      · exact Nat.le_succ_of_le (inserted.issued id other found)
    · intro id
      simp only [insertEvent, get_put, List.mem_append]
      split
      · rename_i here
        exact Or.inr ⟨row, Or.inr (here ▸ List.mem_singleton_self _), rfl⟩
      · rcases inserted.changed id with same | ⟨other, member, found⟩
        · exact Or.inl same
        · exact Or.inr ⟨other, Or.inl member, found⟩
    · intro id other found
      have before := inserted.kept id other found
      simp only [insertEvent, get_put]
      rw [if_neg (above id other before)]
      exact before
    · intro id other member
      simp only [insertEvent, get_put]
      rcases List.mem_append.mp member with old | new
      · obtain ⟨there, same⟩ := inserted.stored id other old
        rw [if_neg (above id other there)]
        exact ⟨there, same⟩
      · cases List.mem_singleton.mp new
        exact ⟨if_pos rfl, revised⟩
    · intro id other member
      rcases List.mem_append.mp member with old | new
      · exact inserted.fresh id other old
      · cases List.mem_singleton.mp new
        apply Option.eq_none_iff_forall_ne_some.mpr
        exact fun before found => above _ before (inserted.kept _ before found) rfl

theorem insertNewEvents_inserted (rows : List EventRow) (state : Db Lp × Delivered)
    (revised : ∀ row ∈ rows, row.revision = base.revision) (inserted : Inserted base state) :
    Inserted base (rows.foldl insertNewEvent state) := by
  induction rows generalizing state with
  | nil => exact inserted
  | cons row rest ih =>
    apply ih _ (fun other member => revised other (List.mem_cons_of_mem row member))
    exact insertNewEvent_inserted base state row (revised row List.mem_cons_self) inserted

theorem eventRow_revision (fields : EventFields) (revision : Nat) :
    Meets anyhow (fun row => row.revision = revision) (eventRow fields revision) := by
  unfold eventRow
  apply meets_bind fun _ => True
  · exact (meets_anyhow _ _).mpr fun _ _ => trivial
  · intro place _
    apply meets_bind fun _ => True
    · exact (meets_anyhow _ _).mpr fun _ _ => trivial
    · intro terms _
      rfl

variable {before after : Db Lp} (projection : PriceProjection Lp) (db : Db Lp) (events : Delivered)
  (ancestor : Int) (normalized : OrderedTable Int Header)

theorem prepareEvent_revision (fields : EventFields) :
    Meets anyhow (fun row => row.revision = db.revision) (prepareEvent db normalized fields) := by
  unfold prepareEvent
  apply meets_bind _ (eventRow_revision fields db.revision)
  intro row revised
  cases (normalized.get row.place.blockNumber).or (db.blocks.get row.place.blockNumber) with
  | none => trivial
  | some header =>
    dsimp only
    split
    · trivial
    · exact revised

theorem recordInserted_sheet (lane : String) (inserted : Delivered) :
    Meets anyhow (fun after => sheet after = { sheet db with
      eventsRevision := if inserted.isEmpty then db.eventsRevision else db.revision })
      (recordInserted db lane inserted) := by
  unfold recordInserted
  split
  · rfl
  · apply meets_bind _ (sheet_blind.bump db _ _)
    intro bumped same
    have revision : bumped.revision = db.revision := congrArg Sheet.revision same
    apply meets_bind _ (sheet_blind.queueEnrichment
      { bumped with eventsRevision := bumped.revision } _)
    intro queued kept
    have recorded : sheet queued = { sheet db with eventsRevision := db.revision } := by
      rw [kept, ← revision, ← same]
      rfl
    rw [meets_pure]
    split <;> exact recorded

theorem upsertTransactions_sheet (rows : List (Hash × TransactionRow)) :
    Keeps sheet db (upsertTransactions db rows) := by
  unfold upsertTransactions
  split
  · trivial
  · exact sheet_blind.bump _ _ _

theorem mem_inOrder (entry : EventId × EventRow) :
    entry ∈ inOrder events ↔ entry ∈ events :=
  List.mem_insertionSort _

variable (call : IngestCall)

theorem ingestRows_delivery (issued : Issued (sheet db)) :
    Meets anyhow (fun after => Delivery (sheet db) (sheet after.1) after.2 ∧
        ∀ entry ∈ after.2, db.events.get entry.1 = none)
      (ingestRows db normalized call) := by
  unfold ingestRows
  apply meets_bind _ (sheet_blind.pools.upsertPools db.nextRevision _)
  intro pooled same
  have revision : pooled.revision = db.revision + 1 := congrArg Sheet.revision same
  have events : pooled.events = db.events := congrArg Sheet.events same
  have last : pooled.lastEventId = db.lastEventId := congrArg Sheet.lastEventId same
  have lp : pooled.lp = db.lp := congrArg Sheet.lp same
  have epoch : pooled.epoch = db.epoch := congrArg Sheet.epoch same
  have eventsRevision : pooled.eventsRevision = db.eventsRevision :=
    congrArg Sheet.eventsRevision same
  apply meets_bind _ (meets_mapM call.events fun fields _ =>
    prepareEvent_revision pooled normalized fields)
  intro prepared revised
  have inserted := insertNewEvents_inserted pooled prepared (pooled, []) revised
    (inserted_none pooled fun id row found => by
      rw [events] at found
      rw [last]
      exact issued.id id row found)
  generalize prepared.foldl insertNewEvent (pooled, []) = state at inserted ⊢
  obtain ⟨filled, list⟩ := state
  dsimp only at inserted ⊢
  apply meets_bind _ (recordInserted_sheet filled call.lane (inOrder list))
  intro recorded kept
  apply meets_bind _ (upsertTransactions_sheet recorded call.transactions)
  intro after stored
  rw [kept] at stored
  have sameEvents : after.events = filled.events := congrArg Sheet.events stored
  have sameRevision : after.revision = filled.revision := congrArg Sheet.revision stored
  have only : filled =
      { pooled with events := filled.events, lastEventId := filled.lastEventId } := inserted.only
  have filledRevision : filled.revision = pooled.revision := by rw [only]
  rw [meets_pure]
  refine ⟨?_, fun entry member => events ▸
    inserted.fresh entry.1 entry.2 ((mem_inOrder list entry).mp member)⟩
  constructor <;> simp only [sheet]
  · have here : after.lp = filled.lp := congrArg Sheet.lp stored
    rw [here, only, lp]
  · have here : after.epoch = filled.epoch := congrArg Sheet.epoch stored
    rw [here, only, epoch]
  · rw [sameRevision, filledRevision, revision]
  · have here : after.eventsRevision = if (inOrder list).isEmpty then filled.eventsRevision
        else filled.revision := congrArg Sheet.eventsRevision stored
    have old : filled.eventsRevision = db.eventsRevision := by rw [only, eventsRevision]
    rw [here, sameRevision, old]
  · intro id
    rw [sameEvents, ← events]
    rcases inserted.changed id with same | ⟨row, member, found⟩
    · exact Or.inl same
    · exact Or.inr ⟨row, (mem_inOrder list _).mpr member, found⟩
  · intro id row found
    rw [sameEvents]
    exact ⟨row, inserted.kept id row (events ▸ found), rfl⟩
  · intro id row member
    obtain ⟨there, revised⟩ := inserted.stored id row ((mem_inOrder list _).mp member)
    rw [sameEvents, sameRevision, filledRevision]
    exact ⟨row, there, member, rfl, revised⟩
  · intro id row found
    have top : after.lastEventId = filled.lastEventId := congrArg Sheet.lastEventId stored
    rw [top]
    exact inserted.issued id row (sameEvents ▸ found)

def Projects (projection : PriceProjection Lp) (mid after : Db Lp) (delivered : Delivered) : Prop :=
  after.pools = mid.pools ∧
    (delivered = [] ∧ sheet after = sheet mid ∨
      ∃ repriced, projection.reprice mid delivered = .ok repriced ∧
        sheet after = { sheet mid with
          events := mid.events.modify fun id row =>
            if id ∈ known mid delivered then { row with valuation := repriced.valuation id } else row
          lp := repriced.tables })

def Defers (projection : PriceProjection Lp) (mid after : Db Lp) (delivered : Delivered) : Prop :=
  after.pools = mid.pools ∧
    (delivered = [] ∧ sheet after = sheet mid ∨
      ∃ queued, sheet queued = sheet mid ∧
        sheet after = { sheet mid with lp := projection.rollUp queued delivered })

theorem apply_projects :
    Meets anyhow (fun after => Projects projection db after events)
      (projection.apply db events) := by
  unfold PriceProjection.apply
  split
  · trivial
  · rename_i repriced computed
    dsimp only
    generalize valued : (db.events.modify fun id row =>
      if id ∈ known db events then { row with valuation := repriced.valuation id } else row) = priced
    apply meets_bind fun next : Db Lp => next.pools = db.pools ∧
      sheet next = { sheet db with events := priced, lp := repriced.tables }
    · apply meets_foldlM fun next : Db Lp => next.pools = db.pools ∧
        sheet next = { sheet db with events := priced, lp := repriced.tables }
      · exact ⟨rfl, rfl⟩
      · rintro state chosen _ ⟨pools, same⟩
        have kept : Keeps Db.pools state (requeue state chosen) := bump_keeps Db.pools
          (fun _ _ => rfl) (queueEvents state chosen).1 _ _
        apply ((sheet_blind.pools.requeue state chosen).and kept).mono
        rintro next ⟨seen, pooled⟩
        exact ⟨pooled.trans pools, seen.trans same⟩
    · rintro requeued ⟨pools, same⟩
      rw [meets_pure]
      refine ⟨pools, Or.inr ⟨repriced, computed, ?_⟩⟩
      rw [valued]
      exact same

theorem deliver_projects :
    Meets anyhow (fun after => Projects projection db after events)
      (projection.deliver db events) := by
  unfold PriceProjection.deliver
  split
  · rename_i none
    exact ⟨rfl, Or.inl ⟨List.isEmpty_iff.mp none, rfl⟩⟩
  · exact apply_projects projection db events

theorem deferInserted_defers (inserted : Delivered) :
    Meets anyhow (fun after => Defers projection db after inserted)
      (deferInserted projection db inserted) := by
  unfold deferInserted
  apply meets_bind fun queued : Db Lp => sheet queued = sheet db ∧ queued.pools = db.pools
  · exact (sheet_blind.bump _ _ _).and (bump_keeps Db.pools (fun _ _ => rfl) _ _ _)
  · rintro queued ⟨same, pools⟩
    rw [meets_pure]
    refine ⟨pools, Or.inr ⟨queued, same, ?_⟩⟩
    rw [← same]
    rfl

def Settles (projection : PriceProjection Lp) (call : IngestCall) (mid after : Db Lp)
    (inserted : Delivered) : Prop :=
  if call.project then Projects projection mid after inserted
  else Defers projection mid after inserted

theorem project_settles (inserted : Delivered) :
    Meets anyhow (fun after => Settles projection call db after inserted)
      (project projection db call inserted) := by
  unfold project Settles
  split
  · exact deliver_projects projection db inserted
  · split
    · rename_i none
      exact ⟨rfl, Or.inl ⟨List.isEmpty_iff.mp none, rfl⟩⟩
    · exact deferInserted_defers projection db inserted

theorem keepCursor_sheet :
    sheet (keepCursor db call) = sheet db := by
  unfold keepCursor
  split <;> rfl

theorem ingest_settles (issued : Issued (sheet db)) :
    Meets anyhow (fun after => ∃ mid, Delivery (sheet db) (sheet mid) after.2 ∧
      (∀ entry ∈ after.2, db.events.get entry.1 = none) ∧
      Settles projection call mid after.1 after.2) (ingest projection db call) := by
  unfold ingest
  split
  · trivial
  · apply meets_bind fun _ => True
    · exact (meets_anyhow _ _).mpr fun _ _ => trivial
    · intro _ _
      apply meets_bind _ (storeHeaders_meets db call.headers)
      rintro ⟨headed, normalized⟩ ⟨only, -, -⟩
      dsimp only at only ⊢
      apply meets_bind _ (coverCursor_only headed normalized call)
      intro covered aside
      have same : sheet covered = sheet db := by
        rw [aside, only]
        rfl
      apply meets_bind _ (ingestRows_delivery covered normalized call (same ▸ issued))
      rintro ⟨filled, inserted⟩ ⟨delivery, fresh⟩
      dsimp only at delivery fresh ⊢
      have events : covered.events = db.events := congrArg Sheet.events same
      apply meets_bind _ (project_settles projection (keepCursor filled call) call inserted)
      intro after settles
      rw [meets_pure]
      refine ⟨keepCursor filled call, ?_, events ▸ fresh, settles⟩
      rw [keepCursor_sheet, ← same]
      exact delivery

def Drawn (db : Db Lp) (revision : Nat) (events : List Enriched) : Prop :=
  ∀ event ∈ events, event.row.revision = revision ∧
    ∃ now, db.events.get event.id = some now ∧ now.place = event.row.place

structure Enriching (base : Db Lp) (state : EnrichState Lp) : Prop where
  only : state.db = { base with events := state.db.events, lastEventId := state.db.lastEventId }
  issued : ∀ id row, state.db.events.get id = some row → id ≤ state.db.lastEventId
  changed : ∀ id, state.db.events.get id = base.events.get id ∨
    ∃ event ∈ state.enriched, event.id = id
  kept : ∀ id row, base.events.get id = some row → state.db.events.get id = some row
  drawn : Drawn state.db base.revision state.enriched

theorem enrichEvent_enriching (receipts : List (Hash × TransactionRow)) (state : EnrichState Lp)
    (update : EventFields) (enriching : Enriching base state) :
    Meets anyhow (Enriching base) (enrichEvent receipts state update) := by
  have revision : state.db.revision = base.revision := by rw [enriching.only]
  unfold enrichEvent
  apply meets_bind _ (currentEvent_meets state.db update)
  intro found stored
  cases found with
  | some entry =>
    obtain ⟨id, current⟩ := entry
    have here : state.db.events.get id = some current :=
      (get_some _ _ _).mpr (stored (id, current) rfl)
    apply meets_bind _ (eventRow_revision _ state.db.revision)
    intro row revised
    dsimp only
    split
    · trivial
    · rename_i placed
      rw [not_not] at placed
      split
      · trivial
      · refine ⟨enriching.only, enriching.issued, ?_, enriching.kept, ?_⟩
        · intro other
          exact (enriching.changed other).imp_right fun ⟨event, member, same⟩ =>
            ⟨event, List.mem_append_left _ member, same⟩
        · intro event member
          rcases List.mem_append.mp member with old | new
          · exact enriching.drawn event old
          · cases List.mem_singleton.mp new
            exact ⟨revised.trans revision, current, here, placed⟩
  | none =>
    apply meets_bind _ (eventRow_revision _ state.db.revision)
    intro row revised
    dsimp only
    split
    · trivial
    · split
      · trivial
      · have above : ∀ id row, state.db.events.get id = some row →
            id ≠ state.db.lastEventId + 1 := by
          intro id row found same
          exact Nat.not_succ_le_self _ (same ▸ enriching.issued id row found)
        constructor
        · simp only [insertEvent]
          rw [enriching.only]
        · intro id other found
          simp only [insertEvent, get_put] at found ⊢
          split at found
          · rename_i here
            exact here.le
          · exact Nat.le_succ_of_le (enriching.issued id other found)
        · intro id
          simp only [insertEvent, get_put, List.mem_append]
          split
          · rename_i here
            exact Or.inr ⟨_, Or.inr (List.mem_singleton_self _), here.symm⟩
          · exact (enriching.changed id).imp_right fun ⟨event, member, same⟩ =>
              ⟨event, Or.inl member, same⟩
        · intro id other found
          have before := enriching.kept id other found
          simp only [insertEvent, get_put]
          rw [if_neg (above id other before)]
          exact before
        · intro event member
          simp only [insertEvent, get_put]
          rcases List.mem_append.mp member with old | new
          · obtain ⟨drawn, now, there, place⟩ := enriching.drawn event old
            rw [if_neg (above event.id now there)]
            exact ⟨drawn, now, there, place⟩
          · cases List.mem_singleton.mp new
            exact ⟨revised.trans revision, row, if_pos rfl, rfl⟩

/-- The statement `persist` runs over the rows of the events. -/
def replaceRows (table : OrderedTable EventId EventRow) (enriched : List Enriched) :
    OrderedTable EventId EventRow :=
  enriched.foldl (fun table event => table.modify fun id row =>
    if id = event.id then event.row else row) table

theorem replaceRows_get (events : List Enriched) (table : OrderedTable EventId EventRow)
    (id : EventId) :
    (replaceRows table events).get id = table.get id ∧ (∀ event ∈ events, event.id ≠ id) ∨
      ∃ event ∈ events, event.id = id ∧
        (replaceRows table events).get id = (table.get id).map fun _ => event.row := by
  induction events generalizing table with
  | nil => exact Or.inl ⟨rfl, fun event member => absurd member List.not_mem_nil⟩
  | cons event rest ih =>
    rw [replaceRows, List.foldl_cons, ← replaceRows]
    rcases ih (table.modify fun id row => if id = event.id then event.row else row) with
      ⟨same, apart⟩ | ⟨later, member, same, replaced⟩
    · rw [get_modify] at same
      by_cases here : event.id = id
      · right
        refine ⟨event, List.mem_cons_self, here, ?_⟩
        rw [same]
        congr 1
        funext row
        exact if_pos here.symm
      · left
        refine ⟨?_, List.forall_mem_cons.mpr ⟨here, apart⟩⟩
        rw [same]
        simp only [if_neg (Ne.symm here), Option.map_id']
    · right
      refine ⟨later, List.mem_cons_of_mem event member, same, ?_⟩
      rw [replaced, get_modify, Option.map_map]
      rfl

theorem persisted_sheet (enriched : List Enriched) :
    sheet (if enriched.isEmpty then db else persist db enriched) =
      { sheet db with
        events := replaceRows db.events enriched
        eventsRevision := if enriched.isEmpty then db.eventsRevision else db.revision } := by
  cases enriched with
  | nil => rfl
  | cons event rest => rfl

theorem persist_delivery (before : Sheet Lp) (db : Db Lp) (enriched : List Enriched)
    (lp : db.lp = before.lp) (epoch : db.epoch = before.epoch)
    (revision : db.revision = before.revision + 1)
    (eventsRevision : db.eventsRevision = before.eventsRevision)
    (issued : ∀ id row, db.events.get id = some row → id ≤ db.lastEventId)
    (changed : ∀ id, db.events.get id = before.events.get id ∨ ∃ event ∈ enriched, event.id = id)
    (kept : ∀ id row, before.events.get id = some row → db.events.get id = some row)
    (drawn : Drawn db db.revision enriched) :
    Delivery before (sheet (if enriched.isEmpty then db else persist db enriched))
      (enriched.map fun event => (event.id, event.row)) := by
  have replaced : ∀ event ∈ enriched, ∃ other ∈ enriched, other.id = event.id ∧
      other.row.place = event.row.place ∧
      (replaceRows db.events enriched).get event.id = some other.row := by
    intro event member
    rcases replaceRows_get enriched db.events event.id with ⟨-, apart⟩ | ⟨other, inside, same, there⟩
    · exact absurd rfl (apart event member)
    · obtain ⟨-, now, found, placed⟩ := drawn event member
      obtain ⟨-, stood, held, standing⟩ := drawn other inside
      rw [same, found, Option.some.injEq] at held
      rw [found, Option.map_some] at there
      exact ⟨other, inside, same, by rw [← standing, ← held, placed], there⟩
  rw [persisted_sheet]
  constructor
  · exact lp
  · exact epoch
  · exact revision
  · rw [List.isEmpty_map]
    simp only [eventsRevision]
    rfl
  · intro id
    rcases replaceRows_get enriched db.events id with ⟨same, apart⟩ | ⟨event, member, same, there⟩
    · rcases changed id with unchanged | ⟨event, member, here⟩
      · exact Or.inl (same.trans unchanged)
      · exact absurd here (apart event member)
    · obtain ⟨-, now, found, -⟩ := drawn event member
      rw [← same, found] at there
      exact Or.inr ⟨event.row, same ▸ List.mem_map_of_mem member, same ▸ there⟩
  · intro id row found
    have was := kept id row found
    rcases replaceRows_get enriched db.events id with ⟨same, -⟩ | ⟨event, member, same, there⟩
    · exact ⟨row, same.trans was, rfl⟩
    · obtain ⟨-, now, held, placed⟩ := drawn event member
      rw [same, was, Option.some.injEq] at held
      rw [was] at there
      exact ⟨event.row, there, by rw [← placed, held]⟩
  · intro id row member
    obtain ⟨event, inside, same⟩ := List.mem_map.mp member
    cases same
    obtain ⟨other, there, same, placed, found⟩ := replaced event inside
    refine ⟨other.row, found, ?_, placed, (drawn other there).1⟩
    rw [← same]
    exact List.mem_map_of_mem (f := fun event : Enriched => (event.id, event.row)) there
  · intro id row found
    have held : db.events.get id ≠ none := by
      intro absent
      rcases replaceRows_get enriched db.events id with ⟨same, -⟩ | ⟨event, -, -, there⟩
      · rw [same, absent] at found
        cases found
      · rw [there, absent] at found
        cases found
    obtain ⟨now, there⟩ := Option.ne_none_iff_exists'.mp held
    exact issued id now there

theorem companions_drawn (transactions : List (Hash × TransactionRow)) (represented : List Enriched)
    :
    Drawn db db.revision (companions db transactions represented) := by
  intro event member
  obtain ⟨entry, there, rfl⟩ := List.mem_map.mp member
  exact ⟨rfl, entry.2, (get_some _ _ _).mpr (List.mem_of_mem_filter there), rfl⟩

theorem dequeueEnrichment_keeps (completed : List Hash) :
    Meets anyhow (fun after => sheet after = sheet db ∧ after.pools = db.pools)
      (dequeueEnrichment db completed) := by
  unfold dequeueEnrichment
  exact (sheet_blind.bump _ _ _).and (bump_keeps Db.pools (fun _ _ => rfl) _ _ _)

theorem Projects.aside {projection : PriceProjection Lp} {mid priced after : Db Lp}
    {delivered : Delivered} (projects : Projects projection mid priced delivered)
    (same : sheet after = sheet priced ∧ after.pools = priced.pools) :
    Projects projection mid after delivered := by
  obtain ⟨pools, outcome⟩ := projects
  refine ⟨same.2.trans pools, ?_⟩
  rw [same.1]
  exact outcome

theorem publishEnriched_settles (before : Sheet Lp) (db : Db Lp) (enriched : List Enriched)
    (transactions : List (Hash × TransactionRow))
    (delivery : ∀ pooled : Db Lp, sheet pooled = sheet db → Delivery before
      (sheet (if enriched.isEmpty then pooled else persist pooled enriched))
        (enriched.map fun event => (event.id, event.row))) :
    Meets anyhow (fun after => ∃ mid delivered, Delivery before (sheet mid) delivered ∧
      Projects projection mid after delivered)
      (publishEnriched projection db enriched transactions) := by
  unfold publishEnriched
  apply meets_bind _ (sheet_blind.pools.upsertPools db _)
  intro pooled same
  have delivers := delivery pooled same
  dsimp only
  generalize (if enriched.isEmpty then pooled else persist pooled enriched) = middle
    at delivers ⊢
  apply meets_bind _ (upsertTransactions_sheet middle transactions)
  intro stored seen
  apply meets_bind _ (deliver_projects projection stored _)
  intro priced projects
  apply (dequeueEnrichment_keeps priced _).mono
  intro after aside
  exact ⟨stored, _, seen ▸ delivers, projects.aside aside⟩

def Delivers (projection : PriceProjection Lp) (before after : Db Lp) : Prop :=
  after = before ∨ ∃ mid delivered, Delivery (sheet before) (sheet mid) delivered ∧
    Projects projection mid after delivered

theorem enrich_delivers (updates : List EventFields) (transactions : List (Hash × TransactionRow))
    (issued : Issued (sheet db)) :
    Meets anyhow (Delivers projection db) (enrich projection db updates transactions) := by
  unfold enrich
  split
  · exact Or.inl rfl
  · apply meets_bind (Enriching db.nextRevision)
    · apply meets_foldlM (Enriching db.nextRevision)
      · exact ⟨rfl, issued.id, fun _ => Or.inl rfl, fun _ _ found => found,
          fun event member => absurd member List.not_mem_nil⟩
      · intro state update _ enriching
        exact enrichEvent_enriching db.nextRevision transactions state update enriching
    · intro state enriching
      apply meets_bind _ (sheet_blind.bump state.db _ _)
      intro bumped same
      apply (publishEnriched_settles projection (sheet db) bumped _ transactions ?_).mono
      · exact fun after settled => Or.inr settled
      · intro pooled seen
        have seen : sheet pooled = sheet state.db := seen.trans same
        have events : pooled.events = state.db.events := congrArg Sheet.events seen
        have revision : pooled.revision = db.revision + 1 := by
          rw [show pooled.revision = state.db.revision from congrArg Sheet.revision seen,
            enriching.only]
          rfl
        have bumpedEvents : bumped.events = state.db.events := congrArg Sheet.events same
        have bumpedRevision : bumped.revision = db.revision + 1 := by
          rw [show bumped.revision = state.db.revision from congrArg Sheet.revision same,
            enriching.only]
          rfl
        apply persist_delivery
        · rw [show pooled.lp = state.db.lp from congrArg Sheet.lp seen, enriching.only]
          rfl
        · rw [show pooled.epoch = state.db.epoch from congrArg Sheet.epoch seen, enriching.only]
          rfl
        · exact revision
        · rw [show pooled.eventsRevision = state.db.eventsRevision from
            congrArg Sheet.eventsRevision seen, enriching.only]
          rfl
        · intro id row found
          rw [show pooled.lastEventId = state.db.lastEventId from congrArg Sheet.lastEventId seen]
          exact enriching.issued id row (events ▸ found)
        · intro id
          rw [events]
          refine (enriching.changed id).imp_right fun ⟨event, member, here⟩ => ⟨event, ?_, here⟩
          exact (List.mem_insertionSort _).mpr (List.mem_append_left _ member)
        · intro id row found
          rw [events]
          exact enriching.kept id row found
        · intro event member
          rw [enrichedOrder, List.mem_insertionSort] at member
          rw [events, revision]
          rcases List.mem_append.mp member with updated | companion
          · exact enriching.drawn event updated
          · obtain ⟨revised, now, found, placed⟩ :=
              companions_drawn bumped transactions state.enriched event companion
            exact ⟨revised.trans bumpedRevision, now, bumpedEvents ▸ found, placed⟩

theorem reproject_delivers (ids : List EventId) (issued : Issued (sheet db)) :
    Meets anyhow (Delivers projection db) (reproject projection db ids) := by
  unfold reproject
  split
  · exact Or.inl rfl
  · apply meets_bind _ (deliver_projects projection _ _)
    intro priced projects
    apply ((sheet_blind.bump _ _ _).and (bump_keeps Db.pools (fun _ _ => rfl) _ _ _)).mono
    intro after aside
    refine Or.inr ⟨_, _, ?_, projects.aside aside⟩
    have inside : ∀ id row, (id, row) ∈ inOrder ((db.nextRevision.events.entries.filter fun entry =>
        entry.1 ∈ ids).map fun entry =>
          (entry.1, { entry.2 with revision := db.nextRevision.revision })) ↔
        id ∈ ids ∧ ∃ old, db.events.get id = some old ∧
          row = { old with revision := db.nextRevision.revision } := by
      intro id row
      rw [mem_inOrder, List.mem_map]
      constructor
      · rintro ⟨entry, member, same⟩
        cases same
        obtain ⟨there, chosen⟩ := List.mem_filter.mp member
        exact ⟨of_decide_eq_true chosen, entry.2, (get_some _ _ _).mpr there, rfl⟩
      · rintro ⟨chosen, old, found, rfl⟩
        exact ⟨(id, old), List.mem_filter.mpr ⟨(get_some _ _ _).mp found, decide_eq_true chosen⟩, rfl⟩
    constructor
    · rfl
    · rfl
    · rfl
    · rfl
    · intro id
      simp only [sheet, get_modify]
      by_cases chosen : id ∈ ids
      · cases found : db.events.get id with
        | none => exact Or.inl (by rw [show db.nextRevision.events.get id = none from found]; rfl)
        | some old =>
          right
          refine ⟨{ old with revision := db.nextRevision.revision },
            (inside id _).mpr ⟨chosen, old, found, rfl⟩, ?_⟩
          rw [show db.nextRevision.events.get id = some old from found, Option.map_some,
            if_pos chosen]
      · left
        simp only [if_neg chosen, Option.map_id']
        rfl
    · intro id row found
      simp only [sheet, get_modify]
      rw [show db.nextRevision.events.get id = some row from found, Option.map_some]
      refine ⟨_, rfl, ?_⟩
      split <;> rfl
    · intro id row member
      obtain ⟨chosen, old, found, rfl⟩ := (inside id row).mp member
      simp only [sheet, get_modify]
      rw [show db.nextRevision.events.get id = some old from found, Option.map_some, if_pos chosen]
      exact ⟨_, rfl, (inside id _).mpr ⟨chosen, old, found, rfl⟩, rfl, rfl⟩
    · intro id row found
      simp only [sheet, get_modify] at found
      obtain ⟨old, there, -⟩ := Option.map_eq_some_iff.mp found
      exact issued.id id old there

theorem rewindCursor_sheet (lane : String) :
    sheet (rewindCursor db ancestor lane) = sheet db := by
  unfold rewindCursor
  split
  · split <;> rfl
  · rfl

theorem cut_sheet :
    Meets anyhow (fun after => sheet after = { sheet db with
        events := db.events.remove fun _ row => ancestor < row.place.blockNumber
        revision := db.revision + 1, epoch := db.epoch + 1 }) (cut db ancestor) := by
  unfold cut
  apply meets_bind fun unpublished : Db Lp => sheet unpublished = sheet db
  · exact sheet_blind.bump _ _ _
  · intro unpublished same
    dsimp only
    split
    · trivial
    · apply meets_bind _ (lowerCounters_keeps sheet (fun _ _ => rfl) _ _ _)
      intro lowered kept
      rw [rewindCursor_sheet, rewindCursor_sheet] at kept
      have events : unpublished.events = db.events := congrArg Sheet.events same
      have revision : lowered.revision = unpublished.revision := congrArg Sheet.revision kept
      have epoch : lowered.epoch = unpublished.epoch := congrArg Sheet.epoch kept
      rw [meets_pure, ← same, ← events]
      rw [← (show unpublished.revision = db.revision from congrArg Sheet.revision same),
        ← (show unpublished.epoch = db.epoch from congrArg Sheet.epoch same), ← revision, ← epoch]
      exact congrArg (fun state : Sheet Lp =>
        { state with revision := lowered.revision + 1, epoch := lowered.epoch + 1 }) kept

theorem rollback_unwinds (header : Option Header) :
    Meets anyhow (fun after => ∃ unwound, projection.unwind db ancestor = .ok unwound ∧
      sheet after =
        { events := (db.events.modify unwound.value).remove fun _ row =>
            ancestor < row.place.blockNumber
          lastEventId := db.lastEventId, lp := unwound.tables, revision := db.revision + 1
          eventsRevision := db.eventsRevision, epoch := db.epoch + 1 })
      (rollback projection db ancestor header) := by
  unfold rollback
  split
  · trivial
  · split
    · trivial
    · apply meets_bind fun valued : Db Lp => ∃ unwound,
        projection.unwind db ancestor = .ok unwound ∧ sheet valued = { sheet db with
          events := db.events.modify unwound.value, lp := unwound.tables }
      · unfold PriceProjection.rollback
        split
        · trivial
        · rename_i unwound computed
          exact ⟨unwound, computed, rfl⟩
      · rintro valued ⟨unwound, computed, same⟩
        apply meets_bind _ (storeHeaders_meets valued header.toList)
        rintro ⟨headed, normalized⟩ ⟨only, -, -⟩
        dsimp only at only ⊢
        have seen : sheet headed = sheet valued := by
          rw [only]
          rfl
        apply (cut_sheet headed ancestor).mono
        intro after cuts
        refine ⟨unwound, computed, ?_⟩
        have here := seen.trans same
        rw [cuts, here, show headed.events = db.events.modify unwound.value from
          congrArg Sheet.events here, show headed.revision = db.revision from
          congrArg Sheet.revision here, show headed.epoch = db.epoch from congrArg Sheet.epoch here]
        rfl

theorem Issued.valued {state : Sheet Lp} (issued : Issued state)
    (change : EventId → EventRow → EventRow) (lp : Lp)
    (kept : ∀ id row, (change id row).revision = row.revision) :
    Issued { state with events := state.events.modify change, lp := lp } := by
  constructor
  · intro id row found
    rw [get_modify] at found
    obtain ⟨old, there, -⟩ := Option.map_eq_some_iff.mp found
    exact issued.id id old there
  · intro id row found
    rw [get_modify] at found
    obtain ⟨old, there, same⟩ := Option.map_eq_some_iff.mp found
    rw [← same, kept]
    exact issued.revision id old there

theorem Projects.issued {projection : PriceProjection Lp} {mid after : Db Lp}
    {delivered : Delivered} (projects : Projects projection mid after delivered)
    (issued : Issued (sheet mid)) : Issued (sheet after) := by
  rcases projects.2 with ⟨-, same⟩ | ⟨repriced, -, same⟩
  · rw [same]
    exact issued
  · rw [same]
    apply issued.valued
    intro id row
    split <;> rfl

theorem Settles.issued {projection : PriceProjection Lp} {call : IngestCall} {mid after : Db Lp}
    {inserted : Delivered} (settles : Settles projection call mid after inserted)
    (issued : Issued (sheet mid)) : Issued (sheet after) := by
  unfold Settles at settles
  split at settles
  · exact Projects.issued settles issued
  · rcases settles.2 with ⟨-, same⟩ | ⟨queued, -, same⟩
    · rw [same]
      exact issued
    · rw [same]
      exact ⟨issued.id, issued.revision⟩

theorem Delivers.issued {projection : PriceProjection Lp} {before after : Db Lp}
    (delivers : Delivers projection before after) (issued : Issued (sheet before)) :
    Issued (sheet after) := by
  rcases delivers with rfl | ⟨mid, delivered, delivery, projects⟩
  · exact issued
  · exact projects.issued (delivery.issues issued)

def Passes (before after : Db Lp) : Prop :=
  before.revision ≤ after.revision ∧
    sheet after = { sheet before with revision := after.revision }

theorem Passes.of_eq (same : sheet after = sheet before) :
    Passes before after := by
  have revision : after.revision = before.revision := congrArg Sheet.revision same
  exact ⟨revision.ge, by rw [revision, same]; rfl⟩

theorem Passes.next (same : sheet after = sheet before) :
    Passes before after.nextRevision := by
  have revision : after.revision = before.revision := congrArg Sheet.revision same
  refine ⟨revision ▸ Nat.le_succ _, ?_⟩
  rw [← same]
  rfl

theorem Passes.issued (passes : Passes before after) (issued : Issued (sheet before)) :
    Issued (sheet after) := by
  rw [passes.2]
  exact ⟨issued.id, fun id row found => (issued.revision id row found).trans passes.1⟩

theorem saveV3Balances_passes (items : List BalanceItem) :
    Meets anyhow (fun after => Passes db after.1) (saveV3Balances db items) := by
  unfold saveV3Balances
  dsimp only
  split
  · exact .of_eq rfl
  · apply meets_bind (Passes db)
    · unfold publishBalances
      dsimp only
      split
      · trivial
      · apply meets_bind _ (bump_keeps sheet (fun _ _ => rfl) _ _ _)
        intro after same
        exact .next same
    · intro after passes
      exact passes

theorem saveTokenMetadata_passes (address : TxChain.Address) (symbol : String) (decimals : Int) :
    Meets anyhow (Passes db) (saveTokenMetadata db address symbol decimals) := by
  unfold saveTokenMetadata
  split
  · trivial
  · apply meets_bind _ (sheet_blind.pools.requeue _ _)
    intro queued same
    apply meets_bind _ (sheet_blind.bump _ _ _)
    intro after dequeued
    exact .next (dequeued.trans same)

theorem recoverMissingEnrichment_passes (reader db : Db Lp) (limit : Nat) :
    Meets anyhow (Passes db) (recoverMissingEnrichment reader db limit) := by
  unfold recoverMissingEnrichment
  dsimp only
  split
  · exact .of_eq rfl
  · split
    · exact .of_eq rfl
    · apply meets_bind _ (sheet_blind.queueEnrichment _ _)
      intro queued same
      exact .of_eq same

def Call.quiet : Call Lp → Prop
  | .ingest _ | .enrich _ _ | .reproject _ | .rollback _ _ => False
  | _ => True

theorem perform_passes (call : Call Lp) (quiet : Call.quiet call) :
    Meets anyhow (Passes db) (perform projection db call) := by
  have bumped := fun (next : Db Lp) key amount (same : sheet next = sheet db) =>
    (sheet_blind.bump next key amount).mono fun after kept => Passes.of_eq (kept.trans same)
  cases call with
  | ingest call => cases quiet
  | enrich updates transactions => cases quiet
  | reproject ids => cases quiet
  | rollback ancestor header => cases quiet
  | upsertPools rows =>
    apply meets_bind _ (sheet_blind.pools.upsertPools db rows)
    intro after same
    rw [meets_pure]
    split
    · exact .of_eq same
    · exact .next same
  | saveTokenMetadata address symbol decimals =>
    exact saveTokenMetadata_passes db address symbol decimals
  | queueV3Balances pools number hash => exact bumped _ _ _ rfl
  | saveV3Balances items =>
    apply meets_bind _ (saveV3Balances_passes db items)
    intro after passes
    exact passes
  | recoverMissingEnrichment reader limit =>
    exact recoverMissingEnrichment_passes reader db limit
  | completePoolUnpublishes pools => exact bumped _ _ _ rfl
  | recordEnrichmentFailure hash error next => exact .of_eq rfl
  | markReprojectionError ids error next => exact .of_eq rfl
  | markTokenMetadataError address error next => exact .of_eq rfl
  | markV3BalanceError key hash error next => exact .of_eq rfl

theorem perform_issued (call : Call Lp) (issued : Issued (sheet db)) :
    Meets anyhow (fun after => Issued (sheet after)) (perform projection db call) := by
  have passing := fun quiet => (perform_passes projection db call quiet).mono
    fun after passes => Passes.issued passes issued
  cases call with
  | ingest call =>
    apply meets_bind _ (ingest_settles projection db call issued)
    rintro after ⟨mid, delivery, -, settles⟩
    exact settles.issued (delivery.issues issued)
  | enrich updates transactions =>
    exact (enrich_delivers projection db updates transactions issued).mono
      fun after delivers => Delivers.issued delivers issued
  | reproject ids =>
    exact (reproject_delivers projection db ids issued).mono
      fun after delivers => Delivers.issued delivers issued
  | rollback ancestor header =>
    apply (rollback_unwinds projection db ancestor header).mono
    rintro after ⟨unwound, -, same⟩
    rw [same]
    have valued := issued.valued unwound.value unwound.tables fun id row => by
      unfold Unwinding.value
      split <;> rfl
    constructor
    · intro id row found
      rw [get_remove] at found
      exact valued.id id row (Option.filter_eq_some_iff.mp found).1
    · intro id row found
      rw [get_remove] at found
      exact Nat.le_succ_of_le (valued.revision id row (Option.filter_eq_some_iff.mp found).1)
  | _ => exact passing trivial

/-! Places. No block has a negative number or time, and no event stands in one. -/

end RhPools.StoreRows
