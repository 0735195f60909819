import RhPools.PublishedLedger

/-! Whether a published position is reported stale. The queue keeps one order for a position,
merged column by column from those it was queued at; staleness compares it as a tuple. A run
remembers the orders themselves, one batch for each time the position was queued since its row
was made, so that what is reported can be compared with them. -/

namespace RhPools.QueuedReplays
open OrderedTables PoolInventory SearchCatalogue PublishedLedger

theorem queuedAfter_iff (queued published : Order) : queuedAfter queued published = true ↔
    published.block < queued.block ∨ (queued.block = published.block ∧
      (published.txIndex < queued.txIndex ∨ (queued.txIndex = published.txIndex ∧
        published.logIndex < queued.logIndex))) := by
  simp [queuedAfter]

theorem queuedAfter_latest (order other published : Order) :
    queuedAfter (latest order other) published = true ↔
      queuedAfter order published = true ∨ queuedAfter other published = true := by
  unfold latest
  split <;> rename_i apart <;> simp only [queuedAfter_iff] at * <;> omega

def columns (order other : Order) : Order :=
  ⟨max order.block other.block, max order.txIndex other.txIndex, max order.logIndex other.logIndex⟩

theorem columns_self (order : Order) : columns order order = order := by
  simp [columns]

theorem queuedAfter_columns (order other published : Order)
    (either : queuedAfter order published = true ∨ queuedAfter other published = true) :
    queuedAfter (columns order other) published = true := by
  simp only [queuedAfter_iff, columns] at *
  omega

def newest (orders : List Order) : Option Order :=
  orders.foldl (fun found order => some (found.elim order (latest · order))) none

def merged (batches : List (List Order)) : Option Order :=
  (batches.filterMap newest).foldl (fun found order => some (found.elim order (columns · order)))
    none

theorem newest_after (orders : List Order) (published : Order) :
    (newest orders).any (queuedAfter · published) = true ↔
      ∃ order ∈ orders, queuedAfter order published = true := by
  have run : ∀ (rest : List Order) (found : Option Order),
      (rest.foldl (fun found order => some (found.elim order (latest · order))) found).any
        (queuedAfter · published) = true ↔
      found.any (queuedAfter · published) = true ∨
        ∃ order ∈ rest, queuedAfter order published = true := by
    intro rest
    induction rest with
    | nil => intro found; simp
    | cons order rest ih =>
      intro found
      rw [List.foldl_cons, ih, Option.any_some, List.exists_mem_cons_iff, ← or_assoc]
      cases found with
      | none => simp
      | some old => rw [Option.elim_some, queuedAfter_latest, Option.any_some]
  rw [newest, run]
  simp

theorem newest_none (orders : List Order) : newest orders = none ↔ orders = [] := by
  have filled : ∀ (rest : List Order) (old : Order),
      rest.foldl (fun found order => some (found.elim order (latest · order))) (some old) ≠ none := by
    intro rest
    induction rest with
    | nil => exact fun old => Option.some_ne_none old
    | cons order rest ih => exact fun old => ih _
  cases orders with
  | nil => simp [newest]
  | cons order rest =>
    refine iff_of_false (filled rest order) (List.cons_ne_nil order rest)

theorem merged_append (batches : List (List Order)) (batch : List Order) :
    merged (batches ++ [batch]) = (newest batch).elim (merged batches) fun order =>
      some ((merged batches).elim order (columns · order)) := by
  unfold merged
  rw [List.filterMap_append, List.foldl_append]
  cases found : newest batch with
  | none => rw [List.filterMap_cons_none found]; rfl
  | some order => rw [List.filterMap_cons_some found]; rfl

theorem merged_after (batches : List (List Order)) (published : Order)
    (newer : ∃ batch ∈ batches, ∃ order ∈ batch, queuedAfter order published = true) :
    (merged batches).any (queuedAfter · published) = true := by
  have run : ∀ (rest : List Order) (found : Option Order),
      found.any (queuedAfter · published) = true ∨
        (∃ order ∈ rest, queuedAfter order published = true) →
      (rest.foldl (fun found order => some (found.elim order (columns · order))) found).any
        (queuedAfter · published) = true := by
    intro rest
    induction rest with
    | nil =>
      rintro found (held | ⟨_, member, _⟩)
      · exact held
      · cases member
    | cons order rest ih =>
      intro found either
      refine ih _ ?_
      rw [List.exists_mem_cons_iff, ← or_assoc] at either
      refine either.imp_left fun here => ?_
      cases found with
      | none => simpa using here
      | some old => exact queuedAfter_columns old order published here
  obtain ⟨batch, member, newer⟩ := newer
  have held := (newest_after batch published).mpr newer
  obtain ⟨order, found, after⟩ := (Option.any_eq_true _ _).mp held
  exact run _ none (.inr ⟨order, List.mem_filterMap.mpr ⟨batch, member, found⟩, after⟩)

inductive Projection where
  | current
  | stale
  | pending
  deriving DecidableEq

structure ProjectionState where
  state : Projection
  publishedBlock : Int
  queuedBlock : Option Int

/-- `>` of two tuples: the first column that differs decides. -/
def tupleAfter (left right : Order) : Bool :=
  if left.block ≠ right.block then left.block > right.block
  else if left.txIndex ≠ right.txIndex then left.txIndex > right.txIndex
  else left.logIndex > right.logIndex

/-- `_projection_state`. -/
def projectionState (row : Position) (queued : Option Pending) : ProjectionState :=
  match queued with
  | none => ⟨.current, row.lastOrder.block, none⟩
  | some pending =>
    if pending.costOnly then ⟨.current, row.lastOrder.block, none⟩
    else
      { state := if tupleAfter pending.priority row.lastOrder then .stale else .pending
        publishedBlock := row.lastOrder.block
        queuedBlock := some pending.priority.block }

/-- `_stale_position_keys`. -/
def stalePositionKeys (db : Db) : List String :=
  (db.pending.entries.filter fun entry => !entry.2.costOnly &&
    (db.positions.get entry.1).any fun row => queuedAfter entry.2.priority row.lastOrder).map
      Prod.fst

theorem tupleAfter_eq (left right : Order) : tupleAfter left right = queuedAfter left right := by
  rw [Bool.eq_iff_iff, queuedAfter_iff, tupleAfter]
  split_ifs <;> simp only [decide_eq_true_eq] <;> omega

theorem projectionState_stale (row : Position) (pending : Pending)
    (replays : pending.costOnly = false) :
    (projectionState row (some pending)).state = .stale ↔
      queuedAfter pending.priority row.lastOrder = true := by
  rw [projectionState, replays, if_neg Bool.false_ne_true, ← tupleAfter_eq]
  dsimp only
  split <;> simp_all

variable (casing : Casing) (db : Db)

theorem mem_stalePositionKeys (key : String) (row : Position) (pending : Pending)
    (published : db.positions.get key = some row) (queued : db.pending.get key = some pending)
    (replays : pending.costOnly = false) : key ∈ stalePositionKeys db ↔
      queuedAfter pending.priority row.lastOrder = true := by
  rw [stalePositionKeys, List.mem_map]
  constructor
  · rintro ⟨⟨other, found⟩, inside, rfl⟩
    obtain ⟨member, stale⟩ := List.mem_filter.mp inside
    have same := queued.symm.trans ((get_some _ _ _).mpr member)
    obtain rfl := Option.some.inj same
    rw [published, Option.any_some, Bool.and_eq_true] at stale
    exact stale.2
  · intro after
    refine ⟨(key, pending), List.mem_filter.mpr ⟨(get_some _ _ _).mp queued, ?_⟩, rfl⟩
    rw [replays, published, Option.any_some, after]
    rfl

def eventKeys (db : Db) (event : Event) : List String :=
  (((oldKey db event).toList ++ [event.positionKey]).filter (· ≠ "")).dedup

def ordersFor (db : Db) (events : List Event) (key : String) : List Order :=
  (events.filter fun event => event.id.isSome && key ∈ eventKeys db event).map Event.order

inductive Action where
  | change (change : Change)
  /-- Keys that are queued again, each with the order of an event. -/
  | requeue (requests : OrderedTable String Request) (epoch : Int) (hinted : Bool)

/-- The orders that an action queues a key at. A legacy position that no event asked for is
queued at the newest of the batch. -/
def queuedBy (db : Db) (key : String) : Action → List Order
  | .change (.apply events _ _) =>
    let legacy := legacyPositions db (batchKeys db events)
    if key ∈ (unqueuedLegacy events legacy (requestsOf db events legacy)).map Prod.fst then
      events.map Event.order
    else ordersFor db events key
  | .change _ => []
  | .requeue requests _ _ => (requests.get key).toList.map Request.order

/-- The ledger, and what each key was queued at since its row was made. -/
structure State where
  db : Db
  queued : String → List (List Order)

def take (casing : Casing) (db : Db) : Action → Option Db
  | .change (.rollback _ _) => none
  | .change change => some (change.take casing true db)
  | .requeue requests epoch hinted => some (queuePositionKeys db requests.entries epoch hinted)

def record (state : State) (action : Action) (after : Db) : State where
  db := after
  queued key := match after.pending.get key, queuedBy state.db key action with
    | none, _ => []
    | some _, [] => state.queued key
    | some _, order :: orders => state.queued key ++ [order :: orders]

def queue (casing : Casing) : GuardedRuns.System State Action where
  start state := state.db.pending = .empty ∧ ∀ key, state.queued key = []
  step state action := (take casing state.db action).map (record state action)

def priority (db : Db) (key : String) : Option Order := (db.pending.get key).map Pending.priority

theorem get_queued (requests : OrderedTable String Request) (epoch : Int) (hinted : Bool)
    (key : String) :
    priority (queuePositionKeys db requests.entries epoch hinted) key =
      (requests.get key).elim (priority db key) fun request =>
        some ((priority db key).elim request.order (columns · request.order)) := by
  unfold queuePositionKeys
  split
  · rename_i empty
    have absent : requests.get key = none := by
      rw [OrderedTable.get, empty]
      rfl
    rw [absent]
    rfl
  · set inserted := db.pending.insertAll (requests.entries.map fun request => (request.1,
      ⟨0, request.2.appendOnly, request.2.costOnly, db.eventsRevision, epoch, request.2.order,
        hinted, 0⟩)) with made
    have updated := get_foldl
      (fun (table : OrderedTable String Pending) request => table.modify fun key row =>
        if key = request.1 then requeue hinted db.eventsRevision epoch request.2 row else row)
      (fun _ old request => old.map (requeue hinted db.eventsRevision epoch request))
      (fun table entry other => by
        rw [get_modify]
        split
        · rename_i same
          subst same
          simp
        · simp) requests inserted key
    show (((requests.entries.foldl _ inserted).get key).map Pending.priority) = _
    rw [updated]
    cases asked : requests.get key with
    | none =>
      have same : inserted.get key = db.pending.get key := by
        cases held : db.pending.get key with
        | some row => exact get_insertAll_some _ _ key row held
        | none =>
          refine (get_insertAll_none _ _ key).mpr ⟨held, ?_⟩
          rw [List.map_map]
          intro member
          obtain ⟨entry, inside, rfl⟩ := List.mem_map.mp member
          exact (get_none requests entry.1).mp asked entry inside rfl
      rw [Option.elim_none, same]
      rfl
    | some request =>
      rw [Option.elim_some, Option.elim_some, priority]
      cases held : db.pending.get key with
      | some row =>
        rw [get_insertAll_some _ _ key row held]
        rfl
      | none =>
        have inside : (key, request) ∈ requests.entries := (get_some _ _ _).mp asked
        cases found : inserted.get key with
        | none =>
          have absent := ((get_insertAll_none _ _ key).mp found).2
          rw [List.map_map] at absent
          exact absurd (List.mem_map_of_mem (f := Prod.fst) inside) absent
        | some row =>
          -- A fresh row is updated at once with the order it was made with.
          rcases get_insertAll _ _ key row found with old | ⟨-, fresh⟩
          · rw [held] at old
            cases old
          · obtain ⟨⟨other, wanted⟩, member, same⟩ := List.mem_map.mp fresh
            obtain ⟨rfl, rfl⟩ := Prod.mk.inj same
            have equal := asked.symm.trans ((get_some _ _ _).mpr member)
            obtain rfl := Option.some.inj equal
            exact congrArg some (columns_self request.order)

theorem get_upserts (keys : List String) (distinct : keys.Nodup)
    (merge : String → Option Request → Request) (table : OrderedTable String Request)
    (key : String) :
    (keys.foldl (fun table key => table.upsert key (merge key)) table).get key =
      if key ∈ keys then some (merge key (table.get key)) else table.get key := by
  induction keys generalizing table with
  | nil => simp
  | cons head rest ih =>
    obtain ⟨fresh, distinct⟩ := List.nodup_cons.mp distinct
    rw [List.foldl_cons, ih distinct, OrderedTable.upsert, get_put]
    by_cases same : key = head
    · subst same
      simp [fresh]
    · simp [same]

theorem get_requests (events : List Event) (legacy : List (String × Position)) (key : String) :
    (((events.foldl (noteEvent db) .empty).modify fun key request =>
      if key ∈ legacy.map Prod.fst then { request with appendOnly := false, costOnly := false }
      else request).get key).map Request.order = newest (ordersFor db events key) := by
  have run : ∀ (rest : List Event) (table : OrderedTable String Request),
      ((rest.foldl (noteEvent db) table).get key).map Request.order =
        (ordersFor db rest key).foldl
          (fun found order => some (found.elim order (latest · order)))
          ((table.get key).map Request.order) := by
    intro rest
    induction rest with
    | nil => intro table; rfl
    | cons event rest ih =>
      intro table
      rw [List.foldl_cons, ih]
      unfold noteEvent ordersFor
      cases known : event.id with
      | none => rw [List.filter_cons_of_neg (by simp [known])]
      | some id =>
        dsimp only
        rw [get_upserts _ (List.nodup_dedup _)]
        by_cases asked : key ∈ eventKeys db event
        · rw [List.filter_cons_of_pos (by simp [known, asked]), List.map_cons, List.foldl_cons]
          unfold eventKeys at asked
          rw [if_pos asked]
          cases table.get key <;> rfl
        · rw [List.filter_cons_of_neg (by simp [known, asked])]
          unfold eventKeys at asked
          rw [if_neg asked]
  rw [get_modify, Option.map_map]
  refine Eq.trans ?_ (run events .empty)
  congr 1
  funext request
  dsimp only [Function.comp_apply]
  split <;> rfl

structure Recorded (state : State) : Prop where
  filled : ∀ key, ∀ batch ∈ state.queued key, batch ≠ []
  priority : ∀ key, merged (state.queued key) = priority state.db key

def Moves (db after : Db) (key : String) (orders : List Order) : Prop :=
  priority after key = none ∨ priority after key =
    (newest orders).elim (priority db key) fun order =>
      some ((priority db key).elim order (columns · order))

theorem record_recorded (state : State) (action : Action) (after : Db)
    (recorded : Recorded state)
    (moves : ∀ key, Moves state.db after key (queuedBy state.db key action)) :
    Recorded (record state action after) := by
  constructor
  · intro key batch member
    dsimp only [record] at member
    split at member
    · cases member
    · exact recorded.filled key batch member
    · rcases List.mem_append.mp member with old | fresh
      · exact recorded.filled key batch old
      · rw [List.mem_singleton.mp fresh]
        exact List.cons_ne_nil _ _
  · intro key
    have moved := moves key
    unfold Moves QueuedReplays.priority at moved
    show merged (record state action after |>.queued key) = (after.pending.get key).map _
    dsimp only [record]
    split
    · rename_i gone
      rw [gone]
      rfl
    · rename_i row held unasked
      rw [unasked, held] at moved
      rw [held, recorded.priority]
      rcases moved with lost | kept
      · cases lost
      · exact kept.symm
    · rename_i row order rest held asked
      rw [asked, held] at moved
      rw [held, merged_append, recorded.priority]
      rcases moved with lost | kept
      · cases lost
      · rw [kept]
        cases found : newest (order :: rest) with
        | none => cases (newest_none _).mp found
        | some order => rfl

theorem publish_moves (batch : List Prepared) (basis : String → String) (key : String) :
    Moves db (PublishedLedger.publish casing db batch basis) key [] := by
  have run : ∀ (rest : List Prepared) (published : Published),
      priority published.db key = none ∨ priority published.db key = priority db key →
      priority (rest.foldl (publishNext casing) published).db key = none ∨
        priority (rest.foldl (publishNext casing) published).db key = priority db key := by
    intro rest
    induction rest with
    | nil => exact fun _ held => held
    | cons prepared rest ih =>
      intro published held
      refine ih _ ?_
      unfold publishNext publishPending
      split
      · exact held
      · rename_i after pools made
        split at made
        · cases made
        · obtain ⟨queued, there, same⟩ := Option.map_eq_some_iff.mp made
          obtain ⟨rfl, -⟩ := Prod.mk.inj same
          have written : (prepared.writes.elim published.db
              (replay published.db prepared.positionKey)).pending = published.db.pending := by
            cases prepared.writes <;> rfl
          dsimp only
          split
          · unfold priority
            dsimp only
            rw [written, get_erase]
            split
            · exact .inl rfl
            · exact held
          · unfold priority
            rw [written]
            exact held
  have last := run batch ⟨db, [], [], false⟩ (.inr rfl)
  unfold PublishedLedger.publish
  dsimp only
  split
  · exact last
  · exact last

theorem newest_map (first : Event) (rest : List Event) :
    newest ((first :: rest).map Event.order) =
      some (rest.foldl (fun order event => latest order event.order) first.order) := by
  have run : ∀ (rest : List Event) (order : Order),
      (rest.map Event.order).foldl
        (fun found order => some (found.elim order (latest · order))) (some order) =
      some (rest.foldl (fun order event => latest order event.order) order) := by
    intro rest
    induction rest with
    | nil => intro order; rfl
    | cons event rest ih => exact fun order => ih _
  exact run rest first.order

theorem apply_moves (events : List Event) (replays : String → Replayed) (basis : String → String)
    (key : String) :
    Moves db (applyDeferred casing db events) key
      (queuedBy db key (.change (.apply events replays basis))) := by
  cases events with
  | nil => exact .inr rfl
  | cons first rest =>
    set events := first :: rest with whole
    set legacy := legacyPositions db (batchKeys db events) with chosen
    set asked : OrderedTable String Request := (events.foldl (noteEvent db) .empty).modify
      fun key request => if key ∈ legacy.map Prod.fst then
        { request with appendOnly := false, costOnly := false } else request with table
    have requests : requestsOf db events legacy = asked.entries := rfl
    set last := rest.foldl (fun order event => latest order event.order) first.order with newestOne
    set left := (legacy.map Prod.fst).filter fun key => key ∉ asked.entries.map Prod.fst with keys
    have distinct : left.Nodup := by
      refine List.Nodup.filter _ (List.Nodup.sublist ?_ db.positions.distinct)
      exact List.Sublist.map _ List.filter_sublist
    set unasked : OrderedTable String Request := ⟨left.map fun key => (key, ⟨last, false, false⟩), by
      rw [List.map_map]
      exact (List.map_id left).symm ▸ distinct⟩ with rows
    have unqueued : unqueuedLegacy events legacy (requestsOf db events legacy) =
      unasked.entries := rfl
    have found : unasked.get key = if key ∈ left then some ⟨last, false, false⟩ else none := by
      split_ifs with member
      · exact (get_some _ _ _).mpr (List.mem_map_of_mem member)
      · refine (get_none _ _).mpr fun entry inside same => member ?_
        obtain ⟨other, there, rfl⟩ := List.mem_map.mp inside
        exact same ▸ there
    have named : unasked.entries.map Prod.fst = left := by
      rw [rows, List.map_map]
      exact List.map_id left
    right
    show priority (queuePositionKeys (queuePositionKeys
      (invalidateLegacy { db with eventKeys := mapEvents db events } legacy)
        (requestsOf db events legacy) db.epoch true)
      (unqueuedLegacy events legacy (requestsOf db events legacy)) db.epoch false) key = _
    rw [unqueued, requests, get_queued, get_queued, found]
    show _ = (newest (if key ∈ (unqueuedLegacy events legacy (requestsOf db events legacy)).map
      Prod.fst then events.map Event.order else ordersFor db events key)).elim _ _
    rw [unqueued, named]
    split_ifs with member
    · have absent : asked.get key = none := by
        refine (get_none _ _).mpr fun entry inside same => ?_
        have outside := of_decide_eq_true (List.mem_filter.mp member).2
        exact outside (same ▸ List.mem_map_of_mem inside)
      rw [absent, whole, newest_map]
      rfl
    · rw [← get_requests db events legacy key]
      show _ = ((asked.get key).map Request.order).elim _ _
      cases asked.get key <;> rfl

theorem take_moves (db after : Db) (action : Action) (taken : take casing db action = some after)
    (key : String) :
    Moves db after key (queuedBy db key action) := by
  cases action with
  | requeue requests epoch hinted =>
    obtain rfl := Option.some.inj taken
    refine .inr ((get_queued db requests epoch hinted key).trans ?_)
    dsimp only [queuedBy]
    cases requests.get key <;> rfl
  | change change =>
    cases change with
    | rollback ancestor replays => cases taken
    | apply events replays basis =>
      obtain rfl := Option.some.inj taken
      exact apply_moves casing db events replays basis key
    | publish batch basis =>
      obtain rfl := Option.some.inj taken
      exact publish_moves casing db batch basis key
    | publishClaims accepted basis =>
      obtain rfl := Option.some.inj taken
      refine .inr ?_
      show priority (PublishedLedger.publishClaims casing db accepted basis) key = priority db key
      unfold PublishedLedger.publishClaims
      split <;> rfl
    | poolState rows => obtain rfl := Option.some.inj taken; exact .inr rfl
    | metadata rows => obtain rfl := Option.some.inj taken; exact .inr rfl
    | store events revision epoch => obtain rfl := Option.some.inj taken; exact .inr rfl
    | hinted keys hints =>
      obtain rfl := Option.some.inj taken
      refine .inr ?_
      show ((db.pending.modify _).get key).map Pending.priority = priority db key
      rw [get_modify, Option.map_map]
      refine congrArg (fun read => (db.pending.get key).map read) (funext fun row => ?_)
      dsimp only [Function.comp_apply]
      split <;> rfl

theorem reached_recorded (state : State) (reached : (queue casing).Reaches GuardedRuns.always state) :
    Recorded state := by
  refine reached.invariant Recorded ?_ ?_
  · rintro start ⟨empty, fresh⟩
    refine ⟨fun key batch member => ?_, fun key => ?_⟩
    · rw [fresh] at member
      cases member
    · rw [fresh, priority, empty, get_empty]
      rfl
  · intro state action next recorded _ stepped
    obtain ⟨after, taken, rfl⟩ := Option.map_eq_some_iff.mp stepped
    exact record_recorded state action after recorded (take_moves casing state.db after action taken)

/-- The columns of different batches' newest orders do not together pass the published order
that none of the queued orders passes. -/
def Unmixed (batches : List (List Order)) (published : Order) : Prop :=
  (merged batches).any (queuedAfter · published) = true →
    (newest batches.flatten).any (queuedAfter · published) = true

theorem exists_flatten {Item : Type} (batches : List (List Item)) (holds : Item → Prop) :
    (∃ item ∈ batches.flatten, holds item) ↔ ∃ batch ∈ batches, ∃ item ∈ batch, holds item := by
  simp only [List.mem_flatten]
  constructor
  · rintro ⟨item, ⟨batch, there, member⟩, held⟩
    exact ⟨batch, there, item, member, held⟩
  · rintro ⟨batch, there, item, member, held⟩
    exact ⟨item, ⟨batch, there, member⟩, held⟩

/-- The page and the query call the same positions stale, and a position whose replay is queued
is called stale exactly when a newer event is queued, unless columns are mixed. -/
theorem stale_when_newer_queued (casing : Casing) (state : State)
    (reached : (queue casing).Reaches GuardedRuns.always state) (key : String)
    (published : Position) (pending : Pending)
    (there : state.db.positions.get key = some published)
    (queued : state.db.pending.get key = some pending) (replays : pending.costOnly = false) :
    ((projectionState published (some pending)).state = .stale ↔
      key ∈ stalePositionKeys state.db) ∧
    (((projectionState published (some pending)).state = .stale ↔
      ∃ batch ∈ state.queued key, ∃ order ∈ batch,
        queuedAfter order published.lastOrder = true) ↔
      Unmixed (state.queued key) published.lastOrder) := by
  have recorded := reached_recorded casing state reached
  have reported := projectionState_stale published pending replays
  have listed := mem_stalePositionKeys state.db key published pending there queued replays
  have held : merged (state.queued key) = some pending.priority := by
    rw [recorded.priority, priority, queued]
    rfl
  have newer := newest_after (state.queued key).flatten published.lastOrder
  rw [exists_flatten] at newer
  refine ⟨reported.trans listed.symm, ?_⟩
  rw [reported, Unmixed, held, Option.any_some, newer]
  constructor
  · exact fun exactly after => exactly.mp after
  · intro unmixed
    refine ⟨unmixed, fun found => ?_⟩
    have after := merged_after _ _ found
    rwa [held, Option.any_some] at after

/-! A position published at the sixth event of a block's sixth transaction. -/

def publishedRow : Position where
  poolId := none
  protocol := some "v3"
  owner := none
  custody := none
  liquidity := none
  liquidityKnown := true
  tickLower := none
  tickUpper := none
  activeEpisodeId := none
  historyComplete := true
  lastOrder := ⟨10, 5, 5⟩
  valuationBasis := "unvalued"

def sampleState : State where
  db :=
    { positions := ⟨[("k", publishedRow)], by decide⟩
      pending := .empty, hints := [], generations := .empty, effects := []
      eventKeys := .empty, events := .empty, claims := .empty, poolState := none
      pools := .empty, eventsRevision := 0, epoch := 0 }
  queued _ := []

def arrival (id : Int) (order : Order) : Event := ⟨some id, "k", none, order, false, []⟩

theorem absent_late (position : PoolInventory.Position) (absent : position ∈ none)
    (effect : Int × Int) (_ : effect ∈ []) : effect.2 ≤ position.lastOrder.block := by
  cases absent

def arrive (event : Event) : Action :=
  .change (.apply [event] (fun _ => ⟨none, [], absent_late⟩) fun _ => "")

def arrived (state : State) (event : Event) : State :=
  record state (arrive event) (applyDeferred asciiCasing state.db [event])

theorem arrived_reached (state : State) (event : Event)
    (reached : (queue asciiCasing).Reaches GuardedRuns.always state) :
    (queue asciiCasing).Reaches GuardedRuns.always (arrived state event) :=
  .step state _ (arrive event) reached trivial rfl

theorem sample_reached : (queue asciiCasing).Reaches GuardedRuns.always sampleState :=
  .start _ ⟨rfl, fun _ => rfl⟩

theorem stale_when_newer_queued_sample :
    let state := arrived sampleState (arrival 2 ⟨11, 0, 0⟩)
    ∃ pending, state.db.pending.get "k" = some pending ∧
      ((projectionState publishedRow (some pending)).state = .stale ↔
        "k" ∈ stalePositionKeys state.db) ∧
      (((projectionState publishedRow (some pending)).state = .stale ↔
        ∃ batch ∈ state.queued "k", ∃ order ∈ batch,
          queuedAfter order publishedRow.lastOrder = true) ↔
        Unmixed (state.queued "k") publishedRow.lastOrder) := by
  have held : ((arrived sampleState (arrival 2 ⟨11, 0, 0⟩)).db.pending.get "k").map
      Pending.costOnly = some false := by decide +kernel
  obtain ⟨pending, queued, replays⟩ := Option.map_eq_some_iff.mp held
  exact ⟨pending, queued, stale_when_newer_queued asciiCasing _
    (arrived_reached sampleState _ sample_reached) "k" publishedRow pending (by decide +kernel)
    queued replays⟩

/-- Two earlier events, of another transaction and of an earlier block, make the position
stale together. -/
theorem mixed_columns_stale :
    let state := arrived (arrived sampleState (arrival 2 ⟨10, 3, 9⟩)) (arrival 3 ⟨9, 7, 1⟩)
    (queue asciiCasing).Reaches GuardedRuns.always state ∧
    state.db.positions.get "k" = some publishedRow ∧
    (state.db.pending.get "k").map Pending.costOnly = some false ∧
    "k" ∈ stalePositionKeys state.db ∧
    ¬∃ batch ∈ state.queued "k", ∃ order ∈ batch,
      queuedAfter order publishedRow.lastOrder = true :=
  ⟨arrived_reached _ _ (arrived_reached _ _ sample_reached), by decide +kernel, by decide +kernel,
    by decide +kernel, by decide +kernel⟩

end RhPools.QueuedReplays
