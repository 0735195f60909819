import RhPools.DrainedQueues
import RhPools.PriceMarks
import RhPools.StoreCounters
import RhPools.StoreRows

/-! The reprojection queue. A call of `reproject` takes events off the queue and prices them;
every event that it queues comes after one of those it priced. -/

namespace RhPools.RepricingQueue
open OrderedTables MarketTables MarketStore CheckedSteps StoreLedger StoreCounters DrainedQueues
open PriceMarks ActivityBuckets
open TxChain (USDG)

variable {Lp : Type}

/-- Which ids a caller passes to its next call, in any way that makes some progress. -/
structure Strategy (Lp : Type) where
  pick : Nat → Db Lp → List EventId
  some : ∀ calls db, db.pendingReprojection.entries ≠ [] → pick calls db ≠ []
  queued : ∀ calls db, ∀ id ∈ pick calls db, id ∈ db.pendingReprojection.keys

def Strategy.resume (strategy : Strategy Lp) (made : Nat) : Strategy Lp where
  pick calls := strategy.pick (made + calls)
  some calls := strategy.some (made + calls)
  queued calls := strategy.queued (made + calls)

/-- That many calls of `reproject`, or fewer when the queue is empty before. -/
def drain (projection : PriceProjection Lp) (strategy : Strategy Lp) : Nat → Db Lp → Write (Db Lp)
  | 0, db => .ok db
  | calls + 1, db =>
    if db.pendingReprojection.entries = [] then .ok db
    else do
      let after ← reproject projection db (strategy.pick 0 db)
      drain projection (strategy.resume 1) calls after

def line (db : Db Lp) : Events × OrderedTable EventId ReprojectionJob :=
  (db.events, db.pendingReprojection)

def orders (events : Events) (id : EventId) : Option Order :=
  (events.get id).map EventRow.order

def Onward (repriced : Repricing Lp) (events : Delivered) : Prop :=
  ∀ chosen ∈ repriced.successors, ∃ change ∈ events, ∀ id row, chosen id row = true →
    EventRow.order change.2 < EventRow.order row

/-- Everything queued now was queued before, or comes after one of these events. -/
def Follows (events : Events) (before after : OrderedTable EventId ReprojectionJob)
    (sources : Delivered) : Prop :=
  ∀ id, after.get id ≠ none → before.get id ≠ none ∨
    ∃ row, events.get id = some row ∧ ∃ source ∈ sources,
      EventRow.order source.2 < EventRow.order row

theorem requeue_line (db : Db Lp) (chosen : EventId → EventRow → Bool) :
    Meets anyhow (fun after => after.events = db.events ∧ ∀ id,
        after.pendingReprojection.get id ≠ none → db.pendingReprojection.get id ≠ none ∨
          ∃ row, db.events.get id = some row ∧ chosen id row = true)
      (requeue db chosen) := by
  unfold requeue
  apply (bump_keeps line (fun _ _ => rfl) _ _ _).mono
  intro after same
  obtain ⟨events, pending⟩ := Prod.mk.inj same
  refine ⟨events, ?_⟩
  intro id queued
  by_cases was : db.pendingReprojection.get id = none
  · right
    by_contra unchosen
    apply queued
    rw [pending]
    apply (get_insertAll_none _ _ _).mpr
    refine ⟨was, ?_⟩
    intro named
    obtain ⟨job, member, rfl⟩ := List.mem_map.mp named
    obtain ⟨entry, inside, rfl⟩ := List.mem_map.mp member
    obtain ⟨stored, picked⟩ := List.mem_filter.mp inside
    exact unchosen ⟨entry.2, (get_some _ _ _).mpr stored, picked⟩
  · exact .inl was

theorem requeueAll_line (successors : List (EventId → EventRow → Bool)) (sources : Delivered)
    (onward : ∀ chosen ∈ successors, ∃ change ∈ sources, ∀ id row, chosen id row = true →
      EventRow.order change.2 < EventRow.order row) (db : Db Lp) :
    Meets anyhow (fun after => after.events = db.events ∧
        Follows db.events db.pendingReprojection after.pendingReprojection sources)
      (successors.foldlM requeue db) := by
  apply meets_foldlM fun state : Db Lp => state.events = db.events ∧
    Follows db.events db.pendingReprojection state.pendingReprojection sources
  · exact ⟨rfl, fun _ queued => .inl queued⟩
  · rintro state chosen member ⟨events, follows⟩
    apply (requeue_line state chosen).mono
    rintro after ⟨same, queues⟩
    refine ⟨same.trans events, ?_⟩
    intro id queued
    rcases queues id queued with before | ⟨row, found, picked⟩
    · exact follows id before
    · obtain ⟨change, delivered, later⟩ := onward chosen member
      exact .inr ⟨row, events ▸ found, change, delivered, later id row picked⟩

theorem orders_modify (events : Events) (change : EventId → EventRow → EventRow)
    (kept : ∀ id row, (change id row).place = row.place) :
    orders (events.modify change) = orders events := by
  funext id
  simp only [orders, get_modify, Option.map_map, Function.comp_def, EventRow.order, kept]
  rfl

theorem orders_get {left right : Events} (same : orders left = orders right) (id : EventId)
    (row : EventRow) (found : left.get id = some row) :
    ∃ other, right.get id = some other ∧ EventRow.order other = EventRow.order row := by
  have here := congrFun same id
  rw [orders, orders, found, Option.map_some] at here
  exact Option.map_eq_some_iff.mp here.symm

theorem deliver_line (projection : PriceProjection Lp) (db : Db Lp) (events : Delivered)
    (onward : ∀ repriced, projection.reprice db events = .ok repriced → Onward repriced events) :
    Meets anyhow (fun after => orders after.events = orders db.events ∧
        Follows db.events db.pendingReprojection after.pendingReprojection events)
      (projection.deliver db events) := by
  unfold PriceProjection.deliver
  split
  · exact ⟨rfl, fun _ queued => .inl queued⟩
  · unfold PriceProjection.apply
    split
    · trivial
    · rename_i repriced returned
      apply meets_bind _ (requeueAll_line repriced.successors events (onward repriced returned) _)
      rintro after ⟨same, follows⟩
      rw [meets_pure]
      have kept : orders (db.events.modify fun id row => if id ∈ known db events then
          { row with valuation := repriced.valuation id } else row) = orders db.events := by
        apply orders_modify
        intro id row
        split <;> rfl
      refine ⟨(congrArg orders same).trans kept, ?_⟩
      intro id queued
      rcases follows id queued with before | ⟨row, found, source, delivered, later⟩
      · exact .inl before
      · obtain ⟨other, there, order⟩ := orders_get kept id row found
        exact .inr ⟨other, there, source, delivered, order ▸ later⟩

def redelivered (db : Db Lp) (ids : List EventId) : Delivered :=
  inOrder ((db.events.entries.filter fun entry => entry.1 ∈ ids).map fun entry =>
    (entry.1, { entry.2 with revision := db.revision }))

theorem mem_redelivered (db : Db Lp) (ids : List EventId) (event : EventId × EventRow)
    (member : event ∈ redelivered db ids) :
    event.1 ∈ ids ∧ orders db.events event.1 = some (EventRow.order event.2) := by
  obtain ⟨entry, inside, rfl⟩ := List.mem_map.mp ((StoreRows.mem_inOrder _ _).mp member)
  obtain ⟨stored, picked⟩ := List.mem_filter.mp inside
  refine ⟨of_decide_eq_true picked, ?_⟩
  rw [orders, (get_some _ _ _).mpr stored]
  rfl

def Prompt (projection : PriceProjection Lp) : Prop :=
  ∀ db events, ∃ repriced, projection.reprice db events = .ok repriced ∧ Onward repriced events

theorem reproject_line (projection : PriceProjection Lp) (prompt : Prompt projection) (db : Db Lp)
    (ids : List EventId) (some : ids ≠ []) :
    Meets anyhow (fun after => orders after.events = orders db.events ∧
        ∀ id, after.pendingReprojection.get id ≠ none → id ∉ ids ∧
          (db.pendingReprojection.get id ≠ none ∨
            ∃ order ∈ orders db.events id, ∃ source ∈ ids, ∃ first ∈ orders db.events source,
              first < order))
      (reproject projection db ids) := by
  unfold reproject
  rw [if_neg (by simpa using some)]
  dsimp only
  let touched : Db Lp :=
    { db.nextRevision with
      eventsRevision := if (redelivered db.nextRevision ids).isEmpty then
        db.nextRevision.eventsRevision else db.nextRevision.revision
      events := db.nextRevision.events.modify fun id row =>
        if id ∈ ids then { row with revision := db.nextRevision.revision } else row }
  have revised : orders touched.events = orders db.events := by
    apply orders_modify
    intro id row
    split <;> rfl
  apply meets_bind _ (deliver_line projection touched (redelivered db.nextRevision ids) (by
    intro repriced returned
    obtain ⟨other, same, onward⟩ := prompt touched (redelivered db.nextRevision ids)
    rw [Except.ok.inj (returned.symm.trans same)]
    exact onward))
  rintro priced ⟨kept, follows⟩
  apply (bump_keeps line (fun _ _ => rfl) _ _ _).mono
  intro after same
  obtain ⟨events, pending⟩ := Prod.mk.inj same
  refine ⟨(congrArg orders events).trans (kept.trans revised), ?_⟩
  intro id queued
  rw [pending, get_remove] at queued
  obtain ⟨job, left⟩ := Option.ne_none_iff_exists'.mp queued
  obtain ⟨there, unpicked⟩ := (Option.filter_eq_some_iff).mp left
  refine ⟨by simpa using unpicked, ?_⟩
  rcases follows id (by rw [there]; exact Option.some_ne_none job) with
    before | ⟨row, found, source, delivered, order⟩
  · exact .inl before
  · obtain ⟨picked, first⟩ := mem_redelivered db.nextRevision ids source delivered
    right
    refine ⟨EventRow.order row, ?_, source.1, picked, EventRow.order source.2, first, order⟩
    rw [← revised, orders, found]
    rfl

theorem reproject_returns (projection : PriceProjection Lp) (prompt : Prompt projection)
    (db : Db Lp) (ids : List EventId) (counted : Counted db) :
    ∃ after, reproject projection db ids = .ok after ∧ Counted after := by
  have negative : Meets (fun failure => ∃ key, failure = .negative key) (fun _ : Db Lp => True)
      (reproject projection db ids) := by
    have bumps : ∀ (db : Db Lp) key amount,
        Meets (fun failure => ∃ key, failure = .negative key) (fun _ : Db Lp => True)
          (db.bump key amount) := by
      intro db key amount
      unfold Db.bump
      split
      · exact ⟨key, rfl⟩
      · trivial
    unfold reproject
    split
    · trivial
    · apply meets_bind fun _ => True
      · unfold PriceProjection.deliver
        split
        · trivial
        · unfold PriceProjection.apply
          split
          · rename_i detail raised
            obtain ⟨repriced, returned, -⟩ := prompt _ _
            exact absurd (returned.symm.trans raised) (by simp)
          · apply meets_bind fun _ => True
            · apply meets_foldlM fun _ => True
              · trivial
              · intro state chosen _ _
                exact bumps _ _ _
            · intro _ _
              trivial
      · intro _ _
        exact bumps _ _ _
  have counts := reproject_owing projection db ids counted
  cases returned : reproject projection db ids with
  | ok after =>
    rw [returned] at counts
    exact ⟨after, rfl, counts⟩
  | error failure =>
    rw [returned] at negative counts
    obtain ⟨key, rfl⟩ := negative
    exact absurd rfl (counts key)

def rankOf (db : Db Lp) (id : EventId) : WithBot Order := orders db.events id

def queueLoad (db : Db Lp) : Nat := load db.events.keys (rankOf db) db.pendingReprojection.keys

theorem keys_orders {left right : Events} (same : orders left = orders right) :
    left.keys = right.keys := by
  ext id
  have here := congrFun same id
  rw [mem_keys, mem_keys, not_iff_not, ← @Option.map_eq_none_iff _ _ _ EventRow.order,
    ← @Option.map_eq_none_iff _ _ _ EventRow.order]
  exact Eq.congr_left here

theorem reproject_lighter (projection : PriceProjection Lp) (prompt : Prompt projection)
    (db after : Db Lp) (ids : List EventId) (some : ids ≠ [])
    (queued : ∀ id ∈ ids, id ∈ db.pendingReprojection.keys)
    (returned : reproject projection db ids = .ok after) : queueLoad after < queueLoad db := by
  obtain ⟨kept, left⟩ := (meets_anyhow _ _).mp (reproject_line projection prompt db ids some)
    after returned
  have ranks : rankOf after = rankOf db := kept
  rw [queueLoad, queueLoad, ranks, keys_orders kept]
  apply load_drops db.pendingReprojection.keys ids.toFinset
  · obtain ⟨id, rest, rfl⟩ := List.exists_cons_of_ne_nil some
    exact ⟨id, List.mem_toFinset.mpr List.mem_cons_self⟩
  · intro id member
    exact queued id (List.mem_toFinset.mp member)
  · intro id member
    obtain ⟨unpicked, before | ⟨order, here, source, picked, first, there, later⟩⟩ :=
      left id ((mem_keys _ _).mp member)
    · left
      rw [Finset.mem_sdiff, mem_keys, List.mem_toFinset]
      exact ⟨before, unpicked⟩
    · right
      constructor
      · rw [mem_keys]
        intro absent
        rw [orders, absent] at here
        cases here
      · refine ⟨source, List.mem_toFinset.mpr picked, ?_⟩
        have low : rankOf db source = (first : WithBot Order) := there
        have high : rankOf db id = (order : WithBot Order) := here
        rw [low, high]
        exact WithBot.coe_lt_coe.mpr later

theorem drain_ends (projection : PriceProjection Lp) (prompt : Prompt projection) (calls : Nat)
    (strategy : Strategy Lp) (db : Db Lp) (counted : Counted db) (enough : queueLoad db ≤ calls) :
    ∃ after, drain projection strategy calls db = .ok after ∧
      after.pendingReprojection.entries = [] := by
  induction calls generalizing strategy db with
  | zero =>
    refine ⟨db, rfl, ?_⟩
    have light : ∑ id ∈ db.pendingReprojection.keys, weight db.events.keys (rankOf db) id = 0 :=
      Nat.le_zero.mp enough
    by_contra waiting
    obtain ⟨entry, rest, same⟩ := List.exists_cons_of_ne_nil waiting
    have member : entry.1 ∈ db.pendingReprojection.keys := by
      rw [OrderedTable.keys, same]
      simp
    exact absurd (Finset.sum_eq_zero_iff.mp light entry.1 member) (weight_pos entry.1).ne'
  | succ calls ih =>
    rw [drain]
    split
    · rename_i empty
      exact ⟨db, rfl, empty⟩
    · rename_i waiting
      obtain ⟨after, returned, counts⟩ :=
        reproject_returns projection prompt db (strategy.pick 0 db) counted
      have lighter := reproject_lighter projection prompt db after _ (strategy.some 0 db waiting)
        (strategy.queued 0 db) returned
      obtain ⟨last, drained, empty⟩ := ih (strategy.resume 1) after counts (by omega)
      refine ⟨last, ?_, empty⟩
      rw [returned]
      exact drained

variable (arith : Arithmetic)

theorem applyEvent_sources (events : Events) (forward : Bool) (tables : PriceTables) (pass : Pass)
    (event : Known) (entry : PoolId × List EventRow)
    (member : entry ∈ (applyEvent arith events forward tables pass event).sources.entries) :
    entry ∈ pass.sources.entries ∨
      ∀ change ∈ entry.2, change = event.row ∨
        ∃ old ∈ pass.sources.entries, change ∈ old.2 := by
  simp only [applyEvent] at member
  split at member
  · rcases mem_assign _ _ _ entry member with old | rfl
    · exact .inl old
    · right
      intro change inside
      rcases List.mem_append.mp inside with before | here
      · cases found : pass.sources.get event.poolId with
        | none => simp [found] at before
        | some changes =>
          rw [found] at before
          exact .inr ⟨_, (get_some _ _ _).mp found, before⟩
      · exact .inl (List.mem_singleton.mp here)
  · exact .inl member

theorem fold_sources (events : Events) (forward : Bool) (tables : PriceTables)
    (known : List Known) (pass : Pass) (rows : List EventRow)
    (before : ∀ entry ∈ pass.sources.entries, ∀ change ∈ entry.2, change ∈ rows)
    (inside : ∀ event ∈ known, event.row ∈ rows) :
    ∀ entry ∈ (known.foldl (applyEvent arith events forward tables) pass).sources.entries,
      ∀ change ∈ entry.2, change ∈ rows := by
  induction known generalizing pass with
  | nil => exact before
  | cons event rest ih =>
    apply ih
    · intro entry member change there
      rcases applyEvent_sources arith events forward tables pass event entry member with
        old | changes
      · exact before entry old change there
      · rcases changes change there with rfl | ⟨old, stored, was⟩
        · exact inside event List.mem_cons_self
        · exact before old stored change was
    · exact fun other member => inside other (List.mem_cons_of_mem event member)

theorem applyAll_sources (db : Db Lp) (tables : PriceTables) (events : Delivered)
    (entry : PoolId × List EventRow)
    (member : entry ∈ (applyAll arith db tables events).sources.entries) (change : EventRow)
    (inside : change ∈ entry.2) : ∃ event ∈ events, event.2 = change := by
  have delivered := fold_sources arith db.events (isForward db events) tables
    (knownEvents db events) (Pass.start tables _) (events.map Prod.snd)
    (fun _ absent => absurd absent List.not_mem_nil) (by
      intro event known
      obtain ⟨row, sorted, found⟩ := List.mem_filterMap.mp known
      obtain ⟨poolId, -, pooled⟩ := Option.bind_eq_some_iff.mp found
      obtain ⟨pool, -, rfl⟩ := Option.map_eq_some_iff.mp pooled
      exact List.mem_map_of_mem ((List.mem_insertionSort _).mp sorted))
    entry member change inside
  exact List.mem_map.mp delivered

theorem successors_onward (db : Db Lp) (tables : PriceTables) (events : Delivered) :
    Onward (repriceEvents arith db tables events) events := by
  intro chosen member
  simp only [repriceEvents] at member
  split at member
  · cases member
  · obtain ⟨entry, source, member⟩ := List.mem_flatMap.mp member
    have changes := applyAll_sources arith db tables events entry source
    split at member
    · cases member
    · rename_i pool found
      rcases List.mem_append.mp member with own | marked
      · obtain ⟨change, inside, rfl⟩ := List.mem_map.mp own
        obtain ⟨event, delivered, rfl⟩ := changes change inside
        refine ⟨event, delivered, ?_⟩
        intro id row picked
        simp only [poolSuccessors, Bool.and_eq_true, decide_eq_true_eq] at picked
        exact picked.1.1.2
      · split at marked
        · cases marked
        · obtain ⟨change, inside, rfl⟩ := List.mem_map.mp marked
          obtain ⟨event, delivered, rfl⟩ := changes change inside
          refine ⟨event, delivered, ?_⟩
          intro id row picked
          obtain ⟨other, -, picked⟩ := (Option.any_eq_true _ _).mp picked
          simp only [Bool.and_eq_true, decide_eq_true_eq] at picked
          exact picked.1.1.1.2

theorem priceProjection_prompt : Prompt (priceProjection arith) := by
  intro db events
  exact ⟨_, rfl, successors_onward arith db db.lp.rest events⟩

/-- Whatever events a caller takes off the queue, and however prices turn out, the queue is empty
after finitely many calls, none of which fails. -/
theorem draining_ends (db : Db (Tables PriceTables)) (counted : Counted db)
    (strategy : Strategy (Tables PriceTables)) :
    ∃ calls after, drain (priceProjection arith) strategy calls db = .ok after ∧
      after.pendingReprojection.entries = [] :=
  ⟨queueLoad db, drain_ends (priceProjection arith) (priceProjection_prompt arith) (queueLoad db)
    strategy db counted le_rfl⟩

/-! A swap, an add behind it, and a sample of the swap that was pruned: pricing the swap once more
queues the add. -/

def sampleArithmetic : Arithmetic where
  sqrtPrice _ sqrt := if 0 < sqrt then some ((sqrt : ℚ) ^ 2 / 2 ^ 192) else none
  reserveRatio _ _ _ := none
  reserve _ := 0
  stateBefore _ := ⟨none, none, none, none⟩
  quote _ ratio _ _ := (some 1, ratio, "direct USDG pool spot")
  value _ _ price0 price1 basis :=
    ⟨fun | .price0 => price0 | .price1 => price1 | _ => none, basis, fun _ => none⟩
  gasUsd _ _ := none

def samplePoolId : PoolId := .contract 0xaa#160

def samplePoolRow : PoolRow :=
  { protocol := .v3, address := 0xaa#160, token0 := USDG, token1 := 0xbb#160, symbol0 := none
    symbol1 := none, decimals0 := some 6, decimals1 := some 18, feePpm := some 3000
    tickSpacing := some 60, hook := none, factory := some UNISWAP_V3_FACTORY
    createdBlock := none, source := none, metadata := none }

def sampleEvent (kind : Kind) (block : Int) (quantity : Quantity → Option Int) : EventRow :=
  { place := { blockNumber := block, blockHash := BitVec.ofInt 256 block
               txHash := BitVec.ofInt 256 block, txIndex := 0, logIndex := 0, timestamp := block }
    terms := { poolId := some samplePoolId, protocol := .v3, kind := kind, quantity := quantity
               party := fun _ => none, label := fun _ => none, data := fun _ => none
               pool := none }
    valuation := ⟨fun _ => none, none, fun _ => none⟩
    revision := 0 }

def sampleSwap (block sqrt liquidity : Int) : EventRow :=
  sampleEvent .swap block fun
    | .sqrtPriceX96 => some sqrt
    | .tick => some 0
    | .liquidity => some liquidity
    | _ => none

def sampleAdd (block delta : Int) : EventRow :=
  sampleEvent .add block fun
    | .liquidityDelta => some delta
    | .tickLower => some (-60)
    | .tickUpper => some 60
    | _ => none

def sampleRows : Db (Tables PriceTables) :=
  { Db.fresh (.fresh .fresh) with
    pools := OrderedTable.empty.put samplePoolId samplePoolRow
    events := (OrderedTable.empty.put 1 (sampleSwap 10 (2 ^ 96) 500)).put 2 (sampleAdd 11 40)
    lastEventId := 2
    pendingReprojection := OrderedTable.empty.put 1 ⟨10, 0, 0, .fresh⟩ }

def sampleDb : Db (Tables PriceTables) := { sampleRows with counter := fun key => sampleRows.rows key }

theorem sample_counted : Counted sampleDb := by
  constructor
  · intro key
    cases key <;> rfl
  · intro id row found
    have stored : id ∈ [1, 2] := by
      have named := List.mem_map_of_mem (f := Prod.fst) ((get_some _ _ _).mp found)
      exact named
    rcases List.mem_pair.mp stored with rfl | rfl <;> decide

def sampleStrategy : Strategy (Tables PriceTables) where
  pick _ db := db.pendingReprojection.entries.map Prod.fst
  some _ _ waiting := by simpa using waiting
  queued _ _ _ member := List.mem_toFinset.mpr member

theorem draining_ends_sample :
    ∃ calls after, drain (priceProjection sampleArithmetic) sampleStrategy calls sampleDb =
        .ok after ∧ after.pendingReprojection.entries = [] :=
  draining_ends sampleArithmetic sampleDb sample_counted sampleStrategy

end RhPools.RepricingQueue
