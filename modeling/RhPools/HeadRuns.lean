import RhPools.HeadDeliveries
import RhPools.RepricingQueue

/-! Runs of the projection: deliveries of new events in any batches and any order, deliveries of
events that were queued again, rollbacks. The head of a pool is compared with the one that the same
events make when they are delivered one by one. -/

namespace RhPools.HeadRuns
open OrderedTables MarketTables MarketStore ActivityBuckets PriceMarks LateEntries PoolHeads
  HeadSamples HeadSteps HeadLoops HeadRollbacks HeadUnwinds HeadDeliveries StoreRows CheckedSteps
  StoreLedger GuardedRuns RepricingQueue

variable (arith : Arithmetic) (pools : OrderedTable PoolId PoolRow)

abbrev HeadDb := Db (Tables PriceTables)

def catalogue : HeadDb := { Db.fresh (.fresh .fresh) with pools := pools }

def insertRows (db : HeadDb) (rows : List EventRow) : HeadDb × Delivered :=
  (rows.map fun row => { row with revision := db.revision }).foldl insertNewEvent (db, [])

def deliverRows (db : HeadDb) (rows : List EventRow) : Write HeadDb :=
  (priceProjection arith).deliver (insertRows db.nextRevision rows).1
    (inOrder (insertRows db.nextRevision rows).2)

def cutEvents (db : HeadDb) (ancestor : Int) : Write HeadDb :=
  let pending := db.pendingReprojection.remove fun _ job => ancestor < job.blockNumber
  { db with
    events := db.events.remove fun _ row => ancestor < row.place.blockNumber
    pendingReprojection := pending }.bump .pendingReprojection
      (-((db.pendingReprojection.size - pending.size : Nat) : Int))

def unwindRows (db : HeadDb) (ancestor : Int) : Write HeadDb := do
  let db ← (priceProjection arith).rollback db ancestor
  cutEvents db ancestor

inductive Action where
  | deliver (rows : List EventRow)
  | reproject (ids : List EventId)
  | rollback (ancestor : Int)

def perform (db : HeadDb) : Action → Write HeadDb
  | .deliver rows => deliverRows arith db rows
  | .reproject ids => reproject (priceProjection arith) db ids
  | .rollback ancestor => unwindRows arith db ancestor

/-- The projection over some pools. A call that raises is rolled back. -/
def prices : System HeadDb Action where
  start db := db = catalogue pools
  step db action := match perform arith db action with
    | .ok after => some after
    | .error _ => some db

/-- Order, sqrt price, tick and liquidity of the pool's row in `lp_pool_state`. -/
def headAt (db : HeadDb) (id : PoolId) : Option Head := (db.lp.rest.states.get id).map headOf

def inChainOrder (rows : List EventRow) : List EventRow :=
  rows.insertionSort fun left right => EventRow.order left ≤ EventRow.order right

def oneByOne (rows : List EventRow) : Write HeadDb :=
  rows.foldlM (fun db row => deliverRows arith db [row]) (catalogue pools)

def Folded (db : HeadDb) : Prop :=
  ∀ id pool, pools.get id = some pool → ∃ last,
    oneByOne arith pools (inChainOrder (poolRows db.events id)) = .ok last ∧
      headAt db id = headAt last id

def touched (db : HeadDb) (ids : List EventId) : HeadDb :=
  { db.nextRevision with
    eventsRevision := if (redelivered db.nextRevision ids).isEmpty then db.nextRevision.eventsRevision
      else db.nextRevision.revision
    events := db.nextRevision.events.modify fun id row =>
      if id ∈ ids then { row with revision := db.nextRevision.revision } else row }

/-- What is asked of a call: events have places of their own and fit their pools; a new one does not
come late, or the late one makes no difference there; one that comes again finds its price; and what
a rollback leaves can be rebuilt from. -/
def Settles (db : HeadDb) : Action → Prop
  | .deliver rows =>
    let stored := insertRows db.nextRevision rows
    ApartEvents stored.1.events ∧ PlainEvents arith pools stored.1.events ∧
      ∀ entry ∈ stored.2, ∀ id ∈ entry.2.terms.poolId, ∀ pool ∈ pools.get id,
        Harmless arith pool (isForward stored.1 (inOrder stored.2)) (poolRows stored.1.events id)
          (poolRows db.events id) (bare entry.2)
  | .reproject ids =>
    ∀ entry ∈ redelivered db.nextRevision ids, ∀ id ∈ entry.2.terms.poolId,
      ∀ pool ∈ pools.get id, pool.protocol = .v2 ∨
        (∃ other ∈ poolRows db.events id, EventRow.order entry.2 < EventRow.order other) ∨
          isForward (touched db ids) (redelivered db.nextRevision ids) = true ∨
            Found arith pool (poolRows db.events id) entry.2
  | .rollback ancestor =>
    ∀ entry ∈ pools.entries,
      (∃ top ∈ db.lp.rest.states.get entry.1, ancestor < top.order.block) →
        Rebuilt arith entry.2 (stayRows db.events entry.1 ancestor)

instance : (db : HeadDb) → (action : Action) → Decidable (Settles arith pools db action)
  | _, .deliver _ => inferInstanceAs (Decidable (_ ∧ _ ∧ _))
  | db, .reproject ids => inferInstanceAs (Decidable (∀ entry ∈ redelivered db.nextRevision ids,
      ∀ id ∈ entry.2.terms.poolId, ∀ pool ∈ pools.get id, _ ∨ _ ∨ _ ∨ _))
  | _, .rollback _ => inferInstanceAs (Decidable (∀ entry ∈ pools.entries, _ → _))

variable {arith} {pools}

def Keyed (events : Events) : Prop :=
  events.entries.Pairwise fun left right => samePlace left.2.place right.2.place = false

theorem insertNewEvent_keyed {Lp : Type} (state : Db Lp × Delivered) (row : EventRow)
    (keyed : Keyed state.1.events) : Keyed (insertNewEvent state row).1.events := by
  unfold insertNewEvent
  split
  · exact keyed
  · rename_i absent
    have unlike := List.find?_eq_none.mp absent
    refine List.pairwise_append.mpr ⟨keyed.filter _, List.pairwise_singleton _ _, ?_⟩
    intro entry member other last
    rw [List.mem_singleton.mp last]
    simpa using unlike entry (List.mem_filter.mp member).1

theorem insertNewEvent_joined {Lp : Type} (base : Db Lp) (state : Db Lp × Delivered) (row : EventRow)
    (inserted : Inserted base state)
    (joined : state.1.events.entries = base.events.entries ++ state.2) :
    (insertNewEvent state row).1.events.entries =
      base.events.entries ++ (insertNewEvent state row).2 := by
  unfold insertNewEvent
  split
  · exact joined
  · have fresh : state.1.events.get (state.1.lastEventId + 1) = none := by
      apply Option.eq_none_iff_forall_ne_some.mpr
      intro other found
      exact Nat.not_succ_le_self _ (inserted.issued _ other found)
    refine (entries_put_new _ _ _ fresh).trans ?_
    rw [joined, List.append_assoc]
    rfl

structure Joined (base : HeadDb) (state : HeadDb × Delivered) : Prop extends Inserted base state where
  joined : state.1.events.entries = base.events.entries ++ state.2
  keyed : Keyed state.1.events

theorem insertRows_joined (db : HeadDb) (rows : List EventRow)
    (issued : ∀ id row, db.events.get id = some row → id ≤ db.lastEventId) (keyed : Keyed db.events) :
    Joined db (insertRows db rows) := by
  unfold insertRows
  have revised : ∀ row ∈ rows.map fun row => { row with revision := db.revision },
      row.revision = db.revision := by
    intro row member
    obtain ⟨other, -, rfl⟩ := List.mem_map.mp member
    rfl
  apply List.foldlRecOn (motive := Joined db)
  · exact ⟨inserted_none db issued, (List.append_nil _).symm, keyed⟩
  · intro state joined row member
    exact ⟨insertNewEvent_inserted db state row (revised row member) joined.toInserted,
      insertNewEvent_joined db state row joined.toInserted joined.joined,
      insertNewEvent_keyed state row joined.keyed⟩

variable (arith pools) in
structure Steady (db : HeadDb) : Prop where
  pooled : db.pools = pools
  issued : ∀ id row, db.events.get id = some row → id ≤ db.lastEventId
  keyed : Keyed db.events
  sound : Sound arith pools db.events db.lp.rest

theorem catalogue_steady : Steady arith pools (catalogue pools) where
  pooled := rfl
  issued := fun _ _ absent => absurd absent (by rintro ⟨⟩)
  keyed := .nil
  sound :=
    { apart := .nil
      plain := fun _ absent => absurd absent List.not_mem_nil
      sampled :=
        { known := fun _ absent => absurd absent List.not_mem_nil
          sampled := fun _ _ _ absent => absurd absent (by rintro ⟨⟩)
          paired := fun _ absent => absurd absent List.not_mem_nil
          reserved := fun _ _ _ _ absent => absurd absent (by rintro ⟨⟩) }
      valued := fun _ _ _ _ _ absent => absurd absent (by rintro ⟨⟩)
      heads := fun _ _ _ => rfl }

theorem Told.keyed {left right : Events} (same : Told left right) (keyed : Keyed left) :
    Keyed right := by
  have places : left.entries.map (fun entry => entry.2.place) =
      right.entries.map fun entry => entry.2.place := by
    have mapped := congrArg (List.map fun entry => entry.2.place) same
    simpa only [List.map_map, Function.comp_def, bare] using mapped
  have unlike : (left.entries.map fun entry => entry.2.place).Pairwise
      fun first second => samePlace first second = false := List.pairwise_map.mpr keyed
  rw [places] at unlike
  exact List.pairwise_map.mp unlike

variable (arith) in
structure Applied (db : HeadDb) (delivered : Delivered) (after : HeadDb) : Prop where
  pooled : after.pools = db.pools
  last : after.lastEventId = db.lastEventId
  told : Told db.events after.events
  tables : after.lp.rest = (repriceEvents arith db db.lp.rest delivered).tables

theorem deliver_applied (db : HeadDb) (delivered : Delivered) :
    Meets anyhow (Applied arith db delivered)
      ((priceProjection arith).deliver db delivered) := by
  apply (deliver_projects (priceProjection arith) db delivered).mono
  rintro after ⟨pooled, ⟨rfl, same⟩ | ⟨repriced, computed, same⟩⟩
  · refine ⟨pooled, congrArg Sheet.lastEventId same, ?_, ?_⟩
    · rw [show after.events = db.events from congrArg Sheet.events same]
      rfl
    · rw [show after.lp = db.lp from congrArg Sheet.lp same]
      rfl
  · refine ⟨pooled, congrArg Sheet.lastEventId same, ?_, ?_⟩
    · rw [show after.events = _ from congrArg Sheet.events same]
      apply told_modify
      intro id row
      split <;> rfl
    · rw [show after.lp = _ from congrArg Sheet.lp same, ← Except.ok.inj computed]

theorem Applied.steady {db after : HeadDb} {delivered : Delivered}
    (applied : Applied arith db delivered after) (pooled : db.pools = pools)
    (issued : ∀ id row, db.events.get id = some row → id ≤ db.lastEventId) (keyed : Keyed db.events)
    (sound : Sound arith pools db.events (repriceEvents arith db db.lp.rest delivered).tables) :
    Steady arith pools after := by
  constructor
  · exact applied.pooled.trans pooled
  · intro id row found
    have back : Told after.events db.events := applied.told.symm
    obtain ⟨other, there, -⟩ := back.get id row found
    rw [applied.last]
    exact issued id other there
  · exact Told.keyed applied.told keyed
  · rw [applied.tables]
    exact applied.told.sound sound

theorem deliverRows_steady (db : HeadDb) (rows : List EventRow) (steady : Steady arith pools db)
    (settles : Settles arith pools db (.deliver rows)) :
    Meets anyhow (fun after => Steady arith pools after ∧
        Told (insertRows db.nextRevision rows).1.events after.events)
      (deliverRows arith db rows) := by
  obtain ⟨apart, plain, harmless⟩ := settles
  have joined := insertRows_joined db.nextRevision rows steady.issued steady.keyed
  apply (deliver_applied _ _).mono
  intro after applied
  refine ⟨?_, applied.told⟩
  have pooled : (insertRows db.nextRevision rows).1.pools = pools := by
    rw [joined.only]
    exact steady.pooled
  have tables : (insertRows db.nextRevision rows).1.lp = db.lp := by
    rw [joined.only]
    rfl
  apply applied.steady pooled joined.issued joined.keyed
  rw [tables]
  apply deliver_sound _ pooled steady.sound _ _ joined.joined (List.perm_insertionSort _ _) apart plain
  exact harmless

theorem touched_told (db : HeadDb) (ids : List EventId) : Told db.events (touched db ids).events := by
  apply told_modify
  intro id row
  split
  · rfl
  · rfl

theorem redelivered_inside (db : HeadDb) (ids : List EventId) :
    ∀ entry ∈ redelivered db.nextRevision ids, entry ∈ (touched db ids).events.entries := by
  intro entry member
  obtain ⟨old, inside, rfl⟩ := List.mem_map.mp ((mem_inOrder _ _).mp member)
  obtain ⟨stored, picked⟩ := List.mem_filter.mp inside
  refine List.mem_map.mpr ⟨old, stored, ?_⟩
  dsimp only
  rw [if_pos (of_decide_eq_true picked)]

theorem reproject_steady (db : HeadDb) (ids : List EventId) (steady : Steady arith pools db)
    (settles : Settles arith pools db (.reproject ids)) :
    Meets anyhow (Steady arith pools) (reproject (priceProjection arith) db ids) := by
  unfold reproject
  split
  · exact steady
  · have same := touched_told db ids
    apply meets_bind (Steady arith pools)
    · apply (deliver_applied (touched db ids) (redelivered db.nextRevision ids)).mono
      intro priced applied
      apply applied.steady steady.pooled
      · intro id row found
        have back : Told (touched db ids).events db.events := same.symm
        obtain ⟨other, there, -⟩ := back.get id row found
        exact steady.issued id other there
      · exact Told.keyed same steady.keyed
      · apply redeliver_sound (touched db ids) steady.pooled (same.sound steady.sound) _
          (redelivered_inside db ids)
        intro entry member id named pool known
        rw [same.rows]
        exact settles entry member id named pool known
    · intro priced steady
      have view := bump_keeps (fun db : HeadDb => (db.pools, db.events, db.lastEventId, db.lp))
        (fun _ _ => rfl) { priced with
          pendingReprojection := priced.pendingReprojection.remove fun id _ => id ∈ ids }
        .pendingReprojection (-((priced.pendingReprojection.size -
          (priced.pendingReprojection.remove fun id _ => id ∈ ids).size : Nat) : Int))
      apply view.mono
      intro after kept
      simp only [Prod.mk.injEq] at kept
      obtain ⟨pooled, events, top, tables⟩ := kept
      refine ⟨pooled.trans steady.pooled, ?_, ?_, ?_⟩
      · rw [events, top]
        exact steady.issued
      · rw [events]
        exact steady.keyed
      · rw [events, tables]
        exact steady.sound

theorem Told.remove {left right : Events} (same : Told left right) (ancestor : Int) :
    Told (left.remove fun _ row => ancestor < row.place.blockNumber)
      (right.remove fun _ row => ancestor < row.place.blockNumber) := by
  have kept := congrArg (List.filter fun entry => !decide (ancestor < entry.2.place.blockNumber)) same
  rw [List.filter_map, List.filter_map] at kept
  exact kept

theorem unwindRows_steady (db : HeadDb) (ancestor : Int) (steady : Steady arith pools db)
    (settles : Settles arith pools db (.rollback ancestor)) :
    Meets anyhow (Steady arith pools) (unwindRows arith db ancestor) := by
  have sound := unwindPrices_sound db steady.pooled steady.sound ancestor
    fun id pool known => settles (id, pool) ((get_some _ _ _).mp known)
  unfold unwindRows
  apply meets_bind fun unwound : HeadDb => unwound.pools = db.pools ∧
    unwound.lastEventId = db.lastEventId ∧ Told db.events unwound.events ∧
      unwound.lp.rest = (unwindPrices arith db db.lp.rest ancestor).tables
  · refine ⟨rfl, rfl, ?_, rfl⟩
    apply told_modify
    intro id row
    unfold Unwinding.value
    split
    · rfl
    · rfl
  · rintro unwound ⟨pooled, top, told, tables⟩
    have view := bump_keeps (fun db : HeadDb => (db.pools, db.events, db.lastEventId, db.lp))
      (fun _ _ => rfl) { unwound with
        events := unwound.events.remove fun _ row => ancestor < row.place.blockNumber
        pendingReprojection :=
          unwound.pendingReprojection.remove fun _ job => ancestor < job.blockNumber }
      .pendingReprojection (-((unwound.pendingReprojection.size -
        (unwound.pendingReprojection.remove fun _ job => ancestor < job.blockNumber).size : Nat) : Int))
    apply view.mono
    intro after kept
    simp only [Prod.mk.injEq] at kept
    obtain ⟨same, events, last, rest⟩ := kept
    have back : Told unwound.events db.events := told.symm
    refine ⟨(same.trans pooled).trans steady.pooled, ?_, ?_, ?_⟩
    · intro id row found
      rw [events, get_remove] at found
      obtain ⟨other, there, -⟩ := back.get id row (Option.filter_eq_some_iff.mp found).1
      rw [last, top]
      exact steady.issued id other there
    · rw [events]
      exact (Told.keyed told steady.keyed).filter _
    · rw [events, rest, tables]
      exact (Told.remove told ancestor).sound sound

theorem perform_steady (db : HeadDb) (action : Action) (steady : Steady arith pools db)
    (settles : Settles arith pools db action) :
    Meets anyhow (Steady arith pools) (perform arith db action) := by
  cases action with
  | deliver rows => exact (deliverRows_steady db rows steady settles).mono fun _ both => both.1
  | reproject ids => exact reproject_steady db ids steady settles
  | rollback ancestor => exact unwindRows_steady db ancestor steady settles

variable (arith) in
theorem deliver_returns (db : HeadDb) (delivered : Delivered)
    (forward : isForward db delivered = true) :
    ∃ after, (priceProjection arith).deliver db delivered = .ok after := by
  unfold PriceProjection.deliver
  split
  · exact ⟨db, rfl⟩
  · have unqueued : (repriceEvents arith db db.lp.rest delivered).successors = [] := by
      simp [repriceEvents, forward]
    have computed : (priceProjection arith).reprice db delivered = .ok
        { valuation := (repriceEvents arith db db.lp.rest delivered).valuation
          successors := (repriceEvents arith db db.lp.rest delivered).successors
          gas := (repriceEvents arith db db.lp.rest delivered).gas
          tables :=
            { writeBuckets (valuedEvents db delivered
                (repriceEvents arith db db.lp.rest delivered).valuation) db.lp
                  (touchedMinutes db delivered) with
              rest := (repriceEvents arith db db.lp.rest delivered).tables } } := rfl
    unfold PriceProjection.apply
    rw [computed]
    dsimp only
    rw [unqueued]
    exact ⟨_, rfl⟩

theorem insertRows_one (db : HeadDb) (row : EventRow)
    (unlike : ∀ entry ∈ db.events.entries, samePlace entry.2.place row.place = false) :
    (insertRows db [row]).2 = [(db.lastEventId + 1, { row with revision := db.revision })] := by
  have absent : findEvent db row.place = none := by
    apply List.find?_eq_none.mpr
    intro entry member
    simpa using unlike entry member
  simp only [insertRows, List.map_cons, List.map_nil, List.foldl_cons, List.foldl_nil, insertNewEvent,
    absent]
  rfl

theorem forward_newest (db : HeadDb) (id : EventId) (row : EventRow)
    (newest : ∀ entry ∈ db.events.entries, entry.2.revision ≠ row.revision →
      EventRow.order entry.2 < EventRow.order row) : isForward db (inOrder [(id, row)]) = true := by
  have first : (inPriceOrder (inOrder [(id, row)])).head? = some (id, row) := rfl
  have revised : deliveredRevision (inOrder [(id, row)]) = some row.revision := rfl
  unfold isForward
  rw [first, revised]
  cases prior : priorOrder db.events (some row.revision) with
  | none => rfl
  | some order =>
    obtain ⟨best, picked, rfl⟩ := Option.map_eq_some_iff.mp prior
    obtain ⟨stored, other⟩ := List.mem_filter.mp (List.argmax_mem picked)
    obtain ⟨entry, member, rfl⟩ := List.mem_map.mp stored
    apply decide_eq_true
    apply newest entry member
    intro same
    rw [same] at other
    simp at other

def reported (db : HeadDb) : List EventRow := db.events.entries.map fun entry => bare entry.2

theorem deliver_one (db : HeadDb) (row : EventRow) (steady : Steady arith pools db)
    (unlike : ∀ entry ∈ db.events.entries, samePlace entry.2.place row.place = false)
    (newest : ∀ entry ∈ db.events.entries, EventRow.order entry.2 < EventRow.order row)
    (plain : ∀ id ∈ row.terms.poolId, ∀ pool ∈ pools.get id, Plain arith pool row) :
    ∃ after, deliverRows arith db [row] = .ok after ∧ Steady arith pools after ∧
      reported after = reported db ++ [bare row] := by
  have joined := insertRows_joined db.nextRevision [row] steady.issued steady.keyed
  have inserted := insertRows_one db.nextRevision row unlike
  have entries : (insertRows db.nextRevision [row]).1.events.entries = db.events.entries ++
      [(db.lastEventId + 1, { row with revision := db.revision + 1 })] := by
    rw [joined.joined, inserted]
    rfl
  have forward : isForward (insertRows db.nextRevision [row]).1
      (inOrder (insertRows db.nextRevision [row]).2) = true := by
    rw [inserted]
    apply forward_newest
    intro entry member other
    rw [entries] at member
    rcases List.mem_append.mp member with old | new
    · exact newest entry old
    · rw [List.mem_singleton.mp new] at other
      exact absurd rfl other
  have settles : Settles arith pools db (.deliver [row]) := by
    refine ⟨?_, ?_, ?_⟩
    · rw [ApartEvents, entries]
      refine List.pairwise_append.mpr ⟨steady.sound.apart, List.pairwise_singleton _ _, ?_⟩
      intro entry member other last
      rw [List.mem_singleton.mp last]
      exact (newest entry member).ne
    · intro entry member id named pool known
      rw [entries] at member
      rcases List.mem_append.mp member with old | new
      · exact steady.sound.plain entry old id named pool known
      · rw [List.mem_singleton.mp new] at named ⊢
        exact plain id named pool known
    · intro entry member id _ pool _
      refine .inl ⟨.inl ?_, .inl forward⟩
      rw [inserted] at member
      intro other there
      obtain ⟨old, stored, rfl, -⟩ := (mem_poolRows _ _ _).mp there
      rw [List.mem_singleton.mp member]
      exact newest old stored
  obtain ⟨after, returned⟩ := deliver_returns arith _ _ forward
  obtain ⟨still, told⟩ := (deliverRows_steady db [row] steady settles).value returned
  refine ⟨after, returned, still, ?_⟩
  have rows := congrArg (List.map Prod.snd) told
  simp only [List.map_map, Function.comp_def, entries, List.map_append] at rows
  exact rows.symm

theorem deliver_each (rows : List EventRow) (db : HeadDb) (steady : Steady arith pools db)
    (sorted : rows.Pairwise fun left right => EventRow.order left < EventRow.order right)
    (unlike : rows.Pairwise fun left right => samePlace left.place right.place = false)
    (newest : ∀ other ∈ reported db, ∀ row ∈ rows, EventRow.order other < EventRow.order row)
    (apart : ∀ other ∈ reported db, ∀ row ∈ rows, samePlace other.place row.place = false)
    (plain : ∀ row ∈ rows, ∀ id ∈ row.terms.poolId, ∀ pool ∈ pools.get id, Plain arith pool row) :
    ∃ last, rows.foldlM (fun db row => deliverRows arith db [row]) db = .ok last ∧
      Steady arith pools last ∧ reported last = reported db ++ rows.map bare := by
  induction rows generalizing db with
  | nil => exact ⟨db, rfl, steady, (List.append_nil _).symm⟩
  | cons row rest ih =>
    obtain ⟨after, sorted⟩ := List.pairwise_cons.mp sorted
    obtain ⟨others, unlike⟩ := List.pairwise_cons.mp unlike
    obtain ⟨next, returned, still, grown⟩ := deliver_one db row steady
      (fun entry member => apart (bare entry.2) (List.mem_map_of_mem member) row
        List.mem_cons_self)
      (fun entry member => newest (bare entry.2) (List.mem_map_of_mem member) row
        List.mem_cons_self)
      (plain row List.mem_cons_self)
    have known : ∀ other ∈ reported next, other ∈ reported db ∨ other = bare row := by
      intro other member
      rw [grown] at member
      exact (List.mem_append.mp member).imp_right List.mem_singleton.mp
    obtain ⟨last, ran, steady, rows⟩ := ih next still sorted unlike
      (by
        intro other member later inside
        rcases known other member with old | rfl
        · exact newest other old later (List.mem_cons_of_mem row inside)
        · exact after later inside)
      (by
        intro other member later inside
        rcases known other member with old | rfl
        · exact apart other old later (List.mem_cons_of_mem row inside)
        · exact others later inside)
      fun later inside => plain later (List.mem_cons_of_mem row inside)
    refine ⟨last, ?_, steady, ?_⟩
    · rw [List.foldlM_cons, returned]
      exact ran
    · rw [rows, grown, List.append_assoc]
      rfl

theorem samePlace_symm (left right : Place) : samePlace left right = samePlace right left := by
  simp only [samePlace, eq_comm]

theorem oneByOne_head (db : HeadDb) (steady : Steady arith pools db) (id : PoolId) (pool : PoolRow)
    (known : pools.get id = some pool) : ∃ last,
      oneByOne arith pools (inChainOrder (poolRows db.events id)) = .ok last ∧
        headAt last id = (poolLog arith pool).history (poolRows db.events id) := by
  have apart : Apart (poolRows db.events id) := steady.sound.apart.rows id
  have whole : (poolLog arith pool).Distinct (poolRows db.events id) := apart
  have ordered : (poolLog arith pool).Sorted (inChainOrder (poolRows db.events id)) :=
    sort_sorted _ whole
  have inside : ∀ row, row ∈ inChainOrder (poolRows db.events id) ↔ row ∈ poolRows db.events id :=
    fun row => List.mem_insertionSort _
  have unlike : (poolRows db.events id).Pairwise fun left right =>
      samePlace left.place right.place = false :=
    List.Pairwise.filter _ (List.pairwise_map.mpr steady.keyed)
  obtain ⟨last, ran, still, rows⟩ := deliver_each (inChainOrder (poolRows db.events id))
    (catalogue pools) catalogue_steady ordered
    ((List.Perm.pairwise_iff (fun apart => (samePlace_symm _ _).trans apart)
      (List.perm_insertionSort _ _)).mpr unlike)
    (fun _ absent => absurd absent List.not_mem_nil)
    (fun _ absent => absurd absent List.not_mem_nil)
    (by
      intro row member other named home found
      obtain ⟨entry, stored, rfl, -⟩ := (mem_poolRows _ _ _).mp ((inside row).mp member)
      exact steady.sound.plain entry stored other named home found)
  refine ⟨last, ran, ?_⟩
  rw [headAt, still.sound.heads id pool known]
  have distinct : (poolLog arith pool).Distinct (poolRows last.events id) :=
    still.sound.apart.rows id
  apply history_congr distinct whole
  intro row
  have listed : row ∈ poolRows last.events id ↔
      row ∈ reported last ∧ row.terms.poolId = some id := by
    rw [poolRows, List.mem_filter, decide_eq_true_eq]
    rfl
  rw [listed, rows]
  constructor
  · rintro ⟨member, -⟩
    obtain ⟨other, there, rfl⟩ := List.mem_map.mp ((List.mem_append.mp member).resolve_left
      List.not_mem_nil)
    have stored := (inside other).mp there
    obtain ⟨entry, -, rfl, -⟩ := (mem_poolRows _ _ _).mp stored
    exact stored
  · intro member
    obtain ⟨entry, -, rfl, named⟩ := (mem_poolRows _ _ _).mp member
    refine ⟨List.mem_append_right _ ?_, named⟩
    exact List.mem_map.mpr ⟨bare entry.2, (inside _).mpr member, rfl⟩

/-- In a run whose calls settle, every head is the one its events make one by one, before the queue
is drained as after. -/
theorem heads_folded (arith : Arithmetic) (pools : OrderedTable PoolId PoolRow) (db : HeadDb)
    (reached : (prices arith pools).Reaches (Settles arith pools) db) : Folded arith pools db := by
  have steady : Steady arith pools db := by
    apply reached.invariant (Steady arith pools)
    · rintro state rfl
      exact catalogue_steady
    · intro state action next steady settles taken
      simp only [prices] at taken
      have kept := perform_steady state action steady settles
      split at taken
      · rename_i after returned
        rw [returned] at kept
        exact Option.some.inj taken ▸ kept
      · exact Option.some.inj taken ▸ steady
  intro id pool known
  obtain ⟨last, ran, same⟩ := oneByOne_head db steady id pool known
  exact ⟨last, ran, (steady.sound.heads id pool known).trans same.symm⟩

def samplePools : OrderedTable PoolId PoolRow := OrderedTable.empty.put samplePoolId samplePoolRow

/-- A late add, before a swap that reports everything; then the swap is rolled back. -/
def coveredAdd : List Action :=
  [.deliver [sampleSwap 1 (2 ^ 96) 100], .deliver [sampleSwap 3 (2 ^ 97) 200],
    .deliver [sampleAdd 2 10], .rollback 2]

theorem coveredAdd_settles : (prices sampleArithmetic samplePools).runMeets
    (Settles sampleArithmetic samplePools) (catalogue samplePools) coveredAdd := by
  decide +kernel

theorem heads_folded_coveredAdd : ∃ db,
    (prices sampleArithmetic samplePools).run (catalogue samplePools) coveredAdd = some db ∧
      headAt db samplePoolId = some ⟨toLex (2, toLex (0, 0)), some (2 ^ 96), some 0, some 110⟩ ∧
        Folded sampleArithmetic samplePools db := by
  have head : ((prices sampleArithmetic samplePools).run (catalogue samplePools) coveredAdd).map
      (headAt · samplePoolId) =
        some (some ⟨toLex (2, toLex (0, 0)), some (2 ^ 96), some 0, some 110⟩) := by
    decide +kernel
  obtain ⟨db, ran, same⟩ := Option.map_eq_some_iff.mp head
  refine ⟨db, ran, same, heads_folded sampleArithmetic samplePools db ?_⟩
  exact (System.Reaches.start _ rfl).run _ _ coveredAdd coveredAdd_settles ran

def lateSwap : List Action :=
  [.deliver [sampleSwap 1 (2 ^ 96) 100], .deliver [sampleAdd 2 10], .deliver [sampleAdd 4 10],
    .deliver [sampleSwap 3 (2 ^ 97) 200], .reproject [3]]

def bothHeads (db : HeadDb) : Option Head × Option (Option Head) :=
  (headAt db samplePoolId,
    (oneByOne sampleArithmetic samplePools
      (inChainOrder (poolRows db.events samplePoolId))).toOption.map (headAt · samplePoolId))

/-- Pricing the add once more leaves the liquidity from before the swap, and its price. -/
theorem lateSwap_unfolded : ¬∀ arith pools db, (prices arith pools).Reaches always db →
    db.pendingReprojection.entries = [] → Folded arith pools db := by
  have heads : ((prices sampleArithmetic samplePools).run (catalogue samplePools) lateSwap).map
      (fun db => (db.pendingReprojection.size, bothHeads db)) =
        some (0, some ⟨toLex (4, toLex (0, 0)), some (2 ^ 96), some 0, some 120⟩,
          some (some ⟨toLex (4, toLex (0, 0)), some (2 ^ 97), some 0, some 210⟩)) := by
    decide +kernel
  obtain ⟨db, ran, same⟩ := Option.map_eq_some_iff.mp heads
  simp only [bothHeads, Prod.mk.injEq] at same
  obtain ⟨drained, here, there⟩ := same
  intro folds
  have start : (prices sampleArithmetic samplePools).Reaches always (catalogue samplePools) :=
    .start _ rfl
  have reached := start.run _ _ lateSwap (System.runMeets_always _ _) ran
  obtain ⟨last, returned, equal⟩ := folds sampleArithmetic samplePools db reached
    (List.length_eq_zero_iff.mp drained) samplePoolId samplePoolRow rfl
  rw [returned] at there
  have other : headAt last samplePoolId = some _ := Option.some.inj there
  rw [here, other] at equal
  exact absurd equal (by decide)

end RhPools.HeadRuns
