import RhPools.HeadRollbacks

/-! A rollback unwinds one pool after the other, then the events above the ancestor go. What is
left is sound again: samples, states and heads are those of the survivors. -/

namespace RhPools.HeadUnwinds
open OrderedTables MarketTables MarketStore ActivityBuckets PriceMarks LateEntries PoolHeads
  HeadSamples HeadSteps HeadLoops HeadRollbacks

variable {arith : Arithmetic} {events : Events} {pools : OrderedTable PoolId PoolRow}

def PlainEvents (arith : Arithmetic) (pools : OrderedTable PoolId PoolRow) (events : Events) : Prop :=
  ∀ entry ∈ events.entries, ∀ id ∈ entry.2.terms.poolId, ∀ pool ∈ pools.get id,
    Plain arith pool entry.2

instance : Decidable (PlainEvents arith pools events) :=
  inferInstanceAs (Decidable (∀ entry ∈ events.entries, ∀ id ∈ entry.2.terms.poolId,
    ∀ pool ∈ pools.get id, Plain arith pool entry.2))

def Valued (pools : OrderedTable PoolId PoolRow) (states : PoolId → Option PoolState) : Prop :=
  ∀ id pool, pools.get id = some pool → pool.protocol = .v2 →
    ∀ top ∈ states id, headOf top = ⟨top.order, none, none, none⟩ ∧ top.price.isSome

def Low (ancestor : Int) (tables : PriceTables) : Prop :=
  (∀ entry ∈ tables.samples.entries, entry.2.order.block ≤ ancestor) ∧
    ∀ entry ∈ tables.reserveSamples.entries, entry.2.order.block ≤ ancestor

theorem writeState_valued (event : Known) (known : pools.get event.poolId = some event.pool)
    (plain : Plain arith event.pool event.row) (ratio : Ratio)
    (unpriced : event.pool.protocol = .v2 → ratio.sqrt = none) (valuation : Valuation)
    (states : OrderedTable PoolId PoolState) (valued : Valued pools states.get) :
    Valued pools (writeState arith event ratio valuation states).get := by
  intro id pool there v2
  rw [writeState_get]
  split
  · rename_i same
    subst same
    obtain rfl : event.pool = pool := Option.some.inj (known.symm.trans there)
    exact newState_sound event ratio valuation _ v2 plain (unpriced v2) (valued _ _ known v2)
  · exact valued id pool there v2

theorem price_base (event : Known) (listed : Listed arith events pools event)
    (oldAnchor : Option (ℚ × String)) (tables : PriceTables) (above : List EventId) (ancestor : Int)
    (sampled : Sampled arith events pools above tables.samples tables.reserveSamples)
    (low : Low ancestor tables) (under : event.order.block ≤ ancestor) :
    Sampled arith events pools above
        (price arith events false oldAnchor (Pass.start tables []) event).pass.tables.samples
        (price arith events false oldAnchor (Pass.start tables []) event).pass.tables.reserveSamples ∧
      Low ancestor (price arith events false oldAnchor (Pass.start tables []) event).pass.tables ∧
        (price arith events false oldAnchor (Pass.start tables []) event).pass.tables.states =
          tables.states := by
  have rest := price_rest arith events false oldAnchor (Pass.start tables []) event
  generalize (price arith events false oldAnchor (Pass.start tables []) event).pass = pass at rest ⊢
  generalize made : roundRatio arith events false (Pass.start tables []) event = ratio at rest
  obtain ⟨buffered, samples, reserves⟩ := @addSamples_table false tables
    (restOf (Pass.start tables [])) ⟨rfl, rfl⟩ event ratio.ratio
  have states := @addSamples_states false (restOf (Pass.start tables [])) event ratio.ratio
  rw [← rest] at buffered samples reserves states
  have empty : (restOf pass).sampleRows = [] ∧ (restOf pass).reserveRows = [] := by
    simpa [Buffered] using buffered
  rw [show (restOf pass).sampleTable = pass.tables.samples from
    congrArg pass.tables.samples.putAll empty.1] at samples
  rw [show (restOf pass).reserveTable = pass.tables.reserveSamples from
    congrArg pass.tables.reserveSamples.putAll empty.2] at reserves
  refine ⟨?_, ⟨?_, ?_⟩, states⟩
  · have own : ∀ pair, event.pool.protocol = .v2 → EventRow.reserves event.row = some pair →
        ratio.ratio = arith.reserveRatio event.pool pair.1 pair.2 := by
      intro pair v2 own
      simp [← made, roundRatio, ratioOf, v2, own]
    have put := Sampled.put event listed ratio.ratio own
      (sampled.mono fun id waits => List.mem_cons_of_mem event.id waits)
    rw [samples, reserves]
    exact put
  · intro entry member
    rw [samples] at member
    cases sample : sampleOf event ratio.ratio with
    | none =>
      rw [sample] at member
      exact low.1 entry member
    | some new =>
      rw [sample] at member
      rcases (mem_put _ _ _ _).mp member with ⟨old, -⟩ | rfl
      · exact low.1 entry old
      · obtain ⟨sqrt, -, rfl⟩ := Option.map_eq_some_iff.mp sample
        exact under
  · intro entry member
    rw [reserves] at member
    cases sample : reservesOf event ratio.ratio with
    | none =>
      rw [sample] at member
      exact low.2 entry member
    | some new =>
      rw [sample] at member
      rcases (mem_put _ _ _ _).mp member with ⟨old, -⟩ | rfl
      · exact low.2 entry old
      · obtain ⟨pair, -, rfl⟩ := Option.map_eq_some_iff.mp sample
        exact under

structure Unwinds (arith : Arithmetic) (events : Events) (pools : OrderedTable PoolId PoolRow)
    (ancestor : Int) (above : List EventId) (tables : PriceTables) : Prop where
  sampled : Sampled arith events pools above tables.samples tables.reserveSamples
  low : Low ancestor tables
  valued : Valued pools tables.states.get

section Unwind

variable (apart : ApartEvents events) (plain : PlainEvents arith pools events) (ancestor : Int)
  (above : List EventId)
  (gone : ∀ entry ∈ events.entries, entry.1 ∈ above → ancestor < entry.2.place.blockNumber)

include apart plain gone

theorem unwindPool_step (id : PoolId) (pool : PoolRow) (known : pools.get id = some pool)
    (rebuilt : Rebuilt arith pool (stayRows events id ancestor)) (unwound : Unwound)
    (unwinds : Unwinds arith events pools ancestor above unwound.tables)
    (cleared : unwound.tables.states.get id = none) :
    Unwinds arith events pools ancestor above
        (unwindPool arith pools events ancestor unwound id).tables ∧
      ∀ other, ((unwindPool arith pools events ancestor unwound id).tables.states.get other).map
          headOf = if other = id then (poolLog arith pool).history (stayRows events id ancestor)
        else (unwound.tables.states.get other).map headOf := by
  unfold unwindPool
  dsimp only
  rw [known]
  cases last : ((survivors events id ancestor).filter fun event => rebuilds event.2).getLast? with
  | none =>
    dsimp only
    refine ⟨unwinds, ?_⟩
    intro other
    split
    · rename_i same
      rw [same, cleared]
      -- Without a base no survivor brings a price.
      have empty := List.getLast?_eq_none_iff.mp last
      rcases rebuilt with closed | ⟨row, member, brings, -⟩
      · exact (history_unopened _ ((apart.rows id).filter _) closed).symm
      · obtain ⟨entry, inside, rfl⟩ := (mem_stayRows id ancestor row).mp member
        have listed : entry ∈ (survivors events id ancestor).filter fun event => rebuilds event.2 :=
          List.mem_filter.mpr ⟨inside, brings⟩
        rw [empty] at listed
        exact absurd listed List.not_mem_nil
    · rfl
  | some base =>
    dsimp only
    obtain ⟨there, -, -⟩ := base_survives apart id ancestor base last
    have own : ∀ entry ∈ survivors events id ancestor, Plain arith pool entry.2 := by
      intro entry member
      obtain ⟨stored, pooled, -⟩ := (mem_survivors id ancestor entry).mp member
      exact plain entry stored id pooled pool known
    obtain ⟨stored, pooled, under⟩ := (mem_survivors id ancestor base).mp there
    have listed : Listed arith events pools ⟨base.1, base.2, id, pool⟩ :=
      ⟨(get_some _ _ _).mpr stored, pooled, known, own base there⟩
    obtain ⟨sampled, low, states⟩ := price_base ⟨base.1, base.2, id, pool⟩ listed
      (oldAnchor unwound.tables ⟨base.1, base.2, id, pool⟩) unwound.tables above ancestor
      unwinds.sampled unwinds.low under
    have unpriced : pool.protocol = .v2 →
        (ratioOf arith events unwound.tables none id pool base.2).sqrt = none := by
      intro v2
      exact (ratioOf_pair _ _ _ _ v2).trans (own base there v2).1
    refine ⟨⟨sampled, low, ?_⟩, ?_⟩
    · rw [states]
      apply List.foldlRecOn (motive := fun states : OrderedTable PoolId PoolState =>
        Valued pools states.get)
      · exact writeState_valued ⟨base.1, base.2, id, pool⟩ known (own base there) _ unpriced _ _
          unwinds.valued
      · intro states valued entry member
        have inside := (List.mem_filter.mp member).1
        exact writeState_valued ⟨entry.1, entry.2, id, pool⟩ known (own entry inside) _ unpriced _ _
          valued
    · intro other
      rw [foldl_writeState, writeState_head, if_pos rfl, states, cleared]
      split
      · exact rebuilt_head apart id pool known ancestor unwound.tables above unwinds.sampled gone own
          base last rebuilt
      · rename_i unlike
        rw [writeState_head, if_neg unlike]

theorem unwindPools (affected : List PoolId) (nodup : affected.Nodup)
    (rebuilt : ∀ id ∈ affected, ∀ pool, pools.get id = some pool →
      Rebuilt arith pool (stayRows events id ancestor)) (unwound : Unwound)
    (unwinds : Unwinds arith events pools ancestor above unwound.tables)
    (cleared : ∀ id ∈ affected, unwound.tables.states.get id = none) :
    Unwinds arith events pools ancestor above
        (affected.foldl (unwindPool arith pools events ancestor) unwound).tables ∧
      ∀ id pool, pools.get id = some pool →
        ((affected.foldl (unwindPool arith pools events ancestor) unwound).tables.states.get id).map
            headOf = if id ∈ affected then (poolLog arith pool).history (stayRows events id ancestor)
          else (unwound.tables.states.get id).map headOf := by
  induction affected generalizing unwound with
  | nil => exact ⟨unwinds, fun id pool _ => rfl⟩
  | cons id rest ih =>
    obtain ⟨fresh, nodup⟩ := List.nodup_cons.mp nodup
    have later := fun other member => rebuilt other (List.mem_cons_of_mem id member)
    cases known : pools.get id with
    | none =>
      have same : unwindPool arith pools events ancestor unwound id = unwound := by
        unfold unwindPool
        dsimp only
        rw [known]
        split
        · rename_i there
          cases there
        · rfl
      rw [List.foldl_cons, same]
      obtain ⟨unwinds, heads⟩ := ih nodup later unwound unwinds fun other member =>
        cleared other (List.mem_cons_of_mem id member)
      refine ⟨unwinds, ?_⟩
      intro other pool there
      rw [heads other pool there]
      have unlike : other ≠ id := by
        rintro rfl
        rw [known] at there
        cases there
      simp [unlike]
    | some pool =>
      obtain ⟨unwinds, heads⟩ := unwindPool_step apart plain ancestor above gone id pool known
        (rebuilt id List.mem_cons_self pool known) unwound unwinds (cleared id List.mem_cons_self)
      have empty : ∀ other ∈ rest,
          (unwindPool arith pools events ancestor unwound id).tables.states.get other = none := by
        intro other member
        have unlike : other ≠ id := by
          rintro rfl
          exact fresh member
        have same := heads other
        rw [if_neg unlike, cleared other (List.mem_cons_of_mem id member)] at same
        exact Option.map_eq_none_iff.mp same
      obtain ⟨unwinds, others⟩ := ih nodup later _ unwinds empty
      refine ⟨unwinds, ?_⟩
      intro other home there
      rw [List.foldl_cons, others other home there, heads other]
      by_cases same : other = id
      · subst same
        obtain rfl : pool = home := Option.some.inj (known.symm.trans there)
        simp [fresh]
      · simp [same]

end Unwind

/-- What holds of the events and the tables of prices between two calls. -/
structure Sound (arith : Arithmetic) (pools : OrderedTable PoolId PoolRow) (events : Events)
    (tables : PriceTables) : Prop where
  apart : ApartEvents events
  plain : PlainEvents arith pools events
  sampled : Sampled arith events pools [] tables.samples tables.reserveSamples
  valued : Valued pools tables.states.get
  heads : ∀ id pool, pools.get id = some pool →
    (tables.states.get id).map headOf = (poolLog arith pool).history (poolRows events id)

def aboveIds (events : Events) (ancestor : Int) : List EventId :=
  (events.entries.filter fun entry => ancestor < entry.2.place.blockNumber).map Prod.fst

theorem aboveIds_gone (ancestor : Int) : ∀ entry ∈ events.entries,
    entry.1 ∈ aboveIds events ancestor → ancestor < entry.2.place.blockNumber := by
  intro entry member above
  obtain ⟨other, inside, same⟩ := List.mem_map.mp above
  obtain ⟨stored, high⟩ := List.mem_filter.mp inside
  have first := (get_some events entry.1 entry.2).mpr member
  have second := (get_some events other.1 other.2).mpr stored
  rw [same, first] at second
  rw [Option.some.inj second]
  exact of_decide_eq_true high

theorem aboveIds_stays (ancestor : Int) (id : EventId) (row : EventRow)
    (found : events.get id = some row) (stays : id ∉ aboveIds events ancestor) :
    row.place.blockNumber ≤ ancestor := by
  by_contra high
  exact stays (List.mem_map.mpr ⟨(id, row), List.mem_filter.mpr
    ⟨(get_some _ _ _).mp found, decide_eq_true (not_le.mp high)⟩, rfl⟩)

variable {tables : PriceTables}

theorem cut_unwinds (sound : Sound arith pools events tables) (ancestor : Int) :
    Unwinds arith events pools ancestor (aboveIds events ancestor) (tables.cut ancestor) := by
  have sampled := sound.sampled
  constructor
  · constructor
    · intro entry member
      exact sampled.known entry (List.mem_filter.mp member).1
    · intro id row poolId found pooled known priced stays
      obtain ⟨sample, there⟩ := Option.isSome_iff_exists.mp
        (sampled.sampled id row poolId found pooled known priced List.not_mem_nil)
      obtain ⟨other, same, -, placed, -⟩ := sampled.known (id, sample) ((get_some _ _ _).mp there)
      obtain rfl : row = other := Option.some.inj (found.symm.trans same)
      have under : sample.order.block ≤ ancestor :=
        placed ▸ aboveIds_stays ancestor id row found stays
      simp [PriceTables.cut, get_remove, there, under]
    · intro entry member
      exact sampled.paired entry (List.mem_filter.mp member).1
    · intro id row poolId pool found pooled known v2 priced stays
      obtain ⟨sample, there⟩ := Option.isSome_iff_exists.mp
        (sampled.reserved id row poolId pool found pooled known v2 priced List.not_mem_nil)
      obtain ⟨other, _, same, -, -, placed, -⟩ :=
        sampled.paired (id, sample) ((get_some _ _ _).mp there)
      obtain rfl : row = other := Option.some.inj (found.symm.trans same)
      have under : sample.order.block ≤ ancestor :=
        placed ▸ aboveIds_stays ancestor id row found stays
      simp [PriceTables.cut, get_remove, there, under]
  · constructor
    · intro entry member
      simpa using (List.mem_filter.mp member).2
    · intro entry member
      simpa using (List.mem_filter.mp member).2
  · intro id pool known v2 top member
    rw [PriceTables.cut, get_remove] at member
    exact sound.valued id pool known v2 top (Option.filter_eq_some_iff.mp member).1

theorem Unwinds.sampled_after {ancestor : Int}
    (unwinds : Unwinds arith events pools ancestor (aboveIds events ancestor) tables) :
    Sampled arith (events.remove fun _ row => ancestor < row.place.blockNumber) pools []
      tables.samples tables.reserveSamples := by
  have stays : ∀ id row, events.get id = some row → row.place.blockNumber ≤ ancestor →
      (events.remove fun _ row => ancestor < row.place.blockNumber).get id = some row := by
    intro id row found low
    simp [get_remove, found, low]
  have stayed : ∀ id row,
      (events.remove fun _ row => ancestor < row.place.blockNumber).get id = some row →
        events.get id = some row ∧ id ∉ aboveIds events ancestor := by
    intro id row found
    rw [get_remove] at found
    obtain ⟨there, low⟩ := Option.filter_eq_some_iff.mp found
    refine ⟨there, fun above => ?_⟩
    have high := aboveIds_gone ancestor (id, row) ((get_some _ _ _).mp there) above
    simp only [Bool.not_eq_true', decide_eq_false_iff_not, not_lt] at low
    exact absurd high low.not_gt
  constructor
  · intro entry member
    obtain ⟨row, found, pooled, placed, priced⟩ := unwinds.sampled.known entry member
    have low : row.place.blockNumber ≤ ancestor := by
      have under := unwinds.low.1 entry member
      rw [← placed] at under
      exact under
    exact ⟨row, stays _ row found low, pooled, placed, priced⟩
  · intro id row poolId found pooled known priced _
    obtain ⟨there, under⟩ := stayed id row found
    exact unwinds.sampled.sampled id row poolId there pooled known priced under
  · intro entry member
    obtain ⟨row, pool, found, pooled, known, placed, rest⟩ := unwinds.sampled.paired entry member
    have low : row.place.blockNumber ≤ ancestor := by
      have under := unwinds.low.2 entry member
      rw [← placed] at under
      exact under
    exact ⟨row, pool, stays _ row found low, pooled, known, placed, rest⟩
  · intro id row poolId pool found pooled known v2 priced _
    obtain ⟨there, under⟩ := stayed id row found
    exact unwinds.sampled.reserved id row poolId pool there pooled known v2 priced under

theorem poolRows_remove (id : PoolId) (ancestor : Int) :
    poolRows (events.remove fun _ row => ancestor < row.place.blockNumber) id =
      stayRows events id ancestor := by
  have same : (events.remove fun _ row => ancestor < row.place.blockNumber).entries =
      events.entries.filter fun entry => !decide (ancestor < entry.2.place.blockNumber) := rfl
  rw [poolRows, stayRows, poolRows, same, List.filter_map, List.filter_map, List.filter_map,
    List.filter_filter, List.filter_filter]
  congr 1
  apply List.filter_congr
  intro entry _
  have low : (!decide (ancestor < entry.2.place.blockNumber)) =
      decide (entry.2.place.blockNumber ≤ ancestor) := by
    rw [← decide_not, decide_eq_decide, not_lt]
  rw [low, Bool.and_comm]
  rfl

theorem history_stays (apart : ApartEvents events) (id : PoolId) (pool : PoolRow) (ancestor : Int)
    (low : ∀ head ∈ (poolLog arith pool).history (poolRows events id), head.order.block ≤ ancestor) :
    (poolLog arith pool).history (stayRows events id ancestor) =
      (poolLog arith pool).history (poolRows events id) := by
  have whole : (poolLog arith pool).Distinct (poolRows events id) := apart.rows id
  apply history_filter _ whole
  · intro left _ right _ stays goes
    have under : left.place.blockNumber ≤ ancestor := of_decide_eq_true stays
    have above : ¬right.place.blockNumber ≤ ancestor := of_decide_eq_false goes
    apply not_le.mp
    intro before
    exact above ((block_le before).trans under)
  · intro row _ goes reached
    cases folded : (poolLog arith pool).history (poolRows events id) with
    | none =>
      rw [folded] at reached
      cases reached
    | some head =>
      rw [folded] at reached
      have same : head.order = EventRow.order row := WithBot.coe_inj.mp reached
      have above : ¬row.place.blockNumber ≤ ancestor := of_decide_eq_false goes
      apply above
      have under := low head folded
      rw [same] at under
      exact under

theorem unwindPrices_sound {Lp : Type} (db : Db Lp) (pooled : db.pools = pools)
    (sound : Sound arith pools db.events tables) (ancestor : Int)
    (rebuilt : ∀ id pool, pools.get id = some pool →
      (∃ top ∈ tables.states.get id, ancestor < top.order.block) →
        Rebuilt arith pool (stayRows db.events id ancestor)) :
    Sound arith pools (db.events.remove fun _ row => ancestor < row.place.blockNumber)
      (unwindPrices arith db tables ancestor).tables := by
  let affected := (tables.states.entries.filter fun entry =>
    ancestor < entry.2.order.block).map Prod.fst
  have mem_affected : ∀ id, id ∈ affected ↔
      ∃ top ∈ tables.states.get id, ancestor < top.order.block := by
    intro id
    constructor
    · intro member
      obtain ⟨entry, inside, rfl⟩ := List.mem_map.mp member
      obtain ⟨stored, high⟩ := List.mem_filter.mp inside
      exact ⟨entry.2, (get_some _ _ _).mpr stored, of_decide_eq_true high⟩
    · rintro ⟨top, found, high⟩
      exact List.mem_map.mpr ⟨(id, top), List.mem_filter.mpr
        ⟨(get_some _ _ _).mp found, decide_eq_true high⟩, rfl⟩
  have nodup : affected.Nodup := tables.states.distinct.sublist
    (List.filter_sublist.map Prod.fst)
  have cleared : ∀ id ∈ affected, (tables.cut ancestor).states.get id = none := by
    intro id member
    obtain ⟨top, found, high⟩ := (mem_affected id).mp member
    have there : tables.states.get id = some top := found
    simp [PriceTables.cut, get_remove, there, high]
  obtain ⟨unwinds, heads⟩ := unwindPools sound.apart sound.plain ancestor (aboveIds db.events ancestor)
    (aboveIds_gone ancestor) affected nodup
    (fun id member pool known => rebuilt id pool known ((mem_affected id).mp member))
    ⟨tables.cut ancestor, fun _ => none⟩ (cut_unwinds sound ancestor) cleared
  have same : (unwindPrices arith db tables ancestor).tables =
      (affected.foldl (unwindPool arith pools db.events ancestor)
        ⟨tables.cut ancestor, fun _ => none⟩).tables := by
    rw [← pooled]
    rfl
  rw [same]
  constructor
  · exact sound.apart.filter _
  · exact fun entry member => sound.plain entry (List.mem_filter.mp member).1
  · exact unwinds.sampled_after
  · exact unwinds.valued
  · intro id pool known
    rw [heads id pool known, poolRows_remove]
    split
    · rfl
    · rename_i below
      have kept : (tables.cut ancestor).states.get id = tables.states.get id := by
        rw [PriceTables.cut, get_remove]
        cases found : tables.states.get id with
        | none => rfl
        | some top =>
          have low : ¬ancestor < top.order.block :=
            fun high => below ((mem_affected id).mpr ⟨top, found, high⟩)
          simp [low]
      rw [kept, sound.heads id pool known]
      symm
      apply history_stays sound.apart id pool ancestor
      intro head folded
      rw [← sound.heads id pool known] at folded
      obtain ⟨top, found, rfl⟩ := Option.map_eq_some_iff.mp folded
      exact not_lt.mp fun high => below ((mem_affected id).mpr ⟨top, found, high⟩)

end RhPools.HeadUnwinds
