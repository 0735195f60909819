import RhPools.HeadSteps

/-! The loop of a delivery. Every round writes the samples of its event, in memory at the tip and
in the tables elsewhere, and takes the head of the event's pool one step further. -/

namespace RhPools.HeadLoops
open OrderedTables MarketTables MarketStore ActivityBuckets PriceMarks LateEntries PoolHeads
  HeadSamples HeadSteps

structure Rest where
  samples : OrderedTable EventId Sample
  reserves : OrderedTable EventId ReserveSample
  sampleRows : List (EventId × Sample)
  reserveRows : List (EventId × ReserveSample)
  stored : OrderedTable PoolId PoolState
  pruned : Int
  states : PoolId → Option PoolState
  dirty : List PoolId

def restOf (pass : Pass) : Rest :=
  ⟨pass.tables.samples, pass.tables.reserveSamples, pass.sampleRows, pass.reserveRows,
    pass.tables.states, pass.tables.samplePruneBlock, pass.states, pass.dirty⟩

def Rest.addSample (rest : Rest) (forward : Bool) (id : EventId) (sample : Sample) : Rest :=
  if forward then { rest with sampleRows := rest.sampleRows ++ [(id, sample)] }
  else { rest with samples := rest.samples.put id sample }

def Rest.addReserves (rest : Rest) (forward : Bool) (id : EventId) (sample : ReserveSample) :
    Rest :=
  if forward then { rest with reserveRows := rest.reserveRows ++ [(id, sample)] }
  else { rest with reserves := rest.reserves.put id sample }

def sampleOf (event : Known) (ratio : Option ℚ) : Option Sample :=
  (EventRow.sqrt event.row).map fun sqrt =>
    ⟨event.poolId, event.order, event.row.place.timestamp, sqrt, ratio⟩

def reservesOf (event : Known) (ratio : Option ℚ) : Option ReserveSample :=
  (if event.pool.protocol = .v2 then EventRow.reserves event.row else none).map fun reserves =>
    ⟨event.poolId, event.order, event.row.place.timestamp, reserves.1, reserves.2, ratio⟩

def Rest.addSamples (rest : Rest) (forward : Bool) (event : Known) (ratio : Option ℚ) : Rest :=
  let reserved := match reservesOf event ratio with
    | some sample => rest.addReserves forward event.id sample
    | none => rest
  match sampleOf event ratio with
  | some sample => reserved.addSample forward event.id sample
  | none => reserved

theorem addSample_rest (pass : Pass) (forward : Bool) (id : EventId) (sample : Sample) :
    restOf (pass.addSample forward id sample) = (restOf pass).addSample forward id sample := by
  cases forward with
  | true => rfl
  | false => rfl

theorem addReserves_rest (pass : Pass) (forward : Bool) (id : EventId) (sample : ReserveSample) :
    restOf (pass.addReserves forward id sample) = (restOf pass).addReserves forward id sample := by
  cases forward with
  | true => rfl
  | false => rfl

theorem addMark_rest (pass : Pass) (forward : Bool) (token : TxChain.Address) (id : EventId)
    (mark : Mark) : restOf (pass.addMark forward token id mark) = restOf pass := by
  cases forward with
  | true => rfl
  | false => rfl

theorem addSamples_rest (pass : Pass) (forward : Bool) (event : Known) (ratio : Option ℚ) :
    restOf (pass.addSamples forward event ratio) =
      (restOf pass).addSamples forward event ratio := by
  unfold Pass.addSamples Rest.addSamples sampleOf reservesOf
  dsimp only
  generalize (if event.pool.protocol = .v2 then EventRow.reserves event.row else none) = reserves
  cases EventRow.sqrt event.row with
  | none =>
    cases reserves with
    | none => rfl
    | some reserves => exact addReserves_rest pass forward _ _
  | some sqrt =>
    cases reserves with
    | none => exact addSample_rest pass forward _ _
    | some reserves =>
      refine (addSample_rest _ forward _ _).trans ?_
      rw [addReserves_rest]
      rfl

variable (arith : Arithmetic)

def roundRatio (events : Events) (forward : Bool) (pass : Pass) (event : Known) : Ratio :=
  ratioOf arith events pass.tables (if forward then pass.states event.poolId else none)
    event.poolId event.pool event.row

theorem price_rest (events : Events) (forward : Bool) (old : Option (ℚ × String)) (pass : Pass)
    (event : Known) :
    restOf (price arith events forward old pass event).pass =
      (restOf pass).addSamples forward event
        (roundRatio arith events forward pass event).ratio := by
  unfold price
  dsimp only
  cases event.token with
  | none => exact addSamples_rest pass forward event _
  | some token =>
    cases old with
    | none =>
      dsimp only
      split
      · rw [addMark_rest]
        exact addSamples_rest pass forward event _
      · exact addSamples_rest pass forward event _
    | some old =>
      dsimp only
      split
      · rw [addMark_rest]
        exact addSamples_rest (pass.unmark token event.id) forward event _
      · exact addSamples_rest (pass.unmark token event.id) forward event _

theorem applyEvent_rest (events : Events) (forward : Bool) (tables : PriceTables) (pass : Pass)
    (event : Known) : ∃ valuation,
    restOf (applyEvent arith events forward tables pass event) =
      { (restOf pass).addSamples forward event
          (roundRatio arith events forward pass event).ratio with
        states := Function.update pass.states event.poolId
          ((newState arith event (roundRatio arith events forward pass event) valuation
            (pass.states event.poolId)).or (pass.states event.poolId))
        dirty := if (newState arith event (roundRatio arith events forward pass event) valuation
            (pass.states event.poolId)).isSome then event.poolId :: pass.dirty else pass.dirty } := by
  refine ⟨(price arith events forward (oldAnchor tables event) pass event).valuation, ?_⟩
  rw [← price_rest arith events forward (oldAnchor tables event) pass event]
  rfl

def Rest.sampleTable (rest : Rest) : OrderedTable EventId Sample :=
  rest.samples.putAll rest.sampleRows

def Rest.reserveTable (rest : Rest) : OrderedTable EventId ReserveSample :=
  rest.reserves.putAll rest.reserveRows

def Buffered (forward : Bool) (tables : PriceTables) (rest : Rest) : Prop :=
  if forward then rest.samples = tables.samples ∧ rest.reserves = tables.reserveSamples
  else rest.sampleRows = [] ∧ rest.reserveRows = []

variable {arith} {events : Events} {pools : OrderedTable PoolId PoolRow} {forward : Bool}
  {tables : PriceTables}

variable (id : PoolId) (pass : Pass) (rest : Rest)

theorem addSample_table (buffered : Buffered forward tables rest) (id : EventId) (sample : Sample) :
    Buffered forward tables (rest.addSample forward id sample) ∧
      (rest.addSample forward id sample).sampleTable = rest.sampleTable.put id sample ∧
        (rest.addSample forward id sample).reserveTable = rest.reserveTable := by
  cases forward with
  | true =>
    refine ⟨buffered, ?_, rfl⟩
    simp [Rest.sampleTable, Rest.addSample, OrderedTable.putAll]
  | false =>
    have empty : rest.sampleRows = [] ∧ rest.reserveRows = [] := by
      simpa [Buffered] using buffered
    refine ⟨buffered, ?_, rfl⟩
    simp [Rest.sampleTable, Rest.addSample, OrderedTable.putAll, empty.1]

theorem addReserves_table (buffered : Buffered forward tables rest) (id : EventId)
    (sample : ReserveSample) :
    Buffered forward tables (rest.addReserves forward id sample) ∧
      (rest.addReserves forward id sample).sampleTable = rest.sampleTable ∧
        (rest.addReserves forward id sample).reserveTable = rest.reserveTable.put id sample := by
  cases forward with
  | true =>
    refine ⟨buffered, rfl, ?_⟩
    simp [Rest.reserveTable, Rest.addReserves, OrderedTable.putAll]
  | false =>
    have empty : rest.sampleRows = [] ∧ rest.reserveRows = [] := by
      simpa [Buffered] using buffered
    refine ⟨buffered, rfl, ?_⟩
    simp [Rest.reserveTable, Rest.addReserves, OrderedTable.putAll, empty.2]

structure Listed (arith : Arithmetic) (events : Events) (pools : OrderedTable PoolId PoolRow)
    (event : Known) : Prop where
  stored : events.get event.id = some event.row
  pooled : event.row.terms.poolId = some event.poolId
  known : pools.get event.poolId = some event.pool
  plain : Plain arith event.pool event.row

theorem Sampled.put {waiting : List EventId} {samples : OrderedTable EventId Sample}
    {reserves : OrderedTable EventId ReserveSample} (event : Known)
    (listed : Listed arith events pools event) (ratio : Option ℚ)
    (own : ∀ pair, event.pool.protocol = .v2 → EventRow.reserves event.row = some pair →
      ratio = arith.reserveRatio event.pool pair.1 pair.2)
    (sampled : Sampled arith events pools (event.id :: waiting) samples reserves) :
    Sampled arith events pools waiting
      (match sampleOf event ratio with
        | some sample => samples.put event.id sample
        | none => samples)
      (match reservesOf event ratio with
        | some sample => reserves.put event.id sample
        | none => reserves) := by
  constructor
  · intro entry member
    cases made : sampleOf event ratio with
    | none =>
      rw [made] at member
      exact sampled.known entry member
    | some sample =>
      rw [made] at member
      rcases (mem_put _ _ _ _).mp member with ⟨old, -⟩ | rfl
      · exact sampled.known entry old
      · obtain ⟨sqrt, priced, rfl⟩ := Option.map_eq_some_iff.mp made
        exact ⟨event.row, listed.stored, listed.pooled, rfl, priced⟩
  · intro id row poolId found pooled known priced ready
    by_cases same : id = event.id
    · obtain rfl : event.row = row := by
        rw [same, listed.stored] at found
        exact Option.some.inj found
      obtain ⟨sqrt, own⟩ := Option.isSome_iff_exists.mp priced
      simp [sampleOf, own, get_put, same]
    · have before := sampled.sampled id row poolId found pooled known priced
        (by simpa [same] using ready)
      cases sampleOf event ratio with
      | none => exact before
      | some sample =>
        simp only [get_put, if_neg same]
        exact before
  · intro entry member
    cases made : reservesOf event ratio with
    | none =>
      rw [made] at member
      exact sampled.paired entry member
    | some sample =>
      rw [made] at member
      rcases (mem_put _ _ _ _).mp member with ⟨old, -⟩ | rfl
      · exact sampled.paired entry old
      · obtain ⟨pair, priced, rfl⟩ := Option.map_eq_some_iff.mp made
        have v2 : event.pool.protocol = .v2 := by
          by_contra v3
          rw [if_neg v3] at priced
          cases priced
        rw [if_pos v2] at priced
        exact ⟨event.row, event.pool, listed.stored, listed.pooled, listed.known, rfl, priced,
          own pair v2 priced⟩
  · intro id row poolId pool found pooled known v2 priced ready
    by_cases same : id = event.id
    · obtain rfl : event.row = row := by
        rw [same, listed.stored] at found
        exact Option.some.inj found
      obtain rfl : event.poolId = poolId := Option.some.inj (listed.pooled.symm.trans pooled)
      obtain rfl : event.pool = pool := Option.some.inj (listed.known.symm.trans known)
      obtain ⟨pair, own⟩ := Option.isSome_iff_exists.mp priced
      simp [reservesOf, v2, own, get_put, same]
    · have before := sampled.reserved id row poolId pool found pooled known v2 priced
        (by simpa [same] using ready)
      cases reservesOf event ratio with
      | none => exact before
      | some sample =>
        simp only [get_put, if_neg same]
        exact before

structure Loop (arith : Arithmetic) (events : Events) (pools : OrderedTable PoolId PoolRow)
    (forward : Bool) (tables : PriceTables) (waiting : List EventId) (rest : Rest) : Prop where
  buffered : Buffered forward tables rest
  sampled : Sampled arith events pools waiting rest.sampleTable rest.reserveTable
  stored : rest.stored = tables.states
  clean : ∀ id, id ∉ rest.dirty → rest.states id = tables.states.get id
  dirty : ∀ id ∈ rest.dirty, (rest.states id).isSome
  sound : ∀ id pool, pools.get id = some pool → pool.protocol = .v2 →
    ∀ top ∈ rest.states id, headOf top = ⟨top.order, none, none, none⟩ ∧ top.price.isSome

variable {rows before entries waiting : List EventRow} (event : Known)

theorem newState_sound (ratio : Ratio) (valuation : Valuation) (old : Option PoolState)
    (v2 : event.pool.protocol = .v2) (plain : Plain arith event.pool event.row)
    (unpriced : ratio.sqrt = none)
    (before : ∀ top ∈ old, headOf top = ⟨top.order, none, none, none⟩ ∧ top.price.isSome) :
    ∀ top ∈ (newState arith event ratio valuation old).or old,
      headOf top = ⟨top.order, none, none, none⟩ ∧ top.price.isSome := by
  obtain ⟨-, tick, liquidity, unticked, unfilled⟩ := plain v2
  intro top member
  unfold newState at member
  dsimp only at member
  rw [tick, liquidity, unticked, unfilled, unpriced] at member
  split at member
  · exact before top member
  · split at member
    · exact before top member
    · rename_i priced
      obtain rfl := Option.some.inj member
      have valued : ratio.ratio.isSome = true := by
        simpa [v2, Option.isSome_iff_ne_none] using priced
      cases old with
      | none => exact ⟨rfl, valued⟩
      | some state =>
        obtain ⟨empty, -⟩ := before state rfl
        simp only [headOf, Head.mk.injEq, true_and] at empty ⊢
        obtain ⟨-, still, flat⟩ := empty
        simp [still, flat, valued]

theorem addSamples_table (buffered : Buffered forward tables rest) (event : Known)
    (ratio : Option ℚ) :
    Buffered forward tables (rest.addSamples forward event ratio) ∧
      (rest.addSamples forward event ratio).sampleTable =
        (match sampleOf event ratio with
        | some sample => rest.sampleTable.put event.id sample
        | none => rest.sampleTable) ∧
        (rest.addSamples forward event ratio).reserveTable =
          match reservesOf event ratio with
          | some sample => rest.reserveTable.put event.id sample
          | none => rest.reserveTable := by
  unfold Rest.addSamples
  cases reservesOf event ratio with
  | none =>
    cases sampleOf event ratio with
    | none => exact ⟨buffered, rfl, rfl⟩
    | some sample => exact addSample_table rest buffered event.id sample
  | some pair =>
    obtain ⟨still, samples, reserves⟩ := addReserves_table rest buffered event.id pair
    cases sampleOf event ratio with
    | none => exact ⟨still, samples, reserves⟩
    | some sample =>
      obtain ⟨last, put, kept⟩ := addSample_table _ still event.id sample
      exact ⟨last, put.trans (by rw [samples]), kept.trans reserves⟩

theorem addSamples_states (ratio : Option ℚ) :
    (rest.addSamples forward event ratio).stored = rest.stored := by
  unfold Rest.addSamples Rest.addSample Rest.addReserves
  cases reservesOf event ratio with
  | none => cases sampleOf event ratio with
    | none => rfl
    | some sample => cases forward with
      | true => rfl
      | false => rfl
  | some pair => cases sampleOf event ratio with
    | none => cases forward with
      | true => rfl
      | false => rfl
    | some sample => cases forward with
      | true => rfl
      | false => rfl

theorem loop_step (waiting : List EventId) (pass : Pass) (listed : Listed arith events pools event)
    (loop : Loop arith events pools forward tables (event.id :: waiting) (restOf pass)) :
    Loop arith events pools forward tables waiting
      (restOf (applyEvent arith events forward tables pass event)) := by
  obtain ⟨valuation, same⟩ := applyEvent_rest arith events forward tables pass event
  rw [same]
  generalize found : roundRatio arith events forward pass event = ratio
  obtain ⟨buffered, samples, reserves⟩ := addSamples_table (restOf pass) loop.buffered event ratio.ratio
  constructor
  · exact buffered
  · have own : ∀ pair, event.pool.protocol = .v2 → EventRow.reserves event.row = some pair →
        ratio.ratio = arith.reserveRatio event.pool pair.1 pair.2 := by
      intro pair v2 own
      simp [← found, roundRatio, ratioOf, v2, own]
    have put := Sampled.put event listed ratio.ratio own loop.sampled
    rw [← samples, ← reserves] at put
    exact put
  · exact (addSamples_states _ event _).trans loop.stored
  · intro id untouched
    dsimp only at untouched ⊢
    split at untouched
    · obtain ⟨other, clean⟩ := not_or.mp fun inside => untouched (List.mem_cons.mpr inside)
      rw [Function.update_of_ne other]
      exact loop.clean id clean
    · rename_i unwritten
      by_cases here : id = event.poolId
      · subst here
        rw [Function.update_self, Option.not_isSome_iff_eq_none.mp unwritten]
        exact loop.clean _ untouched
      · rw [Function.update_of_ne here]
        exact loop.clean id untouched
  · intro id touched
    dsimp only at touched ⊢
    by_cases here : id = event.poolId
    · subst here
      rw [Function.update_self, Option.isSome_or]
      split at touched
      · rename_i written
        rw [written, Bool.true_or]
      · exact Bool.or_eq_true_iff.mpr (.inr (loop.dirty _ touched))
    · rw [Function.update_of_ne here]
      apply loop.dirty
      split at touched
      · exact (List.mem_cons.mp touched).resolve_left here
      · exact touched
  · intro id pool known v2
    by_cases here : id = event.poolId
    · subst here
      obtain rfl : event.pool = pool := Option.some.inj (listed.known.symm.trans known)
      simp only [Function.update_self]
      apply newState_sound event ratio valuation _ v2 listed.plain
      · obtain ⟨unpriced, -⟩ := listed.plain v2
        rw [← found]
        exact (ratioOf_pair _ _ _ _ v2).trans unpriced
      · exact loop.sound _ _ known v2
    · simp only [Function.update_of_ne here]
      exact loop.sound id pool known v2

def mine (id : PoolId) (delivery : List Known) : List EventRow :=
  (delivery.filter fun event => event.poolId = id).map fun event => bare event.row

/-- Where the loop is in the events of a pool: some are applied, those that waited last. -/
structure Turn (rows before entries waiting : List EventRow) : Prop where
  apart : Apart rows
  parted : ∀ row, row ∈ rows ↔ row ∈ entries ∨ row ∈ waiting
  nodup : (entries ++ waiting).Nodup
  sorted : waiting.Pairwise fun left right => EventRow.order left < EventRow.order right
  stays : ∀ row ∈ before, row ∈ entries
  early : ∀ row ∈ entries, row ∈ before ∨ ∀ other ∈ waiting, EventRow.order row < EventRow.order other

theorem Turn.unlike (turn : Turn rows before entries waiting) (entry : EventRow)
    (applied : entry ∈ entries) (other : EventRow) (waits : other ∈ waiting) :
    EventRow.order entry ≠ EventRow.order other := by
  intro same
  obtain rfl := turn.apart.eq ((turn.parted entry).mpr (.inl applied))
    ((turn.parted other).mpr (.inr waits)) same
  exact (List.nodup_append'.mp turn.nodup).2.2 applied waits

theorem Turn.next {row : EventRow} (turn : Turn rows before entries (row :: waiting)) :
    Turn rows before (row :: entries) waiting := by
  obtain ⟨after, sorted⟩ := List.pairwise_cons.mp turn.sorted
  constructor
  · exact turn.apart
  · intro other
    rw [turn.parted, List.mem_cons, List.mem_cons]
    tauto
  · exact (List.perm_middle.nodup_iff).mp turn.nodup
  · exact sorted
  · exact fun other member => List.mem_cons_of_mem row (turn.stays other member)
  · intro other member
    rcases List.mem_cons.mp member with rfl | member
    · exact .inr after
    · exact (turn.early other member).imp_right fun less next inside =>
        less next (List.mem_cons_of_mem row inside)

theorem Turn.placed {row : EventRow} (turn : Turn rows before entries (bare row :: waiting)) :
    Placed rows entries row := by
  have after := (List.pairwise_cons.mp turn.sorted).1
  constructor
  · exact turn.apart
  · exact (turn.parted _).mpr (.inr List.mem_cons_self)
  · exact fun other member => (turn.parted other).mpr (.inl member)
  · exact fun other member => turn.unlike other member (bare row) List.mem_cons_self
  · intro other member less
    rcases (turn.parted other).mp member with applied | waits
    · exact applied
    · rcases List.mem_cons.mp waits with rfl | waits
      · exact absurd less (lt_irrefl _)
      · exact absurd less (after other waits).not_gt

/-- An event of a delivery leaves the head right: it is the pool's newest or makes no difference,
and finds the price that the head carries on; or one that reports everything follows it. -/
def Harmless (arith : Arithmetic) (pool : PoolRow) (forward : Bool) (rows before : List EventRow)
    (row : EventRow) : Prop :=
  ((poolLog arith pool).Newest before row ∨ Idles arith pool rows row) ∧
      (forward = true ∨ Found arith pool rows row) ∨
    (poolLog arith pool).Covered before row ∨
      ∃ other ∈ rows, Whole arith pool other ∧ EventRow.order row < EventRow.order other ∧
        (poolLog arith pool).Newest before other

instance (pool : PoolRow) (forward : Bool) (rows before : List EventRow) (row : EventRow) :
    Decidable (Harmless arith pool forward rows before row) :=
  inferInstanceAs (Decidable (_ ∧ _ ∨ _ ∨ _))

theorem mine_other (waiting : List Known) (other : event.poolId ≠ id) :
    mine id (event :: waiting) = mine id waiting := by
  simp [mine, other]

theorem mine_this (waiting : List Known) :
    mine event.poolId (event :: waiting) = bare event.row :: mine event.poolId waiting := by
  simp [mine]

theorem Idles.idle {pool : PoolRow} {rows entries : List EventRow} {row : EventRow}
    (placed : Placed rows entries row) (idles : Idles arith pool rows (bare row)) :
    (poolLog arith pool).Idle entries (bare row) := by
  intro front sorted members
  apply idles_idle rows (bare row) idles front sorted
  intro other
  rw [members]
  constructor
  · rintro ⟨applied, less⟩
    exact ⟨placed.inside other applied, less⟩
  · rintro ⟨member, less⟩
    exact ⟨placed.before other member less, less⟩

theorem applyEvent_head :
    ((applyEvent arith events forward tables pass event).states event.poolId).map headOf =
      settle arith event (roundRatio arith events forward pass event)
        ((pass.states event.poolId).map headOf) := by
  rw [← newState_head arith event _
    (price arith events forward (oldAnchor tables event) pass event).valuation]
  exact congrArg (Option.map headOf) (Function.update_self _ _ _)

theorem applyEvent_other (id : PoolId) (other : event.poolId ≠ id) :
    (applyEvent arith events forward tables pass event).states id = pass.states id :=
  Function.update_of_ne (Ne.symm other) _ _

theorem ready_waiting (waiting : List Known)
    (listed : ∀ other ∈ event :: waiting, Listed arith events pools other)
    (after : ∀ other ∈ mine event.poolId waiting, event.order < EventRow.order other)
    (unquoted : quotes event.pool event.row = false) :
    Ready events ((event :: waiting).map Known.id) event.pool event.poolId event.order := by
  intro entry stored pooled early quoted waits
  obtain ⟨other, member, same⟩ := List.mem_map.mp waits
  have there := listed other member
  have row : entry.2 = other.row := by
    have found := (get_some _ _ _).mpr stored
    rw [← same, there.stored] at found
    exact (Option.some.inj found).symm
  rcases List.mem_cons.mp member with rfl | member
  · rw [row, unquoted] at quoted
    cases quoted
  · have home : other.poolId = event.poolId := by
      rw [row, there.pooled] at pooled
      exact Option.some.inj pooled
    have inside : bare other.row ∈ mine event.poolId waiting :=
      List.mem_map_of_mem (List.mem_filter.mpr ⟨member, decide_eq_true home⟩)
    rw [row] at early
    exact absurd early (after _ inside).not_ge

theorem Loop.lookup {waiting others : List EventId} {pass : Pass}
    (loop : Loop arith events pools forward tables waiting (restOf pass))
    (start : Sampled arith events pools others tables.samples tables.reserveSamples) :
    Sampled arith events pools (if forward then others else waiting) pass.tables.samples
      pass.tables.reserveSamples := by
  cases forward with
  | true =>
    have same : (restOf pass).samples = tables.samples ∧
        (restOf pass).reserves = tables.reserveSamples := by
      simpa [Buffered] using loop.buffered
    rw [if_pos rfl, show pass.tables.samples = _ from same.1, show pass.tables.reserveSamples = _ from same.2]
    exact start
  | false =>
    have empty : (restOf pass).sampleRows = [] ∧ (restOf pass).reserveRows = [] := by
      simpa [Buffered] using loop.buffered
    have written := loop.sampled
    rw [Rest.sampleTable, Rest.reserveTable, empty.1, empty.2] at written
    exact written

theorem heads_step (waiting : List Known) (pass : Pass)
    (listed : ∀ other ∈ event :: waiting, Listed arith events pools other)
    (loop : Loop arith events pools forward tables ((event :: waiting).map Known.id) (restOf pass))
    (others : List EventId)
    (start : Sampled arith events pools others tables.samples tables.reserveSamples)
    (before entries : List EventRow)
    (turn : Turn (poolRows events event.poolId) before entries
      (mine event.poolId (event :: waiting)))
    (settling : (poolLog arith event.pool).Settling entries (mine event.poolId (event :: waiting))
      ((pass.states event.poolId).map headOf))
    (harmless : Harmless arith event.pool forward (poolRows events event.poolId) before
      (bare event.row)) :
    (poolLog arith event.pool).Settling (bare event.row :: entries) (mine event.poolId waiting)
      (((applyEvent arith events forward tables pass event).states event.poolId).map headOf) := by
  have this := listed event List.mem_cons_self
  have fits : PlainHead event.pool ((pass.states event.poolId).map headOf) := by
    intro v2 top member
    obtain ⟨state, found, rfl⟩ := Option.map_eq_some_iff.mp member
    exact (loop.sound event.poolId event.pool this.known v2 state found).1
  rw [mine_this] at turn settling
  have placed := turn.placed
  have distinct : (poolLog arith event.pool).Distinct (bare event.row :: entries) := by
    apply List.pairwise_cons.mpr
    refine ⟨fun other applied => (placed.unlike other applied).symm, ?_⟩
    exact placed.apart.subset (List.nodup_append'.mp turn.nodup).1 placed.inside
  rw [applyEvent_head]
  apply settling_step entries (mine event.poolId waiting) (bare event.row) _ _ distinct turn.sorted
    settling
  · exact settle_steps event _ _ this.plain fits fun quoted => ratioOf_quoted _ _ _ _ _ quoted
  · rcases harmless with ⟨local_, found⟩ | ⟨other, old, whole, later⟩ |
      ⟨other, member, whole, later, newest⟩
    · left
      constructor
      · rcases local_ with newest | idles
        · left
          intro other applied
          rcases turn.early other applied with old | done
          · exact newest other old
          · exact done (bare event.row) List.mem_cons_self
        · exact .inr (Idles.idle placed idles)
      · intro folded
        apply settle_arrives event _ entries _ this.plain fits placed.unlike folded
        intro behind
        apply carries event.poolId event.pool this.known (loop.lookup start) entries
          (List.nodup_append'.mp turn.nodup).1 event.row placed forward _ folded behind
          (fun v2 top found => (loop.sound _ _ this.known v2 top found).2) found
        rintro rfl
        exact ready_waiting event waiting listed (List.pairwise_cons.mp turn.sorted).1
    · exact .inr (.inl ⟨other, turn.stays other old, whole, later⟩)
    · right
      have passed : other ∈ entries ∨ other ∈ mine event.poolId waiting := by
        rcases (turn.parted other).mp member with applied | waits
        · exact .inl applied
        · rcases List.mem_cons.mp waits with rfl | waits
          · exact absurd later (lt_irrefl _)
          · exact .inr waits
      rcases passed with applied | waits
      · exact .inl ⟨other, applied, whole, later⟩
      · right
        refine ⟨other, waits, whole, ?_⟩
        intro applied inside
        rcases turn.early applied inside with old | done
        · exact newest applied old
        · exact done other (List.mem_cons_of_mem _ waits)

theorem Loop.weaken {rest : Rest}
    (loop : Loop arith events pools forward tables [] rest) (waiting : List EventId) :
    Loop arith events pools forward tables waiting rest := by
  obtain ⟨buffered, sampled, stored, clean, dirty, sound⟩ := loop
  exact ⟨buffered, sampled.mono fun _ absent => absurd absent List.not_mem_nil, stored, clean, dirty,
    sound⟩

theorem loop_run (waiting : List Known) (pass : Pass)
    (listed : ∀ event ∈ waiting, Listed arith events pools event)
    (loop : Loop arith events pools forward tables (waiting.map Known.id) (restOf pass)) :
    Loop arith events pools forward tables []
      (restOf (waiting.foldl (applyEvent arith events forward tables) pass)) := by
  induction waiting generalizing pass with
  | nil => exact loop
  | cons event waiting ih =>
    exact ih _ (fun other member => listed other (List.mem_cons_of_mem event member))
      (loop_step event _ pass (listed event List.mem_cons_self) loop)

theorem heads_run (pool : PoolRow) (known : pools.get id = some pool) (others : List EventId)
    (start : Sampled arith events pools others tables.samples tables.reserveSamples)
    (before : List EventRow) (waiting : List Known) (pass : Pass) (entries : List EventRow)
    (listed : ∀ event ∈ waiting, Listed arith events pools event)
    (loop : Loop arith events pools forward tables (waiting.map Known.id) (restOf pass))
    (turn : Turn (poolRows events id) before entries (mine id waiting))
    (settling : (poolLog arith pool).Settling entries (mine id waiting)
      ((pass.states id).map headOf))
    (harmless : ∀ row ∈ mine id waiting,
      Harmless arith pool forward (poolRows events id) before row) :
    ((waiting.foldl (applyEvent arith events forward tables) pass).states id).map headOf =
      (poolLog arith pool).history (poolRows events id) := by
  induction waiting generalizing pass entries with
  | nil =>
    rcases settling with folded | ⟨pending, member, -⟩
    · rw [List.foldl_nil, folded]
      have same : ∀ row, row ∈ entries ↔ row ∈ poolRows events id := by
        intro row
        rw [turn.parted]
        exact (or_iff_left List.not_mem_nil).symm
      have whole : (poolLog arith pool).Distinct (poolRows events id) := turn.apart
      refine history_congr ?_ whole same
      exact turn.apart.subset (List.nodup_append'.mp turn.nodup).1 fun row => (same row).mp
    · exact absurd member List.not_mem_nil
  | cons event waiting ih =>
    have inside := fun other member => listed other (List.mem_cons_of_mem event member)
    have next := loop_step event _ pass (listed event List.mem_cons_self) loop
    by_cases here : event.poolId = id
    · subst here
      have this := listed event List.mem_cons_self
      obtain rfl : event.pool = pool := Option.some.inj (this.known.symm.trans known)
      have settled := heads_step event waiting pass listed loop others start before entries turn
        settling (harmless _ (by rw [mine_this]; exact List.mem_cons_self))
      rw [mine_this] at turn
      exact ih _ _ inside next turn.next settled fun row member =>
        harmless row (by rw [mine_this]; exact List.mem_cons_of_mem _ member)
    · rw [mine_other id event waiting here] at turn settling harmless
      have untouched : (applyEvent arith events forward tables pass event).states id =
          pass.states id := applyEvent_other pass event id here
      rw [← untouched] at settling
      exact ih _ _ inside next turn settling harmless

theorem Listed.row {event : Known} (listed : Listed arith events pools event) :
    bare event.row ∈ poolRows events event.poolId :=
  bare_listed _ _ _ listed.stored listed.pooled

def stateOf (head : Head) : PoolState :=
  { order := head.order, timestamp := 0, sqrt := head.sqrt, tick := head.tick
    liquidity := head.liquidity, price0 := none, price1 := none, price := none, feePpm := none
    basis := none }

theorem map_stateOf (head : Option Head) : (head.map stateOf).map headOf = head := by
  cases head <;> rfl

theorem ratio_again (listed : Listed arith events pools event) (v3 : event.pool.protocol ≠ .v2)
    (apart : Apart (poolRows events event.poolId)) (state : Option PoolState)
    (folded : state.map headOf = (poolLog arith event.pool).history (poolRows events event.poolId))
    (newest : ∀ other ∈ poolRows events event.poolId, EventRow.order other ≤ event.order)
    (sampled : Sampled arith events pools [] tables.samples tables.reserveSamples)
    (found : forward = true ∨ Found arith event.pool (poolRows events event.poolId) event.row) :
    (ratioOf arith events tables (if forward then state else none) event.poolId event.pool
      event.row).sqrt = state.bind PoolState.sqrt := by
  let others := (poolRows events event.poolId).filter fun other =>
    EventRow.order other < event.order
  have whole : (poolLog arith event.pool).Distinct (poolRows events event.poolId) := apart
  have split : (poolLog arith event.pool).history (poolRows events event.poolId) =
      advance arith event.pool ((poolLog arith event.pool).history others) event.row :=
    history_newest _ whole (bare event.row) listed.row newest
  have placed : Placed (poolRows events event.poolId) others event.row := by
    refine ⟨apart, listed.row, ?_, ?_, ?_⟩
    · exact fun other member => (List.mem_filter.mp member).1
    · exact fun other member => (of_decide_eq_true (List.mem_filter.mp member).2).ne
    · exact fun other member less => List.mem_filter.mpr ⟨member, decide_eq_true less⟩
  have nodup : others.Nodup := (apart.imp fun unlike same => unlike (congrArg _ same)).filter _
  have distinct : (poolLog arith event.pool).Distinct others := apart.filter _
  have below : reach ((poolLog arith event.pool).history others) < (event.order : WithBot Order) :=
    history_below (poolLog arith event.pool) others event.order
      fun other member => of_decide_eq_true (List.mem_filter.mp member).2
  have tells := tells_history v3 others distinct
  -- The price that the head was carried on with when the event arrived.
  have carried : state.bind PoolState.sqrt = (EventRow.sqrt event.row).or
      ((((poolLog arith event.pool).history others).bind Head.sqrt).or
        (arith.before event.row).sqrt) := by
    have same : state.bind PoolState.sqrt = (state.map headOf).bind Head.sqrt := by
      cases state <;> rfl
    rw [same, folded, split]
    simp only [advance, v3, if_false]
    split
    · rename_i unpriced
      rw [unpriced]
      cases before : (poolLog arith event.pool).history others with
      | none => rfl
      | some head =>
        rw [before] at tells unpriced
        have absent : head.sqrt = none :=
          (Option.or_eq_none_iff.mp (Option.or_eq_none_iff.mp unpriced).2).1
        exact absent
    · rename_i sqrt priced
      rw [priced]
      rfl
  cases forward with
  | false =>
    have found := carries event.poolId event.pool listed.known sampled others nodup event.row placed
      false (((poolLog arith event.pool).history others).map stateOf) (map_stateOf _)
      (by rw [map_stateOf]; exact below) (fun v2 => absurd v2 v3) found
      (fun _ _ _ _ _ _ _ waits => absurd waits List.not_mem_nil)
    rw [map_stateOf, Carries, if_neg v3] at found
    rw [carried]
    exact found
  | true =>
    cases state with
    | none =>
      have unopened : (poolLog arith event.pool).history others = none := by
        obtain ⟨-, rest⟩ := Option.or_eq_none_iff.mp carried.symm
        have absent := (Option.or_eq_none_iff.mp rest).1
        cases before : (poolLog arith event.pool).history others with
        | none => rfl
        | some head =>
          rw [before] at tells absent
          have priced := tells.priced
          rw [show head.sqrt = none from absent] at priced
          cases priced
      have found := carries event.poolId event.pool listed.known sampled others nodup event.row
        placed true none unopened.symm (WithBot.bot_lt_coe _) (fun v2 => absurd v2 v3) found
        (fun never => absurd never (by simp))
      rw [Carries, if_neg v3] at found
      rw [carried, unopened]
      exact found
    | some top =>
      have told := tells_history v3 _ whole
      rw [← folded] at told
      cases quoted : quotes event.pool event.row with
      | true =>
        have found : Carries arith event.pool event.row
            ((poolLog arith event.pool).history others)
            (ratioOf arith events tables (some top) event.poolId event.pool event.row) :=
          ratioOf_quoted _ _ _ _ _ quoted
        rw [Carries, if_neg v3] at found
        exact found.trans carried.symm
      | false =>
        obtain ⟨last, member, same, -⟩ := told.last
        have early : top.order ≤ event.order := by
          rw [show top.order = EventRow.order last from same.symm]
          exact newest last member
        have found : Carries arith event.pool event.row (some (headOf top))
            (ratioOf arith events tables (some top) event.poolId event.pool event.row) :=
          ratioOf_cached _ _ _ _ quoted early (by rw [if_neg v3]; exact told.priced)
        have own : EventRow.sqrt event.row = none := by simpa [quotes, v3] using quoted
        rw [Carries, if_neg v3, own] at found
        exact found.trans (Option.or_of_isSome told.priced)

theorem pair_again (listed : Listed arith events pools event) (v2 : event.pool.protocol = .v2)
    (apart : Apart (poolRows events event.poolId)) (state : Option PoolState)
    (folded : state.map headOf = (poolLog arith event.pool).history (poolRows events event.poolId))
    (sampled : Sampled arith events pools [] tables.samples tables.reserveSamples)
    (cached : Option PoolState) (held : cached = none ∨ cached = state)
    (ahead : reach (state.map headOf) < (event.order : WithBot Order)) :
    (ratioOf arith events tables cached event.poolId event.pool event.row).ratio = none := by
  have whole : (poolLog arith event.pool).Distinct (poolRows events event.poolId) := apart
  have marks := marks_history v2 _ whole
  rw [← folded] at marks
  cases state with
  | none =>
    obtain rfl : cached = none := by
      rcases held with none_ | none_
      · exact none_
      · exact none_
    have unreported := marks (bare event.row) listed.row
    cases own : EventRow.reserves event.row with
    | some pair =>
      have unpriced : arith.reserveRatio event.pool pair.1 pair.2 = none := by
        simpa [reports, v2, own] using unreported
      simp [ratioOf, v2, own, unpriced]
    | none =>
      cases found : sampleAtOrBefore arith events tables event.poolId event.pool
          (EventRow.order event.row) with
      | none => simp [ratioOf, v2, own, found]
      | some sample =>
        obtain ⟨other, member, -, -, finds⟩ :=
          sample_sound sampled event.poolId event.pool listed.known _ sample found
        rw [Finds, if_pos v2, marks other member] at finds
        have silent : sample.price = none := by simpa using finds
        simp [ratioOf, v2, own, found, silent]
  | some top =>
    have later : top.order < event.order := WithBot.coe_lt_coe.mp ahead
    obtain ⟨unreported, quoted⟩ := marks.passed (bare event.row) listed.row later
    obtain ⟨pair, own⟩ := Option.isSome_iff_exists.mp quoted
    rw [reserves_bare] at own
    have unpriced : arith.reserveRatio event.pool pair.1 pair.2 = none := by
      simpa [reports, v2, own] using unreported
    simp [ratioOf, v2, own, unpriced]

theorem settle_again (listed : Listed arith events pools event)
    (apart : Apart (poolRows events event.poolId)) (state : Option PoolState)
    (folded : state.map headOf = (poolLog arith event.pool).history (poolRows events event.poolId))
    (sampled : Sampled arith events pools [] tables.samples tables.reserveSamples)
    (again : event.pool.protocol = .v2 ∨
      (∃ other ∈ poolRows events event.poolId, event.order < EventRow.order other) ∨
        forward = true ∨ Found arith event.pool (poolRows events event.poolId) event.row) :
    settle arith event (ratioOf arith events tables (if forward then state else none) event.poolId
      event.pool event.row) (state.map headOf) = state.map headOf := by
  have whole : (poolLog arith event.pool).Distinct (poolRows events event.poolId) := apart
  generalize found : ratioOf arith events tables (if forward then state else none) event.poolId
    event.pool event.row = ratio
  rcases lt_or_ge (event.order : WithBot Order) (reach (state.map headOf)) with late | here
  · exact settle_late event ratio _ late
  · by_cases v2 : event.pool.protocol = .v2
    · have unpriced : ratio.sqrt = none := by
        rw [← found, ratioOf_pair _ _ _ _ v2]
        exact (listed.plain v2).1
      rcases here.lt_or_eq with ahead | level
      · have silent : ratio.ratio = none := by
          rw [← found]
          apply pair_again event listed v2 apart state folded sampled _ _ ahead
          cases forward with
          | true => exact .inr rfl
          | false => exact .inl rfl
        simp [settle, unpriced, silent]
      · cases state with
        | none => cases level
        | some top =>
          have marks := marks_history v2 _ whole
          rw [← folded] at marks
          have empty := marks.bare
          have same : top.order = event.order := WithBot.coe_inj.mp level
          obtain ⟨-, tick, liquidity, -⟩ := listed.plain v2
          rw [Option.map_some, empty]
          simp [settle, v2, unpriced, tick, liquidity, headOf, same]
    · cases state with
      | none =>
        have tells := tells_history v2 _ whole
        rw [← folded] at tells
        have closed := tells _ listed.row
        rw [opens_sqrt v2] at closed
        obtain ⟨own, brought⟩ := Bool.or_eq_false_iff.mp closed
        have unquoted : quotes event.pool event.row = false := by simpa [quotes, v2] using own
        have unsampled : sampleAtOrBefore arith events tables event.poolId event.pool
            (EventRow.order event.row) = none := by
          apply sample_none sampled event.poolId event.pool listed.known
          intro other member _
          have silent := tells other member
          rw [opens_sqrt v2] at silent
          simpa [quotes, v2] using (Bool.or_eq_false_iff.mp silent).1
        have unpriced : Carries arith event.pool event.row none ratio := by
          rw [← found, ite_self]
          exact ratioOf_none event.poolId event.pool event.row unquoted unsampled
        rw [Carries, if_neg v2] at unpriced
        have absent : EventRow.sqrt event.row = none := by simpa using own
        have unbrought : (arith.before event.row).sqrt = none :=
          Option.not_isSome_iff_eq_none.mp (Bool.eq_false_iff.mp brought)
        have none_ : ratio.sqrt = none := by
          rw [unpriced, absent, unbrought]
          rfl
        simp [settle, none_, v2]
      | some top =>
        have told := tells_history v2 _ whole
        rw [← folded] at told
        have low : top.order ≤ event.order := WithBot.coe_le_coe.mp here
        have newest : ∀ other ∈ poolRows events event.poolId, EventRow.order other ≤ event.order :=
          fun other member => (told.newest other member).trans low
        have same : top.order = event.order := le_antisymm low (told.newest (bare event.row) listed.row)
        have priced : ratio.sqrt = top.sqrt := by
          rw [← found]
          apply ratio_again event listed v2 apart (some top) folded newest sampled
          rcases again with pair | ⟨other, member, later⟩ | found
          · exact absurd pair v2
          · exact absurd later (newest other member).not_gt
          · exact found
        obtain ⟨last, member, level, -, ticked, filled⟩ := told.last
        obtain rfl : last = bare event.row := apart.eq member listed.row (level.trans same)
        obtain ⟨sqrt, some_⟩ := Option.isSome_iff_exists.mp told.priced
        simp only [terms_bare, headOf] at ticked filled some_
        simp [settle, headOf, same, priced, some_, ticked, filled]

theorem again_run (pool : PoolRow) (known : pools.get id = some pool)
    (start : Sampled arith events pools [] tables.samples tables.reserveSamples)
    (apart : Apart (poolRows events id)) (waiting : List Known) (pass : Pass)
    (listed : ∀ event ∈ waiting, Listed arith events pools event)
    (loop : Loop arith events pools forward tables [] (restOf pass))
    (folded : (pass.states id).map headOf = (poolLog arith pool).history (poolRows events id))
    (again : ∀ event ∈ waiting, event.poolId = id → event.pool.protocol = .v2 ∨
      (∃ other ∈ poolRows events event.poolId, event.order < EventRow.order other) ∨
        forward = true ∨ Found arith event.pool (poolRows events event.poolId) event.row) :
    ((waiting.foldl (applyEvent arith events forward tables) pass).states id).map headOf =
      (poolLog arith pool).history (poolRows events id) := by
  induction waiting generalizing pass with
  | nil => exact folded
  | cons event waiting ih =>
    have this := listed event List.mem_cons_self
    apply ih _ (fun other member => listed other (List.mem_cons_of_mem event member))
    · exact loop_step event [] pass this (loop.weaken [event.id])
    · by_cases here : event.poolId = id
      · subst here
        obtain rfl : event.pool = pool := Option.some.inj (this.known.symm.trans known)
        have sampled := loop.lookup start
        rw [ite_self] at sampled
        rw [applyEvent_head, ← folded]
        exact settle_again event this apart (pass.states event.poolId) folded sampled
          (again event List.mem_cons_self rfl)
      · have untouched : (applyEvent arith events forward tables pass event).states id =
            pass.states id := applyEvent_other pass event id here
        rw [untouched]
        exact folded
    · exact fun other member => again other (List.mem_cons_of_mem event member)

end RhPools.HeadLoops
