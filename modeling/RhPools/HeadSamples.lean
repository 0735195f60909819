import RhPools.PoolHeads

/-! What a price lookup finds. The samples of a pool are those events that report a price, so the
latest one up to an order is the latest such event, in the table as in the events themselves. -/

namespace RhPools.HeadSamples
open OrderedTables MarketTables MarketStore ActivityBuckets PriceMarks LateEntries PoolHeads

theorem mem_poolRows (events : Events) (id : PoolId) (row : EventRow) :
    row ∈ poolRows events id ↔
      ∃ entry ∈ events.entries, bare entry.2 = row ∧ entry.2.terms.poolId = some id := by
  rw [poolRows, List.mem_filter, List.mem_map, decide_eq_true_eq]
  constructor
  · rintro ⟨⟨entry, member, rfl⟩, pooled⟩
    exact ⟨entry, member, rfl, pooled⟩
  · rintro ⟨entry, member, rfl, pooled⟩
    exact ⟨⟨entry, member, rfl⟩, pooled⟩

def Apart (rows : List EventRow) : Prop :=
  rows.Pairwise fun left right => EventRow.order left ≠ EventRow.order right

theorem Apart.eq {rows : List EventRow} (apart : Apart rows) {left right : EventRow}
    (first : left ∈ rows) (second : right ∈ rows)
    (same : EventRow.order left = EventRow.order right) : left = right := by
  by_contra unlike
  have : Std.Symm fun left right : EventRow => EventRow.order left ≠ EventRow.order right :=
    ⟨fun _ _ => Ne.symm⟩
  exact List.Pairwise.forall apart first second unlike same

theorem Apart.subset {rows some : List EventRow} (apart : Apart rows) (nodup : some.Nodup)
    (inside : ∀ row ∈ some, row ∈ rows) : Apart some := by
  refine nodup.imp_of_mem ?_
  intro left right first second unlike same
  exact unlike (apart.eq (inside left first) (inside right second) same)

theorem latest_stands {Row : Type} (order : Row → Order) (rows : List Row)
    (events : List EventRow) (stands : Row → EventRow → Prop) (apart : Apart events)
    (meant : ∀ row ∈ rows, ∃ event ∈ events, stands row event ∧ EventRow.order event = order row)
    (event : EventRow) (member : event ∈ events) (found : ∃ row ∈ rows, order row = EventRow.order event)
    (last : ∀ other ∈ events, (∃ row ∈ rows, stands row other ∧ EventRow.order other = order row) →
      EventRow.order other ≤ EventRow.order event) :
    ∃ row, latest order rows = some row ∧ stands row event := by
  obtain ⟨first, inside, placed⟩ := found
  cases best : latest order rows with
  | none => exact absurd (List.argmax_eq_none.mp best) (List.ne_nil_of_mem inside)
  | some row =>
    have there : row ∈ rows := List.argmax_mem best
    obtain ⟨other, known, stand, same⟩ := meant row there
    have above : EventRow.order event ≤ EventRow.order other := by
      rw [← placed, same]
      exact List.le_of_mem_argmax inside best
    have equal := apart.eq known member (le_antisymm (last other known ⟨row, there, stand, same⟩) above)
    exact ⟨row, rfl, equal ▸ stand⟩

variable (arith : Arithmetic)

structure Sampled (events : Events) (pools : OrderedTable PoolId PoolRow)
    (waiting : List EventId) (samples : OrderedTable EventId Sample)
    (reserves : OrderedTable EventId ReserveSample) : Prop where
  known : ∀ entry ∈ samples.entries, ∃ row, events.get entry.1 = some row ∧
    row.terms.poolId = some entry.2.pool ∧ EventRow.order row = entry.2.order ∧
      EventRow.sqrt row = some entry.2.sqrt
  sampled : ∀ id row poolId, events.get id = some row → row.terms.poolId = some poolId →
    (pools.get poolId).isSome → (EventRow.sqrt row).isSome → id ∉ waiting →
      (samples.get id).isSome
  paired : ∀ entry ∈ reserves.entries, ∃ row pool, events.get entry.1 = some row ∧
    row.terms.poolId = some entry.2.pool ∧ pools.get entry.2.pool = some pool ∧
      EventRow.order row = entry.2.order ∧
        EventRow.reserves row = some (entry.2.reserve0, entry.2.reserve1) ∧
          entry.2.price = arith.reserveRatio pool entry.2.reserve0 entry.2.reserve1
  reserved : ∀ id row poolId pool, events.get id = some row → row.terms.poolId = some poolId →
    pools.get poolId = some pool → pool.protocol = .v2 → (EventRow.reserves row).isSome →
      id ∉ waiting → (reserves.get id).isSome

variable {arith} {events : Events} {pools : OrderedTable PoolId PoolRow} {waiting : List EventId}
  {tables : PriceTables}

theorem Sampled.mono {more : List EventId} {samples : OrderedTable EventId Sample}
    {reserves : OrderedTable EventId ReserveSample}
    (sampled : Sampled arith events pools waiting samples reserves)
    (inside : ∀ id ∈ waiting, id ∈ more) : Sampled arith events pools more samples reserves := by
  refine ⟨sampled.known, ?_, sampled.paired, ?_⟩
  · exact fun id row poolId found pooled known priced ready =>
      sampled.sampled id row poolId found pooled known priced fun waits => ready (inside id waits)
  · exact fun id row poolId pool found pooled known v2 priced ready =>
      sampled.reserved id row poolId pool found pooled known v2 priced fun waits =>
        ready (inside id waits)

def Finds (arith : Arithmetic) (pool : PoolRow) (row : EventRow) (sample : PoolSample) : Prop :=
  if pool.protocol = .v2 then sample.price.isSome = reports arith pool row
  else sample.sqrt = EventRow.sqrt row

theorem bare_listed (id : EventId) (row : EventRow) (poolId : PoolId)
    (found : events.get id = some row) (pooled : row.terms.poolId = some poolId) :
    bare row ∈ poolRows events poolId :=
  (mem_poolRows _ _ _).mpr ⟨(id, row), (get_some _ _ _).mp found, rfl, pooled⟩

theorem sample_sound (sampled : Sampled arith events pools waiting tables.samples
      tables.reserveSamples) (id : PoolId) (pool : PoolRow) (known : pools.get id = some pool)
    (order : Order) (sample : PoolSample)
    (found : sampleAtOrBefore arith events tables id pool order = some sample) :
    ∃ row ∈ poolRows events id, quotes pool row = true ∧ EventRow.order row ≤ order ∧
      Finds arith pool row sample := by
  unfold sampleAtOrBefore at found
  split at found
  · split at found
    · rename_i v2
      obtain ⟨best, picked, rfl⟩ := Option.map_eq_some_iff.mp found
      obtain ⟨inside, chosen⟩ := List.mem_filter.mp (List.argmax_mem picked)
      obtain ⟨entry, stored, rfl⟩ := List.mem_map.mp inside
      simp only [Bool.and_eq_true, decide_eq_true_eq] at chosen
      obtain ⟨row, home, there, pooled, named, placed, own, priced⟩ := sampled.paired entry stored
      rw [chosen.1] at pooled named
      obtain rfl : pool = home := Option.some.inj (known.symm.trans named)
      refine ⟨bare row, bare_listed _ _ _ there pooled, ?_, placed ▸ chosen.2, ?_⟩
      · simp [quotes, v2, own]
      · simp [Finds, v2, reports, own, priced]
    · rename_i v3
      obtain ⟨best, picked, rfl⟩ := Option.map_eq_some_iff.mp found
      obtain ⟨inside, chosen⟩ := List.mem_filter.mp (List.argmax_mem picked)
      obtain ⟨entry, stored, rfl⟩ := List.mem_map.mp inside
      simp only [Bool.and_eq_true, decide_eq_true_eq] at chosen
      obtain ⟨row, there, pooled, placed, own⟩ := sampled.known entry stored
      refine ⟨bare row, bare_listed _ _ _ there (chosen.1 ▸ pooled), ?_, placed ▸ chosen.2, ?_⟩
      · simp [quotes, v3, own]
      · simp [Finds, v3, own]
  · obtain ⟨row, picked, rfl⟩ := Option.map_eq_some_iff.mp found
    obtain ⟨inside, early⟩ := List.mem_filter.mp (List.argmax_mem picked)
    obtain ⟨stored, chosen⟩ := List.mem_filter.mp inside
    obtain ⟨entry, there, rfl⟩ := List.mem_map.mp stored
    simp only [Bool.and_eq_true, decide_eq_true_eq] at chosen
    refine ⟨bare entry.2, (mem_poolRows _ _ _).mpr ⟨entry, there, rfl, chosen.1⟩, chosen.2,
      of_decide_eq_true early, ?_⟩
    by_cases v2 : pool.protocol = .v2
    · obtain ⟨pair, own⟩ := Option.isSome_iff_exists.mp (by simpa [v2] using chosen.2)
      simp [Finds, v2, reports, own]
    · simp [Finds, v2]

theorem sample_none (sampled : Sampled arith events pools waiting tables.samples
      tables.reserveSamples) (id : PoolId) (pool : PoolRow) (known : pools.get id = some pool)
    (order : Order)
    (unquoted : ∀ row ∈ poolRows events id, EventRow.order row ≤ order → quotes pool row = false) :
    sampleAtOrBefore arith events tables id pool order = none := by
  cases found : sampleAtOrBefore arith events tables id pool order with
  | none => rfl
  | some sample =>
    obtain ⟨row, member, quoted, early, -⟩ := sample_sound sampled id pool known order sample found
    rw [unquoted row member early] at quoted
    cases quoted

structure Last (pool : PoolRow) (rows : List EventRow) (order : Order) (row : EventRow) : Prop where
  there : row ∈ rows
  quoted : quotes pool row = true
  early : EventRow.order row ≤ order
  unquoted : ∀ other ∈ rows, EventRow.order row < EventRow.order other →
    EventRow.order other ≤ order → quotes pool other = false

instance (pool : PoolRow) (rows : List EventRow) (order : Order) (good : EventRow → Prop)
    [DecidablePred good] : Decidable (∃ row ∈ rows, Last pool rows order row ∧ good row) :=
  decidable_of_iff (∃ row ∈ rows, (quotes pool row = true ∧ EventRow.order row ≤ order ∧
      ∀ other ∈ rows, EventRow.order row < EventRow.order other → EventRow.order other ≤ order →
        quotes pool other = false) ∧ good row)
    ⟨fun ⟨row, there, last, fits⟩ => ⟨row, there, ⟨there, last.1, last.2.1, last.2.2⟩, fits⟩,
      fun ⟨row, there, last, fits⟩ => ⟨row, there, ⟨last.quoted, last.early, last.unquoted⟩, fits⟩⟩

theorem Last.latest {pool : PoolRow} {rows : List EventRow} {order : Order} {row : EventRow}
    (last : Last pool rows order row) (other : EventRow) (member : other ∈ rows)
    (quoted : quotes pool other = true) (early : EventRow.order other ≤ order) :
    EventRow.order other ≤ EventRow.order row := by
  by_contra later
  rw [last.unquoted other member (not_le.mp later) early] at quoted
  cases quoted

def Ready (events : Events) (waiting : List EventId) (pool : PoolRow) (id : PoolId) (order : Order) :
    Prop :=
  ∀ entry ∈ events.entries, entry.2.terms.poolId = some id → EventRow.order entry.2 ≤ order →
    quotes pool entry.2 = true → entry.1 ∉ waiting

section Lookup

variable (sampled : Sampled arith events pools waiting tables.samples tables.reserveSamples)
  (id : PoolId) (pool : PoolRow) (known : pools.get id = some pool) (order : Order)
  (apart : Apart (poolRows events id)) (row : EventRow)
  (last : Last pool (poolRows events id) order row) (ready : Ready events waiting pool id order)

include sampled known apart last ready

theorem latest_reserves (v2 : pool.protocol = .v2) :
    ∃ sample, latest ReserveSample.order ((tables.reserveSamples.entries.map Prod.snd).filter
        fun row => row.pool = id && row.order ≤ order) = some sample ∧
      EventRow.reserves row = some (sample.reserve0, sample.reserve1) ∧
        sample.price = arith.reserveRatio pool sample.reserve0 sample.reserve1 := by
  obtain ⟨entry, stored, rfl, pooled⟩ := (mem_poolRows _ _ _).mp last.there
  have found := (get_some _ _ _).mpr stored
  have own : (EventRow.reserves entry.2).isSome := by simpa [quotes, v2] using last.quoted
  obtain ⟨sample, there⟩ := Option.isSome_iff_exists.mp (sampled.reserved entry.1 entry.2 id pool
    found pooled known v2 own (ready entry stored pooled last.early last.quoted))
  have listed := (get_some _ _ _).mp there
  obtain ⟨other, _, same, owner, -, placed, -⟩ := sampled.paired (entry.1, sample) listed
  obtain rfl : entry.2 = other := Option.some.inj (found.symm.trans same)
  apply latest_stands ReserveSample.order _ (poolRows events id)
    (fun sample event => EventRow.reserves event = some (sample.reserve0, sample.reserve1) ∧
      sample.price = arith.reserveRatio pool sample.reserve0 sample.reserve1) apart
  · intro sample member
    obtain ⟨inside, chosen⟩ := List.mem_filter.mp member
    obtain ⟨entry, stored, rfl⟩ := List.mem_map.mp inside
    simp only [Bool.and_eq_true, decide_eq_true_eq] at chosen
    obtain ⟨other, home, found, pooled, named, placed, own, priced⟩ := sampled.paired entry stored
    rw [chosen.1] at pooled named
    obtain rfl : pool = home := Option.some.inj (known.symm.trans named)
    exact ⟨bare other, bare_listed _ _ _ found pooled, ⟨own, priced⟩, placed⟩
  · exact last.there
  · have home : sample.pool = id := Option.some.inj (owner.symm.trans pooled)
    have low : sample.order ≤ order := placed ▸ last.early
    refine ⟨sample, List.mem_filter.mpr ⟨List.mem_map_of_mem (f := Prod.snd) listed, ?_⟩, placed.symm⟩
    simp [home, low]
  · rintro other member ⟨sample, inside, ⟨own, -⟩, same⟩
    have low := (List.mem_filter.mp inside).2
    simp only [Bool.and_eq_true, decide_eq_true_eq] at low
    exact last.latest other member (by simp [quotes, v2, own]) (same ▸ low.2)

theorem latest_sample (v3 : pool.protocol ≠ .v2) :
    ∃ sample, latest Sample.order ((tables.samples.entries.map Prod.snd).filter
        fun row => row.pool = id && row.order ≤ order) = some sample ∧
      EventRow.sqrt row = some sample.sqrt := by
  obtain ⟨entry, stored, rfl, pooled⟩ := (mem_poolRows _ _ _).mp last.there
  have found := (get_some _ _ _).mpr stored
  have own : (EventRow.sqrt entry.2).isSome := by simpa [quotes, v3] using last.quoted
  obtain ⟨sample, there⟩ := Option.isSome_iff_exists.mp (sampled.sampled entry.1 entry.2 id found
    pooled (by rw [known]; rfl) own (ready entry stored pooled last.early last.quoted))
  have listed := (get_some _ _ _).mp there
  obtain ⟨other, same, owner, placed, -⟩ := sampled.known (entry.1, sample) listed
  obtain rfl : entry.2 = other := Option.some.inj (found.symm.trans same)
  apply latest_stands Sample.order _ (poolRows events id)
    (fun sample event => EventRow.sqrt event = some sample.sqrt) apart
  · intro sample member
    obtain ⟨inside, chosen⟩ := List.mem_filter.mp member
    obtain ⟨entry, stored, rfl⟩ := List.mem_map.mp inside
    simp only [Bool.and_eq_true, decide_eq_true_eq] at chosen
    obtain ⟨other, found, pooled, placed, own⟩ := sampled.known entry stored
    exact ⟨bare other, bare_listed _ _ _ found (chosen.1 ▸ pooled), own, placed⟩
  · exact last.there
  · have home : sample.pool = id := Option.some.inj (owner.symm.trans pooled)
    have low : sample.order ≤ order := placed ▸ last.early
    refine ⟨sample, List.mem_filter.mpr ⟨List.mem_map_of_mem (f := Prod.snd) listed, ?_⟩, placed.symm⟩
    simp [home, low]
  · rintro other member ⟨sample, inside, own, same⟩
    have low := (List.mem_filter.mp inside).2
    simp only [Bool.and_eq_true, decide_eq_true_eq] at low
    exact last.latest other member (by simp [quotes, v3, own]) (same ▸ low.2)

omit sampled known ready in
theorem latest_event :
    ∃ found, latest EventRow.order ((sampleEvents events id pool).filter
      fun row => EventRow.order row ≤ order) = some found ∧ bare found = row := by
  obtain ⟨entry, stored, rfl, pooled⟩ := (mem_poolRows _ _ _).mp last.there
  apply latest_stands EventRow.order _ (poolRows events id) (fun row event => bare row = event) apart
  · intro row member
    obtain ⟨inside, -⟩ := List.mem_filter.mp member
    obtain ⟨there, chosen⟩ := List.mem_filter.mp inside
    obtain ⟨entry, stored, rfl⟩ := List.mem_map.mp there
    simp only [Bool.and_eq_true, decide_eq_true_eq] at chosen
    exact ⟨bare entry.2, (mem_poolRows _ _ _).mpr ⟨entry, stored, rfl, chosen.1⟩, rfl, rfl⟩
  · exact last.there
  · have quoted : quotes pool entry.2 = true := last.quoted
    have there : entry.2 ∈ sampleEvents events id pool := by
      refine List.mem_filter.mpr ⟨List.mem_map_of_mem (f := Prod.snd) stored, ?_⟩
      rw [quotes] at quoted
      rw [decide_eq_true pooled, quoted]
      rfl
    exact ⟨entry.2, List.mem_filter.mpr ⟨there, decide_eq_true last.early⟩, rfl⟩
  · rintro other member ⟨row, inside, rfl, -⟩
    obtain ⟨there, low⟩ := List.mem_filter.mp inside
    have chosen := (List.mem_filter.mp there).2
    simp only [Bool.and_eq_true] at chosen
    exact last.latest (bare row) member chosen.2 (of_decide_eq_true low)

theorem sample_latest :
    ∃ sample, sampleAtOrBefore arith events tables id pool order = some sample ∧
      Finds arith pool row sample := by
  unfold sampleAtOrBefore
  split
  · split
    · rename_i v2
      obtain ⟨sample, found, own, priced⟩ :=
        latest_reserves sampled id pool known order apart row last ready v2
      refine ⟨_, by rw [found]; rfl, ?_⟩
      simp [Finds, v2, reports, own, priced]
    · rename_i v3
      obtain ⟨sample, found, own⟩ :=
        latest_sample sampled id pool known order apart row last ready v3
      refine ⟨_, by rw [found]; rfl, ?_⟩
      simp [Finds, v3, own]
  · obtain ⟨event, found, rfl⟩ := latest_event id pool order apart row last
    refine ⟨_, by rw [found]; rfl, ?_⟩
    by_cases v2 : pool.protocol = .v2
    · have quoted : (EventRow.reserves event).isSome := by simpa [quotes, v2] using last.quoted
      obtain ⟨pair, own⟩ := Option.isSome_iff_exists.mp quoted
      have bare_own : EventRow.reserves (bare event) = some pair := own
      simp [Finds, v2, reports, own, bare_own]
    · simp [Finds, v2]

end Lookup

end RhPools.HeadSamples
