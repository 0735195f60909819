import RhPools.HeadSamples

/-! One event reaches the head of its pool. `_state` skips it, or moves the head as the log does
where the price that `_price` found is the one the head carries on. -/

namespace RhPools.HeadSteps
open OrderedTables MarketTables MarketStore ActivityBuckets PriceMarks LateEntries PoolHeads
  HeadSamples

variable (arith : Arithmetic)

/-- What `_state` makes of the head. -/
def settle (event : Known) (ratio : Ratio) (head : Option Head) : Option Head :=
  if head.any fun head => event.order < head.order then head
  else if ratio.sqrt.isNone && !(event.pool.protocol = .v2 && ratio.ratio.isSome) then head
  else
    let row := event.row
    let tick := (row.terms.quantity .tick).or (match head with
      | some head => head.tick
      | none => (arith.before row).tick)
    let kept := match head with
      | some head => head.liquidity
      | none => (arith.before row).liquidity
    some ⟨event.order, ratio.sqrt, tick, (row.terms.quantity .liquidity).or (kept.map fun liquidity =>
      if head.all fun head => head.order < event.order then moved row tick liquidity
      else liquidity)⟩

theorem newState_head (event : Known) (ratio : Ratio) (valuation : Valuation)
    (old : Option PoolState) :
    ((newState arith event ratio valuation old).or old).map headOf =
      settle arith event ratio (old.map headOf) := by
  cases old with
  | none =>
    simp only [newState, settle, Option.any_none, Option.map_none, Bool.false_eq_true, if_false]
    split
    · rfl
    · rfl
  | some state =>
    simp only [newState, settle, Option.any_some, Option.map_some, headOf, decide_eq_true_eq]
    split
    · rfl
    · split
      · rfl
      · rfl

variable {arith} {events : Events} {pools : OrderedTable PoolId PoolRow} {waiting : List EventId}
  {tables : PriceTables}

def Plain (arith : Arithmetic) (pool : PoolRow) (row : EventRow) : Prop :=
  pool.protocol = .v2 → EventRow.sqrt row = none ∧ row.terms.quantity .tick = none ∧
    row.terms.quantity .liquidity = none ∧ (arith.before row).tick = none ∧
      (arith.before row).liquidity = none

instance (arith : Arithmetic) (pool : PoolRow) (row : EventRow) : Decidable (Plain arith pool row) :=
  inferInstanceAs (Decidable (_ → _ ∧ _ ∧ _ ∧ _ ∧ _))

def PlainHead (pool : PoolRow) (head : Option Head) : Prop :=
  pool.protocol = .v2 → ∀ top ∈ head, top = ⟨top.order, none, none, none⟩

def Carries (arith : Arithmetic) (pool : PoolRow) (row : EventRow) (head : Option Head)
    (ratio : Ratio) : Prop :=
  if pool.protocol = .v2 then
    ratio.sqrt = EventRow.sqrt row ∧ ratio.ratio.isSome =
      (reports arith pool row || (EventRow.reserves row).isNone && head.isSome)
  else ratio.sqrt = (EventRow.sqrt row).or ((head.bind Head.sqrt).or (arith.before row).sqrt)

variable (event : Known) (ratio : Ratio) (head : Option Head)

theorem settle_advance (plain : Plain arith event.pool event.row) (fits : PlainHead event.pool head)
    (carries : Carries arith event.pool event.row head ratio)
    (behind : reach head < (event.order : WithBot Order)) :
    settle arith event ratio head = advance arith event.pool head (bare event.row) := by
  have passed : (head.any fun head => event.order < head.order) = false := by
    cases head with
    | none => rfl
    | some head => simpa using (WithBot.coe_lt_coe.mp behind).le
  have late : (head.all fun head => head.order < event.order) = true := by
    cases head with
    | none => rfl
    | some head => simpa using WithBot.coe_lt_coe.mp behind
  rw [advance_bare, settle, passed, late]
  by_cases v2 : event.pool.protocol = .v2
  · obtain ⟨sqrt, tick, liquidity, unticked, unfilled⟩ := plain v2
    obtain ⟨unpriced, found⟩ : ratio.sqrt = EventRow.sqrt event.row ∧ ratio.ratio.isSome =
        (reports arith event.pool event.row ||
          (EventRow.reserves event.row).isNone && head.isSome) := by simpa [Carries, v2] using carries
    rw [sqrt] at unpriced
    simp only [advance, v2, if_true, unpriced, found, Bool.false_eq_true, if_false, Option.isNone_none, Bool.true_and, decide_true, tick, liquidity,
      unticked, unfilled]
    by_cases made : (reports arith event.pool event.row ||
        (EventRow.reserves event.row).isNone && head.isSome) = true
    · rw [if_pos made, made]
      cases head with
      | none => rfl
      | some head =>
        rw [fits v2 head rfl]
        rfl
    · rw [if_neg made, Bool.eq_false_iff.mpr made]
      rfl
  · have found : ratio.sqrt = (EventRow.sqrt event.row).or
        ((head.bind Head.sqrt).or (arith.before event.row).sqrt) := by
      simpa [Carries, v2] using carries
    simp only [advance, v2, if_false, found, Bool.false_eq_true, decide_false,
      Bool.false_and, Bool.not_false, Bool.and_true]
    cases (EventRow.sqrt event.row).or ((head.bind Head.sqrt).or (arith.before event.row).sqrt) with
    | none => rfl
    | some sqrt => rfl

/-- Samples tell the price of the event: there is one from a price it follows, or none before it. -/
def Found (arith : Arithmetic) (pool : PoolRow) (rows : List EventRow) (row : EventRow) : Prop :=
  quotes pool row = true ∨
    (∃ last ∈ rows, Last pool rows (EventRow.order row) last ∧ reports arith pool last = true) ∨
      ∀ other ∈ rows, EventRow.order other < EventRow.order row → opens arith pool other = false

instance (arith : Arithmetic) (pool : PoolRow) (rows : List EventRow) (row : EventRow) :
    Decidable (Found arith pool rows row) :=
  inferInstanceAs (Decidable (_ ∨ _ ∨ _))

theorem ratioOf_quoted (state : Option PoolState) (id : PoolId) (pool : PoolRow) (row : EventRow)
    (head : Option Head) (quoted : quotes pool row = true) :
    Carries arith pool row head (ratioOf arith events tables state id pool row) := by
  by_cases v2 : pool.protocol = .v2
  · obtain ⟨pair, own⟩ := Option.isSome_iff_exists.mp (by simpa [quotes, v2] using quoted)
    simp [Carries, ratioOf, reports, v2, own]
  · obtain ⟨sqrt, own⟩ := Option.isSome_iff_exists.mp (by simpa [quotes, v2] using quoted)
    simp [Carries, ratioOf, v2, own]

theorem ratioOf_pair (state : Option PoolState) (id : PoolId) (pool : PoolRow) (row : EventRow)
    (v2 : pool.protocol = .v2) :
    (ratioOf arith events tables state id pool row).sqrt = EventRow.sqrt row := by
  simp only [ratioOf, v2, if_true]
  split
  · rfl
  · split
    · rfl
    · rfl
    · rfl

theorem ratioOf_cached (state : PoolState) (id : PoolId) (pool : PoolRow) (row : EventRow)
    (unquoted : quotes pool row = false) (early : state.order ≤ EventRow.order row)
    (priced : if pool.protocol = .v2 then state.price.isSome = true else state.sqrt.isSome = true) :
    Carries arith pool row (some (headOf state))
      (ratioOf arith events tables (some state) id pool row) := by
  by_cases v2 : pool.protocol = .v2
  · have own : EventRow.reserves row = none := by simpa [quotes, v2] using unquoted
    rw [if_pos v2] at priced
    have kept : (some state).filter (fun state => decide (state.order ≤ EventRow.order row) &&
        state.price.isSome) = some state := by simp [Option.filter, early, priced]
    simp [Carries, ratioOf, reports, v2, own, priced, kept]
  · have own : EventRow.sqrt row = none := by simpa [quotes, v2] using unquoted
    rw [if_neg v2] at priced
    obtain ⟨sqrt, carried⟩ := Option.isSome_iff_exists.mp priced
    have kept : (some state).filter (fun state => decide (state.order ≤ EventRow.order row) &&
        state.sqrt.isSome) = some state := by simp [Option.filter, early, carried]
    simp [Carries, ratioOf, v2, own, carried, headOf, kept]

theorem ratioOf_sample (id : PoolId) (pool : PoolRow) (row : EventRow) (head : Option Head)
    (unquoted : quotes pool row = false) (sample : PoolSample)
    (found : sampleAtOrBefore arith events tables id pool (EventRow.order row) = some sample)
    (same : if pool.protocol = .v2 then sample.price.isSome = head.isSome
      else sample.sqrt = (head.bind Head.sqrt).or (arith.before row).sqrt) :
    Carries arith pool row head (ratioOf arith events tables none id pool row) := by
  by_cases v2 : pool.protocol = .v2
  · have own : EventRow.reserves row = none := by simpa [quotes, v2] using unquoted
    rw [if_pos v2] at same
    simp [Carries, ratioOf, reports, v2, own, found, same]
  · have own : EventRow.sqrt row = none := by simpa [quotes, v2] using unquoted
    rw [if_neg v2] at same
    simp [Carries, ratioOf, v2, own, found, same]

theorem ratioOf_none (id : PoolId) (pool : PoolRow) (row : EventRow)
    (unquoted : quotes pool row = false)
    (found : sampleAtOrBefore arith events tables id pool (EventRow.order row) = none) :
    Carries arith pool row none (ratioOf arith events tables none id pool row) := by
  by_cases v2 : pool.protocol = .v2
  · have own : EventRow.reserves row = none := by simpa [quotes, v2] using unquoted
    simp [Carries, ratioOf, reports, v2, own, found]
  · have own : EventRow.sqrt row = none := by simpa [quotes, v2] using unquoted
    simp [Carries, ratioOf, v2, own, found]

structure Placed (rows entries : List EventRow) (row : EventRow) : Prop where
  apart : Apart rows
  there : bare row ∈ rows
  inside : ∀ other ∈ entries, other ∈ rows
  unlike : ∀ other ∈ entries, EventRow.order other ≠ EventRow.order row
  before : ∀ other ∈ rows, EventRow.order other < EventRow.order row → other ∈ entries

theorem Placed.applied {rows entries : List EventRow} {row : EventRow} {pool : PoolRow}
    (placed : Placed rows entries row) (unquoted : quotes pool row = false) (other : EventRow)
    (member : other ∈ rows) (quoted : quotes pool other = true)
    (early : EventRow.order other ≤ EventRow.order row) : other ∈ entries := by
  rcases early.lt_or_eq with less | same
  · exact placed.before other member less
  · rw [placed.apart.eq member placed.there same, quotes_bare, unquoted] at quoted
    cases quoted

section Price

variable (id : PoolId) (pool : PoolRow) (known : pools.get id = some pool)
  (sampled : Sampled arith events pools waiting tables.samples tables.reserveSamples)
  (entries : List EventRow) (nodup : entries.Nodup) (row : EventRow)
  (placed : Placed (poolRows events id) entries row)

include known sampled nodup placed

theorem carries_none (unquoted : quotes pool row = false)
    (folded : (poolLog arith pool).history entries = none) :
    Carries arith pool row none (ratioOf arith events tables none id pool row) := by
  have distinct : (poolLog arith pool).Distinct entries := placed.apart.subset nodup placed.inside
  cases found : sampleAtOrBefore arith events tables id pool (EventRow.order row) with
  | none => exact ratioOf_none id pool row unquoted found
  | some sample =>
    obtain ⟨other, member, quoted, early, finds⟩ :=
      sample_sound sampled id pool known _ sample found
    have applied := placed.applied unquoted other member quoted early
    by_cases v2 : pool.protocol = .v2
    · apply ratioOf_sample id pool row none unquoted sample found
      have marks := marks_history v2 entries distinct
      rw [folded] at marks
      simp only [Finds, v2, if_true] at finds ⊢
      rw [finds, marks other applied]
      rfl
    · have tells := tells_history v2 entries distinct
      rw [folded] at tells
      have closed := tells other applied
      simp only [quotes, v2, if_false] at quoted
      rw [opens_sqrt v2, quoted] at closed
      cases closed

theorem carries (forward : Bool) (state : Option PoolState)
    (folded : state.map headOf = (poolLog arith pool).history entries)
    (behind : reach (state.map headOf) < (EventRow.order row : WithBot Order))
    (priced : pool.protocol = .v2 → ∀ top ∈ state, top.price.isSome = true)
    (found : forward = true ∨ Found arith pool (poolRows events id) row)
    (ready : forward = false → quotes pool row = false →
      Ready events waiting pool id (EventRow.order row)) :
    Carries arith pool row (state.map headOf)
      (ratioOf arith events tables (if forward then state else none) id pool row) := by
  have distinct : (poolLog arith pool).Distinct entries := placed.apart.subset nodup placed.inside
  cases unquoted : quotes pool row with
  | true => exact ratioOf_quoted _ id pool row _ unquoted
  | false =>
    cases state with
    | none =>
      rw [ite_self]
      exact carries_none id pool known sampled entries nodup row placed unquoted folded.symm
    | some top =>
      have low : top.order < EventRow.order row := WithBot.coe_lt_coe.mp behind
      cases forward with
      | true =>
        apply ratioOf_cached top id pool row unquoted low.le
        split
        · rename_i v2
          exact priced v2 top rfl
        · rename_i v3
          have tells := tells_history v3 entries distinct
          rw [← folded] at tells
          exact tells.priced
      | false =>
        -- The head was opened by an event before this one.
        obtain ⟨first, applied, opened, begun⟩ : ∃ first ∈ entries,
            opens arith pool first = true ∧ EventRow.order first < EventRow.order row := by
          by_cases v2 : pool.protocol = .v2
          · have marks := marks_history v2 entries distinct
            rw [← folded] at marks
            obtain ⟨first, member, reported, early⟩ := marks.opened
            exact ⟨first, member, by simp [opens, reported], early.trans_lt low⟩
          · have tells := tells_history v2 entries distinct
            rw [← folded] at tells
            obtain ⟨first, member, opened⟩ := tells.opened
            exact ⟨first, member, opened, (tells.newest first member).trans_lt low⟩
        rcases found.resolve_left (by simp) with quoted | ⟨last, -, there, reported⟩ | closed
        · rw [unquoted] at quoted
          cases quoted
        · obtain ⟨sample, sampled_, finds⟩ := sample_latest sampled id pool known
            (EventRow.order row) placed.apart last there (ready rfl unquoted)
          apply ratioOf_sample id pool row _ unquoted sample sampled_
          have member := placed.applied unquoted last there.there there.quoted there.early
          split
          · rename_i v2
            rw [Finds, if_pos v2] at finds
            rw [finds, reported]
            rfl
          · rename_i v3
            have tells := tells_history v3 entries distinct
            rw [← folded] at tells
            have own : (EventRow.sqrt last).isSome := by
              simpa [quotes, v3] using there.quoted
            have same := tells.sqrt last member own fun other inside later => by
              have quiet := there.unquoted other (placed.inside other inside) later
                ((tells.newest other inside).trans low.le)
              simpa [quotes, v3] using quiet
            rw [Finds, if_neg v3] at finds
            rw [finds, ← same]
            exact (Option.or_of_isSome tells.priced).symm
        · rw [closed first (placed.inside first applied) begun] at opened
          cases opened

end Price

theorem settle_late (late : (event.order : WithBot Order) < reach head) :
    settle arith event ratio head = head := by
  cases head with
  | none => exact absurd late not_lt_bot
  | some head =>
    have passed : event.order < head.order := WithBot.coe_lt_coe.mp late
    simp [settle, passed]

theorem reported_quoted (row : EventRow) (pool : PoolRow) (reported : reports arith pool row = true) :
    quotes pool row = true := by
  by_cases v2 : pool.protocol = .v2
  · simp only [reports, quotes, v2, if_true] at reported ⊢
    obtain ⟨pair, found, -⟩ := (Option.any_eq_true _ _).mp reported
    rw [found]
    rfl
  · simpa [reports, quotes, v2] using reported

theorem settle_steps (plain : Plain arith event.pool event.row) (fits : PlainHead event.pool head)
    (own : quotes event.pool event.row = true → Carries arith event.pool event.row head ratio) :
    (poolLog arith event.pool).Steps head (bare event.row) (settle arith event ratio head) := by
  constructor
  · exact settle_late event ratio head
  · unfold settle
    split
    · exact .inl rfl
    · split
      · exact .inl rfl
      · exact .inr rfl
  · intro whole behind
    exact settle_advance event ratio head plain fits
      (own (reported_quoted event.row event.pool whole.1)) behind

theorem settle_arrives (entries : List EventRow) (head : Option Head)
    (plain : Plain arith event.pool event.row) (fits : PlainHead event.pool head)
    (unlike : ∀ other ∈ entries, EventRow.order other ≠ event.order)
    (folded : head = (poolLog arith event.pool).history entries)
    (carries : reach head < (event.order : WithBot Order) →
      Carries arith event.pool event.row head ratio) :
    settle arith event ratio head = (poolLog arith event.pool).arrive head (bare event.row) := by
  unfold Log.arrive
  split
  · rename_i late
    exact settle_late event ratio head late
  · rename_i here
    have behind : reach head < (event.order : WithBot Order) := by
      refine lt_of_le_of_ne (not_lt.mp here) ?_
      intro same
      rw [folded, Log.history] at same
      rcases foldl_moves (poolLog arith event.pool) none
        ((poolLog arith event.pool).sort entries) with still | ⟨other, member, reached⟩
      · rw [show ((poolLog arith event.pool).sort entries).foldl _
          (poolLog arith event.pool).start = none from still] at same
        cases same
      · exact unlike other ((mem_sort entries other).mp member)
          (WithBot.coe_inj.mp (reached.symm.trans same))
    exact settle_advance event ratio head plain fits (carries behind) behind

end RhPools.HeadSteps
