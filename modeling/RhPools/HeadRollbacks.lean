import RhPools.HeadLoops

/-! Rollbacks of heads. A head above the ancestor is rebuilt from the last surviving event that
brings a price, and those behind it are applied once more; the others stay as they are. -/

namespace RhPools.HeadRollbacks
open OrderedTables MarketTables MarketStore ActivityBuckets PriceMarks LateEntries PoolHeads
  HeadSamples HeadSteps HeadLoops

variable {arith : Arithmetic} {events : Events} {pools : OrderedTable PoolId PoolRow}

def stayRows (events : Events) (id : PoolId) (ancestor : Int) : List EventRow :=
  (poolRows events id).filter fun row => row.place.blockNumber ≤ ancestor

/-- The head can be rebuilt: no price is left, or the last event that brings one reports everything
that was told before it. -/
def Rebuilt (arith : Arithmetic) (pool : PoolRow) (rows : List EventRow) : Prop :=
  (∀ row ∈ rows, opens arith pool row = false) ∨
    ∃ base ∈ rows, rebuilds base = true ∧
      (∀ other ∈ rows, EventRow.order base < EventRow.order other → rebuilds other = false) ∧
        if pool.protocol = .v2 then
          (reports arith pool base = true ∨ EventRow.reserves base = none ∧
            ∃ last ∈ rows, Last pool rows (EventRow.order base) last ∧
              reports arith pool last = true) ∧
            ∀ row ∈ rows, (∀ other ∈ rows, EventRow.order other ≤ EventRow.order row) →
              quotes pool row = true → reports arith pool row = true
        else (EventRow.sqrt base).isSome ∧ (Whole arith pool base ∨
          ∀ other ∈ rows, EventRow.order other < EventRow.order base →
            opens arith pool other = false)

instance (pool : PoolRow) (rows : List EventRow) : Decidable (Rebuilt arith pool rows) :=
  inferInstanceAs (Decidable (_ ∨ _))

theorem writeState_get (event : Known) (ratio : Ratio) (valuation : Valuation)
    (states : OrderedTable PoolId PoolState) (id : PoolId) :
    (writeState arith event ratio valuation states).get id =
      if id = event.poolId then
        (newState arith event ratio valuation (states.get event.poolId)).or (states.get event.poolId)
      else states.get id := by
  unfold writeState
  cases newState arith event ratio valuation (states.get event.poolId) with
  | none =>
    dsimp only
    split
    · rename_i same
      rw [same]
      rfl
    · rfl
  | some state => exact get_put states event.poolId id state

theorem writeState_head (event : Known) (ratio : Ratio) (valuation : Valuation)
    (states : OrderedTable PoolId PoolState) (id : PoolId) :
    ((writeState arith event ratio valuation states).get id).map headOf =
      if id = event.poolId then settle arith event ratio ((states.get event.poolId).map headOf)
      else (states.get id).map headOf := by
  rw [writeState_get, ← newState_head arith event ratio valuation]
  split
  · rfl
  · rfl

theorem foldl_writeState (ratio : Ratio) (id : PoolId) (pool : PoolRow) (following : Delivered)
    (states : OrderedTable PoolId PoolState) (other : PoolId) :
    ((following.foldl (fun states entry =>
        writeState arith ⟨entry.1, entry.2, id, pool⟩ ratio entry.2.valuation states) states).get
          other).map headOf =
      if other = id then following.foldl (fun head entry =>
        settle arith ⟨entry.1, entry.2, id, pool⟩ ratio head) ((states.get id).map headOf)
      else (states.get other).map headOf := by
  induction following generalizing states with
  | nil =>
    split
    · rename_i same
      rw [same]
      rfl
    · rfl
  | cons entry rest ih =>
    rw [List.foldl_cons, ih, List.foldl_cons]
    by_cases same : other = id
    · rw [if_pos same, if_pos same, writeState_head, if_pos rfl]
    · rw [if_neg same, if_neg same, writeState_head, if_neg same]

theorem history_unopened {pool : PoolRow} (rows : List EventRow) (apart : Apart rows)
    (closed : ∀ row ∈ rows, opens arith pool row = false) : (poolLog arith pool).history rows = none := by
  cases folded : (poolLog arith pool).history rows with
  | none => rfl
  | some head =>
    obtain ⟨row, member, opened⟩ : ∃ row ∈ rows, opens arith pool row = true := by
      by_cases v2 : pool.protocol = .v2
      · have marks : Marks arith pool rows ((poolLog arith pool).history rows) :=
          marks_history v2 rows apart
        rw [folded] at marks
        obtain ⟨row, member, reported, -⟩ := marks.opened
        exact ⟨row, member, by simp [opens, reported]⟩
      · have tells : Tells arith pool rows ((poolLog arith pool).history rows) :=
          tells_history v2 rows apart
        rw [folded] at tells
        exact tells.opened
    rw [closed row member] at opened
    cases opened

theorem history_pair {pool : PoolRow} (v2 : pool.protocol = .v2) (rows : List EventRow)
    (apart : Apart rows) (top : EventRow) (member : top ∈ rows)
    (newest : ∀ row ∈ rows, EventRow.order row ≤ EventRow.order top) (first : EventRow)
    (inside : first ∈ rows) (reported : reports arith pool first = true)
    (priced : quotes pool top = true → reports arith pool top = true) :
    (poolLog arith pool).history rows = some ⟨EventRow.order top, none, none, none⟩ := by
  have distinct : (poolLog arith pool).Distinct rows := apart
  let before := rows.filter fun other => EventRow.order other < EventRow.order top
  have marks : Marks arith pool before ((poolLog arith pool).history before) :=
    marks_history v2 before (distinct.filter _)
  have split : (poolLog arith pool).history rows =
      advance arith pool ((poolLog arith pool).history before) top :=
    history_newest rows distinct top member newest
  have carried : (reports arith pool top || (EventRow.reserves top).isNone &&
      ((poolLog arith pool).history before).isSome) = true := by
    cases quoted : quotes pool top with
    | true => rw [priced quoted, Bool.true_or]
    | false =>
      have early : EventRow.order first < EventRow.order top := by
        apply lt_of_le_of_ne (newest first inside)
        intro same
        rw [apart.eq inside member same] at reported
        rw [reported_quoted top pool reported] at quoted
        cases quoted
      have absent : EventRow.reserves top = none := by simpa [quotes, v2] using quoted
      rw [absent]
      cases folded : (poolLog arith pool).history before with
      | some head => simp
      | none =>
        rw [folded] at marks
        rw [marks first (List.mem_filter.mpr ⟨inside, decide_eq_true early⟩)] at reported
        cases reported
  rw [split]
  unfold advance
  rw [if_pos v2, if_pos carried]

theorem settle_following (ratio : Ratio) (id : PoolId) (pool : PoolRow)
    (v3 : pool.protocol ≠ .v2) (following : Delivered) (head : Head)
    (sorted : following.Pairwise fun left right =>
      EventRow.order left.2 < EventRow.order right.2)
    (behind : ∀ entry ∈ following, head.order < EventRow.order entry.2)
    (unpriced : ∀ entry ∈ following, EventRow.sqrt entry.2 = none)
    (priced : ratio.sqrt.isSome) (same : head.sqrt = ratio.sqrt) :
    following.foldl (fun head entry => settle arith ⟨entry.1, entry.2, id, pool⟩ ratio head)
        (some head) =
      (following.map fun entry => bare entry.2).foldl (advance arith pool) (some head) := by
  induction following generalizing head with
  | nil => rfl
  | cons entry rest ih =>
    obtain ⟨after, sorted⟩ := List.pairwise_cons.mp sorted
    let event : Known := ⟨entry.1, entry.2, id, pool⟩
    have own := unpriced entry List.mem_cons_self
    obtain ⟨sqrt, some_⟩ := Option.isSome_iff_exists.mp priced
    have carries : Carries arith event.pool event.row (some head) ratio := by
      rw [Carries, if_neg v3]
      change _ = (EventRow.sqrt entry.2).or (head.sqrt.or _)
      rw [own, same, some_]
      rfl
    have step : settle arith event ratio (some head) = advance arith pool (some head) (bare entry.2) :=
      settle_advance event ratio (some head) (fun v2 => absurd v2 v3) (fun v2 => absurd v2 v3)
        carries (WithBot.coe_lt_coe.mpr (behind entry List.mem_cons_self))
    rw [List.foldl_cons, List.map_cons, List.foldl_cons, step]
    have next : advance arith pool (some head) (bare entry.2) =
        some ⟨EventRow.order entry.2, some sqrt,
          (entry.2.terms.quantity .tick).or head.tick,
          (entry.2.terms.quantity .liquidity).or (head.liquidity.map (moved entry.2
            ((entry.2.terms.quantity .tick).or head.tick)))⟩ := by
      rw [advance_bare]
      simp [advance, v3, own, same, some_]
    rw [next]
    apply ih
    · exact sorted
    · exact fun other member => after other member
    · exact fun other member => unpriced other (List.mem_cons_of_mem entry member)
    · exact some_.symm

variable (arith) in
theorem settle_unpriced (ratio : Ratio) (id : PoolId) (pool : PoolRow) (unpriced : ratio.sqrt = none)
    (silent : pool.protocol = .v2 → ratio.ratio = none) (following : Delivered)
    (head : Option Head) :
    following.foldl (fun head entry => settle arith ⟨entry.1, entry.2, id, pool⟩ ratio head)
      head = head := by
  induction following with
  | nil => rfl
  | cons entry rest ih =>
    have still : settle arith ⟨entry.1, entry.2, id, pool⟩ ratio head = head := by
      unfold settle
      split
      · rfl
      · by_cases v2 : pool.protocol = .v2
        · simp [unpriced, silent v2]
        · simp [unpriced, v2]
    rw [List.foldl_cons, still, ih]

variable (arith) in
theorem settle_pairs (ratio : Ratio) (id : PoolId) (pool : PoolRow) (v2 : pool.protocol = .v2)
    (unpriced : ratio.sqrt = none) (valued : ratio.ratio.isSome) (events : Delivered)
    (head : Option Head) (fits : PlainHead pool head)
    (plain : ∀ entry ∈ events, Plain arith pool entry.2)
    (sorted : events.Pairwise fun left right => EventRow.order left.2 < EventRow.order right.2)
    (behind : ∀ entry ∈ events, reach head < (EventRow.order entry.2 : WithBot Order)) :
    events.foldl (fun head entry => settle arith ⟨entry.1, entry.2, id, pool⟩ ratio head) head =
      (events.getLast?.map fun last => (⟨EventRow.order last.2, none, none, none⟩ : Head)).or head := by
  induction events generalizing head with
  | nil => rfl
  | cons entry rest ih =>
    obtain ⟨after, sorted⟩ := List.pairwise_cons.mp sorted
    obtain ⟨-, tick, liquidity, unticked, unfilled⟩ := plain entry List.mem_cons_self v2
    have ahead := behind entry List.mem_cons_self
    have step : settle arith ⟨entry.1, entry.2, id, pool⟩ ratio head =
        some ⟨EventRow.order entry.2, none, none, none⟩ := by
      cases head with
      | none => simp [settle, unpriced, valued, v2, tick, liquidity, unticked, unfilled, Known.order]
      | some head =>
        have late : ¬EventRow.order entry.2 < head.order := (WithBot.coe_lt_coe.mp ahead).not_gt
        rw [fits v2 head rfl]
        simp [settle, unpriced, valued, v2, tick, liquidity, Known.order, late]
    rw [List.foldl_cons, step, ih]
    · cases last : rest.getLast? with
      | none =>
        rw [List.getLast?_eq_none_iff.mp last]
        rfl
      | some other =>
        rw [List.getLast?_cons, last]
        rfl
    · rintro - top same
      exact (Option.some.inj same) ▸ rfl
    · exact fun other member => plain other (List.mem_cons_of_mem entry member)
    · exact sorted
    · exact fun other member => WithBot.coe_lt_coe.mpr (after other member)

theorem block_le {left right : Order} (before : left ≤ right) : left.block ≤ right.block :=
  Prod.Lex.monotone_fst left right before

theorem mem_survivors (id : PoolId) (ancestor : Int) (entry : EventId × EventRow) :
    entry ∈ survivors events id ancestor ↔ entry ∈ events.entries ∧
      entry.2.terms.poolId = some id ∧ entry.2.place.blockNumber ≤ ancestor := by
  rw [survivors, inPriceOrder, List.mem_insertionSort, List.mem_filter]
  simp only [Bool.and_eq_true, decide_eq_true_eq]

def ApartEvents (events : Events) : Prop :=
  events.entries.Pairwise fun left right => EventRow.order left.2 ≠ EventRow.order right.2

instance (events : Events) : Decidable (ApartEvents events) :=
  inferInstanceAs (Decidable (events.entries.Pairwise fun left right =>
    EventRow.order left.2 ≠ EventRow.order right.2))

theorem ApartEvents.eq (apart : ApartEvents events) {left right : EventId × EventRow}
    (first : left ∈ events.entries) (second : right ∈ events.entries)
    (same : EventRow.order left.2 = EventRow.order right.2) : left = right := by
  by_contra unlike
  have : Std.Symm fun left right : EventId × EventRow =>
      EventRow.order left.2 ≠ EventRow.order right.2 := ⟨fun _ _ => Ne.symm⟩
  exact List.Pairwise.forall apart first second unlike same

theorem ApartEvents.rows (apart : ApartEvents events) (id : PoolId) : Apart (poolRows events id) :=
  List.Pairwise.filter _ (List.pairwise_map.mpr apart)

theorem ApartEvents.sorted (apart : ApartEvents events) (part : Delivered)
    (nodup : part.Nodup) (inside : ∀ entry ∈ part, entry ∈ events.entries) :
    (inPriceOrder part).Pairwise fun left right =>
      EventRow.order left.2 < EventRow.order right.2 := by
  have ordered : (inPriceOrder part).Pairwise fun left right =>
      EventRow.order left.2 ≤ EventRow.order right.2 := List.pairwise_insertionSort _ part
  have unlike : (inPriceOrder part).Nodup := (List.perm_insertionSort _ part).nodup_iff.mpr nodup
  refine (ordered.and unlike).imp_of_mem ?_
  intro left right first second both
  apply lt_of_le_of_ne both.1
  intro same
  exact both.2 (apart.eq (inside left ((List.mem_insertionSort _).mp first))
    (inside right ((List.mem_insertionSort _).mp second)) same)

theorem entries_nodup {Key Value : Type} [DecidableEq Key] (table : OrderedTable Key Value) :
    table.entries.Nodup := List.Nodup.of_map _ table.distinct

theorem survivors_sorted (apart : ApartEvents events) (id : PoolId) (ancestor : Int) :
    (survivors events id ancestor).Pairwise fun left right =>
      EventRow.order left.2 < EventRow.order right.2 :=
  apart.sorted _ ((entries_nodup events).filter _) fun _ member => (List.mem_filter.mp member).1

theorem mem_stayRows (id : PoolId) (ancestor : Int) (row : EventRow) :
    row ∈ stayRows events id ancestor ↔
      ∃ entry ∈ survivors events id ancestor, bare entry.2 = row := by
  rw [stayRows, List.mem_filter, mem_poolRows, decide_eq_true_eq]
  constructor
  · rintro ⟨⟨entry, member, rfl, pooled⟩, low⟩
    exact ⟨entry, (mem_survivors id ancestor entry).mpr ⟨member, pooled, low⟩, rfl⟩
  · rintro ⟨entry, member, rfl⟩
    obtain ⟨stored, pooled, low⟩ := (mem_survivors id ancestor entry).mp member
    exact ⟨⟨entry, stored, rfl, pooled⟩, low⟩

theorem history_survivors (apart : ApartEvents events) (pool : PoolRow) (id : PoolId)
    (ancestor : Int) :
    (poolLog arith pool).history (stayRows events id ancestor) =
      ((survivors events id ancestor).map fun entry => bare entry.2).foldl
        (advance arith pool) none := by
  have distinct : (poolLog arith pool).Distinct (stayRows events id ancestor) :=
    (apart.rows id).filter _
  apply history_eq _ _ distinct
  · exact List.pairwise_map.mpr (survivors_sorted apart id ancestor)
  · intro row
    rw [List.mem_map, mem_stayRows]

theorem sorted_split (entries : Delivered)
    (sorted : entries.Pairwise fun left right => EventRow.order left.2 < EventRow.order right.2)
    (base : EventId × EventRow) (member : base ∈ entries) :
    entries = (entries.filter fun other => EventRow.order other.2 < EventRow.order base.2) ++
      base :: entries.filter fun other => EventRow.order base.2 < EventRow.order other.2 := by
  induction entries with
  | nil => exact absurd member List.not_mem_nil
  | cons entry rest ih =>
    obtain ⟨after, sorted⟩ := List.pairwise_cons.mp sorted
    rcases List.mem_cons.mp member with rfl | member
    · have none_ : (rest.filter fun other => EventRow.order other.2 < EventRow.order base.2) = [] :=
        List.filter_eq_nil_iff.mpr fun other inside => by simpa using (after other inside).le
      have all_ : (rest.filter fun other => EventRow.order base.2 < EventRow.order other.2) = rest :=
        List.filter_eq_self.mpr fun other inside => decide_eq_true (after other inside)
      simp [none_, all_]
    · have before := after base member
      rw [List.filter_cons, if_pos (decide_eq_true before), List.filter_cons,
        if_neg (by simpa using before.le), List.cons_append, ← ih sorted member]

section Rebuild

variable (apart : ApartEvents events) (id : PoolId) (pool : PoolRow)
  (known : pools.get id = some pool) (ancestor : Int) (tables : PriceTables) (above : List EventId)
  (sampled : Sampled arith events pools above tables.samples tables.reserveSamples)
  (gone : ∀ entry ∈ events.entries, entry.1 ∈ above → ancestor < entry.2.place.blockNumber)
  (plain : ∀ entry ∈ survivors events id ancestor, Plain arith pool entry.2)
  (base : EventId × EventRow)
  (last : ((survivors events id ancestor).filter fun event => rebuilds event.2).getLast? = some base)

include apart last

theorem base_survives : base ∈ survivors events id ancestor ∧ rebuilds base.2 = true ∧
    ∀ other ∈ survivors events id ancestor, EventRow.order base.2 < EventRow.order other.2 →
      rebuilds other.2 = false := by
  have sorted := (survivors_sorted apart id ancestor).filter fun event => rebuilds event.2
  obtain ⟨front, split⟩ := List.getLast?_eq_some_iff.mp last
  have member : base ∈ (survivors events id ancestor).filter fun event => rebuilds event.2 := by
    rw [split]
    exact List.mem_append_right _ List.mem_cons_self
  obtain ⟨there, brings⟩ := List.mem_filter.mp member
  refine ⟨there, brings, ?_⟩
  intro other inside later
  by_contra also
  have listed : other ∈ (survivors events id ancestor).filter fun event => rebuilds event.2 :=
    List.mem_filter.mpr ⟨inside, by simpa using also⟩
  rw [split] at listed sorted
  rcases List.mem_append.mp listed with before | same
  · exact absurd later ((List.pairwise_append.mp sorted).2.2 other before base List.mem_cons_self).not_gt
  · rw [List.mem_singleton.mp same] at later
    exact lt_irrefl _ later

theorem base_unique (row : EventRow) (member : row ∈ stayRows events id ancestor)
    (brings : rebuilds row = true)
    (none_ : ∀ other ∈ stayRows events id ancestor, EventRow.order row < EventRow.order other →
      rebuilds other = false) : row = bare base.2 := by
  obtain ⟨there, also, later⟩ := base_survives apart id ancestor base last
  obtain ⟨entry, inside, rfl⟩ := (mem_stayRows id ancestor row).mp member
  rcases lt_trichotomy (EventRow.order entry.2) (EventRow.order base.2) with less | same | more
  · have silent : rebuilds base.2 = false :=
      none_ (bare base.2) ((mem_stayRows id ancestor _).mpr ⟨base, there, rfl⟩) less
    rw [silent] at also
    cases also
  · have first := ((mem_survivors id ancestor entry).mp inside).1
    have second := ((mem_survivors id ancestor base).mp there).1
    rw [apart.eq first second same]
  · have silent := later entry inside more
    rw [show rebuilds entry.2 = true from brings] at silent
    cases silent

include sampled known plain

theorem base_unopened
    (closed : ∀ row ∈ stayRows events id ancestor, opens arith pool row = false) :
    (ratioOf arith events tables none id pool base.2).sqrt = none ∧ (pool.protocol = .v2 →
      (ratioOf arith events tables none id pool base.2).ratio = none) := by
  obtain ⟨there, -, -⟩ := base_survives apart id ancestor base last
  have low := ((mem_survivors id ancestor base).mp there).2.2
  -- An event that a lookup finds is a survivor.
  have stays : ∀ row ∈ poolRows events id, EventRow.order row ≤ EventRow.order base.2 →
      opens arith pool row = false := by
    intro row member early
    apply closed row
    exact List.mem_filter.mpr ⟨member, decide_eq_true ((block_le early).trans low)⟩
  have unopened := closed _ ((mem_stayRows id ancestor _).mpr ⟨base, there, rfl⟩)
  by_cases v2 : pool.protocol = .v2
  · have silent : ∀ row, opens arith pool row = false → reports arith pool row = false :=
      fun row closed => (Bool.or_eq_false_iff.mp closed).1
    refine ⟨(ratioOf_pair _ _ _ _ v2).trans (plain base there v2).1, fun _ => ?_⟩
    cases own : EventRow.reserves base.2 with
    | some pair =>
      have unpriced := silent _ unopened
      rw [reports_bare, reports, if_pos v2, own] at unpriced
      simpa [ratioOf, v2, own] using unpriced
    | none =>
      cases found : sampleAtOrBefore arith events tables id pool (EventRow.order base.2) with
      | none => simp [ratioOf, v2, own, found]
      | some sample =>
        obtain ⟨row, member, -, early, finds⟩ :=
          sample_sound sampled id pool known _ sample found
        rw [Finds, if_pos v2, silent row (stays row member early)] at finds
        have unpriced : sample.price = none := by simpa using finds
        simp [ratioOf, v2, own, found, unpriced]
  · refine ⟨?_, fun pair => absurd pair v2⟩
    rw [opens_sqrt v2] at unopened
    obtain ⟨own, brought⟩ := Bool.or_eq_false_iff.mp unopened
    have unquoted : quotes pool base.2 = false := by simpa [quotes, v2] using own
    have unsampled : sampleAtOrBefore arith events tables id pool (EventRow.order base.2) = none := by
      apply sample_none sampled id pool known
      intro row member early
      have quiet := stays row member early
      rw [opens_sqrt v2] at quiet
      simpa [quotes, v2] using (Bool.or_eq_false_iff.mp quiet).1
    have carries : Carries arith pool base.2 none
        (ratioOf arith events tables none id pool base.2) :=
      ratioOf_none id pool base.2 unquoted unsampled
    have absent : EventRow.sqrt base.2 = none := by simpa using own
    have unbrought : (arith.before base.2).sqrt = none :=
      Option.not_isSome_iff_eq_none.mp (Bool.eq_false_iff.mp brought)
    rw [Carries, if_neg v2, absent] at carries
    rw [carries]
    exact unbrought

omit sampled known plain in
theorem survivors_split : survivors events id ancestor =
    ((survivors events id ancestor).filter fun other =>
        EventRow.order other.2 < EventRow.order base.2) ++
      base :: (survivors events id ancestor).filter fun other =>
        EventRow.order base.2 < EventRow.order other.2 :=
  sorted_split _ (survivors_sorted apart id ancestor) base
    (base_survives apart id ancestor base last).1

omit sampled known plain in
theorem history_base : (poolLog arith pool).history (stayRows events id ancestor) =
    (((survivors events id ancestor).filter fun other =>
        EventRow.order base.2 < EventRow.order other.2).map fun entry => bare entry.2).foldl
      (advance arith pool) (advance arith pool
        ((((survivors events id ancestor).filter fun other =>
          EventRow.order other.2 < EventRow.order base.2).map fun entry => bare entry.2).foldl
            (advance arith pool) none) (bare base.2)) := by
  rw [history_survivors apart, survivors_split apart id ancestor base last, List.map_append,
    List.foldl_append, ← survivors_split apart id ancestor base last]
  rfl

omit sampled known plain in
theorem rebuilt_ticks (v3 : pool.protocol ≠ .v2) (own : (EventRow.sqrt base.2).isSome)
    (whole : Whole arith pool base.2 ∨ ∀ other ∈ stayRows events id ancestor,
      EventRow.order other < EventRow.order base.2 → opens arith pool other = false) :
    ((survivors events id ancestor).filter fun other =>
        EventRow.order base.2 < EventRow.order other.2).foldl
      (fun head entry => settle arith ⟨entry.1, entry.2, id, pool⟩
        (ratioOf arith events tables none id pool base.2) head)
      (settle arith ⟨base.1, base.2, id, pool⟩
        (ratioOf arith events tables none id pool base.2) none) =
    (poolLog arith pool).history (stayRows events id ancestor) := by
  have sorted := survivors_sorted apart id ancestor
  have quoted : quotes pool base.2 = true := by simpa [quotes, v3] using own
  have carries : Carries arith pool base.2 none
      (ratioOf arith events tables none id pool base.2) := ratioOf_quoted _ _ _ _ _ quoted
  have first : settle arith ⟨base.1, base.2, id, pool⟩
      (ratioOf arith events tables none id pool base.2) none = advance arith pool none (bare base.2) :=
    settle_advance ⟨base.1, base.2, id, pool⟩ _ none (fun v2 => absurd v2 v3)
      (fun v2 => absurd v2 v3) carries (WithBot.bot_lt_coe _)
  -- What was before the base makes no difference to it.
  have anew : advance arith pool
      ((((survivors events id ancestor).filter fun other =>
        EventRow.order other.2 < EventRow.order base.2).map fun entry => bare entry.2).foldl
          (advance arith pool) none) (bare base.2) = advance arith pool none (bare base.2) := by
    rcases whole with whole | closed
    · exact ((poolLog arith pool).resets (bare base.2) whole _ _).1
    · have ordered : (poolLog arith pool).Sorted
          (((survivors events id ancestor).filter fun other =>
            EventRow.order other.2 < EventRow.order base.2).map fun entry => bare entry.2) :=
        List.pairwise_map.mpr (sorted.filter _)
      have tells := tells_fold v3 _ ordered
      generalize List.foldl (advance arith pool) none _ = head at tells ⊢
      cases head with
      | none => rfl
      | some head =>
        obtain ⟨row, member, opened⟩ := tells.opened
        obtain ⟨entry, inside, rfl⟩ := List.mem_map.mp member
        obtain ⟨stays, before⟩ := List.mem_filter.mp inside
        rw [closed (bare entry.2) ((mem_stayRows id ancestor _).mpr ⟨entry, stays, rfl⟩)
          (of_decide_eq_true before)] at opened
        cases opened
  rw [history_base apart id pool ancestor base last, first, anew]
  rw [Carries, if_neg v3] at carries
  obtain ⟨sqrt, priced⟩ := Option.isSome_iff_exists.mp own
  rw [priced, Option.some_or] at carries
  have head : advance arith pool none (bare base.2) = some ⟨EventRow.order base.2, some sqrt,
      (base.2.terms.quantity .tick).or (arith.before base.2).tick,
      (base.2.terms.quantity .liquidity).or ((arith.before base.2).liquidity.map (moved base.2
        ((base.2.terms.quantity .tick).or (arith.before base.2).tick)))⟩ := by
    rw [advance_bare]
    simp [advance, v3, priced]
  rw [head]
  apply settle_following _ id pool v3
  · exact sorted.filter _
  · exact fun entry member => of_decide_eq_true (List.mem_filter.mp member).2
  · intro entry member
    obtain ⟨stays, behind⟩ := List.mem_filter.mp member
    have silent := (base_survives apart id ancestor base last).2.2 entry stays
      (of_decide_eq_true behind)
    simpa using (Bool.or_eq_false_iff.mp silent).1
  · rw [carries]
    rfl
  · exact carries.symm

include gone

theorem rebuilt_pair (v2 : pool.protocol = .v2)
    (valued : reports arith pool base.2 = true ∨ EventRow.reserves base.2 = none ∧
      ∃ last ∈ stayRows events id ancestor, Last pool (stayRows events id ancestor)
        (EventRow.order base.2) last ∧ reports arith pool last = true)
    (priced : ∀ row ∈ stayRows events id ancestor,
      (∀ other ∈ stayRows events id ancestor, EventRow.order other ≤ EventRow.order row) →
        quotes pool row = true → reports arith pool row = true) :
    ((survivors events id ancestor).filter fun other =>
        EventRow.order base.2 < EventRow.order other.2).foldl
      (fun head entry => settle arith ⟨entry.1, entry.2, id, pool⟩
        (ratioOf arith events tables none id pool base.2) head)
      (settle arith ⟨base.1, base.2, id, pool⟩
        (ratioOf arith events tables none id pool base.2) none) =
    (poolLog arith pool).history (stayRows events id ancestor) := by
  let following := (survivors events id ancestor).filter fun other =>
    EventRow.order base.2 < EventRow.order other.2
  let rows := stayRows events id ancestor
  have sorted := survivors_sorted apart id ancestor
  have split := survivors_split apart id ancestor base last
  obtain ⟨there, -, -⟩ := base_survives apart id ancestor base last
  have low := ((mem_survivors id ancestor base).mp there).2.2
  generalize found : ratioOf arith events tables none id pool base.2 = ratio
  have unpriced : ratio.sqrt = none := by
    rw [← found, ratioOf_pair _ _ _ _ v2]
    exact (plain base there v2).1
  obtain ⟨first, inside, reported, early⟩ : ∃ first ∈ rows, reports arith pool first = true ∧
      EventRow.order first ≤ EventRow.order base.2 := by
    rcases valued with own | ⟨-, row, member, latest, reported⟩
    · exact ⟨bare base.2, (mem_stayRows id ancestor _).mpr ⟨base, there, rfl⟩, own, le_rfl⟩
    · exact ⟨row, member, reported, latest.early⟩
  have brings : ratio.ratio.isSome := by
    rw [← found]
    rcases valued with own | ⟨none_, row, member, latest, reported⟩
    · rw [reports, if_pos v2] at own
      obtain ⟨pair, there, valued⟩ := (Option.any_eq_true _ _).mp own
      simpa [ratioOf, v2, there] using valued
    · have latest : Last pool (poolRows events id) (EventRow.order base.2) row := by
        refine ⟨(List.mem_filter.mp member).1, latest.quoted, latest.early, ?_⟩
        intro other stored later early
        exact latest.unquoted other (List.mem_filter.mpr
          ⟨stored, decide_eq_true ((block_le early).trans low)⟩) later early
      have ready : Ready events above pool id (EventRow.order base.2) := by
        intro entry stored _ early _ waits
        exact absurd (gone entry stored waits) ((block_le early).trans low).not_gt
      obtain ⟨sample, picked, finds⟩ :=
        sample_latest sampled id pool known _ (apart.rows id) row latest ready
      rw [Finds, if_pos v2, reported] at finds
      simpa [ratioOf, v2, none_, picked] using finds
  have written := settle_pairs arith ratio id pool v2 unpriced brings (base :: following)
    none (fun _ _ absent => absurd absent (by simp))
    (by
      intro entry member
      apply plain
      rw [split]
      exact List.mem_append_right _ member)
    (by
      rw [split] at sorted
      exact (List.pairwise_append.mp sorted).2.1)
    (fun entry _ => WithBot.bot_lt_coe _)
  rw [List.foldl_cons] at written
  refine written.trans ?_
  obtain ⟨top, ends⟩ : ∃ top, (base :: following).getLast? = some top :=
    Option.isSome_iff_exists.mp (by simp)
  obtain ⟨front, back⟩ := List.getLast?_eq_some_iff.mp ends
  have listed : survivors events id ancestor =
      ((survivors events id ancestor).filter fun other =>
        EventRow.order other.2 < EventRow.order base.2) ++ front ++ [top] := by
    rw [List.append_assoc, ← back]
    exact split
  -- The last survivor is the newest event.
  have newest : ∀ row ∈ rows, EventRow.order row ≤ EventRow.order top.2 := by
    intro row member
    obtain ⟨entry, stays, rfl⟩ := (mem_stayRows id ancestor row).mp member
    rw [listed] at stays sorted
    rcases List.mem_append.mp stays with before | same
    · exact ((List.pairwise_append.mp sorted).2.2 entry before top List.mem_cons_self).le
    · rw [List.mem_singleton.mp same]
      exact le_rfl
  have member : bare top.2 ∈ rows := by
    refine (mem_stayRows id ancestor _).mpr ⟨top, ?_, rfl⟩
    rw [listed]
    exact List.mem_append_right _ List.mem_cons_self
  have folded := history_pair v2 rows ((apart.rows id).filter _) (bare top.2) member newest first inside
    reported (priced (bare top.2) member newest)
  rw [ends, folded]
  rfl

/-- What `_state` rebuilds from the survivors is their fold. -/
theorem rebuilt_head (rebuilt : Rebuilt arith pool (stayRows events id ancestor)) :
    ((survivors events id ancestor).filter fun other =>
        EventRow.order base.2 < EventRow.order other.2).foldl
      (fun head entry => settle arith ⟨entry.1, entry.2, id, pool⟩
        (ratioOf arith events tables none id pool base.2) head)
      (settle arith ⟨base.1, base.2, id, pool⟩
        (ratioOf arith events tables none id pool base.2) none) =
    (poolLog arith pool).history (stayRows events id ancestor) := by
  rcases rebuilt with closed | ⟨row, member, brings, later, rest⟩
  · obtain ⟨unpriced, silent⟩ :=
      base_unopened apart id pool known ancestor tables above sampled plain base last closed
    have folded : (poolLog arith pool).history (stayRows events id ancestor) = none :=
      history_unopened _ ((apart.rows id).filter _) closed
    have still := settle_unpriced arith (ratioOf arith events tables none id pool base.2) id
      pool unpriced silent (base :: (survivors events id ancestor).filter fun other =>
        EventRow.order base.2 < EventRow.order other.2) none
    rw [List.foldl_cons] at still
    rw [folded]
    exact still
  · obtain rfl := base_unique apart id ancestor base last row member brings later
    by_cases v2 : pool.protocol = .v2
    · rw [if_pos v2] at rest
      exact rebuilt_pair apart id pool known ancestor tables above sampled gone plain base last v2
        rest.1 rest.2
    · rw [if_neg v2] at rest
      exact rebuilt_ticks apart id pool ancestor tables base last v2 rest.1 rest.2

end Rebuild

end RhPools.HeadRollbacks
