import RhPools.LateEntries
import RhPools.PriceMarks

/-! The head of a pool: the columns of `lp_pool_state` that its events report. Applied one by one
in their order they make a log: an event carries the price on, moves the liquidity, or reports
everything anew. -/

namespace RhPools.PoolHeads
open OrderedTables MarketTables MarketStore ActivityBuckets PriceMarks LateEntries

/-- Order, sqrt price, tick and liquidity of a row of `lp_pool_state`. -/
structure Head where
  order : Order
  sqrt : Option Int
  tick : Option Int
  liquidity : Option Int
  deriving DecidableEq

def headOf (state : PoolState) : Head :=
  ⟨state.order, state.sqrt, state.tick, state.liquidity⟩

def bare (row : EventRow) : EventRow :=
  { row with valuation := ⟨fun _ => none, none, fun _ => none⟩, revision := 0 }

@[simp] theorem order_bare (row : EventRow) : EventRow.order (bare row) = EventRow.order row := rfl

@[simp] theorem sqrt_bare (row : EventRow) : EventRow.sqrt (bare row) = EventRow.sqrt row := rfl

@[simp] theorem reserves_bare (row : EventRow) :
    EventRow.reserves (bare row) = EventRow.reserves row := rfl

@[simp] theorem terms_bare (row : EventRow) : (bare row).terms = row.terms := rfl

def poolRows (events : Events) (id : PoolId) : List EventRow :=
  (events.entries.map fun entry => bare entry.2).filter fun row => row.terms.poolId = some id

variable (arith : Arithmetic) (pool : PoolRow)

def quotes (row : EventRow) : Bool :=
  if pool.protocol = .v2 then (EventRow.reserves row).isSome else (EventRow.sqrt row).isSome

def reports (row : EventRow) : Bool :=
  if pool.protocol = .v2 then
    (EventRow.reserves row).any fun pair => (arith.reserveRatio pool pair.1 pair.2).isSome
  else (EventRow.sqrt row).isSome

def opens (row : EventRow) : Bool :=
  reports arith pool row || pool.protocol ≠ .v2 && (arith.before row).sqrt.isSome

@[simp] theorem reports_bare (row : EventRow) :
    reports arith pool (bare row) = reports arith pool row := rfl

@[simp] theorem quotes_bare (row : EventRow) : quotes pool (bare row) = quotes pool row := rfl

def advance (head : Option Head) (row : EventRow) : Option Head :=
  if pool.protocol = .v2 then
    if reports arith pool row || (EventRow.reserves row).isNone && head.isSome then
      some ⟨EventRow.order row, none, none, none⟩
    else head
  else
    match (EventRow.sqrt row).or ((head.bind Head.sqrt).or (arith.before row).sqrt) with
    | none => head
    | some sqrt =>
      let tick := (row.terms.quantity .tick).or (match head with
        | some head => head.tick
        | none => (arith.before row).tick)
      let kept := match head with
        | some head => head.liquidity
        | none => (arith.before row).liquidity
      some ⟨EventRow.order row, some sqrt, tick,
        (row.terms.quantity .liquidity).or (kept.map (moved row tick))⟩

@[simp] theorem advance_bare (head : Option Head) (row : EventRow) :
    advance arith pool head (bare row) = advance arith pool head row := rfl

def Whole (row : EventRow) : Prop :=
  reports arith pool row = true ∧ (pool.protocol = .v2 ∨
    (row.terms.quantity .tick).isSome ∧ (row.terms.quantity .liquidity).isSome)

instance (row : EventRow) : Decidable (Whole arith pool row) :=
  inferInstanceAs (Decidable (_ ∧ (_ ∨ _)))

def reach (head : Option Head) : WithBot Order := head.map Head.order

@[simp] theorem reach_none : reach none = ⊥ := rfl

@[simp] theorem reach_some (head : Head) : reach (some head) = (head.order : WithBot Order) := rfl

theorem advance_moves (head : Option Head) (row : EventRow) :
    advance arith pool head row = head ∨
      reach (advance arith pool head row) = (EventRow.order row : WithBot Order) := by
  unfold advance
  split
  · split
    · exact .inr rfl
    · exact .inl rfl
  · split
    · exact .inl rfl
    · exact .inr rfl

theorem advance_whole (row : EventRow) (whole : Whole arith pool row) (left right : Option Head) :
    advance arith pool left row = advance arith pool right row ∧
      reach (advance arith pool left row) = (EventRow.order row : WithBot Order) := by
  obtain ⟨reported, rest⟩ := whole
  by_cases v2 : pool.protocol = .v2
  · simp [advance, v2, reported]
  · obtain ⟨ticked, filled⟩ := rest.resolve_left v2
    simp only [reports, v2, if_false] at reported
    obtain ⟨sqrt, own⟩ := Option.isSome_iff_exists.mp reported
    obtain ⟨tick, at_⟩ := Option.isSome_iff_exists.mp ticked
    obtain ⟨liquidity, deep⟩ := Option.isSome_iff_exists.mp filled
    simp [advance, v2, own, at_, deep]

def poolLog : Log EventRow (Option Head) Order where
  place := EventRow.order
  reach := reach
  start := none
  advance := advance arith pool
  whole := Whole arith pool
  starts := rfl
  moves := advance_moves arith pool
  resets := advance_whole arith pool

instance : DecidablePred (poolLog arith pool).whole :=
  inferInstanceAs (DecidablePred (Whole arith pool))

structure Told (rows : List EventRow) (head : Head) : Prop where
  opened : ∃ row ∈ rows, opens arith pool row = true
  priced : head.sqrt.isSome
  newest : ∀ row ∈ rows, EventRow.order row ≤ head.order
  sqrt : ∀ row ∈ rows, (EventRow.sqrt row).isSome →
    (∀ other ∈ rows, EventRow.order row < EventRow.order other → EventRow.sqrt other = none) →
      head.sqrt = EventRow.sqrt row
  tick : ∀ row ∈ rows, (row.terms.quantity .tick).isSome →
    (∃ first ∈ rows, opens arith pool first = true ∧ EventRow.order first ≤ EventRow.order row) →
      (∀ other ∈ rows, EventRow.order row < EventRow.order other →
        other.terms.quantity .tick = none) → head.tick = row.terms.quantity .tick
  last : ∃ row ∈ rows, EventRow.order row = head.order ∧
    (EventRow.sqrt row).or head.sqrt = head.sqrt ∧
      (row.terms.quantity .tick).or head.tick = head.tick ∧
        (row.terms.quantity .liquidity).or head.liquidity = head.liquidity

def Tells (rows : List EventRow) : Option Head → Prop
  | none => ∀ row ∈ rows, opens arith pool row = false
  | some head => Told arith pool rows head

variable {arith pool}

theorem opens_sqrt (v3 : pool.protocol ≠ .v2) (row : EventRow) :
    opens arith pool row = ((EventRow.sqrt row).isSome || (arith.before row).sqrt.isSome) := by
  simp [opens, reports, v3]

theorem or_or_self {Value : Type} (first second : Option Value) :
    first.or (first.or second) = first.or second := by
  cases first <;> rfl

theorem tells_step (v3 : pool.protocol ≠ .v2) (rows : List EventRow) (row : EventRow)
    (head : Option Head) (tells : Tells arith pool rows head)
    (after : ∀ other ∈ rows, EventRow.order other < EventRow.order row) :
    Tells arith pool (rows ++ [row]) (advance arith pool head row) := by
  simp only [advance, v3, if_false]
  split
  · rename_i unpriced
    obtain ⟨own, rest⟩ := Option.or_eq_none_iff.mp unpriced
    obtain ⟨carried, brought⟩ := Option.or_eq_none_iff.mp rest
    cases head with
    | none =>
      intro other member
      rcases List.mem_append.mp member with old | new
      · exact tells other old
      · rw [List.mem_singleton.mp new, opens_sqrt v3, own, brought]
        rfl
    | some head =>
      have priced := tells.priced
      rw [show head.sqrt = none from carried] at priced
      cases priced
  · rename_i sqrt found
    constructor
    · cases head with
      | none =>
        refine ⟨row, List.mem_append_right _ List.mem_cons_self, ?_⟩
        rw [opens_sqrt v3, ← Option.isSome_or]
        exact Option.isSome_iff_exists.mpr ⟨sqrt, found⟩
      | some head =>
        obtain ⟨other, member, opened⟩ := tells.opened
        exact ⟨other, List.mem_append_left _ member, opened⟩
    · rfl
    · intro other member
      rcases List.mem_append.mp member with old | new
      · exact (after other old).le
      · exact (congrArg EventRow.order (List.mem_singleton.mp new)).le
    · intro other member own unquoted
      change some sqrt = EventRow.sqrt other
      rw [← found]
      rcases List.mem_append.mp member with old | new
      · rw [unquoted row (List.mem_append_right _ List.mem_cons_self) (after other old)]
        cases head with
        | none =>
          have closed := tells other old
          rw [opens_sqrt v3, own] at closed
          cases closed
        | some head =>
          have same := tells.sqrt other old own fun next inside later =>
            unquoted next (List.mem_append_left _ inside) later
          change (head.sqrt.or _) = _
          rw [same, Option.or_of_isSome own]
      · rw [List.mem_singleton.mp new] at own ⊢
        exact Option.or_of_isSome own
    · rintro other member own ⟨first, inside, opened, before⟩ unmoved
      change (row.terms.quantity .tick).or _ = _
      rcases List.mem_append.mp member with old | new
      · rw [unmoved row (List.mem_append_right _ List.mem_cons_self) (after other old)]
        have there : first ∈ rows := by
          rcases List.mem_append.mp inside with there | new
          · exact there
          · rw [List.mem_singleton.mp new] at before
            exact absurd (after other old) before.not_gt
        cases head with
        | none =>
          rw [tells first there] at opened
          cases opened
        | some head =>
          exact tells.tick other old own ⟨first, there, opened, before⟩ fun next inside later =>
            unmoved next (List.mem_append_left _ inside) later
      · rw [List.mem_singleton.mp new] at own ⊢
        exact Option.or_of_isSome own
    · refine ⟨row, List.mem_append_right _ List.mem_cons_self, rfl, ?_, or_or_self _ _, or_or_self _ _⟩
      change (EventRow.sqrt row).or (some sqrt) = some sqrt
      rw [← found, or_or_self]

theorem tells_fold (v3 : pool.protocol ≠ .v2) (rows : List EventRow)
    (sorted : (poolLog arith pool).Sorted rows) :
    Tells arith pool rows (rows.foldl (advance arith pool) none) := by
  induction rows using List.reverseRecOn with
  | nil => exact fun row absent => absurd absent List.not_mem_nil
  | append_singleton rows row ih =>
    obtain ⟨before, -, after⟩ := List.pairwise_append.mp sorted
    rw [List.foldl_append]
    exact tells_step v3 rows row _ (ih before) fun other member =>
      after other member row List.mem_cons_self

/-! What the head tells of a pair: how far its events had a price. -/

variable (arith pool) in
structure Marked (rows : List EventRow) (head : Head) : Prop where
  bare : head = ⟨head.order, none, none, none⟩
  opened : ∃ row ∈ rows, reports arith pool row = true ∧ EventRow.order row ≤ head.order
  passed : ∀ row ∈ rows, head.order < EventRow.order row →
    reports arith pool row = false ∧ (EventRow.reserves row).isSome
  there : ∃ row ∈ rows, EventRow.order row = head.order

variable (arith pool) in
def Marks (rows : List EventRow) : Option Head → Prop
  | none => ∀ row ∈ rows, reports arith pool row = false
  | some head => Marked arith pool rows head

theorem marks_step (v2 : pool.protocol = .v2) (rows : List EventRow) (row : EventRow)
    (head : Option Head) (marks : Marks arith pool rows head)
    (after : ∀ other ∈ rows, EventRow.order other < EventRow.order row) :
    Marks arith pool (rows ++ [row]) (advance arith pool head row) := by
  have inside : row ∈ rows ++ [row] := List.mem_append_right _ List.mem_cons_self
  simp only [advance, v2, if_true]
  split
  · rename_i priced
    refine ⟨rfl, ?_, ?_, row, inside, rfl⟩
    · rcases Bool.or_eq_true_iff.mp priced with own | carried
      · exact ⟨row, inside, own, le_rfl⟩
      · cases head with
        | none => simp at carried
        | some head =>
          obtain ⟨first, member, reported, -⟩ := marks.opened
          exact ⟨first, List.mem_append_left _ member, reported, (after first member).le⟩
    · intro other member later
      rcases List.mem_append.mp member with old | new
      · exact absurd later (after other old).not_gt
      · rw [List.mem_singleton.mp new] at later
        exact absurd later (lt_irrefl _)
  · rename_i unpriced
    obtain ⟨silent, still⟩ := Bool.or_eq_false_iff.mp (Bool.eq_false_iff.mpr unpriced)
    cases head with
    | none =>
      intro other member
      rcases List.mem_append.mp member with old | new
      · exact marks other old
      · rw [List.mem_singleton.mp new]
        exact silent
    | some head =>
      obtain ⟨first, member, reported, before⟩ := marks.opened
      obtain ⟨last, there, same⟩ := marks.there
      refine ⟨marks.bare, ⟨first, List.mem_append_left _ member, reported, before⟩, ?_,
        last, List.mem_append_left _ there, same⟩
      intro other inside later
      rcases List.mem_append.mp inside with old | new
      · exact marks.passed other old later
      · rw [List.mem_singleton.mp new]
        refine ⟨silent, ?_⟩
        simpa using still

theorem marks_fold (v2 : pool.protocol = .v2) (rows : List EventRow)
    (sorted : (poolLog arith pool).Sorted rows) :
    Marks arith pool rows (rows.foldl (advance arith pool) none) := by
  induction rows using List.reverseRecOn with
  | nil => exact fun row absent => absurd absent List.not_mem_nil
  | append_singleton rows row ih =>
    obtain ⟨before, -, after⟩ := List.pairwise_append.mp sorted
    rw [List.foldl_append]
    exact marks_step v2 rows row _ (ih before) fun other member =>
      after other member row List.mem_cons_self

theorem Tells.congr {left right : List EventRow} (same : ∀ row, row ∈ left ↔ row ∈ right)
    {head : Option Head} (tells : Tells arith pool left head) : Tells arith pool right head := by
  cases head with
  | none => exact fun row member => tells row ((same row).mpr member)
  | some head =>
    obtain ⟨opened, priced, newest, sqrt, tick, last⟩ := tells
    simp only [same] at opened newest sqrt tick last
    exact ⟨opened, priced, newest, sqrt, tick, last⟩

theorem Marks.congr {left right : List EventRow} (same : ∀ row, row ∈ left ↔ row ∈ right)
    {head : Option Head} (marks : Marks arith pool left head) : Marks arith pool right head := by
  cases head with
  | none => exact fun row member => marks row ((same row).mpr member)
  | some head =>
    obtain ⟨bare, opened, passed, there⟩ := marks
    simp only [same] at opened passed there
    exact ⟨bare, opened, passed, there⟩

theorem tells_history (v3 : pool.protocol ≠ .v2) (rows : List EventRow)
    (distinct : (poolLog arith pool).Distinct rows) :
    Tells arith pool rows ((poolLog arith pool).history rows) :=
  (tells_fold v3 _ (sort_sorted rows distinct)).congr (mem_sort rows)

theorem marks_history (v2 : pool.protocol = .v2) (rows : List EventRow)
    (distinct : (poolLog arith pool).Distinct rows) :
    Marks arith pool rows ((poolLog arith pool).history rows) :=
  (marks_fold v2 _ (sort_sorted rows distinct)).congr (mem_sort rows)

def movable (row : EventRow) : Bool :=
  (row.terms.quantity .liquidityDelta).isSome && (row.terms.quantity .tickLower).isSome &&
    (row.terms.quantity .tickUpper).isSome

def inRange (row : EventRow) (tick : Int) : Bool :=
  (row.terms.quantity .tickLower).any (· ≤ tick) && (row.terms.quantity .tickUpper).any (tick < ·)

variable (arith pool)

def Unmoved (rows : List EventRow) (row : EventRow) : Prop :=
  row.terms.quantity .tick = none ∧ row.terms.quantity .liquidity = none ∧
    (movable row = false ∨ ∃ last ∈ rows, EventRow.order last < EventRow.order row ∧
      (∃ tick ∈ last.terms.quantity .tick, inRange row tick = false) ∧
        (∃ first ∈ rows, opens arith pool first = true ∧
          EventRow.order first ≤ EventRow.order last) ∧
            ∀ other ∈ rows, EventRow.order last < EventRow.order other →
              EventRow.order other < EventRow.order row → other.terms.quantity .tick = none)

instance (rows : List EventRow) (row : EventRow) : Decidable (Unmoved arith pool rows row) :=
  inferInstanceAs (Decidable (_ ∧ _ ∧ (_ ∨ _)))

/-- The event brings no price; in a pool of ticks there is none before it either, or the event
leaves tick and liquidity as they are. -/
def Idles (rows : List EventRow) (row : EventRow) : Prop :=
  reports arith pool row = false ∧ (pool.protocol = .v2 ∨
    (opens arith pool row = false ∧ ∀ other ∈ rows, EventRow.order other < EventRow.order row →
      opens arith pool other = false) ∨
        (∃ first ∈ rows, opens arith pool first = true ∧
          EventRow.order first < EventRow.order row) ∧ Unmoved arith pool rows row)

instance (rows : List EventRow) (row : EventRow) : Decidable (Idles arith pool rows row) :=
  inferInstanceAs (Decidable (_ ∧ (_ ∨ _ ∨ _)))

variable {arith pool}

theorem moved_fixed (row : EventRow) (tick : Option Int) (liquidity : Int)
    (still : movable row = false ∨ ∃ at_ ∈ tick, inRange row at_ = false) :
    moved row tick liquidity = liquidity := by
  unfold moved
  split
  · rename_i tick delta lower upper moves low high
    rcases still with fixed | ⟨at_, same, outside⟩
    · simp [movable, moves, low, high] at fixed
    · rw [← Option.some.inj same] at outside
      rw [if_neg]
      simpa [inRange, low, high] using outside
  · rfl

theorem alike_order (v3 : pool.protocol ≠ .v2) (head : Head) (priced : head.sqrt.isSome)
    (order : Order) :
    (poolLog arith pool).Alike (some head) (some { head with order := order }) := by
  obtain ⟨sqrt, found⟩ := Option.isSome_iff_exists.mp priced
  intro entry
  left
  change advance arith pool _ entry = advance arith pool _ entry
  simp only [advance, v3, if_false, Option.bind_some, found, Option.some_or]
  cases EventRow.sqrt entry <;> rfl

theorem alike_pair (v2 : pool.protocol = .v2) (left right : Head) :
    (poolLog arith pool).Alike (some left) (some right) := by
  intro entry
  change advance arith pool _ entry = advance arith pool _ entry ∨ advance arith pool _ entry = _ ∧
    advance arith pool _ entry = _
  simp only [advance, v2, if_true, Option.isSome_some, Bool.and_true]
  split
  · exact .inl rfl
  · exact .inr ⟨rfl, rfl⟩

theorem idles_idle (rows : List EventRow) (row : EventRow) (idles : Idles arith pool rows row) :
    (poolLog arith pool).Idle rows row := by
  obtain ⟨silent, idles⟩ := idles
  intro front sorted members
  change (poolLog arith pool).Alike (front.foldl (advance arith pool) none)
    (advance arith pool (front.foldl (advance arith pool) none) row)
  by_cases v2 : pool.protocol = .v2
  · generalize front.foldl (advance arith pool) none = head
    simp only [advance, v2, if_true, silent, Bool.false_or]
    split
    · rename_i carried
      obtain ⟨head, rfl⟩ := Option.isSome_iff_exists.mp (Bool.and_eq_true_iff.mp carried).2
      exact alike_pair v2 _ _
    · exact Log.Alike.refl head
  · have tells := tells_fold v2 front sorted
    have own : EventRow.sqrt row = none := by simpa [reports, v2] using silent
    rcases idles.resolve_left v2 with ⟨closed, before⟩ | ⟨⟨first, member, opened, early⟩, still⟩
    · have none_ : front.foldl (advance arith pool) none = none := by
        cases found : front.foldl (advance arith pool) none with
        | none => rfl
        | some head =>
          rw [found] at tells
          obtain ⟨first, member, opened⟩ := tells.opened
          obtain ⟨inside, early⟩ := (members first).mp member
          rw [before first inside early] at opened
          cases opened
      rw [none_]
      rw [opens_sqrt v2, own] at closed
      have unbrought : (arith.before row).sqrt = none := by simpa using closed
      have fixed : advance arith pool none row = none := by
        simp [advance, v2, own, unbrought]
      rw [fixed]
      exact Log.Alike.refl _
    · cases found : front.foldl (advance arith pool) none with
      | none =>
        rw [found] at tells
        rw [tells first ((members first).mpr ⟨member, early⟩)] at opened
        cases opened
      | some head =>
        rw [found] at tells
        obtain ⟨unticked, unfilled, fixed⟩ := still
        have kept : ∀ liquidity, moved row head.tick liquidity = liquidity := by
          intro liquidity
          apply moved_fixed
          rcases fixed with fixed | ⟨last, inside, late, ⟨tick, at_, outside⟩, ⟨start, began, opened, low⟩,
            untold⟩
          · exact .inl fixed
          · refine .inr ⟨tick, ?_, outside⟩
            have same := tells.tick last ((members last).mpr ⟨inside, late⟩)
              (Option.isSome_iff_exists.mpr ⟨tick, at_⟩)
              ⟨start, (members start).mpr ⟨began, low.trans_lt late⟩, opened, low⟩
              fun other there after =>
                untold other ((members other).mp there).1 after ((members other).mp there).2
            rw [same]
            exact at_
        obtain ⟨sqrt, priced⟩ := Option.isSome_iff_exists.mp tells.priced
        have deep : head.liquidity.map (moved row head.tick) = head.liquidity := by
          rw [show moved row head.tick = id from funext kept, Option.map_id, id]
        have same : advance arith pool (some head) row =
            some { head with order := EventRow.order row } := by
          simp only [advance, v2, if_false, own, Option.bind_some, Option.none_or, priced,
            Option.some_or, unticked, unfilled, deep]
        rw [same]
        exact alike_order v2 head tells.priced _

end RhPools.PoolHeads
