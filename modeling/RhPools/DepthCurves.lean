import RhPools.SelectionLanes
import RhPools.SqlTables
import RhPools.StepCurves
import RhPools.TickMath

/-! The depth curve of a selection. The liquidity at the current tick is wound back to the
lower end of the loaded words and played forward over the ticks of the curve; at each tick it
is that of the positions over it, however many of the ticks are left out. -/

namespace RhPools.DepthCurves
open OrderedTables StepCurves TickMath
open TxChain (Try)
open SelectionLanes (wordOf wordRange)

def MAX_CURVE_POINTS : Nat := 800

structure CurvePoint (Price : Type) where
  tick : Int
  price : Price
  liquidity : Int
  ours : Nat

structure Viewport where
  tickSpacing : Int
  curveWords : List Int
  tickNet : OrderedTable Int Int
  positionState : OrderedTable (Int × Int) (Nat × Nat × Nat)

structure CurveCore where
  tick : Int
  liquidity : Int

structure TickOrder where
  arrange : List Int → List Int
  arranged : ∀ ticks, (arrange ticks).Perm ticks

section
variable (view : Viewport) (core : CurveCore)

def Viewport.low : Int :=
  max (-MAX_TICK) (view.curveWords.headD 0 * 256 * view.tickSpacing)

def Viewport.high : Int :=
  min MAX_TICK (((view.curveWords.getLastD 0 + 1) * 256 - 1) * view.tickSpacing)

def Viewport.important : List Int :=
  ([view.low, view.high, core.tick] ++
    (view.positionState.entries.flatMap fun entry => [entry.1.1, entry.1.2]).filter fun tick =>
      decide (view.low ≤ tick ∧ tick ≤ view.high)).dedup

def Viewport.candidates : List Int :=
  (view.important core ++ (view.tickNet.entries.map Prod.fst).filter fun tick =>
    decide (view.low ≤ tick ∧ tick ≤ view.high)).dedup

def Viewport.outputTicks (order : TickOrder) : List Int :=
  let candidates := view.candidates core
  let important := view.important core
  if MAX_CURVE_POINTS < candidates.length then
    let remaining := MAX_CURVE_POINTS - important.length
    let nearby := (order.arrange (candidates.filter fun tick => !important.contains tick)).insertionSort
      fun left right => (left - core.tick).natAbs ≤ (right - core.tick).natAbs
    (important ++ nearby.take remaining).dedup.insertionSort (· ≤ ·)
  else candidates.insertionSort (· ≤ ·)

def Viewport.boundaries : List (Int × Int) :=
  view.tickNet.entries.insertionSort fun left right => left.1 ≤ right.1

def Viewport.rewound : Int :=
  view.boundaries.foldl (fun active (boundary, delta) =>
    if view.low < boundary ∧ boundary ≤ core.tick then active - delta else active) core.liquidity

def Viewport.ours (tick : Int) : Nat :=
  ((view.positionState.entries.filter fun entry =>
    decide (0 < entry.2.1 ∧ entry.1.1 ≤ tick ∧ tick < entry.1.2)).map fun entry => entry.2.1).sum

end

/-- The `while` loop: boundaries up to a tick are taken, those above the lower end count. -/
def advance (low tick : Int) : List (Int × Int) → Int → Int × List (Int × Int)
  | [], liquidity => (liquidity, [])
  | (boundary, delta) :: rest, liquidity =>
    if boundary ≤ tick then
      advance low tick rest (if low < boundary then liquidity + delta else liquidity)
    else (liquidity, (boundary, delta) :: rest)

/-- `_tick_price`; how a price is made from the ratio is left open. -/
def tickPrice {Price : Type} (priceFromSqrt : Int → Price) (tick : Int) : Try Price := do
  let ratio ← sqrtRatioAtTick tick
  return priceFromSqrt ratio

def curvePoints {Price : Type} (priceFromSqrt : Int → Price) (ours : Int → Nat) (low : Int) :
    List Int → List (Int × Int) → Int → Try (List (CurvePoint Price))
  | [], _, _ => .ok []
  | tick :: rest, boundaries, liquidity => do
    let advanced := advance low tick boundaries liquidity
    let price ← tickPrice priceFromSqrt tick
    let later ← curvePoints priceFromSqrt ours low rest advanced.2 advanced.1
    return ⟨tick, price, max 0 advanced.1, ours tick⟩ :: later

/-- `_concentrated_curve`. -/
def concentratedCurve {Price : Type} (priceFromSqrt : Int → Price) (order : TickOrder)
    (view : Viewport) (core : CurveCore) : Try (List (CurvePoint Price)) :=
  if view.curveWords = [] ∨ view.tickSpacing = 0 then .ok []
  else
    curvePoints priceFromSqrt view.ours view.low (view.outputTicks core order) view.boundaries
      (max 0 (view.rewound core))

structure LiquidityPosition (spacing : Int) where
  lower : Int
  upper : Int
  liquidity : Nat
  forwards : lower < upper
  lowerAligned : spacing ∣ lower
  upperAligned : spacing ∣ upper

section
variable {spacing : Int} (positions : List (LiquidityPosition spacing)) (tick : Int)

def liquidityAt : Nat :=
  ((positions.filter fun position => decide (position.lower ≤ tick ∧ tick < position.upper)).map
    LiquidityPosition.liquidity).sum

def grossAt : Nat :=
  ((positions.filter fun position => decide (position.lower = tick ∨ position.upper = tick)).map
    LiquidityPosition.liquidity).sum

def netAt : Int :=
  (positions.map fun position =>
    (if position.lower = tick then (position.liquidity : Int) else 0) -
      if position.upper = tick then (position.liquidity : Int) else 0).sum

end

/-- A selection and a core that are read from the positions: the words are contiguous and
hold the one of the current tick, and the ticks of these words are loaded. -/
structure ReadFrom {spacing : Int} (positions : List (LiquidityPosition spacing))
    (view : Viewport) (core : CurveCore) : Prop where
  positive : 0 < spacing
  spaced : view.tickSpacing = spacing
  contiguous : ∃ first last, first ≤ last ∧ view.curveWords = wordRange first last
  current : wordOf spacing core.tick ∈ view.curveWords
  inDomain : -MAX_TICK ≤ core.tick ∧ core.tick ≤ MAX_TICK
  nets : ∀ tick, view.tickNet.get tick =
    if wordOf spacing tick ∈ view.curveWords ∧ grossAt positions tick ≠ 0 then
      some (netAt positions tick) else none
  liquidity : core.liquidity = liquidityAt positions core.tick

/-- A curve that shows the positions, with the ends of its window and the current tick. -/
structure Shows {Price : Type} {spacing : Int} (positions : List (LiquidityPosition spacing))
    (view : Viewport) (core : CurveCore) (curve : List (CurvePoint Price)) : Prop where
  levels : ∀ point ∈ curve, point.liquidity = liquidityAt positions point.tick
  low : view.low ∈ curve.map CurvePoint.tick
  high : view.high ∈ curve.map CurvePoint.tick
  current : core.tick ∈ curve.map CurvePoint.tick
  rising : (curve.map CurvePoint.tick).Pairwise (· < ·)

def gains (boundaries : List (Int × Int)) (start stop : Int) : Int :=
  ((boundaries.filter fun entry => decide (Within start stop entry.1)).map Prod.snd).sum

theorem gains_cons (entry : Int × Int) (rest : List (Int × Int)) (start stop : Int) :
    gains (entry :: rest) start stop =
      (if Within start stop entry.1 then entry.2 else 0) + gains rest start stop := by
  by_cases counted : Within start stop entry.1
  · simp [gains, counted]
  · simp [gains, counted]

theorem gains_ahead {boundaries : List (Int × Int)} {start stop : Int}
    (ahead : ∀ entry ∈ boundaries, stop < entry.1) : gains boundaries start stop = 0 := by
  rw [gains, List.filter_eq_nil_iff.mpr]
  · rfl
  · intro entry member counted
    exact absurd (of_decide_eq_true counted).2 (not_le.mpr (ahead entry member))

theorem gains_later (boundaries : List (Int × Int)) (start : Int) {middle stop : Int}
    (ordered : middle ≤ stop) : gains boundaries start stop = gains boundaries start middle +
      gains (boundaries.filter fun entry => decide (middle < entry.1)) start stop := by
  induction boundaries with
  | nil => rfl
  | cons entry rest ih =>
    rw [gains_cons, gains_cons, ih]
    by_cases later : middle < entry.1
    · have unreached : ¬Within start middle entry.1 := fun within => not_le.mpr later within.2
      rw [List.filter_cons_of_pos (by simpa using later), gains_cons, if_neg unreached]
      ring
    · have same : Within start stop entry.1 ↔ Within start middle entry.1 :=
        ⟨fun within => ⟨within.1, not_lt.mp later⟩,
          fun within => ⟨within.1, within.2.trans ordered⟩⟩
      rw [List.filter_cons_of_neg (by simpa using later)]
      simp only [same]
      ring

theorem advance_eq (low tick : Int) (boundaries : List (Int × Int)) (liquidity : Int)
    (sorted : boundaries.Pairwise fun left right => left.1 < right.1) :
    advance low tick boundaries liquidity = (liquidity + gains boundaries low tick,
      boundaries.filter fun entry => decide (tick < entry.1)) := by
  induction boundaries generalizing liquidity with
  | nil => simp [advance, gains]
  | cons entry rest ih =>
    obtain ⟨boundary, delta⟩ := entry
    obtain ⟨after, sorted⟩ := List.pairwise_cons.mp sorted
    rw [advance, gains_cons]
    by_cases reached : boundary ≤ tick
    · have counted : Within low tick boundary ↔ low < boundary :=
        ⟨fun within => within.1, fun above => ⟨above, reached⟩⟩
      rw [if_pos reached, ih _ sorted, List.filter_cons_of_neg (by simpa using reached)]
      simp only [counted]
      by_cases above : low < boundary
      · simp only [if_pos above, add_assoc]
      · simp only [if_neg above, zero_add]
    · have ahead : ∀ entry ∈ (boundary, delta) :: rest, tick < entry.1 := by
        intro entry member
        rcases List.mem_cons.mp member with rfl | later
        · exact not_le.mp reached
        · exact (not_le.mp reached).trans (after entry later)
      have uncounted : ¬Within low tick boundary := fun within => reached within.2
      have kept : ((boundary, delta) :: rest).filter (fun entry => decide (tick < entry.1)) =
          (boundary, delta) :: rest :=
        List.filter_eq_self.mpr fun entry member => decide_eq_true (ahead entry member)
      rw [if_neg reached, if_neg uncounted, kept,
        gains_ahead fun entry member => ahead entry (.tail _ member)]
      simp

theorem tickPrice_ok {Price : Type} (priceFromSqrt : Int → Price) {tick : Int}
    (inDomain : -MAX_TICK ≤ tick ∧ tick ≤ MAX_TICK) :
    ∃ price, tickPrice priceFromSqrt tick = .ok price := by
  rw [tickPrice, sqrtRatioAtTick_ok tick inDomain.1 inDomain.2]
  exact ⟨_, rfl⟩

theorem curvePoints_ok {Price : Type} (priceFromSqrt : Int → Price) (ours : Int → Nat) (low : Int)
    (ticks : List Int) (boundaries : List (Int × Int)) (liquidity : Int)
    (sorted : boundaries.Pairwise fun left right => left.1 < right.1)
    (rising : ticks.Pairwise (· < ·))
    (inDomain : ∀ tick ∈ ticks, -MAX_TICK ≤ tick ∧ tick ≤ MAX_TICK) :
    ∃ curve, curvePoints priceFromSqrt ours low ticks boundaries liquidity = .ok curve ∧
      curve.map CurvePoint.tick = ticks ∧ ∀ point ∈ curve,
        point.liquidity = max 0 (liquidity + gains boundaries low point.tick) := by
  induction ticks generalizing boundaries liquidity with
  | nil => exact ⟨[], rfl, rfl, by simp⟩
  | cons tick rest ih =>
    obtain ⟨after, rising⟩ := List.pairwise_cons.mp rising
    obtain ⟨price, priced⟩ := tickPrice_ok priceFromSqrt (inDomain tick List.mem_cons_self)
    have left := advance_eq low tick boundaries liquidity sorted
    obtain ⟨later, made, ticks, levels⟩ := ih (advance low tick boundaries liquidity).2
      (advance low tick boundaries liquidity).1 (by rw [left]; exact sorted.filter _) rising
      fun other member => inDomain other (.tail _ member)
    refine ⟨⟨tick, price, max 0 (advance low tick boundaries liquidity).1, ours tick⟩ :: later,
      ?_, by rw [List.map_cons, ticks], ?_⟩
    · rw [curvePoints, priced, TxChain.Try.ok_bind, made]
      rfl
    · intro point member
      rcases List.mem_cons.mp member with rfl | inside
      · rw [left]
      · have reached : tick ≤ point.tick :=
          (after point.tick (ticks ▸ List.mem_map_of_mem inside)).le
        rw [levels point inside, left, gains_later boundaries low reached, add_assoc]

theorem rewound_eq (view : Viewport) (core : CurveCore) :
    view.rewound core = core.liquidity - gains view.boundaries view.low core.tick := by
  rw [Viewport.rewound]
  generalize core.liquidity = liquidity
  induction view.boundaries generalizing liquidity with
  | nil => simp [gains]
  | cons entry rest ih =>
    obtain ⟨boundary, delta⟩ := entry
    rw [List.foldl_cons, ih, gains_cons]
    by_cases counted : Within view.low core.tick boundary
    · simp only [if_pos counted, if_pos (show view.low < boundary ∧ boundary ≤ core.tick
        from counted)]
      ring
    · simp only [if_neg counted, if_neg (show ¬(view.low < boundary ∧ boundary ≤ core.tick)
        from counted)]
      ring

theorem rising_insertionSort {ticks : List Int} (distinct : ticks.Nodup) :
    (ticks.insertionSort (· ≤ ·)).Pairwise (· < ·) := by
  have sorted := List.pairwise_insertionSort (· ≤ ·) ticks
  have apart := (List.perm_insertionSort (· ≤ ·) ticks).nodup_iff.mpr distinct
  exact (sorted.and apart).imp fun both => lt_of_le_of_ne both.1 both.2

theorem boundaries_sorted (view : Viewport) :
    view.boundaries.Pairwise fun left right => left.1 < right.1 := by
  have sorted := List.pairwise_insertionSort (fun left right : Int × Int => left.1 ≤ right.1)
    view.tickNet.entries
  have apart := ((List.perm_insertionSort (fun left right : Int × Int => left.1 ≤ right.1)
    view.tickNet.entries).map Prod.fst).nodup_iff.mpr view.tickNet.distinct
  exact (sorted.and (List.pairwise_map.mp apart)).imp fun both => lt_of_le_of_ne both.1 both.2

variable (order : TickOrder)

theorem outputTicks_rising (view : Viewport) (core : CurveCore) :
    (view.outputTicks core order).Pairwise (· < ·) := by
  unfold Viewport.outputTicks
  simp only
  split
  · exact rising_insertionSort (List.nodup_dedup _)
  · exact rising_insertionSort (List.nodup_dedup _)

variable {view : Viewport} {core : CurveCore} {tick : Int}

theorem important_candidate (member : tick ∈ view.important core) : tick ∈ view.candidates core :=
  List.mem_dedup.mpr (List.mem_append_left _ member)

theorem important_output (member : tick ∈ view.important core) :
    tick ∈ view.outputTicks core order := by
  unfold Viewport.outputTicks
  simp only
  split
  · rw [List.mem_insertionSort, List.mem_dedup]
    exact List.mem_append_left _ member
  · rw [List.mem_insertionSort]
    exact important_candidate member

theorem output_candidate (member : tick ∈ view.outputTicks core order) :
    tick ∈ view.candidates core := by
  unfold Viewport.outputTicks at member
  simp only at member
  split at member
  · rw [List.mem_insertionSort, List.mem_dedup, List.mem_append] at member
    rcases member with important | near
    · exact important_candidate important
    · have arranged := (List.mem_insertionSort _).mp (List.mem_of_mem_take near)
      exact List.mem_of_mem_filter ((order.arranged _).subset arranged)
  · exact (List.mem_insertionSort _).mp member

theorem mem_important (named : tick = view.low ∨ tick = view.high ∨ tick = core.tick) :
    tick ∈ view.important core := by
  refine List.mem_dedup.mpr (List.mem_append_left _ ?_)
  rcases named with rfl | rfl | rfl <;> simp

theorem candidate_cases (member : tick ∈ view.candidates core) :
    tick = core.tick ∨ tick = view.low ∨ tick = view.high ∨
      view.low ≤ tick ∧ tick ≤ view.high := by
  rcases List.mem_append.mp (List.mem_dedup.mp member) with important | loaded
  · rcases List.mem_append.mp (List.mem_dedup.mp important) with named | owned
    · simp only [List.mem_cons, List.not_mem_nil, or_false] at named
      tauto
    · exact .inr (.inr (.inr (of_decide_eq_true (List.mem_filter.mp owned).2)))
  · exact .inr (.inr (.inr (of_decide_eq_true (List.mem_filter.mp loaded).2)))

theorem wordRange_ends {first last : Int} (ordered : first ≤ last) :
    (wordRange first last).headD 0 = first ∧ (wordRange first last).getLastD 0 = last := by
  obtain ⟨count, length⟩ : ∃ count : Nat, (last - first + 1).toNat = count + 1 :=
    ⟨(last - first).toNat, by omega⟩
  rw [wordRange, length]
  constructor
  · rw [List.range_succ_eq_map]
    simp
  · rw [List.range_succ, List.map_append]
    simp only [List.map_cons, List.map_nil, List.getLastD_concat]
    omega

theorem mem_wordRange {first last word : Int} :
    word ∈ wordRange first last ↔ first ≤ word ∧ word ≤ last := by
  rw [wordRange, List.mem_map]
  constructor
  · rintro ⟨offset, inside, rfl⟩
    have := List.mem_range.mp inside
    omega
  · rintro ⟨early, late⟩
    exact ⟨(word - first).toNat, List.mem_range.mpr (by omega), by omega⟩

section
variable {spacing : Int} {positions : List (LiquidityPosition spacing)} {view : Viewport}
  {core : CurveCore}

/-- Between the lower end and a tick of the curve every aligned tick is loaded. The current
tick may lie above the last aligned one of its word. -/
theorem ReadFrom.loaded (reads : ReadFrom positions view core) {tick : Int}
    (aligned : spacing ∣ tick) (above : view.low < tick)
    (below : tick ≤ view.high ∨ tick ≤ core.tick) : wordOf spacing tick ∈ view.curveWords := by
  obtain ⟨first, last, ordered, words⟩ := reads.contiguous
  obtain ⟨head, tail⟩ := wordRange_ends ordered
  obtain ⟨index, rfl⟩ := aligned
  have positive := reads.positive
  have named : wordOf spacing (spacing * index) = index / 256 := by
    rw [wordOf, Int.mul_ediv_cancel_left _ positive.ne']
  have early : first * 256 < index := by
    have later := (le_max_right _ _).trans_lt above
    rw [words, head, reads.spaced, mul_comm] at later
    exact lt_of_mul_lt_mul_left later positive.le
  have late : index < (last + 1) * 256 := by
    rcases below with inside | before
    · have under := inside.trans (min_le_right _ _)
      rw [words, tail, reads.spaced, mul_comm _ spacing] at under
      have := le_of_mul_le_mul_left under positive
      omega
    · have current := reads.current
      rw [words, mem_wordRange, wordOf] at current
      have under : index ≤ core.tick / spacing := by
        rw [Int.le_ediv_iff_mul_le positive, mul_comm]
        exact before
      omega
  rw [words, mem_wordRange, named]
  omega

def spans (positions : List (LiquidityPosition spacing)) : List (Span Int Int) :=
  positions.map fun position => ⟨position.lower, position.upper, position.liquidity⟩

theorem liquidityAt_level (positions : List (LiquidityPosition spacing)) (tick : Int) :
    (liquidityAt positions tick : Int) = level (spans positions) tick := by
  induction positions with
  | nil => rfl
  | cons position rest ih =>
    simp only [liquidityAt, level, spans, List.map_cons, List.sum_cons, Span.over] at ih ⊢
    by_cases over' : position.lower ≤ tick ∧ tick < position.upper
    · rw [List.filter_cons_of_pos (by simpa using over'), List.map_cons, List.sum_cons,
        Nat.cast_add, ih, if_pos over']
    · rw [List.filter_cons_of_neg (by simpa using over'), ih, if_neg over', zero_add]

theorem netAt_net (positions : List (LiquidityPosition spacing)) (tick : Int) :
    netAt positions tick = net (spans positions) tick := by
  rw [netAt, net, spans, List.map_map]
  rfl

theorem netAt_flat {tick : Int} (flat : grossAt positions tick = 0) :
    netAt positions tick = 0 := by
  induction positions with
  | nil => rfl
  | cons position rest ih =>
    rw [netAt, List.map_cons, List.sum_cons]
    by_cases ends : position.lower = tick ∨ position.upper = tick
    · rw [grossAt, List.filter_cons_of_pos (by simpa using ends), List.map_cons,
        List.sum_cons] at flat
      have empty : position.liquidity = 0 := by omega
      have later : grossAt rest tick = 0 := by
        rw [grossAt]
        omega
      simp only [empty, Nat.cast_zero, ite_self, sub_self, zero_add]
      exact ih later
    · rw [grossAt, List.filter_cons_of_neg (by simpa using ends)] at flat
      obtain ⟨lower, upper⟩ := not_or.mp ends
      rw [if_neg lower, if_neg upper, sub_self, zero_add]
      exact ih flat

theorem aligned_of_gross {tick : Int} (gross : grossAt positions tick ≠ 0) : spacing ∣ tick := by
  by_contra unaligned
  apply gross
  rw [grossAt, List.filter_eq_nil_iff.mpr]
  · rfl
  · intro position _ ends
    rcases of_decide_eq_true ends with rfl | rfl
    · exact unaligned position.lowerAligned
    · exact unaligned position.upperAligned

theorem ReadFrom.boundary (reads : ReadFrom positions view core) {entry : Int × Int}
    (member : entry ∈ view.boundaries) : entry.2 = netAt positions entry.1 := by
  have held := (get_some _ _ _).mpr ((List.mem_insertionSort _).mp member)
  rw [reads.nets] at held
  exact (Option.some.inj (Option.ite_none_right_eq_some.mp held).2).symm

theorem ReadFrom.marked (reads : ReadFrom positions view core) {tick stop : Int}
    (below : stop ≤ view.high ∨ stop ≤ core.tick) (within : Within view.low stop tick)
    (unmarked : tick ∉ view.boundaries.map Prod.fst) : netAt positions tick = 0 := by
  by_contra changes
  have gross : grossAt positions tick ≠ 0 := fun flat => changes (netAt_flat flat)
  have inside : wordOf spacing tick ∈ view.curveWords :=
    reads.loaded (aligned_of_gross gross) within.1
      (below.imp within.2.trans within.2.trans)
  have held := reads.nets tick
  rw [if_pos ⟨inside, gross⟩, get_some] at held
  exact unmarked (List.mem_map.mpr ⟨_, (List.mem_insertionSort _).mpr held, rfl⟩)

theorem ReadFrom.carried (reads : ReadFrom positions view core) {stop : Int}
    (above : view.low ≤ stop) (below : stop ≤ view.high ∨ stop ≤ core.tick) :
    (liquidityAt positions stop : Int) =
      liquidityAt positions view.low + gains view.boundaries view.low stop := by
  have distinct : (view.boundaries.map Prod.fst).Nodup :=
    ((List.perm_insertionSort _ _).map Prod.fst).nodup_iff.mpr view.tickNet.distinct
  have forwards : ∀ span ∈ spans positions, span.lower ≤ span.upper := by
    intro span member
    obtain ⟨position, _, rfl⟩ := List.mem_map.mp member
    exact position.forwards.le
  have marked : ∀ tick, Within view.low stop tick → tick ∉ view.boundaries.map Prod.fst →
      net (spans positions) tick = 0 := by
    intro tick within unmarked
    rw [← netAt_net]
    exact reads.marked below within unmarked
  have sums : ((view.boundaries.map Prod.fst).filter fun mark =>
      decide (Within view.low stop mark)).map (net (spans positions)) =
        (view.boundaries.filter fun entry => decide (Within view.low stop entry.1)).map
          Prod.snd := by
    rw [List.filter_map, List.map_map]
    apply List.map_congr_left
    intro entry member
    exact (netAt_net positions entry.1).symm.trans
      (reads.boundary (List.mem_of_mem_filter member)).symm
  rw [liquidityAt_level, liquidityAt_level, level_step (spans positions) above _ distinct forwards
    marked, sums]
  rfl

theorem ReadFrom.ends (reads : ReadFrom positions view core) :
    ∃ first last, view.low = max (-MAX_TICK) (first * 256 * spacing) ∧
      view.high = min MAX_TICK (((last + 1) * 256 - 1) * spacing) ∧
      first * 256 * spacing ≤ core.tick ∧ first ≤ last ∧
      ∀ word ∈ view.curveWords, word ≤ last := by
  obtain ⟨first, last, ordered, words⟩ := reads.contiguous
  obtain ⟨head, tail⟩ := wordRange_ends ordered
  refine ⟨first, last, ?_, ?_, ?_, ordered, ?_⟩
  · rw [Viewport.low, words, head, reads.spaced]
  · rw [Viewport.high, words, tail, reads.spaced]
  · have current := reads.current
    rw [words, mem_wordRange, wordOf] at current
    have under : first * 256 ≤ core.tick / spacing := by omega
    exact (Int.le_ediv_iff_mul_le reads.positive).mp under
  · intro word member
    rw [words, mem_wordRange] at member
    exact member.2

theorem ReadFrom.low_le (reads : ReadFrom positions view core) : view.low ≤ core.tick := by
  obtain ⟨first, last, low, _, early, _⟩ := reads.ends
  rw [low]
  exact max_le reads.inDomain.1 early

theorem ReadFrom.low_le_high (reads : ReadFrom positions view core)
    (reaches : -MAX_TICK ≤ view.high) : view.low ≤ view.high := by
  obtain ⟨first, last, low, high, early, ordered, _⟩ := reads.ends
  have words : first * 256 * spacing ≤ ((last + 1) * 256 - 1) * spacing :=
    mul_le_mul_of_nonneg_right (by omega) reads.positive.le
  rw [low]
  refine max_le reaches ?_
  rw [high]
  exact le_min (early.trans reads.inDomain.2) words

theorem ReadFrom.output (reads : ReadFrom positions view core) (reaches : -MAX_TICK ≤ view.high)
    (order : TickOrder) {tick : Int} (member : tick ∈ view.outputTicks core order) :
    (-MAX_TICK ≤ tick ∧ tick ≤ MAX_TICK) ∧ view.low ≤ tick ∧
      (tick ≤ view.high ∨ tick ≤ core.tick) := by
  have lowest : -MAX_TICK ≤ view.low := le_max_left _ _
  have highest : view.high ≤ MAX_TICK := min_le_left _ _
  have early := reads.low_le
  have ordered := reads.low_le_high reaches
  have inDomain := reads.inDomain
  rcases candidate_cases (output_candidate order member) with rfl | rfl | rfl | ⟨above, below⟩
  · exact ⟨inDomain, early, .inr le_rfl⟩
  · exact ⟨⟨lowest, early.trans inDomain.2⟩, le_rfl, .inr early⟩
  · exact ⟨⟨reaches, highest⟩, ordered, .inl le_rfl⟩
  · exact ⟨⟨lowest.trans above, below.trans highest⟩, above, .inl below⟩

/-- The curve shows at each of its ticks the liquidity of the positions over it. -/
theorem curve_shows {Price : Type} (priceFromSqrt : Int → Price) (order : TickOrder)
    (positions : List (LiquidityPosition spacing)) (view : Viewport) (core : CurveCore)
    (reads : ReadFrom positions view core) (reaches : -MAX_TICK ≤ view.high) :
    ∃ curve, concentratedCurve priceFromSqrt order view core = .ok curve ∧
      Shows positions view core curve := by
  have known : ¬(view.curveWords = [] ∨ view.tickSpacing = 0) := by
    rintro (empty | flat)
    · exact List.ne_nil_of_mem reads.current empty
    · exact reads.positive.ne' (reads.spaced.symm.trans flat)
  have output := fun tick (member : tick ∈ view.outputTicks core order) =>
    reads.output reaches order member
  obtain ⟨curve, made, ticks, levels⟩ := curvePoints_ok priceFromSqrt view.ours view.low
    (view.outputTicks core order) view.boundaries (max 0 (view.rewound core))
    (boundaries_sorted view) (outputTicks_rising order view core)
    fun tick member => (output tick member).1
  have start : max 0 (view.rewound core) = liquidityAt positions view.low := by
    have rewound : view.rewound core = liquidityAt positions view.low := by
      rw [rewound_eq, reads.liquidity, reads.carried reads.low_le (.inr le_rfl)]
      ring
    rw [rewound]
    exact max_eq_right (Nat.cast_nonneg _)
  refine ⟨curve, ?_, ?_⟩
  · rw [concentratedCurve, if_neg known]
    exact made
  · have shown : ∀ tick, tick = view.low ∨ tick = view.high ∨ tick = core.tick →
        tick ∈ curve.map CurvePoint.tick := by
      intro tick named
      rw [ticks]
      exact important_output order (mem_important named)
    exact {
      levels := fun point member => by
        have inside : point.tick ∈ view.outputTicks core order :=
          ticks ▸ List.mem_map_of_mem member
        obtain ⟨_, above, below⟩ := output point.tick inside
        rw [levels point member, start, ← reads.carried above below]
        exact max_eq_right (Nat.cast_nonneg _)
      low := shown view.low (.inl rfl)
      high := shown view.high (.inr (.inl rfl))
      current := shown core.tick (.inr (.inr rfl))
      rising := ticks ▸ outputTicks_rising order view core }

end

def TickOrder.insertion : TickOrder := ⟨id, fun _ => .refl _⟩

def widePosition : LiquidityPosition 8000 where
  lower := -880000
  upper := 880000
  liquidity := 100
  forwards := by decide
  lowerAligned := by decide
  upperAligned := by decide

def wideView : Viewport where
  tickSpacing := 8000
  curveWords := wordRange (-1) 0
  tickNet := (OrderedTable.empty.put (-880000) 100).put 880000 (-100)
  positionState := .empty

def wideCore : CurveCore := ⟨0, 100⟩

theorem wide_read : ReadFrom [widePosition] wideView wideCore where
  positive := by decide
  spaced := rfl
  contiguous := ⟨-1, 0, by decide, rfl⟩
  current := by decide
  inDomain := by decide
  nets := by
    intro tick
    rw [wideView, get_put, get_put, get_empty]
    by_cases upper : tick = 880000
    · subst upper
      decide
    · by_cases lower : tick = -880000
      · subst lower
        decide
      · have flat : grossAt [widePosition] tick = 0 := by
          simp [grossAt, widePosition, Ne.symm upper, Ne.symm lower]
        simp [upper, lower, flat]
  liquidity := by decide

example : (concentratedCurve id .insertion wideView wideCore).map
    (List.map fun point => (point.tick, point.liquidity)) =
      .ok [(-887272, 0), (-880000, 100), (0, 100), (880000, 0), (887272, 0)] := by
  decide

theorem curve_shows_wide : ∃ curve,
    concentratedCurve id .insertion wideView wideCore = .ok curve ∧
      Shows [widePosition] wideView wideCore curve :=
  curve_shows id .insertion [widePosition] wideView wideCore wide_read (by decide)

def lowView : Viewport := ⟨3460, [-2], .empty, .empty⟩

def lowCore : CurveCore := ⟨-887000, 0⟩

theorem low_read : ReadFrom ([] : List (LiquidityPosition 3460)) lowView lowCore where
  positive := by decide
  spaced := rfl
  contiguous := ⟨-2, -2, by decide, rfl⟩
  current := by decide
  inDomain := by decide
  nets := by
    intro tick
    rw [lowView, get_empty]
    exact (if_neg fun loaded => loaded.2 rfl).symm
  liquidity := rfl

theorem curve_raises : ¬∀ (spacing : Int) (positions : List (LiquidityPosition spacing))
    (view : Viewport) (core : CurveCore), ReadFrom positions view core →
      ∃ curve, concentratedCurve id .insertion view core = .ok curve ∧
        Shows positions view core curve := by
  intro shows
  obtain ⟨curve, made, _⟩ := shows 3460 [] lowView lowCore low_read
  have raised : (concentratedCurve id .insertion lowView lowCore).isOk = false := by
    decide +kernel
  rw [made] at raised
  cases raised

end RhPools.DepthCurves
