import RhPools.MarginalGreedy
import RhPools.PlannedSwaps

/-! The tenths of a split order. Each route brings the output of zero to ten
tenths as it was sampled; `allocate_split` hands out one tenth at a time. -/

namespace RhPools.SplitAllocation
open TxChain TxRoutes TxPlan MarginalGreedy

def SPLIT_STEPS : Nat := 10

abbrev Curve := Vector (Option Int) (SPLIT_STEPS + 1)

/-- A route with its curve; the source keeps the two in lists of one length. -/
structure Sample where
  route : Route
  curve : Curve
  deriving DecidableEq

/-- `curve[count]`; every use is at a count of at most `SPLIT_STEPS`. -/
def Sample.point (sample : Sample) (count : Nat) : Option Int := sample.curve[count]?.join

/-- `curve[count] or 0`. -/
def Sample.output (sample : Sample) (count : Nat) : Int := (sample.point count).getD 0

def positives (counts : List Nat) : Nat := counts.countP (0 < ·)

def option (counts : List Nat) (sample : Sample) (count : Nat) : Option Int :=
  if count < SPLIT_STEPS then
    match sample.point count, sample.point (count + 1) with
    | some here, some next =>
      if count ≠ 0 ∨ positives counts < 3 then some (next - here) else none
    | _, _ => none
  else none

def options (samples : List Sample) (counts : List Nat) : List (Int ×ₗ Nat) :=
  (samples.zip counts).zipIdx.filterMap fun ((sample, count), index) =>
    (option counts sample count).map fun gained => toLex (gained, index)

def addTenth (samples : List Sample) (counts : List Nat) : Try (List Nat) :=
  match (options samples counts).max? with
  | none => .error (.tx "no_route" "no executable split allocation")
  | some best => .ok (counts.modify (ofLex best).2 (· + 1))

def addTenths (samples : List Sample) : Nat → List Nat → Try (List Nat)
  | 0, counts => .ok counts
  | steps + 1, counts => do
    let next ← addTenth samples counts
    addTenths samples steps next

def splitLegs (amount : Int) (samples : List Sample) (counts : List Nat) : List SplitLeg :=
  (samples.zip counts).filterMap fun (sample, count) =>
    if count = 0 then none
    else some ⟨sample.route, amount * count / SPLIT_STEPS, sample.output count⟩

def topUp (remainder : Int) : List SplitLeg → Try (List SplitLeg)
  | [] => .error .index
  | [leg] => .ok [{ leg with amountIn := leg.amountIn + remainder }]
  | leg :: rest => do
    let topped ← topUp remainder rest
    return leg :: topped

def allocateSplit (samples : List Sample) (amount : Int) : Try Split := do
  let counts ← addTenths samples SPLIT_STEPS (List.replicate samples.length 0)
  let legs := splitLegs amount samples counts
  let topped ← topUp (amount - (legs.map SplitLeg.amountIn).sum) legs
  Split.build topped

/-- A curve that starts at zero and is sampled throughout, with increments that
never grow. -/
structure Sample.Concave (sample : Sample) : Prop where
  sampled : ∀ count, count ≤ SPLIT_STEPS → (sample.point count).isSome
  start : sample.output 0 = 0
  increments : ∀ count, count + 2 ≤ SPLIT_STEPS →
    sample.output (count + 2) - sample.output (count + 1) ≤
      sample.output (count + 1) - sample.output count

def worth (samples : List Sample) (counts : List Nat) : Int :=
  (List.zipWith Sample.output samples counts).sum

def valueAt (samples : List Sample) (index count : Nat) : Int :=
  ((samples[index]?).map fun sample => sample.output count).getD 0

def shareAt (counts : List Nat) (index : Nat) : Nat := counts.getD index 0

variable (amount : Int) (samples : List Sample) (counts : List Nat)

theorem mem_options (gained : Int) (index : Nat) :
    toLex (gained, index) ∈ options samples counts ↔ ∃ sample count,
      samples[index]? = some sample ∧ counts[index]? = some count ∧
        option counts sample count = some gained := by
  simp only [options, List.mem_filterMap, Prod.exists, List.mk_mem_zipIdx_iff_getElem?,
    List.getElem?_zip_eq_some, Option.map_eq_some_iff]
  constructor
  · rintro ⟨sample, count, place, ⟨here, counted⟩, value, found, same⟩
    obtain ⟨rfl, rfl⟩ : value = gained ∧ place = index := by simpa using same
    exact ⟨sample, count, here, counted, found⟩
  · rintro ⟨sample, count, here, counted, found⟩
    exact ⟨sample, count, index, ⟨here, counted⟩, gained, found, rfl⟩

theorem option_concave {counts : List Nat} {sample : Sample} {count : Nat}
    (concave : sample.Concave) (few : count ≠ 0 ∨ positives counts < 3) :
    option counts sample count =
      if count < SPLIT_STEPS then some (sample.output (count + 1) - sample.output count)
      else none := by
  unfold option
  split
  · rename_i inside
    obtain ⟨here, sampled⟩ := Option.isSome_iff_exists.mp (concave.sampled count (by omega))
    obtain ⟨next, sampled'⟩ := Option.isSome_iff_exists.mp (concave.sampled (count + 1) (by omega))
    simp [Sample.output, sampled, sampled']
  · rfl

theorem positives_few {counts : List Nat} (few : counts.length ≤ 3) {index : Nat}
    (unused : counts[index]? = some 0) : positives counts < 3 := by
  have short : positives counts ≠ counts.length := by
    intro all
    have := List.countP_eq_length.mp all 0 (List.mem_of_getElem? unused)
    simp at this
  have most : positives counts ≤ counts.length := List.countP_le_length
  omega

/-- Counts of the loop: one for each route, `handed` tenths in all. -/
structure Handed (samples : List Sample) (counts : List Nat) (handed : Nat) : Prop where
  length : counts.length = samples.length
  sum : counts.sum = handed

def Greedy (samples : List Sample) (counts : List Nat) : Prop :=
  ∃ price, Priced (Finset.range samples.length) SPLIT_STEPS (valueAt samples) price
    (shareAt counts)

theorem sum_shareAt :
    ∑ index ∈ Finset.range counts.length, shareAt counts index = counts.sum := by
  induction counts with
  | nil => rfl
  | cons count rest ih =>
    rw [List.length_cons, Finset.sum_range_succ', List.sum_cons, ← ih, add_comm]
    rfl

theorem worth_sum (length : counts.length = samples.length) :
    worth samples counts =
      ∑ index ∈ Finset.range samples.length, valueAt samples index (shareAt counts index) := by
  induction samples generalizing counts with
  | nil => simp [worth]
  | cons sample rest ih =>
    cases counts with
    | nil => simp at length
    | cons count others =>
      have tail := ih others (by simpa using length)
      rw [List.length_cons, Finset.sum_range_succ', add_comm]
      simpa [worth, valueAt, shareAt] using tail

theorem shareAt_modify (index : Nat) (inside : index < counts.length) :
    shareAt (counts.modify index (· + 1)) = handOut (shareAt counts) index := by
  funext place
  by_cases same : place = index
  · subst same
    simp [shareAt, handOut, List.getElem?_eq_getElem inside]
  · have different : index ≠ place := fun equal => same equal.symm
    simp [shareAt, handOut, same, different]

section Loop
variable {samples : List Sample} (concave : ∀ sample ∈ samples, sample.Concave)
  (few : samples.length ≤ 3)
include concave

theorem diminishing_concave :
    Diminishing (Finset.range samples.length) SPLIT_STEPS (valueAt samples) := by
  apply diminishing_of_next
  intro index member taken inside
  have bound : index < samples.length := Finset.mem_range.mp member
  have falls := (concave samples[index] (List.getElem_mem bound)).increments taken inside
  simpa [gain, valueAt, List.getElem?_eq_getElem bound] using falls

include few

theorem mem_options_concave {counts : List Nat} (length : counts.length = samples.length)
    (gained : Int) (index : Nat) :
    toLex (gained, index) ∈ options samples counts ↔ index ∈ Finset.range samples.length ∧
      shareAt counts index < SPLIT_STEPS ∧
        gained = gain (valueAt samples) index (shareAt counts index) := by
  rw [mem_options, Finset.mem_range]
  have listed : ∀ sample count, samples[index]? = some sample → counts[index]? = some count →
      (option counts sample count = some gained ↔ count < SPLIT_STEPS ∧
        gained = sample.output (count + 1) - sample.output count) := by
    intro sample count here counted
    have allowed : count ≠ 0 ∨ positives counts < 3 := by
      by_cases zero : count = 0
      · exact .inr (positives_few (by omega) (zero ▸ counted))
      · exact .inl zero
    rw [option_concave (concave sample (List.mem_of_getElem? here)) allowed]
    split
    · rename_i inside
      simp [inside, eq_comm]
    · rename_i outside
      simp [outside]
  constructor
  · rintro ⟨sample, count, here, counted, found⟩
    obtain ⟨inside, rfl⟩ := (listed sample count here counted).mp found
    refine ⟨(List.getElem?_eq_some_iff.mp here).1, ?_, ?_⟩
    · simpa [shareAt, counted] using inside
    · simp [gain, valueAt, shareAt, here, counted]
  · rintro ⟨bound, inside, rfl⟩
    have here := List.getElem?_eq_getElem bound
    have counted := List.getElem?_eq_getElem (length ▸ bound : index < counts.length)
    refine ⟨samples[index], counts[index], here, counted, ?_⟩
    refine (listed _ _ here counted).mpr ⟨by simpa [shareAt, counted] using inside, ?_⟩
    simp [gain, valueAt, shareAt, here, counted]

/-- While fewer than ten tenths are out some route can take one, and the tenth
goes to a route that gains most. -/
theorem addTenth_picks {counts : List Nat} {handed : Nat} (nonempty : 0 < samples.length)
    (state : Handed samples counts handed) (short : handed < SPLIT_STEPS) :
    ∃ index, Pick (Finset.range samples.length) SPLIT_STEPS (valueAt samples) (shareAt counts)
        index ∧
      addTenth samples counts = .ok (counts.modify index (· + 1)) := by
  have listed := mem_options_concave concave few state.length
  have first : shareAt counts 0 < SPLIT_STEPS := by
    have := Finset.single_le_sum (f := shareAt counts) (fun index _ => Nat.zero_le _)
      (Finset.mem_range.mpr (state.length ▸ nonempty : 0 < counts.length))
    rw [sum_shareAt, state.sum] at this
    omega
  cases largest : (options samples counts).max? with
  | none =>
    have empty := List.max?_eq_none_iff.mp largest
    have := (listed _ 0).mpr ⟨Finset.mem_range.mpr nonempty, first, rfl⟩
    simp [empty] at this
  | some best =>
    obtain ⟨member, most⟩ := List.max?_eq_some_iff.mp largest
    obtain ⟨inside, room, gained⟩ := (listed (ofLex best).1 (ofLex best).2).mp member
    refine ⟨(ofLex best).2, ⟨inside, room, ?_⟩, by simp [addTenth, largest]⟩
    intro other place free
    have below := most _ ((listed _ other).mpr ⟨place, free, rfl⟩)
    rw [← gained]
    rcases Prod.Lex.le_iff.mp below with less | ⟨same, _⟩
    · exact le_of_lt less
    · exact le_of_eq same

theorem addTenths_greedy (nonempty : 0 < samples.length) (steps : Nat) (counts : List Nat)
    (handed : Nat) (state : Handed samples counts handed) (greedy : Greedy samples counts)
    (enough : handed + steps = SPLIT_STEPS) :
    ∃ counts', addTenths samples steps counts = .ok counts' ∧
      Handed samples counts' SPLIT_STEPS ∧ Greedy samples counts' := by
  induction steps generalizing counts handed with
  | zero => exact ⟨counts, rfl, enough ▸ state, greedy⟩
  | succ steps ih =>
    obtain ⟨index, pick, added⟩ := addTenth_picks concave few nonempty state (by omega)
    have inside : index < counts.length := state.length ▸ Finset.mem_range.mp pick.member
    obtain ⟨price, priced⟩ := greedy
    have priced' := priced.pick (diminishing_concave concave) pick
    rw [← shareAt_modify counts index inside] at priced'
    have state' : Handed samples (counts.modify index (· + 1)) (handed + 1) := by
      refine ⟨by rw [List.length_modify, state.length], ?_⟩
      rw [← sum_shareAt, shareAt_modify counts index inside, List.length_modify,
        sum_handOut _ _ (Finset.mem_range.mpr inside), sum_shareAt, state.sum]
    obtain ⟨counts', rest, final⟩ := ih _ (handed + 1) state' ⟨_, priced'⟩ (by omega)
    refine ⟨counts', ?_, final⟩
    rw [addTenths, added]
    exact rest

end Loop

theorem splitLegs_length :
    (splitLegs amount samples counts).length ≤ samples.length := by
  refine (List.length_filterMap_le _ _).trans ?_
  rw [List.length_zip]
  exact Nat.min_le_left _ _

theorem splitLegs_idle (length : counts.length = samples.length)
    (idle : splitLegs amount samples counts = []) :
    counts.sum = 0 := by
  induction samples generalizing counts with
  | nil => simp_all
  | cons sample rest ih =>
    cases counts with
    | nil => rfl
    | cons count others =>
      by_cases zero : count = 0
      · have tail := ih others (by simpa using length) (by simpa [splitLegs, zero] using idle)
        simp [zero, tail]
      · simp [splitLegs, zero] at idle

theorem splitLegs_positive {amount : Int} (enough : 10 ≤ amount) (samples : List Sample)
    (counts : List Nat) : ∀ leg ∈ splitLegs amount samples counts, 0 < leg.amountIn := by
  intro leg member
  obtain ⟨⟨sample, count⟩, _, found⟩ := List.mem_filterMap.mp member
  by_cases zero : count = 0
  · simp [zero] at found
  · obtain rfl : _ = leg := by simpa [zero] using found
    have one : (1 : Int) ≤ count := by omega
    have product : 10 * 1 ≤ amount * count := mul_le_mul enough one (by decide) (by omega)
    exact Int.le_ediv_of_mul_le (by decide) product

theorem splitLegs_covered (length : counts.length = samples.length) :
    SPLIT_STEPS * ((splitLegs amount samples counts).map SplitLeg.amountIn).sum ≤
      amount * counts.sum := by
  induction samples generalizing counts with
  | nil => simp_all [splitLegs]
  | cons sample rest ih =>
    cases counts with
    | nil => simp at length
    | cons count others =>
      have tail := ih others (by simpa using length)
      have floor : (SPLIT_STEPS : Int) * (amount * count / SPLIT_STEPS) ≤ amount * count :=
        Int.mul_ediv_self_le (by decide)
      by_cases zero : count = 0
      · simpa [splitLegs, zero] using tail
      · have : splitLegs amount (sample :: rest) (count :: others) =
            ⟨sample.route, amount * count / SPLIT_STEPS, sample.output count⟩ ::
              splitLegs amount rest others := by
          simp [splitLegs, zero]
        rw [this, List.map_cons, List.sum_cons, List.sum_cons, mul_add, Nat.cast_add, mul_add]
        exact add_le_add floor tail

theorem splitLegs_worth (start : ∀ sample ∈ samples, sample.output 0 = 0)
    (length : counts.length = samples.length) :
    ((splitLegs amount samples counts).map SplitLeg.amountOut).sum = worth samples counts := by
  induction samples generalizing counts with
  | nil => simp [splitLegs, worth]
  | cons sample rest ih =>
    cases counts with
    | nil => simp at length
    | cons count others =>
      have tail := ih others (fun other member => start other (.tail _ member))
        (by simpa using length)
      by_cases zero : count = 0
      · have first := start sample (.head _)
        simpa [splitLegs, worth, zero, first] using tail
      · simpa [splitLegs, worth, zero] using tail

theorem topUp_spec (remainder : Int) (legs : List SplitLeg) (nonempty : legs ≠ [])
    (spare : 0 ≤ remainder) (positive : ∀ leg ∈ legs, 0 < leg.amountIn) :
    ∃ topped, topUp remainder legs = .ok topped ∧ topped.length = legs.length ∧
      (∀ leg ∈ topped, 0 < leg.amountIn) ∧
      (topped.map SplitLeg.amountIn).sum = (legs.map SplitLeg.amountIn).sum + remainder ∧
      topped.map SplitLeg.amountOut = legs.map SplitLeg.amountOut := by
  induction legs with
  | nil => exact absurd rfl nonempty
  | cons leg rest ih =>
    have head := positive leg (.head _)
    cases rest with
    | nil =>
      refine ⟨_, rfl, rfl, ?_, ?_, rfl⟩
      · intro last member
        obtain rfl := List.mem_singleton.mp member
        exact add_pos_of_pos_of_nonneg head spare
      · simp
    | cons next others =>
      obtain ⟨topped, done, length, positive', sum, outs⟩ :=
        ih (List.cons_ne_nil _ _) fun other member => positive other (.tail _ member)
      refine ⟨leg :: topped, ?_, congrArg (· + 1) length, ?_, ?_, ?_⟩
      · rw [topUp, done]
        · rfl
        · intro equal
          cases equal
      · intro other member
        rcases List.mem_cons.mp member with rfl | member
        · exact head
        · exact positive' other member
      · rw [List.map_cons, List.sum_cons, sum, List.map_cons, List.sum_cons]
        exact (add_assoc _ _ _).symm
      · rw [List.map_cons, outs, ← List.map_cons]

/-- The split of a concave order is the best distribution of its ten tenths, and
its legs take the whole amount. -/
theorem allocateSplit_optimal (samples : List Sample) (amount : Int) (enough : 10 ≤ amount)
    (routes : 1 ≤ samples.length ∧ samples.length ≤ 3)
    (concave : ∀ sample ∈ samples, sample.Concave) :
    ∃ split, allocateSplit samples amount = .ok split ∧
      split.legs.length ≤ 3 ∧ (∀ leg ∈ split.legs, 0 < leg.amountIn) ∧
      (split.legs.map SplitLeg.amountIn).sum = amount ∧
      (∃ counts, counts.length = samples.length ∧ counts.sum = SPLIT_STEPS ∧
        (split.legs.map SplitLeg.amountOut).sum = worth samples counts) ∧
      ∀ counts, counts.length = samples.length → counts.sum = SPLIT_STEPS →
        worth samples counts ≤ (split.legs.map SplitLeg.amountOut).sum := by
  obtain ⟨nonempty, few⟩ := routes
  have empty : Handed samples (List.replicate samples.length 0) 0 := ⟨by simp, by simp⟩
  have start : Greedy samples (List.replicate samples.length 0) := by
    obtain ⟨price, priced⟩ := priced_start (Finset.range samples.length) SPLIT_STEPS
      (valueAt samples)
    have zero : shareAt (List.replicate samples.length 0) = fun _ => 0 := by
      funext index
      by_cases inside : index < samples.length <;> simp [shareAt, inside]
    exact ⟨price, zero ▸ priced⟩
  obtain ⟨counts, counted, ⟨length, sum⟩, price, priced⟩ :=
    addTenths_greedy concave few nonempty SPLIT_STEPS _ 0 empty start rfl
  have covered := splitLegs_covered amount samples counts length
  have worths := splitLegs_worth amount samples counts
    (fun sample member => (concave sample member).start) length
  have spent : ((splitLegs amount samples counts).map SplitLeg.amountIn).sum ≤ amount := by
    rw [sum, mul_comm amount] at covered
    exact le_of_mul_le_mul_left covered (by decide)
  have some_leg : splitLegs amount samples counts ≠ [] := by
    intro idle
    have unused := splitLegs_idle amount samples counts length idle
    rw [sum] at unused
    cases unused
  obtain ⟨topped, done, legs, positive, total, outs⟩ :=
    topUp_spec (amount - ((splitLegs amount samples counts).map SplitLeg.amountIn).sum) _ some_leg
      (by omega) (splitLegs_positive enough samples counts)
  have valid : SplitValid topped := by
    refine ⟨⟨?_, ?_⟩, positive⟩
    · rw [legs]
      exact List.length_pos_iff.mpr some_leg
    · exact legs ▸ (splitLegs_length amount samples counts).trans few
  refine ⟨⟨topped, valid⟩, ?_, valid.1.2, positive, ?_, ?_, ?_⟩
  · apply (Try.bind_ok _ _ _).mpr
    refine ⟨counts, counted, ?_⟩
    exact (Try.bind_ok _ _ _).mpr ⟨topped, done, dif_pos valid⟩
  · rw [total]
    omega
  · exact ⟨counts, length, sum, outs ▸ worths⟩
  · intro others length' sum'
    rw [outs, worths, worth_sum samples others length', worth_sum samples counts length]
    apply priced.optimal
    · intro index member
      have below := Finset.single_le_sum (f := shareAt others) (fun _ _ => Nat.zero_le _)
        (length'.symm ▸ member)
      rwa [sum_shareAt, sum'] at below
    · rw [← length', sum_shareAt, sum', length', ← length, sum_shareAt, sum]

def sampleCurve (outputs : Nat → Int) : Sample :=
  ⟨PlannedSwaps.sampleBuy .v3 UR_V3_FACTORY, Vector.ofFn fun tenths => some (outputs tenths)⟩

theorem sampleCurve_concave (outputs : Nat → Int) (start : outputs 0 = 0)
    (increments : ∀ count < 9, outputs (count + 2) - outputs (count + 1) ≤
      outputs (count + 1) - outputs count) : (sampleCurve outputs).Concave := by
  have point : ∀ count, count ≤ SPLIT_STEPS →
      (sampleCurve outputs).point count = some (outputs count) := by
    intro count inside
    have : count < SPLIT_STEPS + 1 := by omega
    simp [Sample.point, sampleCurve, this]
  refine ⟨?_, ?_, ?_⟩
  · intro count inside
    simp [point count inside]
  · simpa [Sample.output, point 0 (by decide)] using start
  · intro count inside
    have steps := increments count (by simp only [SPLIT_STEPS] at inside; omega)
    simpa [Sample.output, point count (by omega), point (count + 1) (by omega),
      point (count + 2) inside] using steps

def sampleCurves : List Sample :=
  [sampleCurve fun tenths => 100 * tenths - tenths * tenths,
    sampleCurve fun tenths => 85 * tenths - tenths * tenths / 2,
    sampleCurve fun tenths => 20 * tenths]

theorem allocateSplit_optimal_curves :
    ∃ split, allocateSplit sampleCurves 1000 = .ok split ∧
      (split.legs.map SplitLeg.amountIn).sum = 1000 ∧
      ∀ counts, counts.length = 3 → counts.sum = SPLIT_STEPS →
        worth sampleCurves counts ≤ (split.legs.map SplitLeg.amountOut).sum := by
  have concave : ∀ sample ∈ sampleCurves, sample.Concave := by
    simp only [sampleCurves, List.forall_mem_cons]
    exact ⟨sampleCurve_concave _ (by decide) (by decide),
      sampleCurve_concave _ (by decide) (by decide),
      sampleCurve_concave _ (by decide) (by decide), by simp⟩
  obtain ⟨split, done, _, _, total, _, best⟩ :=
    allocateSplit_optimal sampleCurves 1000 (by decide) (by decide) concave
  exact ⟨split, done, total, best⟩

example : (allocateSplit sampleCurves 1000).map
    (fun split => split.legs.map fun leg => (leg.amountIn, leg.amountOut)) =
      .ok [(800, 736), (200, 168)] := by decide

end RhPools.SplitAllocation
