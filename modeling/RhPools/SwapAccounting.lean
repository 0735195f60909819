import RhPools.SplitReconcile

/-! Whether accepted amounts account for the pool swaps of the ledger: each Swap
log of a pool used is the swap of one hop, for the input that was carried to it. -/

namespace RhPools.SwapAccounting
open TxChain TxRoutes TxPlan TxLedger SplitReconcile PlannedSwaps

abbrev Matched := Hop × SwapLog

def logsOf (ledger : Ledger) (key : PoolId) : List SwapLog :=
  ledger.swaps.filter fun swap => swap.poolKey = key

def throughPool (matched : List Matched) (key : PoolId) : List Matched :=
  matched.filter fun pair => Hop.key pair.1 = key

def Carries (hookPolicy : Pool → HookPolicy) : Int → List Matched → Prop
  | _, [] => True
  | carry, (hop, log) :: rest =>
    (hopAmounts hop log).1 = carry ∧
      Carries hookPolicy ((hopAmounts hop log).2 -
        hookTaken (hookPolicy hop.pool) (hopAmounts hop log).2) rest

def LegsCarry (hookPolicy : Pool → HookPolicy) (net amountIn : Int) (netShares : Bool) :
    Int → List SplitLeg → List (List Matched) → Prop
  | _, [], [] => True
  | allocated, leg :: rest, matched :: others => ∃ share,
      amountsShare net amountIn netShares allocated leg rest = .ok share ∧
        matched.map Prod.fst = leg.route.hops ∧ Carries hookPolicy share matched ∧
          LegsCarry hookPolicy net amountIn netShares (allocated + share) rest others
  | _, _, _ => False

def Accounts (ledger : Ledger) (matched : List Matched) : Prop :=
  ∀ hop ∈ matched.map Prod.fst,
    ((throughPool matched (Hop.key hop)).map Prod.snd).Perm (logsOf ledger (Hop.key hop))

def RouteAccounted (shape : SwapShape) (ledger : Ledger) (hookPolicy : Pool → HookPolicy) : Prop :=
  ∃ matched, matched.map Prod.fst = shape.route.hops ∧
    Carries hookPolicy (shape.amountIn - shapeFee shape) matched ∧ Accounts ledger matched

def SplitAccounted (shape : SwapShape) (split : Split) (ledger : Ledger)
    (hookPolicy : Pool → HookPolicy) (netShares : Bool) : Prop :=
  ∃ matched, LegsCarry hookPolicy (shape.amountIn - shapeFee shape) shape.amountIn netShares 0
    split.legs matched ∧ Accounts ledger matched.flatten

def splitHops (split : Split) : List Hop := split.legs.flatMap fun leg => leg.route.hops

def hopsThrough (hops : List Hop) (key : PoolId) : Nat := hops.countP fun hop => Hop.key hop = key

theorem throughPool_length (matched : List Matched) (key : PoolId) :
    (throughPool matched key).length = hopsThrough (matched.map Prod.fst) key := by
  rw [hopsThrough, List.countP_map, throughPool, ← List.countP_eq_length_filter]
  rfl

theorem Accounts.count {ledger : Ledger} {matched : List Matched} (accounts : Accounts ledger matched)
    {hop : Hop} (member : hop ∈ matched.map Prod.fst) :
    (logsOf ledger (Hop.key hop)).length = hopsThrough (matched.map Prod.fst) (Hop.key hop) := by
  rw [← throughPool_length, ← (accounts hop member).length_eq, List.length_map]

theorem LegsCarry.hops {hookPolicy : Pool → HookPolicy} {net amountIn allocated : Int}
    {netShares : Bool} {legs : List SplitLeg} {matched : List (List Matched)}
    (carry : LegsCarry hookPolicy net amountIn netShares allocated legs matched) :
    matched.flatten.map Prod.fst = legs.flatMap fun leg => leg.route.hops := by
  induction legs generalizing allocated matched with
  | nil =>
    cases matched with
    | nil => rfl
    | cons first others => exact carry.elim
  | cons leg rest ih =>
    cases matched with
    | nil => exact carry.elim
    | cons first others =>
      obtain ⟨share, _, same, _, tail⟩ := carry
      rw [List.flatten_cons, List.map_append, same, ih tail, List.flatMap_cons]

def Reads (ledger : Ledger) : (PoolId → Nat) → List Matched → Prop
  | _, [] => True
  | seen, (hop, log) :: rest =>
    (logsOf ledger (Hop.key hop))[seen (Hop.key hop)]? = some log ∧
      Reads ledger (Function.update seen (Hop.key hop) (seen (Hop.key hop) + 1)) rest

def seenAfter (seen : PoolId → Nat) (matched : List Matched) : PoolId → Nat :=
  fun key => seen key + (throughPool matched key).length

theorem seenAfter_cons (seen : PoolId → Nat) (hop : Hop) (log : SwapLog) (rest : List Matched) :
    seenAfter seen ((hop, log) :: rest) =
      seenAfter (Function.update seen (Hop.key hop) (seen (Hop.key hop) + 1)) rest := by
  funext key
  by_cases same : Hop.key hop = key
  · subst same
    simp [seenAfter, throughPool]
    omega
  · have other : key ≠ Hop.key hop := fun equal => same equal.symm
    simp [seenAfter, throughPool, same, other]

theorem Reads.append {ledger : Ledger} {seen : PoolId → Nat} {first second : List Matched}
    (reads : Reads ledger seen first) (later : Reads ledger (seenAfter seen first) second) :
    Reads ledger seen (first ++ second) := by
  induction first generalizing seen with
  | nil => exact later
  | cons pair rest ih =>
    obtain ⟨hop, log⟩ := pair
    rw [seenAfter_cons] at later
    exact ⟨reads.1, ih reads.2 later⟩

theorem Reads.run {ledger : Ledger} {seen : PoolId → Nat} {matched : List Matched}
    (reads : Reads ledger seen matched) (key : PoolId) :
    (throughPool matched key).map Prod.snd =
      ((logsOf ledger key).drop (seen key)).take (throughPool matched key).length := by
  induction matched generalizing seen with
  | nil => simp [throughPool]
  | cons pair rest ih =>
    obtain ⟨hop, log⟩ := pair
    obtain ⟨here, later⟩ := reads
    have tail := ih later
    by_cases same : Hop.key hop = key
    · subst same
      obtain ⟨inside, rfl⟩ := List.getElem?_eq_some_iff.mp here
      rw [Function.update_self] at tail
      have first : throughPool ((hop, (logsOf ledger (Hop.key hop))[seen (Hop.key hop)]) :: rest)
          (Hop.key hop) = (hop, (logsOf ledger (Hop.key hop))[seen (Hop.key hop)]) ::
            throughPool rest (Hop.key hop) := by
        simp [throughPool]
      rw [first, List.map_cons, tail, List.length_cons, List.drop_eq_getElem_cons inside,
        List.take_succ_cons]
    · have other : key ≠ Hop.key hop := fun equal => same equal.symm
      rw [Function.update_of_ne other] at tail
      have skipped : throughPool ((hop, log) :: rest) key = throughPool rest key := by
        simp [throughPool, same]
      rw [skipped, tail]

/-- Read from the first log on, the logs of a pool are accounted for when there are
no more of them than hops. -/
theorem Reads.accounts {ledger : Ledger} {matched : List Matched}
    (reads : Reads ledger (fun _ => 0) matched)
    (enough : ∀ hop ∈ matched.map Prod.fst, (logsOf ledger (Hop.key hop)).length ≤
      hopsThrough (matched.map Prod.fst) (Hop.key hop)) : Accounts ledger matched := by
  intro hop member
  rw [reads.run (Hop.key hop), List.drop_zero, List.take_of_length_le]
  rw [throughPool_length]
  exact enough hop member

variable (ledger : Ledger)

theorem hopIo_occurrence (hop : Hop) (occurrence : Nat) (io : Int × Int)
    (read : ledger.hopIo hop (some occurrence) = .ok io) :
    ∃ log, (logsOf ledger (Hop.key hop))[occurrence]? = some log ∧ io = hopAmounts hop log := by
  simp only [Ledger.hopIo, Option.getD_some, reduceCtorEq, false_and, if_false] at read
  split at read
  · cases read
  · rename_i log found
    cases read
    exact ⟨log, found, rfl⟩

theorem hopIo_only (hop : Hop) (io : Int × Int) (read : ledger.hopIo hop none = .ok io) :
    ∃ log, logsOf ledger (Hop.key hop) = [log] ∧ io = hopAmounts hop log := by
  simp only [Ledger.hopIo, true_and] at read
  split at read
  · cases read
  rename_i single
  obtain ⟨log, only⟩ : ∃ log, logsOf ledger (Hop.key hop) = [log] := by
    apply List.length_eq_one_iff.mp
    simpa [logsOf] using single
  refine ⟨log, only, ?_⟩
  have found : (ledger.swaps.filter fun swap => swap.poolKey = Hop.key hop) = [log] := only
  simp only [found, Option.getD_none, List.getElem?_cons_zero, Except.ok.injEq] at read
  exact read.symm

theorem refuseCarry_ok {hopIn carry : Int} {done : Unit} (passed : refuseCarry hopIn carry = .ok done) :
    hopIn = carry :=
  not_not.mp ((refuse_ok _ _).mp passed)

variable (hookPolicy : Pool → HookPolicy)

theorem legHops_reads (tally after : Tally) (carry hopOut out last : Int) (hops : List Hop)
    (passed : legHops ledger hookPolicy tally carry hopOut hops = .ok (after, out, last)) :
    ∃ matched, matched.map Prod.fst = hops ∧ Carries hookPolicy carry matched ∧
      Reads ledger tally.seen matched ∧ after.seen = seenAfter tally.seen matched := by
  induction hops generalizing tally carry hopOut with
  | nil =>
    cases passed
    exact ⟨[], rfl, trivial, trivial, rfl⟩
  | cons hop rest ih =>
    simp only [legHops, Try.bind_ok, Prod.exists] at passed
    obtain ⟨hopIn, made, read, _, equal, later⟩ := passed
    obtain ⟨log, found, amounts⟩ := hopIo_occurrence ledger hop _ _ read
    have entered := refuseCarry_ok equal
    obtain ⟨matched, same, carries, reads, seen⟩ := ih _ _ _ later
    have stepped : (tally.pass hop (hookPolicy hop.pool) made).seen =
        Function.update tally.seen (Hop.key hop) (tally.seen (Hop.key hop) + 1) := by
      unfold Tally.pass
      split <;> rfl
    obtain ⟨rfl, rfl⟩ := Prod.mk.inj amounts
    refine ⟨(hop, log) :: matched, by rw [List.map_cons, same], ⟨entered, carries⟩, ?_, ?_⟩
    · exact ⟨found, stepped ▸ reads⟩
    · rw [seen, seenAfter_cons, stepped]

theorem splitAmountsLegs_reads (net amountIn allocated : Int) (netShares : Bool)
    (tally final : Tally) (legs outs : List SplitLeg)
    (walked : splitAmountsLegs ledger hookPolicy net amountIn netShares allocated tally legs =
      .ok (final, outs)) :
    ∃ matched, LegsCarry hookPolicy net amountIn netShares allocated legs matched ∧
      Reads ledger tally.seen matched.flatten := by
  induction legs generalizing allocated tally final outs with
  | nil => exact ⟨[], trivial, trivial⟩
  | cons leg rest ih =>
    simp only [splitAmountsLegs, Try.bind_ok, Try.pure_ok, Except.ok.injEq, Prod.mk.injEq,
      Prod.exists] at walked
    obtain ⟨share, shared, after, carry, hopOut, passed, _, later, walks, -, rfl⟩ := walked
    obtain ⟨first, same, carries, reads, seen⟩ := legHops_reads _ _ _ _ _ _ _ _ _ passed
    obtain ⟨others, carried, read⟩ := ih _ _ _ _ walks
    refine ⟨first :: others, ⟨share, shared, same, carries, carried⟩, ?_⟩
    rw [List.flatten_cons]
    exact reads.append (seen ▸ read)

theorem swapHops_only (state final : Carried) (hops : List Hop)
    (swapped : swapHops ledger hookPolicy state hops = .ok final) :
    ∃ matched, matched.map Prod.fst = hops ∧ Carries hookPolicy state.carry matched ∧
      ∀ pair ∈ matched, logsOf ledger (Hop.key pair.1) = [pair.2] := by
  induction hops generalizing state with
  | nil => exact ⟨[], rfl, trivial, fun pair member => absurd member List.not_mem_nil⟩
  | cons hop rest ih =>
    simp only [swapHops, Try.bind_ok, Prod.exists] at swapped
    obtain ⟨hopIn, hopOut, read, _, equal, later⟩ := swapped
    obtain ⟨log, only, amounts⟩ := hopIo_only ledger hop _ read
    have entered := refuseCarry_ok equal
    obtain ⟨rfl, rfl⟩ := Prod.mk.inj amounts
    have next : ∃ matched, matched.map Prod.fst = rest ∧
        Carries hookPolicy ((hopAmounts hop log).2 -
          hookTaken (hookPolicy hop.pool) (hopAmounts hop log).2) matched ∧
        ∀ pair ∈ matched, logsOf ledger (Hop.key pair.1) = [pair.2] := by
      unfold hookTaken
      split at later
      · rename_i pons
        rw [if_pos pons]
        exact ih _ later
      · rename_i plain
        rw [if_neg plain, Int.sub_zero]
        exact ih _ later
    obtain ⟨matched, same, carries, single⟩ := next
    refine ⟨(hop, log) :: matched, by rw [List.map_cons, same], ⟨entered, carries⟩, ?_⟩
    intro pair member
    rcases List.mem_cons.mp member with rfl | member
    · exact only
    · exact single pair member

theorem hopsThrough_nodup (hops : List Hop) :
    (∀ hop ∈ hops, hopsThrough hops (Hop.key hop) = 1) ↔ (hops.map Hop.key).Nodup := by
  have counted : ∀ key, hopsThrough hops key = (hops.map Hop.key).count key := by
    intro key
    rw [hopsThrough, List.count, List.countP_map]
    apply List.countP_congr
    simp
  simp only [counted]
  rw [List.nodup_iff_count_eq_one]
  simp

/-- Accepted amounts account for the swaps of the ledger exactly when a single route
enters no pool twice, and a split's ledger has no more logs of a pool than hops. -/
theorem amounts_accounted (shape : SwapShape) (ledger : Ledger)
    (hookPolicy : Pool → HookPolicy) :
    (∀ amounts, swapAmounts shape ledger hookPolicy = .ok amounts →
      (RouteAccounted shape ledger hookPolicy ↔ (shape.route.hops.map Hop.key).Nodup)) ∧
    ∀ split netShares amounts measured,
      splitAmounts shape split ledger hookPolicy netShares = .ok (amounts, measured) →
        (SplitAccounted shape split ledger hookPolicy netShares ↔ ∀ hop ∈ splitHops split,
          (logsOf ledger (Hop.key hop)).length ≤ hopsThrough (splitHops split) (Hop.key hop)) := by
  constructor
  · intro amounts returned
    simp only [swapAmounts, Try.bind_ok] at returned
    obtain ⟨swapped, walked, _⟩ := returned
    obtain ⟨matched, same, carries, single⟩ := swapHops_only ledger hookPolicy _ _ _ walked
    rw [← hopsThrough_nodup]
    constructor
    · rintro ⟨other, same', _, accounts⟩ hop member
      rw [← same'] at member ⊢
      rw [← accounts.count member]
      obtain ⟨pair, there, rfl⟩ := List.mem_map.mp (same'.trans same.symm ▸ member)
      rw [single pair there]
      rfl
    · intro once
      refine ⟨matched, same, carries, ?_⟩
      intro hop member
      obtain ⟨pair, there, rfl⟩ := List.mem_map.mp member
      have length : (throughPool matched (Hop.key pair.1)).length = 1 := by
        rw [throughPool_length, same]
        exact once pair.1 (same ▸ member)
      have inside : pair ∈ throughPool matched (Hop.key pair.1) := by
        simp [throughPool, there]
      obtain ⟨only, shape⟩ := List.length_eq_one_iff.mp length
      obtain rfl : pair = only := by simpa [shape] using inside
      rw [shape, single pair there]
      exact List.Perm.refl _
  · intro split netShares amounts measured returned
    simp only [splitAmounts, Try.bind_ok, Prod.exists] at returned
    obtain ⟨_, _, tally, outs, walked, _⟩ := returned
    obtain ⟨matched, carried, reads⟩ := splitAmountsLegs_reads _ _ _ _ _ _ _ _ _ _ walked
    constructor
    · rintro ⟨other, carried', accounts⟩ hop member
      have hops : other.flatten.map Prod.fst = splitHops split := carried'.hops
      rw [← hops] at member ⊢
      exact le_of_eq (accounts.count member)
    · intro enough
      refine ⟨matched, carried, Reads.accounts reads ?_⟩
      have hops : matched.flatten.map Prod.fst = splitHops split := carried.hops
      rw [hops]
      exact enough

def secondPool : Pool :=
  { samplePool .v2 UR_V2_FACTORY with
    id := .pool 0x44#160, address := 0x44#160 }

def twoPools : Split :=
  ⟨[⟨sampleBuy .v3 UR_V3_FACTORY, 600, 70⟩,
      ⟨⟨[⟨secondPool, WETH, sampleToken⟩], by
        refine ⟨by simp, ?_, by simp⟩
        simp [secondPool, samplePool, Pool.other]⟩, 400, 30⟩],
    by simp, by simp⟩

def twoSwaps (more : List SwapLog) : Ledger :=
  { transfers := [⟨NATIVE, sampleShape.wallet, samplePolicy.feeRecipient, 7⟩,
      ⟨sampleToken, 0x33#160, sampleShape.wallet, 100⟩]
    swaps := [⟨.pool 0x33#160, 595, -70, .v3⟩, ⟨.pool 0x44#160, -398, 30, .v2⟩] ++ more
    nativeTraced := true, nativeFlows := [] }

/-- The token sells some of its own into the first pool during the same transaction;
the split is accepted with that swap left over. -/
theorem twoSwaps_unaccounted :
    (splitAmounts sampleShape twoPools (twoSwaps [⟨.pool 0x33#160, 5, -1, .v3⟩]) hookless
      false).isOk ∧
    ¬SplitAccounted sampleShape twoPools (twoSwaps [⟨.pool 0x33#160, 5, -1, .v3⟩]) hookless
      false := by
  refine ⟨by decide +kernel, ?_⟩
  rintro ⟨matched, carried, accounts⟩
  have hops : matched.flatten.map Prod.fst = splitHops twoPools := carried.hops
  have first : ⟨samplePool .v3 UR_V3_FACTORY, WETH, sampleToken⟩ ∈ matched.flatten.map Prod.fst := by
    rw [hops]
    decide +kernel
  have counts := accounts.count first
  rw [hops] at counts
  revert counts
  decide +kernel

theorem amounts_accounted_sample :
    SplitAccounted sampleShape twoPools (twoSwaps []) hookless false := by
  have runs : (splitAmounts sampleShape twoPools (twoSwaps []) hookless false).isOk := by
    decide +kernel
  cases settled : splitAmounts sampleShape twoPools (twoSwaps []) hookless false with
  | error failure => simp [settled, Except.isOk, Except.toBool] at runs
  | ok made =>
    obtain ⟨amounts, measured⟩ := made
    apply ((amounts_accounted sampleShape (twoSwaps []) hookless).2 twoPools false amounts
      measured settled).mpr
    decide +kernel

end RhPools.SwapAccounting
