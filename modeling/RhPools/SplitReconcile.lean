import RhPools.PlannedSwaps
import RhPools.TxLedger

/-! A split is reconciled twice: when it is quoted, from the order and the share of
each leg, and from its receipt, from the net shares the calldata carries. Both walk
the logs with the same inputs, so they agree on every ledger. -/

namespace RhPools.SplitReconcile
open TxChain TxRoutes TxPlan TxLedger PlannedSwaps ProportionalShares

/-- The legs with the shares that `plan_split` encodes. -/
def encodedLegs (net amountIn : Int) : Int → List SplitLeg → List SplitLeg
  | _, [] => []
  | allocated, leg :: rest =>
    let share := legShare net amountIn allocated leg rest
    { leg with amountIn := share } :: encodedLegs net amountIn (allocated + share) rest

def encodedSplit (shape : SwapShape) (split : Split) : Try Split :=
  Split.build (encodedLegs (shape.amountIn - shapeFee shape) shape.amountIn 0 split.legs)

variable (shape : SwapShape) (ledger : Ledger) (walked : Tally × List Int) (amounts : Amounts)
  (outs : List Int) (hookPolicy : Pool → HookPolicy) (net amountIn allocated : Int)

theorem encodedLegs_amountIn (legs : List SplitLeg) :
    (encodedLegs net amountIn allocated legs).map SplitLeg.amountIn =
      legShares net amountIn allocated legs := by
  induction legs generalizing allocated with
  | nil => rfl
  | cons leg rest ih =>
    simp only [encodedLegs, List.map_cons, legShares, ih]

theorem encodedLegs_sum (net amountIn : Int) (legs : List SplitLeg) (some : legs ≠ []) :
    ((encodedLegs net amountIn 0 legs).map SplitLeg.amountIn).sum = net := by
  rw [encodedLegs_amountIn, legShares_shares, sum_shares _ _ _ _ (by simpa using some), sub_zero]

def outputs (walked : Tally × List SplitLeg) : Tally × List Int :=
  (walked.1, walked.2.map SplitLeg.amountOut)

theorem outputs_bind (legs others : Try (Tally × List SplitLeg)) (carry : Int)
    (leg other : SplitLeg) (same : legs.map outputs = others.map outputs) :
    (legs >>= fun made => .ok (made.1, { leg with amountOut := carry } :: made.2)).map outputs =
      (others >>= fun made => .ok (made.1, { other with amountOut := carry } :: made.2)).map
        outputs := by
  cases legs with
  | error failure =>
    cases others with
    | error same_ =>
      simp only [Except.map, Except.error.injEq] at same
      rw [same]
      rfl
    | ok made => simp [Except.map] at same
  | ok made =>
    cases others with
    | error failure => simp [Except.map] at same
    | ok also =>
      simp only [Except.map, outputs, Except.ok.injEq, Prod.mk.injEq] at same
      simp [Except.map, outputs, same.1, same.2]

def reading (settled : Amounts × Split) : Amounts × List Int :=
  (settled.1, settled.2.legs.map SplitLeg.amountOut)

theorem splitAmountsLegs_encoded (net amountIn allocated other : Int) (tally : Tally)
    (legs : List SplitLeg) (whole : amountIn ≠ 0) :
    (splitAmountsLegs ledger hookPolicy net amountIn true other tally
        (encodedLegs net amountIn allocated legs)).map outputs =
      (splitAmountsLegs ledger hookPolicy net amountIn false allocated tally legs).map outputs := by
  induction legs generalizing allocated other tally with
  | nil => rfl
  | cons leg rest ih =>
    have share : amountsShare net amountIn false allocated leg rest =
        .ok (legShare net amountIn allocated leg rest) := by
      simp [amountsShare, whole]
    simp only [encodedLegs, splitAmountsLegs, share, Try.ok_bind]
    simp only [amountsShare, if_true, Try.ok_bind]
    cases hops : legHops ledger hookPolicy tally (legShare net amountIn allocated leg rest) 0
        leg.route.hops with
    | error failure => rfl
    | ok passed =>
      obtain ⟨after, carry, hopOut⟩ := passed
      have later := ih (allocated + legShare net amountIn allocated leg rest)
        (other + legShare net amountIn allocated leg rest)
        { after with poolOut := after.poolOut + hopOut }
      simp only [Try.ok_bind]
      exact outputs_bind _ _ carry
        { leg with amountIn := legShare net amountIn allocated leg rest } leg later

theorem netLegs_amountIn (netOut grossOut distributed : Int) (legs : List SplitLeg) :
    (netLegs netOut grossOut distributed legs).map SplitLeg.amountIn =
      legs.map SplitLeg.amountIn := by
  induction legs generalizing distributed with
  | nil => rfl
  | cons leg rest ih => simp only [netLegs, List.map_cons, ih]

theorem netLegs_amountOut (netOut grossOut distributed : Int) (legs : List SplitLeg) :
    (netLegs netOut grossOut distributed legs).map SplitLeg.amountOut =
      shares netOut grossOut distributed (legs.map SplitLeg.amountOut) := by
  induction legs generalizing distributed with
  | nil => rfl
  | cons leg rest ih =>
    cases rest with
    | nil => simp [netLegs]
    | cons next rest =>
      rw [netLegs, List.map_cons, ih]
      simp [shares_cons]

theorem splitAmountsLegs_amountIn (netShares : Bool) (tally final : Tally)
    (legs outs : List SplitLeg)
    (walked : splitAmountsLegs ledger hookPolicy net amountIn netShares allocated tally legs =
      .ok (final, outs)) : outs.map SplitLeg.amountIn = legs.map SplitLeg.amountIn := by
  induction legs generalizing allocated tally final outs with
  | nil =>
    simp only [splitAmountsLegs, Except.ok.injEq, Prod.mk.injEq] at walked
    rw [← walked.2]
  | cons leg rest ih =>
    simp only [splitAmountsLegs, Try.bind_ok, Try.pure_ok, Except.ok.injEq, Prod.mk.injEq,
      Prod.exists] at walked
    obtain ⟨share, -, after, carry, hopOut, -, _, later, walks, -, rfl⟩ := walked
    simp only [List.map_cons]
    rw [ih _ _ _ _ walks]

theorem splitValid_amountIn (legs others : List SplitLeg)
    (same : others.map SplitLeg.amountIn = legs.map SplitLeg.amountIn) (valid : SplitValid legs) :
    SplitValid others := by
  have size := congrArg List.length same
  simp only [List.length_map] at size
  refine ⟨by rw [size]; exact valid.1, ?_⟩
  have positive : ∀ amount ∈ legs.map SplitLeg.amountIn, 0 < amount := by simpa using valid.2
  rw [← same] at positive
  simpa using positive

/-- The end of `split_amounts`, as a function of the outputs of the legs. -/
def settleOutputs (shape : SwapShape) (ledger : Ledger) (walked : Tally × List Int) :
    Try (Amounts × List Int) := do
  let grossOut := walked.2.sum
  let fee := if shape.feeLeg = .input then shapeFee shape else floorBps grossOut shape.feeBps
  let netOut := grossOut - (if shape.feeLeg = .output then fee else 0)
  let amounts ← settledAmounts shape ledger walked.1 fee netOut
  return (amounts, if shape.feeLeg = .output ∧ grossOut ≠ 0 then
    shares netOut grossOut 0 walked.2 else walked.2)

theorem splitAmounts_settles (split : Split) (ledger : Ledger) (hookPolicy : Pool → HookPolicy)
    (netShares : Bool)
    (covers : netShares = true →
      (split.legs.map SplitLeg.amountIn).sum = shape.amountIn - shapeFee shape) :
    (splitAmounts shape split ledger hookPolicy netShares).map reading =
      ((splitAmountsLegs ledger hookPolicy (shape.amountIn - shapeFee shape) shape.amountIn
        netShares 0 Tally.start split.legs).map outputs >>= settleOutputs shape ledger) := by
  have accepted : ¬(netShares = true ∧
      (split.legs.map SplitLeg.amountIn).sum ≠ shape.amountIn - shapeFee shape) :=
    fun refused => refused.2 (covers refused.1)
  simp only [splitAmounts, refuse, accepted, if_false, Try.ok_bind]
  cases walked : splitAmountsLegs ledger hookPolicy (shape.amountIn - shapeFee shape)
      shape.amountIn netShares 0 Tally.start split.legs with
  | error failure => rfl
  | ok made =>
    obtain ⟨tally, outs⟩ := made
    have kept := splitAmountsLegs_amountIn _ _ _ _ _ _ _ _ _ _ walked
    have built : ∀ measured : List SplitLeg,
        measured.map SplitLeg.amountIn = outs.map SplitLeg.amountIn →
        ∃ final : Split, Split.build measured = .ok final ∧ final.legs = measured := by
      intro measured same
      have valid := splitValid_amountIn _ _ (same.trans kept) split.valid
      exact ⟨⟨measured, valid⟩, by simp [Split.build, valid], rfl⟩
    simp only [Try.ok_bind, Except.map, outputs, settleOutputs]
    generalize (outs.map SplitLeg.amountOut).sum = grossOut
    generalize (if shape.feeLeg = .input then shapeFee shape else
      floorBps grossOut shape.feeBps) = fee
    generalize grossOut - (if shape.feeLeg = .output then fee else 0) = netOut
    cases settledAmounts shape ledger tally fee netOut with
    | error failure => rfl
    | ok amounts =>
      by_cases taken : shape.feeLeg = .output ∧ grossOut ≠ 0
      · obtain ⟨final, made, legs⟩ := built (netLegs netOut grossOut 0 outs)
          (netLegs_amountIn _ _ _ _)
        simp only [if_pos taken, Try.ok_bind, made, Try.pure_ok, reading, legs,
          netLegs_amountOut]
      · obtain ⟨final, made, legs⟩ := built outs rfl
        simp only [if_neg taken, Try.ok_bind, made, Try.pure_ok, reading, legs]

theorem splitAmounts_encoded (split encoded : Split) (ledger : Ledger)
    (hookPolicy : Pool → HookPolicy)
    (covers : (split.legs.map SplitLeg.amountIn).sum = shape.amountIn)
    (made : encodedSplit shape split = .ok encoded) :
    (splitAmounts shape split ledger hookPolicy false).map reading =
      (splitAmounts shape encoded ledger hookPolicy true).map reading := by
  have some : split.legs ≠ [] := List.ne_nil_of_length_pos split.valid.1.1
  have positive : 0 < shape.amountIn := by
    rw [← covers]
    refine List.sum_pos _ ?_ (by simpa using some)
    simpa using split.valid.2
  obtain ⟨legs, -⟩ := Split.build_ok _ _ made
  have net := encodedLegs_sum (shape.amountIn - shapeFee shape) shape.amountIn split.legs some
  have walks := splitAmountsLegs_encoded ledger hookPolicy (shape.amountIn - shapeFee shape)
    shape.amountIn 0 0 Tally.start split.legs positive.ne'
  rw [splitAmounts_settles _ _ _ _ false (by simp), ← walks, ← legs,
    splitAmounts_settles _ _ _ _ true (fun _ => by rw [legs]; exact net)]

theorem settledAmounts_netOut (tally : Tally) (fee netOut : Int) (amounts : Amounts)
    (settled : settledAmounts shape ledger tally fee netOut = .ok amounts) :
    amounts.netOut = netOut := by
  simp only [settledAmounts, Try.bind_ok, Try.pure_ok, Except.ok.injEq] at settled
  obtain ⟨_, -, _, -, _, -, rfl⟩ := settled
  rfl

theorem settleOutputs_cases (settled : settleOutputs shape ledger walked = .ok (amounts, outs)) :
    (shape.feeLeg = .input ∨ walked.2.sum = 0) ∧ amounts.netOut = walked.2.sum ∧
        outs = walked.2 ∨
      shape.feeLeg = .output ∧ walked.2.sum ≠ 0 ∧
        amounts.netOut = walked.2.sum - floorBps walked.2.sum shape.feeBps ∧
        outs = shares amounts.netOut walked.2.sum 0 walked.2 := by
  simp only [settleOutputs, Try.bind_ok, Try.pure_ok, Except.ok.injEq, Prod.mk.injEq] at settled
  obtain ⟨_, accepted, rfl, rfl⟩ := settled
  have net := settledAmounts_netOut _ _ _ _ _ _ accepted
  cases leg : shape.feeLeg with
  | input => simp [leg] at net ⊢; exact net
  | output =>
    simp only [leg, reduceCtorEq, if_false, if_true, false_or, true_and] at net ⊢
    by_cases nothing : walked.2.sum = 0
    · simp [nothing, floorBps] at net ⊢
      exact net
    · simp only [nothing, ne_eq, not_false_eq_true, false_and, if_true, false_or, net, and_self]

theorem settleOutputs_sum (settled : settleOutputs shape ledger walked = .ok (amounts, outs)) :
    outs.sum = amounts.netOut := by
  rcases settleOutputs_cases shape ledger walked amounts outs settled with
    ⟨-, net, rfl⟩ | ⟨-, some, net, rfl⟩
  · exact net.symm
  · rw [sum_shares _ _ _ _ (by rintro none; simp [none] at some), sub_zero]

theorem settleOutputs_nonneg (high : shape.feeBps ≤ 10000) (nonneg : ∀ out ∈ walked.2, 0 ≤ out)
    (settled : settleOutputs shape ledger walked = .ok (amounts, outs)) :
    ∀ out ∈ outs, 0 ≤ out := by
  rcases settleOutputs_cases shape ledger walked amounts outs settled with
    ⟨-, -, rfl⟩ | ⟨-, some, net, rfl⟩
  · exact nonneg
  · have gross : 0 ≤ walked.2.sum := List.sum_nonneg nonneg
    refine shares_nonneg _ _ _ _ ?_ (by omega) nonneg (by simp)
    have fee := floorBps_le walked.2.sum shape.feeBps gross high
    omega

/-- What a hop puts out covers what its hook takes, whichever of its logs is read. -/
def Covered (ledger : Ledger) (hookPolicy : Pool → HookPolicy) (hop : Hop) : Prop :=
  ∀ occurrence hopIn hopOut, ledger.hopIo hop (some occurrence) = .ok (hopIn, hopOut) →
    hookTaken (hookPolicy hop.pool) hopOut ≤ hopOut

theorem legHops_nonneg (tally after : Tally) (carry hopOut out lastOut : Int) (hops : List Hop)
    (some : hops ≠ []) (covered : ∀ last ∈ hops.getLast?, Covered ledger hookPolicy last)
    (passed : legHops ledger hookPolicy tally carry hopOut hops = .ok (after, out, lastOut)) :
    0 ≤ out := by
  induction hops generalizing tally carry hopOut with
  | nil => exact absurd rfl some
  | cons hop rest ih =>
    simp only [legHops, Try.bind_ok, Prod.exists] at passed
    obtain ⟨hopIn, made, read, _, -, later⟩ := passed
    cases rest with
    | nil =>
      simp only [legHops, Except.ok.injEq, Prod.mk.injEq] at later
      have enough := covered hop (by simp) _ _ _ read
      omega
    | cons next rest => exact ih _ _ _ (by simp) (by simpa using covered) later

theorem splitAmountsLegs_nonneg (netShares : Bool) (tally final : Tally) (legs outs : List SplitLeg)
    (covered : ∀ leg ∈ legs, ∀ last ∈ leg.route.hops.getLast?, Covered ledger hookPolicy last)
    (walked : splitAmountsLegs ledger hookPolicy net amountIn netShares allocated tally legs =
      .ok (final, outs)) : ∀ leg ∈ outs, 0 ≤ leg.amountOut := by
  induction legs generalizing allocated tally final outs with
  | nil =>
    simp only [splitAmountsLegs, Except.ok.injEq, Prod.mk.injEq] at walked
    simp [← walked.2]
  | cons leg rest ih =>
    simp only [splitAmountsLegs, Try.bind_ok, Try.pure_ok, Except.ok.injEq, Prod.mk.injEq,
      Prod.exists] at walked
    obtain ⟨share, -, after, carry, hopOut, passed, _, later, walks, -, rfl⟩ := walked
    have hops : leg.route.hops ≠ [] := List.ne_nil_of_length_pos leg.route.valid.1.1
    simp only [List.forall_mem_cons] at covered ⊢
    exact ⟨legHops_nonneg ledger hookPolicy _ _ _ _ _ _ _ hops covered.1 passed,
      ih _ _ _ _ covered.2 walks⟩

/-- Quote and receipt of a split read the same amounts and leg outputs off any ledger,
or refuse it alike; the outputs make up the net output, and none is negative when
the last hop of every leg covers its hook. -/
theorem splitAmounts_agree (shape : SwapShape) (split encoded : Split) (ledger : Ledger)
    (hookPolicy : Pool → HookPolicy)
    (covers : (split.legs.map SplitLeg.amountIn).sum = shape.amountIn)
    (made : encodedSplit shape split = .ok encoded) :
    (splitAmounts shape split ledger hookPolicy false).map reading =
      (splitAmounts shape encoded ledger hookPolicy true).map reading ∧
    ∀ amounts outs, (splitAmounts shape split ledger hookPolicy false).map reading =
        .ok (amounts, outs) →
      outs.sum = amounts.netOut ∧
      (shape.feeBps ≤ 10000 → (∀ leg ∈ split.legs, ∀ last ∈ leg.route.hops.getLast?,
        Covered ledger hookPolicy last) → ∀ out ∈ outs, 0 ≤ out) := by
  refine ⟨splitAmounts_encoded shape split encoded ledger hookPolicy covers made, ?_⟩
  intro amounts outs settled
  rw [splitAmounts_settles _ _ _ _ false (by simp)] at settled
  simp only [Try.bind_ok] at settled
  obtain ⟨walked, walk, settled⟩ := settled
  refine ⟨settleOutputs_sum shape ledger walked amounts outs settled, ?_⟩
  intro high covered
  refine settleOutputs_nonneg shape ledger walked amounts outs high ?_ settled
  cases legs : splitAmountsLegs ledger hookPolicy (shape.amountIn - shapeFee shape)
      shape.amountIn false 0 Tally.start split.legs with
  | error failure => simp [legs, Except.map] at walk
  | ok made =>
    obtain ⟨tally, measured⟩ := made
    simp only [legs, Except.map, outputs, Except.ok.injEq] at walk
    have nonneg := splitAmountsLegs_nonneg ledger hookPolicy _ _ _ _ _ _ _ _ covered legs
    simpa [← walk] using nonneg

def sampleShape : SwapShape :=
  (sampleTrade .buy).shape (sampleBuy .v3 UR_V3_FACTORY) samplePolicy .input NATIVE

/-- A V3 swap, then a V2 swap, with what the fee recipient and the wallet get. -/
def sampleLedger (first second : Int × Int) (received : Int) : Ledger :=
  { transfers := [⟨NATIVE, sampleShape.wallet, samplePolicy.feeRecipient, 7⟩,
      ⟨sampleToken, 0x33#160, sampleShape.wallet, received⟩]
    swaps := [⟨.pool 0x33#160, first.1, -first.2, .v3⟩, ⟨.pool 0x33#160, -second.1, second.2, .v2⟩]
    nativeTraced := true, nativeFlows := [] }

def hookless (_ : Pool) : HookPolicy := ⟨0, 0⟩

theorem splitAmounts_agree_sample :
    ∃ encoded, encodedSplit sampleShape (sampleSplit 600 400 (by decide)) = .ok encoded ∧
      (splitAmounts sampleShape encoded (sampleLedger (595, 70) (398, 30) 100) hookless true).map
          reading =
        .ok (⟨1000, 100, none, none, ⟨NATIVE, 7⟩, 100, 0, none⟩, [70, 30]) := by
  have runs : (encodedSplit sampleShape (sampleSplit 600 400 (by decide))).isOk := by
    decide +kernel
  have read : (splitAmounts sampleShape (sampleSplit 600 400 (by decide))
      (sampleLedger (595, 70) (398, 30) 100) hookless false).map reading =
        .ok (⟨1000, 100, none, none, ⟨NATIVE, 7⟩, 100, 0, none⟩, [70, 30]) := by decide +kernel
  cases made : encodedSplit sampleShape (sampleSplit 600 400 (by decide)) with
  | error failure => simp [made, Except.isOk, Except.toBool] at runs
  | ok encoded =>
    refine ⟨encoded, rfl, ?_⟩
    rw [← (splitAmounts_agree sampleShape (sampleSplit 600 400 (by decide)) encoded
      (sampleLedger (595, 70) (398, 30) 100) hookless (by decide) made).1, read]

/-- A ledger whose first swap put out less than nothing is accepted, with a negative
leg output. A leg too small for a share is accepted when it is quoted, and has no
encoded form. -/
theorem sampleLedger_negative :
    (splitAmounts sampleShape (sampleSplit 600 400 (by decide))
        (sampleLedger (595, -70) (398, 130) 60) hookless false).map reading =
      .ok (⟨1000, 60, none, none, ⟨NATIVE, 7⟩, 60, 0, none⟩, [-70, 130]) ∧
    (splitAmounts sampleShape (sampleSplit 1 999 (by decide))
        (sampleLedger (0, 0) (993, 100) 100) hookless false).isOk ∧
    encodedSplit sampleShape (sampleSplit 1 999 (by decide)) =
      .error (.value "split needs one to three positive legs") := by
  refine ⟨by decide +kernel, by decide +kernel, by decide +kernel⟩

end RhPools.SplitReconcile
