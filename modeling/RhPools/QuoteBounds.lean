import RhPools.MinOutProtection

/-! Whether the bounds of a finalized quote admit the execution that was quoted. The
gross bound of an external router and the per-leg bounds of a split are computed
with a second rounding; each admits the quote under an exact condition on the
remainders. -/

namespace RhPools.QuoteBounds
open BigEndian AbiCodec TxChain TxRoutes UrCommands TxPlan PlannedSwaps ProportionalShares
open MinOutProtection

theorem grossBound_le (minOut feeBps gross : Int) (fee : feeBps < 10000) :
    grossBound minOut feeBps ≤ gross ↔ minOut * 10000 ≤ gross * (10000 - feeBps) := by
  have kept : 0 < 10000 - feeBps := by omega
  unfold grossBound
  rw [Int.fdiv_eq_ediv_of_nonneg _ kept.le, ← Int.lt_add_one_iff,
    Int.ediv_lt_iff_lt_mul kept]
  constructor
  · intro below
    nlinarith
  · intro below
    nlinarith

/-- The bound admits the quoted gross output exactly when some slippage is allowed
or the fee on the quote is a whole number. -/
theorem grossBound_admits (gross feeBps slippageBps : Int) (nonneg : 0 ≤ gross)
    (fee : feeBps < 10000) (low : 0 ≤ slippageBps) (high : slippageBps ≤ 5000) :
    grossBound (minOutFor (gross - floorBps gross feeBps) slippageBps) feeBps ≤ gross ↔
      0 < slippageBps ∨ 10000 ∣ gross * feeBps := by
  rw [grossBound_le _ _ _ fee]
  have division := Int.mul_ediv_add_emod (gross * feeBps) 10000
  have rest := Int.emod_nonneg (gross * feeBps) (show (10000 : Int) ≠ 0 by norm_num)
  have part := Int.emod_lt_of_pos (gross * feeBps) (show (0 : Int) < 10000 by norm_num)
  have kept : 0 ≤ gross * (10000 - feeBps) := mul_nonneg nonneg (by omega)
  -- The net output is the kept part of the gross, rounded up.
  have net : (gross - floorBps gross feeBps) * 10000 =
      gross * (10000 - feeBps) + gross * feeBps % 10000 := by
    unfold floorBps
    linarith
  rcases low.lt_or_eq with slips | exact_
  · simp only [slips, true_or, iff_true]
    have floor := Int.ediv_mul_le
      ((gross - floorBps gross feeBps) * (10000 - slippageBps)) (show (10000 : Int) ≠ 0 by norm_num)
    unfold minOutFor
    by_cases some : 1 ≤ gross - floorBps gross feeBps
    · -- Slippage takes at least one unit off a positive net output.
      have less : (gross - floorBps gross feeBps) * (10000 - slippageBps) / 10000 ≤
          gross - floorBps gross feeBps - 1 := by
        rw [← Int.lt_add_one_iff, Int.ediv_lt_iff_lt_mul (by norm_num)]
        nlinarith
      linarith
    · have none : gross - floorBps gross feeBps ≤ 0 := by omega
      have shrunk : (gross - floorBps gross feeBps) * (10000 - slippageBps) ≤ 0 :=
        mul_nonpos_of_nonpos_of_nonneg none (by omega)
      linarith
  · have whole : minOutFor (gross - floorBps gross feeBps) slippageBps =
        gross - floorBps gross feeBps := by
      rw [← exact_]
      simp [minOutFor]
    rw [whole, net, ← exact_, Int.dvd_iff_emod_eq_zero]
    constructor
    · intro fits
      right
      omega
    · rintro (wrong | zero)
      · exact absurd wrong (lt_irrefl 0)
      · omega

def minimumOf : UrCommand → Option Int
  | .v3Swap _ _ minOut _ _ => some minOut
  | .v2Swap _ _ minOut _ _ => some minOut
  | .v4Swap params => (params.filterMap swapMinimum).head?
  | .sweep _ _ amountMin => some amountMin
  | .unwrapWeth _ amountMin => some amountMin
  | _ => none

/-- The minimum of the last swap of each leg; `count` swaps belong to earlier legs. -/
def legBounds (swaps : List Nat) (commands : List UrCommand) :
    Nat → List SplitLeg → List (Option Int)
  | _, [] => []
  | count, leg :: rest =>
    let count := count + leg.route.hops.length
    ((swaps[count - 1]?.bind (commands[·]?)).bind minimumOf) ::
      legBounds swaps commands count rest

def hopCount (legs : List SplitLeg) : Nat := (legs.map fun leg => leg.route.hops.length).sum

def Slot (command : UrCommand) : Prop := isSwap command = true ∧ (minimumOf command).isSome

theorem filterMap_setMinOut (minOut : Int) (params : List V4Param) :
    (params.map (setMinOut minOut)).filterMap swapMinimum =
      (params.filterMap swapMinimum).map fun _ => minOut := by
  induction params with
  | nil => rfl
  | cons param rest ih =>
    cases param <;>
      simp only [List.map_cons, setMinOut, List.filterMap_cons, swapMinimum, ih]

theorem slot_withMinOut (command : UrCommand) (minOut : Int) (slot : Slot command) :
    ∃ changed, withMinOut command minOut = .ok changed ∧ Slot changed ∧
      minimumOf changed = some minOut := by
  obtain ⟨swap, bound⟩ := slot
  cases command <;> simp only [isSwap, Bool.false_eq_true] at swap
  · exact ⟨_, rfl, ⟨rfl, rfl⟩, rfl⟩
  · exact ⟨_, rfl, ⟨rfl, rfl⟩, rfl⟩
  · rename_i params
    have written : minimumOf (.v4Swap (params.map (setMinOut minOut))) = some minOut := by
      simp only [minimumOf] at bound ⊢
      rw [filterMap_setMinOut]
      cases found : params.filterMap swapMinimum with
      | nil => simp [found] at bound
      | cons => simp
    exact ⟨_, rfl, ⟨rfl, by rw [written]; rfl⟩, written⟩

variable (intent : SwapIntent) (swaps : List Nat) (commands : List UrCommand)

theorem slot_setAt (index : Nat) (minOut : Int) (command : UrCommand)
    (found : commands[index]? = some command) (slot : Slot command) :
    ∃ changed bounded, setAt commands index minOut = .ok changed ∧
      changed = commands.set index bounded ∧ Slot bounded ∧ minimumOf bounded = some minOut := by
  obtain ⟨bounded, made, still, minimum⟩ := slot_withMinOut command minOut slot
  exact ⟨_, bounded, by simp [setAt, found, made], rfl, still, minimum⟩

def Slots (swaps : List Nat) (commands : List UrCommand) : Prop :=
  ∀ position ∈ swaps, ∃ command, commands[position]? = some command ∧ Slot command

theorem slots_set (index : Nat) (bounded : UrCommand) (slot : Slot bounded)
    (slots : Slots swaps commands) :
    Slots swaps (commands.set index bounded) := by
  intro position member
  obtain ⟨command, found, still⟩ := slots position member
  by_cases same : index = position
  · subst same
    have inside := (List.getElem?_eq_some_iff.mp found).1
    exact ⟨bounded, by simp [inside], slot⟩
  · exact ⟨command, by rw [List.getElem?_set_ne same]; exact found, still⟩

/-- The leg loop writes the proportional bounds on the last swap of each leg, and
nothing on the swaps before. -/
theorem boundLegs_spec (minOut total assigned : Int) (count : Nat) (legs : List SplitLeg)
    (commands : List UrCommand) (distinct : swaps.Nodup) (slots : Slots swaps commands)
    (enough : count + hopCount legs ≤ swaps.length) :
    ∃ changed, boundLegs swaps minOut total count assigned legs commands = .ok changed ∧
      legBounds swaps changed count legs =
        (shares minOut total assigned (legs.map SplitLeg.amountOut)).map some ∧
      ∀ i < count, ∀ position, swaps[i]? = some position →
        changed[position]? = commands[position]? := by
  induction legs generalizing count assigned commands with
  | nil => exact ⟨commands, rfl, rfl, fun _ _ _ _ => rfl⟩
  | cons leg rest ih =>
    have hops := leg.route.valid.1.1
    have size : hopCount (leg :: rest) = leg.route.hops.length + hopCount rest := by
      simp [hopCount]
    let next := count + leg.route.hops.length
    have inside : next - 1 < swaps.length := by omega
    have found : swaps[next - 1]? = some swaps[next - 1] := List.getElem?_eq_getElem inside
    obtain ⟨command, there, slot⟩ := slots swaps[next - 1] (List.getElem_mem inside)
    let bound := if rest = [] then minOut - assigned else (minOut * leg.amountOut).fdiv total
    obtain ⟨middle, bounded, made, rfl, still, minimum⟩ :=
      slot_setAt commands swaps[next - 1] bound command there slot
    obtain ⟨changed, later, reads, kept⟩ := ih (assigned + bound) next _
      (slots_set swaps commands _ bounded still slots) (by omega)
    refine ⟨changed, ?_, ?_, ?_⟩
    · have named : swaps[count + leg.route.hops.length - 1]? = some swaps[next - 1] := found
      simp only [boundLegs, named, Try.bind_ok]
      exact ⟨_, made, later⟩
    · have here : (swaps[next - 1]?.bind (changed[·]?)).bind minimumOf = some bound := by
        have range := (List.getElem?_eq_some_iff.mp there).1
        have same := kept (next - 1) (by omega) swaps[next - 1] found
        rw [found, Option.bind_some, same]
        simp [range, minimum]
      have first : shares minOut total assigned ((leg :: rest).map SplitLeg.amountOut) =
          bound :: shares minOut total (assigned + bound) (rest.map SplitLeg.amountOut) := by
        cases rest with
        | nil => rfl
        | cons other others =>
          simp only [List.map_cons, shares_cons, bound, reduceCtorEq, if_false]
          rw [mul_comm leg.amountOut minOut]
      rw [first, List.map_cons, ← reads, ← here]
      rfl
    · intro i before position entry
      have apart : swaps[next - 1] ≠ position := by
        intro same
        have order : i = next - 1 := by
          obtain ⟨range, value⟩ := List.getElem?_eq_some_iff.mp entry
          exact (List.Nodup.getElem_inj_iff distinct).mp (value.trans same.symm)
        omega
      rw [kept i (by omega) position entry, List.getElem?_set_ne apart]

theorem swapPositions_nodup : (swapPositions commands).Nodup := by
  unfold swapPositions
  have all : (commands.zipIdx.map Prod.snd).Nodup := by
    rw [List.zipIdx_map_snd]
    exact List.nodup_range'
  exact all.sublist ((List.filter_sublist).map Prod.snd)

theorem length_swapPositions :
    (swapPositions commands).length = commands.countP isSwap := by
  unfold swapPositions
  rw [List.length_map, ← List.countP_eq_length_filter]
  conv_rhs => rw [← List.zipIdx_map_fst 0 commands, List.countP_map]
  rfl

theorem swapPositions_swap (position : Nat) (member : position ∈ swapPositions commands) :
    ∃ command, commands[position]? = some command ∧ isSwap command = true := by
  simp only [swapPositions, List.mem_map, List.mem_filter, Prod.exists] at member
  obtain ⟨command, index, ⟨entry, swap⟩, rfl⟩ := member
  exact ⟨command, List.mem_zipIdx_iff_getElem?.mp entry, swap⟩

def Fresh (command : UrCommand) : Prop := isSwap command = true → minimumOf command = some 0

theorem fresh_hop (hop : Hop) (command : UrCommand)
    (made : hopCommand hop ADDRESS_THIS 0 = .ok command) : Fresh command := by
  intro _
  rcases hopCommand_cases hop _ 0 command made with ⟨-, path, -, rfl⟩ | ⟨-, rfl⟩ | ⟨-, rfl⟩ <;> rfl

theorem fresh_share (hop : Hop) (command : UrCommand) (amount : Int)
    (made : hopCommand hop ADDRESS_THIS 0 = .ok command) :
    Fresh (withAmountIn amount command) := by
  intro _
  rcases hopCommand_cases hop _ 0 command made with ⟨-, path, -, rfl⟩ | ⟨-, rfl⟩ | ⟨-, rfl⟩ <;> rfl

theorem isSwap_convert (held : Address) (amount : Int) : isSwap (convert held amount) = false := by
  unfold convert
  split <;> rfl

theorem fresh_convert (held : Address) (amount : Int) : Fresh (convert held amount) := by
  intro swap
  rw [isSwap_convert] at swap
  cases swap

theorem isSwap_hop (hop : Hop) (recipient : Address) (command : UrCommand)
    (made : hopCommand hop recipient 0 = .ok command) : isSwap command = true := by
  rcases hopCommand_cases hop _ 0 command made with ⟨-, path, -, rfl⟩ | ⟨-, rfl⟩ | ⟨-, rfl⟩ <;> rfl

theorem isSwap_withAmountIn (amount : Int) (command : UrCommand) :
    isSwap (withAmountIn amount command) = isSwap command := by
  cases command <;> rfl

theorem countP_emitted (payee : Hop → List Hop → Address) (held : Address) (hops : List Hop)
    (commands : List UrCommand) (emitted : Emitted payee held hops commands) :
    commands.countP isSwap = hops.length := by
  induction emitted with
  | nil => rfl
  | cons held hop rest command after made later ih =>
    have entered : (entry held hop).countP isSwap = 0 := by
      unfold entry
      split <;> simp [isSwap_convert]
    rw [List.countP_append, entered, List.countP_cons, ih, isSwap_hop hop _ command made]
    simp

theorem countP_legs (net allocated : Int) (legs : List SplitLeg) (commands : List UrCommand)
    (form : LegsCommands intent net allocated legs commands) :
    commands.countP isSwap = hopCount legs := by
  induction form with
  | nil => rfl
  | cons allocated leg rest commands after served made later ih =>
    have size : hopCount (leg :: rest) = leg.route.hops.length + hopCount rest := by
      simp [hopCount]
    rw [List.countP_append, ih, size]
    cases made with
    | intro first rest command hops shape made later =>
      have entered : ∀ amount, (legEntry intent.currencyIn first amount).countP isSwap = 0 := by
        intro amount
        unfold legEntry
        split <;> simp [isSwap_convert]
      have left : (splitExit intent.currencyOut leg.route.currencyOut).countP isSwap = 0 := by
        unfold splitExit
        split
        · rfl
        · split <;> simp [isSwap_convert]
      rw [List.countP_append, entered, List.countP_cons, List.countP_append, left,
        countP_emitted _ _ _ _ later, isSwap_withAmountIn, isSwap_hop first _ command made,
        shape]
      simp

theorem countP_pullInput (policy : TxPolicy) :
    (pullInput intent ++ takeInputFee intent policy).countP isSwap = 0 := by
  unfold pullInput takeInputFee
  split <;> split <;> rfl

theorem fresh_planned (net : Int) (legs : List SplitLeg) (policy : TxPolicy)
    (commands : List UrCommand) (form : LegsCommands intent net 0 legs commands) :
    ∀ command ∈ pullInput intent ++ takeInputFee intent policy ++ commands ++
      splitTail intent policy, Fresh command := by
  have opening : ∀ command ∈ pullInput intent ++ takeInputFee intent policy, Fresh command := by
    intro command member swap
    have none := List.countP_eq_zero.mp (countP_pullInput intent policy) command member
    exact absurd swap none
  have tail : ∀ command ∈ splitTail intent policy, Fresh command := by
    intro command member swap
    have none : (splitTail intent policy).countP isSwap = 0 := by
      unfold splitTail
      split <;> split <;> rfl
    exact absurd swap (List.countP_eq_zero.mp none command member)
  have legs := legs_forall Fresh intent net 0 legs commands fresh_convert fresh_hop fresh_share form
  simp only [List.forall_mem_append] at opening tail ⊢
  exact ⟨⟨opening, legs⟩, tail⟩

theorem swapPositions_bare :
    swapPositions (commands.map bare) = swapPositions commands := by
  unfold swapPositions
  rw [List.zipIdx_map, List.filter_map, List.map_map]
  have same : ((fun entry : UrCommand × Nat => isSwap entry.1) ∘ Prod.map bare id) =
      fun entry => isSwap entry.1 := by
    funext entry
    exact isSwap_bare entry.1
  rw [same]
  rfl

theorem legBounds_zero (count : Nat) (legs : List SplitLeg)
    (fresh : ∀ position ∈ swaps, (commands[position]?).bind minimumOf = some 0)
    (enough : count + hopCount legs ≤ swaps.length) :
    legBounds swaps commands count legs = legs.map fun _ => some 0 := by
  induction legs generalizing count with
  | nil => rfl
  | cons leg rest ih =>
    have hops := leg.route.valid.1.1
    have size : hopCount (leg :: rest) = leg.route.hops.length + hopCount rest := by
      simp [hopCount]
    have inside : count + leg.route.hops.length - 1 < swaps.length := by omega
    have found := List.getElem?_eq_getElem inside
    simp only [legBounds, List.map_cons, found, Option.bind_some]
    rw [fresh _ (List.getElem_mem inside), ih _ (by omega)]

/-- The bounds `finalize` leaves on the legs; with nothing quoted it writes none. -/
def quotedBounds (minOut : Int) (outs : List Int) : List Int :=
  if outs.sum = 0 then outs.map fun _ => 0 else shares minOut outs.sum 0 outs

def legOuts (split : Split) : List Int := split.legs.map SplitLeg.amountOut

theorem finalize_split (split : Split) (policy : TxPolicy) (plan : Plan) (first : SplitLeg)
    (legs : List UrCommand) (minOut : Int) (permit : Option Bytes)
    (planned : SplitPlan intent split policy plan first legs)
    (signed : plan.permit.isSome → permit.isSome) :
    ∃ final body, finalize plan minOut permit = .ok final ∧ final.body = .swap body ∧
      legBounds (swapPositions body.commands) body.commands 0 split.legs =
        (quotedBounds minOut (legOuts split)).map some := by
  have several := planned.several
  obtain ⟨before, last, commands, payOut, -⟩ :=
    split_closes intent _ split.legs policy legs planned.form
  obtain ⟨changed, guarded⟩ : ∃ changed, withMinOut last minOut = .ok changed := by
    have tail := congrArg List.getLast? commands
    unfold splitTail at tail
    rw [← List.append_assoc, List.getLast?_concat, List.getLast?_concat, Option.some.injEq] at tail
    rw [← tail]
    split <;> exact ⟨_, rfl⟩
  have still : isSwap changed = false := by
    rw [← isSwap_bare, bare_withMinOut _ _ _ guarded, isSwap_bare, payOut]
  have slot : setAt (before ++ [last]) ((before ++ [last]).length - 1) minOut =
      .ok (before ++ [changed]) := by
    simp [setAt, guarded]
  -- The swaps of the guarded list are the planned ones, fresh and enough for the hops.
  have fresh : ∀ position ∈ swapPositions (before ++ [changed]), ∃ command,
      (before ++ [changed])[position]? = some command ∧ isSwap command = true ∧
        minimumOf command = some 0 := by
    intro position member
    obtain ⟨command, found, swap⟩ := swapPositions_swap _ position member
    have inside := swapPositions_before before changed still position member
    refine ⟨command, found, swap, ?_⟩
    rw [List.getElem?_append_left inside] at found
    refine fresh_planned intent _ split.legs policy legs planned.form command ?_ swap
    rw [commands]
    exact List.mem_append_left _ (List.mem_of_getElem? found)
  have count : (swapPositions (before ++ [changed])).length = hopCount split.legs := by
    have total := countP_legs intent _ 0 split.legs legs planned.form
    have opening := countP_pullInput intent policy
    have tail : (splitTail intent policy).countP isSwap = 0 := by
      unfold splitTail
      split <;> split <;> rfl
    have whole := congrArg (List.countP isSwap) commands
    rw [List.countP_append, List.countP_append, opening, tail, total, List.countP_append,
      List.countP_singleton, payOut] at whole
    rw [length_swapPositions, List.countP_append, List.countP_singleton, still]
    simpa using whole.symm
  have refusal : ¬(plan.permit.isSome = true ∧ permit.isNone = true) := by
    rintro ⟨asked, missing⟩
    have given := signed asked
    rw [Option.isNone_iff_eq_none] at missing
    simp [missing] at given
  have made : ∀ written, boundSplit (some split) minOut (before ++ [changed]) = .ok written →
      ∃ body, finalize plan minOut permit =
        .ok { plan with body := .swap body, signature := permit } ∧ body.commands = written := by
    intro written bound
    refine ⟨⟨written, (before ++ [last]).length - 1, intent.shape first.route policy intent.feeLeg
      (if intent.feeLeg = .output then splitOutput intent else intent.currencyIn), some split⟩,
      ?_, rfl⟩
    simp only [finalize, planned.body, refusal, if_false, commands, slot, Try.ok_bind, bound]
  by_cases quoted : (legOuts split).sum = 0
  · have none : ¬(1 < split.legs.length ∧ (split.legs.map SplitLeg.amountOut).sum ≠ 0) :=
      fun facts => facts.2 quoted
    obtain ⟨body, finalized, same⟩ := made (before ++ [changed]) (by simp only [boundSplit, none, if_false])
    refine ⟨_, body, finalized, rfl, ?_⟩
    rw [same, quotedBounds, if_pos quoted, legBounds_zero _ _ 0 split.legs ?_ (by omega)]
    · simp [legOuts, Function.comp_def]
    · intro position member
      obtain ⟨command, found, -, zero⟩ := fresh position member
      rw [found, Option.bind_some, zero]
  · have slots : Slots (swapPositions (before ++ [changed])) (before ++ [changed]) := by
      intro position member
      obtain ⟨command, found, swap, zero⟩ := fresh position member
      exact ⟨command, found, swap, by rw [zero]; rfl⟩
    obtain ⟨final, bounded, reads, -⟩ := boundLegs_spec (swapPositions (before ++ [changed])) minOut
      (legOuts split).sum 0 0 split.legs (before ++ [changed]) (swapPositions_nodup _) slots
      (by omega)
    have positions : swapPositions final = swapPositions (before ++ [changed]) := by
      rw [← swapPositions_bare, bare_boundLegs _ _ _ _ _ _ _ _ bounded, swapPositions_bare]
    have more : 1 < split.legs.length ∧ (split.legs.map SplitLeg.amountOut).sum ≠ 0 :=
      ⟨several, quoted⟩
    obtain ⟨body, finalized, same⟩ := made final (by
      simp only [boundSplit, if_pos more]
      exact bounded)
    refine ⟨_, body, finalized, rfl, ?_⟩
    rw [same, positions, reads, quotedBounds, if_neg quoted]
    rfl

/-- The bounds of the legs ask for the minimum in all, and of no leg for more than
the quote measured on it. -/
structure Admits (bounds outs : List Int) (minOut : Int) : Prop where
  nonneg : ∀ bound ∈ bounds, 0 ≤ bound
  sum : bounds.sum = minOut
  within : ∀ entry ∈ bounds.zip outs, entry.1 ≤ entry.2

theorem minOutFor_nonneg (netOut slippageBps : Int) (nonneg : 0 ≤ netOut)
    (high : slippageBps ≤ 5000) : 0 ≤ minOutFor netOut slippageBps :=
  Int.ediv_nonneg (mul_nonneg nonneg (by omega)) (by norm_num)

theorem minOutFor_le (netOut slippageBps : Int) (nonneg : 0 ≤ netOut) (low : 0 ≤ slippageBps) :
    minOutFor netOut slippageBps ≤ netOut := by
  refine Int.ediv_le_of_le_mul (by norm_num) ?_
  exact mul_le_mul_of_nonneg_left (by omega) nonneg

/-- The remainders the floors leave to the last leg fit into what slippage takes off
its own output. -/
def RestFits (minOut : Int) (outs : List Int) : Prop :=
  (outs.dropLast.map fun out => out * minOut % outs.sum).sum ≤
    (outs.sum - minOut) * outs.getLastD 0

instance (minOut : Int) (outs : List Int) : Decidable (RestFits minOut outs) := by
  unfold RestFits; infer_instance

theorem admits_nothing (outs : List Int) (nonneg : ∀ out ∈ outs, 0 ≤ out) :
    Admits (outs.map fun _ => 0) outs 0 := by
  refine ⟨by simp, by simp, ?_⟩
  intro entry member
  rw [List.zip_map_left, List.mem_map] at member
  obtain ⟨pair, inside, rfl⟩ := member
  exact nonneg pair.2 (List.of_mem_zip inside).2

theorem quotedBounds_admits (outs : List Int) (slippageBps : Int) (some : outs ≠ [])
    (nonneg : ∀ out ∈ outs, 0 ≤ out) (low : 0 ≤ slippageBps) (high : slippageBps ≤ 5000) :
    let minOut := minOutFor outs.sum slippageBps
    Admits (quotedBounds minOut outs) outs minOut ↔ RestFits minOut outs := by
  intro minOut
  have total : 0 ≤ outs.sum := List.sum_nonneg nonneg
  have floor : 0 ≤ minOut := minOutFor_nonneg _ _ total high
  have ceiling : minOut ≤ outs.sum := minOutFor_le _ _ total low
  unfold quotedBounds
  by_cases quoted : outs.sum = 0
  · have nothing : minOut = 0 := by omega
    rw [if_pos quoted, nothing]
    refine iff_of_true (admits_nothing outs nonneg) ?_
    simp [RestFits, quoted]
  · have whole : 0 < outs.sum := by omega
    rw [if_neg quoted]
    have nonnegShares := shares_nonneg minOut outs.sum 0 outs floor whole nonneg (by simp)
    have sumShares := sum_shares minOut outs.sum 0 outs some
    obtain ⟨before, last, rfl⟩ := (List.eq_nil_or_concat' outs).resolve_left some
    have fits := shares_le_weights minOut (before ++ [last]).sum before last whole ceiling
      (fun out member => nonneg out (List.mem_append_left _ member)) (by simp)
    constructor
    · intro admits
      simpa [RestFits] using fits.mp admits.within
    · intro rest
      exact ⟨nonnegShares, by simpa using sumShares, fits.mpr (by simpa [RestFits] using rest)⟩

/-- The gross bound of an external router admits the quoted gross output exactly when
some slippage is allowed or the fee divides evenly; the leg bounds of a split admit
the measured outputs exactly when the remainders fit. -/
theorem finalize_admits (abi : Codec) (intent : SwapIntent) (policy : TxPolicy)
    (deadline permitNonce slippageBps : Int) (permit : Option Bytes)
    (fee : policy.feeBps < 10000) (low : 0 ≤ slippageBps) (high : slippageBps ≤ 5000) :
    (∀ route plan gross, 0 ≤ gross →
      TxPlan.plan abi intent route policy deadline permitNonce = .ok plan → plan.target ≠ UR →
      ∃ body : RouterBody,
        finalize plan (minOutFor (gross - floorBps gross policy.feeBps) slippageBps) permit =
          .ok { plan with body := .router body } ∧
        (body.grossMinOut ≤ gross ↔ 0 < slippageBps ∨ 10000 ∣ gross * policy.feeBps)) ∧
    ∀ split plan, 2 ≤ split.legs.length → (∀ leg ∈ split.legs, 0 ≤ leg.amountOut) →
      planSplit abi intent split policy deadline permitNonce = .ok plan →
      (plan.permit.isSome → permit.isSome) →
      let minOut := minOutFor (legOuts split).sum slippageBps
      ∃ final body bounds, finalize plan minOut permit = .ok final ∧ final.body = .swap body ∧
        legBounds (swapPositions body.commands) body.commands 0 split.legs = bounds.map some ∧
        (Admits bounds (legOuts split) minOut ↔ RestFits minOut (legOuts split)) := by
  constructor
  · intro route plan gross nonneg planned elsewhere
    rcases plan_router abi intent route policy deadline permitNonce plan planned with
      target | shape
    · exact absurd target elsewhere
    · let minOut := minOutFor (gross - floorBps gross policy.feeBps) slippageBps
      refine ⟨⟨intent.shape route policy .output intent.currencyOut,
        grossBound minOut policy.feeBps⟩, ?_,
        grossBound_admits gross policy.feeBps slippageBps nonneg fee low high⟩
      have under : ¬10000 ≤ policy.feeBps := by omega
      have kept : ¬10000 - policy.feeBps = 0 := by omega
      simp only [finalize, shape, SwapIntent.shape, ge_iff_le, under, and_false, if_false, kept]
      rfl
  · intro split plan several measured planned signed minOut
    rcases planSplit_cases abi intent split policy deadline permitNonce plan planned with
      ⟨leg, single, -⟩ | ⟨first, legs, form⟩
    · rw [single] at several
      simp at several
    · obtain ⟨final, body, finalized, written, bounds⟩ :=
        finalize_split intent split policy plan first legs minOut permit form signed
      refine ⟨final, body, _, finalized, written, bounds, ?_⟩
      refine quotedBounds_admits (legOuts split) slippageBps ?_ ?_ low high
      · intro none
        have size := congrArg List.length none
        simp only [legOuts, List.length_map, List.length_nil] at size
        omega
      · simpa [legOuts] using measured

def sampleLegs (outs : Int × Int × Int) : Split :=
  ⟨[⟨sampleBuy .v3 UR_V3_FACTORY, 299, outs.1⟩, ⟨sampleBuy .v2 UR_V2_FACTORY, 700, outs.2.1⟩,
    ⟨sampleBuy .v4 NATIVE, 1, outs.2.2⟩], by simp, by simp⟩

theorem finalize_admits_sample :
    ∃ plan body,
      TxPlan.plan layout (sampleTrade .buy) (sampleBuy .v3 GIGA_V3_FACTORY) samplePolicy 5000 0 =
        .ok plan ∧
      finalize plan (minOutFor (1000 - floorBps 1000 75) 50) none =
        .ok { plan with body := .router body } ∧
      body.grossMinOut ≤ 1000 ∧
    ∃ plan bounds,
      planSplit layout (sampleTrade .buy) (sampleLegs (300, 600, 200)) samplePolicy 5000 0 =
        .ok plan ∧
      (finalize plan (minOutFor 1100 50) none).isOk ∧ Admits bounds [300, 600, 200] 1094 := by
  have target : (TxPlan.plan layout (sampleTrade .buy) (sampleBuy .v3 GIGA_V3_FACTORY) samplePolicy
      5000 0).map (fun plan => plan.target) = .ok GIGA_SWAP_ROUTER := by decide +kernel
  have unsigned : (planSplit layout (sampleTrade .buy) (sampleLegs (300, 600, 200)) samplePolicy
      5000 0).map (fun plan => plan.permit) = .ok none := by decide +kernel
  obtain ⟨external, several⟩ := finalize_admits layout (sampleTrade .buy) samplePolicy 5000 0 50
    none (by decide) (by decide) (by decide)
  cases single : TxPlan.plan layout (sampleTrade .buy) (sampleBuy .v3 GIGA_V3_FACTORY) samplePolicy
      5000 0 with
  | error failure => simp [single, Except.map] at target
  | ok plan =>
    simp only [single, Except.map, Except.ok.injEq] at target
    obtain ⟨body, finalized, admits⟩ := external _ plan 1000 (by decide) single
      (by rw [target]; decide)
    refine ⟨plan, body, rfl, finalized, admits.mpr (by decide), ?_⟩
    cases split : planSplit layout (sampleTrade .buy) (sampleLegs (300, 600, 200)) samplePolicy
        5000 0 with
    | error failure => simp [split, Except.map] at unsigned
    | ok plan =>
      simp only [split, Except.map, Except.ok.injEq] at unsigned
      obtain ⟨final, body, bounds, finalized, -, -, admits⟩ := several _ plan (by decide)
        (by decide) split (by simp [unsigned])
      refine ⟨plan, bounds, rfl, ?_, admits.mpr (by decide)⟩
      rw [show (legOuts (sampleLegs (300, 600, 200))).sum = 1100 by decide] at finalized
      rw [finalized]
      rfl

def grossAsked (final : Plan) : Option Int :=
  match final.body with
  | .router body => some body.grossMinOut
  | .swap _ => none

def legsAsked (split : Split) (final : Plan) : List (Option Int) :=
  match final.body with
  | .router _ => []
  | .swap body => legBounds (swapPositions body.commands) body.commands 0 split.legs

/-- Without slippage a gross output of 1000 is asked for 1001; with it, the last of
three legs is asked for two units where the quote measured one. -/
theorem sampleQuote_refused :
    (∃ plan final,
      TxPlan.plan layout (sampleTrade .buy) (sampleBuy .v3 GIGA_V3_FACTORY) samplePolicy 5000 0 =
        .ok plan ∧
      finalize plan (minOutFor (1000 - floorBps 1000 75) 0) none = .ok final ∧
      ∃ asked, grossAsked final = some asked ∧ ¬asked ≤ 1000) ∧
    ∃ plan final bounds,
      planSplit layout (sampleTrade .buy) (sampleLegs (300, 700, 1)) samplePolicy 5000 0 =
        .ok plan ∧
      finalize plan (minOutFor 1001 50) none = .ok final ∧
      legsAsked (sampleLegs (300, 700, 1)) final = bounds.map some ∧
      ¬Admits bounds [300, 700, 1] (minOutFor 1001 50) := by
  constructor
  · have asked : (TxPlan.plan layout (sampleTrade .buy) (sampleBuy .v3 GIGA_V3_FACTORY) samplePolicy
        5000 0 >>= fun plan => finalize plan (minOutFor (1000 - floorBps 1000 75) 0) none).map
        grossAsked = .ok (some 1001) := by decide +kernel
    cases planned : TxPlan.plan layout (sampleTrade .buy) (sampleBuy .v3 GIGA_V3_FACTORY)
        samplePolicy 5000 0 with
    | error failure => simp [planned, Except.map] at asked
    | ok plan =>
      rw [planned, Try.ok_bind] at asked
      cases finalized : finalize plan (minOutFor (1000 - floorBps 1000 75) 0) none with
      | error failure => simp [finalized, Except.map] at asked
      | ok final =>
        simp only [finalized, Except.map, Except.ok.injEq] at asked
        exact ⟨plan, final, rfl, finalized, 1001, asked, by decide⟩
  · have asked : (planSplit layout (sampleTrade .buy) (sampleLegs (300, 700, 1)) samplePolicy
        5000 0 >>= fun plan => finalize plan (minOutFor 1001 50) none).map
        (legsAsked (sampleLegs (300, 700, 1))) = .ok [some 298, some 695, some 2] := by
      decide +kernel
    cases planned : planSplit layout (sampleTrade .buy) (sampleLegs (300, 700, 1)) samplePolicy
        5000 0 with
    | error failure => simp [planned, Except.map] at asked
    | ok plan =>
      rw [planned, Try.ok_bind] at asked
      cases finalized : finalize plan (minOutFor 1001 50) none with
      | error failure => simp [finalized, Except.map] at asked
      | ok final =>
        simp only [finalized, Except.map, Except.ok.injEq] at asked
        refine ⟨plan, final, [298, 695, 2], rfl, finalized, asked, ?_⟩
        intro admits
        exact absurd (admits.within (2, 1) (by simp)) (by decide)

end RhPools.QuoteBounds
