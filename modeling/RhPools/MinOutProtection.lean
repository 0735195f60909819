import RhPools.RouterBalances

/-! The minimum output of a finalized plan. `finalize` writes it in one place for
each kind of plan: the last swap, the payout after the fee, or the gross bound of
an external router. Whatever the pools return, a run that passes the checks of
its commands pays the wallet at least the minimum. -/

namespace RhPools.MinOutProtection
open BigEndian AbiCodec TxChain TxRoutes UrCommands RouterCalls TxPlan PlannedSwaps CommandRuns
open RouterBalances

def swapMinimum : V4Param → Option Int
  | .swapExactInSingle _ _ _ minOut => some minOut
  | _ => none

def meets (router : Router) (output : Int) : UrCommand → Prop
  | .v3Swap _ _ minOut _ _ => minOut ≤ output
  | .v2Swap _ _ minOut _ _ => minOut ≤ output
  | .v4Swap params => ∀ minOut ∈ params.filterMap swapMinimum, minOut ≤ output
  | .sweep token _ amountMin => amountMin ≤ router.held token
  | .unwrapWeth _ amountMin => amountMin ≤ router.held WETH
  | _ => True

def checking : Machine UrCommand Router :=
  { ready := fun _ _ => True
    next := fun command router next =>
      ∃ output, meets router output command ∧ next = after router output command }

def Quiet (command : UrCommand) : Prop :=
  ∀ router output recipient currency amount,
    gives router output command = some (recipient, currency, amount) → recipient ≠ MSG_SENDER

variable (router : Router)

theorem paid_credit_other (recipient currency : Address) (amount : Int)
    (other : recipient ≠ MSG_SENDER) : (router.credit recipient currency amount).paid =
      router.paid := by
  unfold Router.credit
  split
  · rfl
  · rfl

theorem paid_after_quiet (output : Int) (command : UrCommand) (quiet : Quiet command) :
    (after router output command).paid = router.paid := by
  unfold after
  cases given : gives router output command with
  | none => cases takes router command <;> simp
  | some payment =>
    obtain ⟨recipient, currency, amount⟩ := payment
    have other := quiet router output recipient currency amount given
    cases takes router command <;> simp [paid_credit_other _ _ _ _ other]

theorem paid_after_sender (output : Int) (command : UrCommand) (currency : Address) (amount : Int)
    (given : gives router output command = some (MSG_SENDER, currency, amount)) :
    (after router output command).paid currency = router.paid currency + amount := by
  unfold after
  rw [given]
  cases takes router command <;> simp [paid_credit_sender]

theorem always_quiet (post : Router → Prop) (commands : List UrCommand) (router : Router)
    (quiet : ∀ command ∈ commands, Quiet command)
    (holds : ∀ next : Router, next.paid = router.paid → post next) :
    Always checking post commands router := by
  induction commands generalizing router with
  | nil => exact holds router rfl
  | cons command rest ih =>
    refine ⟨trivial, ?_⟩
    rintro next ⟨output, -, rfl⟩
    have same := paid_after_quiet router output command (quiet command List.mem_cons_self)
    refine ih _ (fun other member => quiet other (List.mem_cons_of_mem command member)) ?_
    intro next paid
    exact holds next (paid.trans same)

variable (abi : Codec) (intent : SwapIntent) (plan final : Plan) (held : Address) (hop : Hop)
  (minOut : Int)

theorem taken_setMinOut (param : V4Param) :
    taken (setMinOut minOut param) = taken param := by
  cases param <;> rfl

theorem gives_bare (output : Int) (command : UrCommand) :
    gives router output (bare command) = gives router output command := by
  cases command with
  | v4Swap params => simp [bare, gives, List.findSome?_map, Function.comp_def, taken_setMinOut]
  | _ => rfl

theorem quiet_of_bare (commands others : List UrCommand)
    (same : commands.map bare = others.map bare) (quiet : ∀ command ∈ others, Quiet command) :
    ∀ command ∈ commands, Quiet command := by
  intro command member
  have inside : bare command ∈ others.map bare := by
    rw [← same]
    exact List.mem_map_of_mem member
  obtain ⟨other, there, equal⟩ := List.mem_map.mp inside
  intro router output recipient currency amount given
  rw [← gives_bare, ← equal, gives_bare] at given
  exact quiet other there router output recipient currency amount given

theorem quiet_convert (amount : Int) : Quiet (convert held amount) := by
  intro router output recipient currency given paid
  unfold convert at paid
  split at paid <;> simp only [gives, Option.some.injEq, Prod.mk.injEq] at paid <;>
    rw [← paid.1] <;> exact sender_ne_this.symm

theorem quiet_hop (command : UrCommand) (made : hopCommand hop ADDRESS_THIS minOut = .ok command) :
    Quiet command := by
  intro router output recipient currency amount given
  rw [gives_hop router hop _ minOut output command made, Option.some.injEq,
    Prod.mk.injEq] at given
  rw [← given.1]
  exact sender_ne_this.symm

theorem quiet_share (minOut share : Int) (command : UrCommand)
    (made : hopCommand hop ADDRESS_THIS minOut = .ok command) :
    Quiet (withAmountIn share command) := by
  intro router output recipient currency amount given
  rw [gives_share router hop _ minOut share output command made, Option.some.injEq,
    Prod.mk.injEq] at given
  rw [← given.1]
  exact sender_ne_this.symm

theorem quiet_portion (token recipient : Address) (bips : Int) :
    Quiet (.payPortion token recipient bips) := by
  intro router output recipient currency amount given
  cases given

theorem quiet_when (asked : Prop) [Decidable asked] (command : UrCommand)
    (quiet : Quiet command) : ∀ other ∈ (if asked then [command] else []), Quiet other := by
  intro other member
  split at member
  · rw [List.mem_singleton.mp member]
    exact quiet
  · simp at member

theorem quiet_pullInput : ∀ command ∈ pullInput intent, Quiet command := by
  intro command member
  unfold pullInput at member
  split at member
  · simp at member
  · rw [List.mem_singleton.mp member]
    intro router output recipient currency amount given
    simp only [gives, Option.some.injEq, Prod.mk.injEq] at given
    rw [← given.1]
    exact sender_ne_this.symm

theorem quiet_takeInputFee (policy : TxPolicy) :
    ∀ command ∈ takeInputFee intent policy, Quiet command :=
  quiet_when _ _ (quiet_portion _ _ _)

theorem quiet_entry : ∀ command ∈ entry held hop, Quiet command :=
  quiet_when _ _ (quiet_convert _ _)

theorem quiet_append (first rest : List UrCommand) (before : ∀ command ∈ first, Quiet command)
    (after : ∀ command ∈ rest, Quiet command) : ∀ command ∈ first ++ rest, Quiet command := by
  intro command member
  rcases List.mem_append.mp member with here | there
  · exact before command here
  · exact after command there

theorem quiet_emitted (payee : Hop → List Hop → Address) (held : Address) (hops : List Hop)
    (commands : List UrCommand) (inside : ∀ hop rest, payee hop rest = ADDRESS_THIS)
    (emitted : Emitted payee held hops commands) : ∀ command ∈ commands, Quiet command := by
  induction emitted with
  | nil => simp
  | cons held hop rest command after made later ih =>
    rw [inside] at made
    refine quiet_append _ _ (quiet_entry held hop) ?_
    rw [List.forall_mem_cons]
    exact ⟨quiet_hop hop 0 command made, ih⟩

theorem quiet_legs (net allocated : Int) (legs : List SplitLeg) (commands : List UrCommand)
    (form : LegsCommands intent net allocated legs commands) :
    ∀ command ∈ commands, Quiet command :=
  legs_forall Quiet intent net allocated legs commands quiet_convert
    (fun hop command made => quiet_hop hop 0 command made)
    (fun hop command amount made => quiet_share hop 0 amount command made) form

/-- A run that passes the command's check pays the wallet at least `minOut`. -/
def Pays (currency : Address) (minOut : Int) (command : UrCommand) : Prop :=
  ∀ router output, meets router output command →
    router.paid currency + minOut ≤ (after router output command).paid currency

theorem pays_of_gives (currency : Address) (minOut : Int) (command : UrCommand)
    (amount : Router → Int → Int)
    (given : ∀ router output,
      gives router output command = some (MSG_SENDER, currency, amount router output))
    (enough : ∀ router output, meets router output command → minOut ≤ amount router output) :
    Pays currency minOut command := by
  intro router output met
  have more := enough router output met
  rw [paid_after_sender router output command currency _ (given router output)]
  omega

theorem pays_hop (command changed : UrCommand) (made : hopCommand hop MSG_SENDER 0 = .ok command)
    (bounded : withMinOut command minOut = .ok changed) :
    Pays hop.currencyOut minOut changed := by
  have given : ∀ router output,
      gives router output changed = some (MSG_SENDER, hop.currencyOut, output) := by
    intro router output
    rw [← gives_bare, bare_withMinOut _ _ _ bounded, gives_bare]
    exact gives_hop router hop _ 0 output command made
  refine pays_of_gives _ _ _ (fun _ output => output) given ?_
  intro router output met
  rcases hopCommand_cases hop MSG_SENDER 0 command made with
    ⟨-, path, -, rfl⟩ | ⟨-, rfl⟩ | ⟨-, rfl⟩ <;>
    simp only [withMinOut, Except.ok.injEq] at bounded <;> subst bounded
  · exact met
  · exact met
  · simpa [meets, v4Hop, setMinOut, swapMinimum] using met

theorem pays_sweep (token : Address) (minOut : Int) :
    Pays token minOut (.sweep token MSG_SENDER minOut) :=
  pays_of_gives _ _ _ (fun router _ => router.held token) (fun _ _ => rfl) fun _ _ met => met

theorem pays_unwrap : Pays NATIVE minOut (.unwrapWeth MSG_SENDER minOut) :=
  pays_of_gives _ _ _ (fun router _ => router.held WETH) (fun _ _ => rfl) fun _ _ met => met

/-- Quiet commands and then one that pays once `finalize` has bounded it. -/
def Closes (currency : Address) (before : List UrCommand) (last : UrCommand) : Prop :=
  (∀ command ∈ before, Quiet command) ∧
    ∀ minOut changed, withMinOut last minOut = .ok changed → Pays currency minOut changed

theorem closes_payOut (before : List UrCommand) (currency token : Address) (unwrap : Prop)
    [Decidable unwrap] (quiet : ∀ command ∈ before, Quiet command)
    (native : unwrap → currency = NATIVE) (same : ¬unwrap → currency = token) :
    Closes currency before
      (if unwrap then .unwrapWeth MSG_SENDER 0 else .sweep token MSG_SENDER 0) := by
  refine ⟨quiet, fun minOut changed bounded => ?_⟩
  split at bounded
  · rename_i eth
    simp only [withMinOut, Except.ok.injEq] at bounded
    subst bounded
    rw [native eth]
    exact pays_unwrap minOut
  · rename_i token
    simp only [withMinOut, Except.ok.injEq] at bounded
    subst bounded
    rw [same token]
    exact pays_sweep _ minOut

theorem emitted_closes (hops : List Hop) (commands : List UrCommand) (some : hops ≠ [])
    (input : intent.feeLeg = .input) (out : heldAfter held hops = intent.currencyOut)
    (emitted : Emitted (routePayee intent) held hops commands) :
    ∃ before last, commands = before ++ [last] ∧ Closes intent.currencyOut before last := by
  induction emitted with
  | nil => exact absurd rfl some
  | cons held hop rest command after made later ih =>
    cases rest with
    | nil =>
      cases later
      simp only [heldAfter] at out
      have straight : direct intent hop [] = true := by simp [direct, input, out]
      rw [routePayee, straight, if_pos rfl] at made
      refine ⟨entry held hop, command, rfl, quiet_entry held hop, ?_⟩
      intro minOut changed bounded
      rw [← out]
      exact pays_hop hop minOut command changed made bounded
    | cons second others =>
      obtain ⟨before, last, rfl, quiet, pays⟩ := ih (by simp) out
      have inside : routePayee intent hop (second :: others) = ADDRESS_THIS := by
        simp [routePayee, direct]
      rw [inside] at made
      refine ⟨entry held hop ++ command :: before, last, by simp, ?_, pays⟩
      refine quiet_append _ _ (quiet_entry held hop) ?_
      rw [List.forall_mem_cons]
      exact ⟨quiet_hop hop 0 command made, quiet⟩

theorem quiet_output (hops : List Hop) (commands : List UrCommand)
    (output : intent.feeLeg = .output) (emitted : Emitted (routePayee intent) held hops commands) :
    ∀ command ∈ commands, Quiet command :=
  quiet_emitted _ held hops commands (fun hop rest => by simp [routePayee, direct, output]) emitted

theorem route_closes (route : Route) (policy : TxPolicy) (commands : List UrCommand)
    (feeCurrency : Address) (served : serves intent route)
    (form : RouteCommands intent route policy commands feeCurrency) :
    ∃ before last, commands = before ++ [last] ∧ Closes intent.currencyOut before last := by
  cases form with
  | paidDirectly added emitted input out =>
    obtain ⟨before, last, rfl, quiet, pays⟩ := emitted_closes intent _ _ _ route.ne_nil input
      ((heldAfter_route _ route).trans out) emitted
    refine ⟨pullInput intent ++ takeInputFee intent policy ++ before, last, by simp, ?_, pays⟩
    exact quiet_append _ _ (quiet_append _ _ (quiet_pullInput intent)
      (quiet_takeInputFee intent policy)) quiet
  | paidAfterFee added emitted output =>
    have wrap : ∀ command ∈ (if intent.currencyOut = WETH ∧ route.currencyOut = NATIVE then
        [UrCommand.wrapEth ADDRESS_THIS CONTRACT_BALANCE] else []), Quiet command :=
      quiet_when _ _ (quiet_convert NATIVE CONTRACT_BALANCE)
    refine ⟨pullInput intent ++ added ++
      ((if intent.currencyOut = WETH ∧ route.currencyOut = NATIVE then
          [.wrapEth ADDRESS_THIS CONTRACT_BALANCE] else []) ++
        [.payPortion (paidForm intent route.currencyOut) policy.feeRecipient policy.feeBps]),
      if intent.currencyOut = NATIVE ∧ paidForm intent route.currencyOut = WETH then
        .unwrapWeth MSG_SENDER 0
      else .sweep (paidForm intent route.currencyOut) MSG_SENDER 0,
      by simp [outputTail], ?_⟩
    refine closes_payOut _ _ _ _ ?_ (fun unwraps => unwraps.1) ?_
    · refine quiet_append _ _ (quiet_append _ _ (quiet_pullInput intent)
        (quiet_output intent _ _ _ output emitted)) (quiet_append _ _ wrap ?_)
      intro command member
      rw [List.mem_singleton.mp member]
      exact quiet_portion _ _ _
    · intro sweeps
      unfold paidForm at sweeps ⊢
      rcases served.2 with same | ⟨native, weth⟩ | ⟨weth, native⟩
      · rw [same, ite_eq_right_iff.mpr]
        rintro ⟨wrapped, -⟩
        exact wrapped.symm
      · simp [native, weth]
      · simp [native, weth] at sweeps

theorem split_closes (net : Int) (legs : List SplitLeg) (policy : TxPolicy)
    (commands : List UrCommand) (form : LegsCommands intent net 0 legs commands) :
    ∃ before last,
      pullInput intent ++ takeInputFee intent policy ++ commands ++ splitTail intent policy =
        before ++ [last] ∧ isSwap last = false ∧ Closes intent.currencyOut before last := by
  have portion : ∀ command ∈ (if intent.feeLeg = .output then
      [UrCommand.payPortion (splitOutput intent) policy.feeRecipient policy.feeBps] else []),
      Quiet command := quiet_when _ _ (quiet_portion _ _ _)
  refine ⟨pullInput intent ++ takeInputFee intent policy ++ commands ++
    (if intent.feeLeg = .output then
      [.payPortion (splitOutput intent) policy.feeRecipient policy.feeBps] else []),
    if intent.currencyOut = NATIVE then .unwrapWeth MSG_SENDER 0
    else .sweep (splitOutput intent) MSG_SENDER 0, by simp [splitTail], ?_, ?_⟩
  · split <;> rfl
  · refine closes_payOut _ _ _ _ ?_ id ?_
    · exact quiet_append _ _ (quiet_append _ _ (quiet_append _ _ (quiet_pullInput intent)
        (quiet_takeInputFee intent policy)) (quiet_legs _ _ _ _ _ form)) portion
    · intro token
      rw [splitOutput, if_neg token]

/-! ### Where `finalize` writes the minimum -/

theorem setAt_end (before guarded : List UrCommand) (last : UrCommand) (minOut : Int)
    (bounded : setAt (before ++ [last]) ((before ++ [last]).length - 1) minOut = .ok guarded) :
    ∃ changed, withMinOut last minOut = .ok changed ∧ guarded = before ++ [changed] := by
  have index : (before ++ [last]).length - 1 = before.length := by simp
  rw [index, setAt, List.getElem?_concat_length] at bounded
  simp only [Try.bind_ok, Try.pure_ok, Except.ok.injEq] at bounded
  obtain ⟨changed, bounded, rfl⟩ := bounded
  exact ⟨changed, bounded, by simp⟩

theorem setAt_before (before changed : List UrCommand) (last : UrCommand) (index : Nat)
    (minOut : Int) (inside : index < before.length)
    (bounded : setAt (before ++ [last]) index minOut = .ok changed) :
    ∃ others, changed = others ++ [last] ∧ others.length = before.length := by
  rw [setAt, List.getElem?_append_left inside] at bounded
  split at bounded
  · cases bounded
  · simp only [Try.bind_ok, Try.pure_ok, Except.ok.injEq] at bounded
    obtain ⟨slot, -, rfl⟩ := bounded
    exact ⟨before.set index slot, List.set_append_left index slot inside, by simp⟩

theorem boundLegs_before (swaps : List Nat) (minOut total assigned : Int) (count : Nat)
    (legs : List SplitLeg) (before changed : List UrCommand) (last : UrCommand)
    (inside : ∀ position ∈ swaps, position < before.length)
    (bounded : boundLegs swaps minOut total count assigned legs (before ++ [last]) =
      .ok changed) :
    ∃ others, changed = others ++ [last] ∧ others.length = before.length := by
  induction legs generalizing count assigned before with
  | nil =>
    simp only [boundLegs, Except.ok.injEq] at bounded
    exact ⟨before, bounded.symm, rfl⟩
  | cons leg rest ih =>
    simp only [boundLegs] at bounded
    split at bounded
    · cases bounded
    · rename_i position found
      simp only [Try.bind_ok] at bounded
      obtain ⟨middle, one, later⟩ := bounded
      have here := inside position (List.mem_of_getElem? found)
      obtain ⟨others, rfl, size⟩ := setAt_before before middle last position _ here one
      obtain ⟨final, rfl, same⟩ := ih _ _ others (by rwa [size]) later
      exact ⟨final, rfl, same.trans size⟩

theorem swapPositions_before (before : List UrCommand) (last : UrCommand)
    (payOut : isSwap last = false) :
    ∀ position ∈ swapPositions (before ++ [last]), position < before.length := by
  intro position member
  simp only [swapPositions, List.mem_map, List.mem_filter, Prod.exists] at member
  obtain ⟨command, index, ⟨entry, swap⟩, rfl⟩ := member
  have found := List.mem_zipIdx_iff_getElem?.mp entry
  by_contra out
  have range := (List.getElem?_eq_some_iff.mp found).1
  simp only [List.length_append, List.length_singleton] at range
  obtain rfl : index = before.length := by omega
  rw [List.getElem?_concat_length, Option.some.injEq] at found
  have same : last = command := found
  rw [← same, payOut] at swap
  cases swap

theorem boundSplit_before (split : Option Split) (minOut : Int) (before changed : List UrCommand)
    (last : UrCommand) (payOut : split = none ∨ isSwap last = false)
    (bounded : boundSplit split minOut (before ++ [last]) = .ok changed) :
    ∃ others, changed = others ++ [last] ∧ others.length = before.length := by
  unfold boundSplit at bounded
  split at bounded
  · simp only [Except.ok.injEq] at bounded
    exact ⟨before, bounded.symm, rfl⟩
  · rename_i split
    have quiet : isSwap last = false := by simpa using payOut
    dsimp only at bounded
    split at bounded
    · exact boundLegs_before _ _ _ _ _ _ before changed last
        (swapPositions_before before last quiet) bounded
    · simp only [Except.ok.injEq] at bounded
      exact ⟨before, bounded.symm, rfl⟩

theorem isSwap_bare (command : UrCommand) : isSwap (bare command) = isSwap command := by
  cases command <;> rfl

/-- A finalized plan that closes pays the wallet its minimum in every run that
passes the checks. -/
theorem finalized_pays (body : SwapBody) (minOut : Int) (permit : Option Bytes) (currency : Address)
    (before : List UrCommand) (last : UrCommand) (value : Int) (shape : plan.body = .swap body)
    (index : body.minOutIndex = body.commands.length - 1)
    (commands : body.commands = before ++ [last]) (payOut : body.split = none ∨ isSwap last = false)
    (closes : Closes currency before last) (finalized : finalize plan minOut permit = .ok final) :
    ∃ changed, final.body = .swap changed ∧
      Always checking (fun router => minOut ≤ router.paid currency) (final.commands changed)
        (started value) := by
  obtain ⟨guarded, written, slot, legs, rfl⟩ :=
    finalize_swap plan final body minOut permit shape finalized
  rw [index, commands] at slot
  obtain ⟨bounded, guard, rfl⟩ := setAt_end before guarded last minOut slot
  have payOut : body.split = none ∨ isSwap bounded = false := by
    refine payOut.imp_right fun quiet => ?_
    rw [← isSwap_bare, bare_withMinOut _ _ _ guard, isSwap_bare]
    exact quiet
  obtain ⟨others, rfl, size⟩ := boundSplit_before body.split minOut before written bounded payOut
    legs
  have same : others.map bare = before.map bare := by
    have whole := bare_boundSplit _ _ _ _ legs
    rw [List.map_append, List.map_append] at whole
    exact (List.append_inj whole (by simp [size])).1
  have quiet := quiet_of_bare others before same closes.1
  have pays := closes.2 minOut bounded guard
  refine ⟨{ body with commands := others ++ [bounded] }, rfl, ?_⟩
  have runs : ∀ first : List UrCommand, (∀ command ∈ first, Quiet command) →
      Always checking (fun router => minOut ≤ router.paid currency)
        (first ++ others ++ [bounded]) (started value) := by
    intro first silent
    rw [always_append]
    refine always_quiet _ _ _ (quiet_append _ _ silent quiet) ?_
    intro router paid
    refine ⟨trivial, ?_⟩
    rintro next ⟨output, met, rfl⟩
    have more := pays router output met
    have none : router.paid currency = 0 := by rw [paid]; rfl
    rw [always_nil]
    omega
  unfold Plan.commands
  dsimp only
  split
  · refine runs [.permit2Permit _ _] fun command member => ?_
    rw [List.mem_singleton.mp member]
    intro router output recipient currency amount given
    cases given
  · exact runs [] (by simp)

structure Desk where
  held : Address → Int
  paid : Address → Address → Int

def Desk.receive (desk : Desk) (token : Address) (amount : Int) : Desk :=
  { desk with held := Function.update desk.held token (desk.held token + amount) }

/-- The fee goes off the balance of `source`; the rest is paid to the wallet in
`currency`. The fee recipient is not followed. -/
def Desk.payOut (desk : Desk) (source currency wallet : Address) (bps : Int) : Desk :=
  let net := desk.held source - floorBps (desk.held source) bps
  { held := Function.update desk.held source 0
    paid := Function.update desk.paid wallet
      (Function.update (desk.paid wallet) currency (desk.paid wallet currency + net)) }

def pathEnd (path : Bytes) : Address := (decodeV3Path path).1.getLast?.getD NATIVE

/-- The router at `self` keeps the output of a swap that names it as recipient. -/
def deskAfter (self : Address) (desk : Desk) (output : Int) : RouterCall → Desk
  | .pancakeSingle _ tokenOut _ recipient _ _ =>
    if recipient = self then desk.receive tokenOut output else desk
  | .slipstreamSingle _ tokenOut _ recipient _ _ _ =>
    if recipient = self then desk.receive tokenOut output else desk
  | .v3Single _ tokenOut _ recipient _ _ _ =>
    if recipient = self then desk.receive tokenOut output else desk
  | .pancakeMulti path recipient _ _ =>
    if recipient = self then desk.receive (pathEnd path) output else desk
  | .v3Multi path recipient _ _ _ =>
    if recipient = self then desk.receive (pathEnd path) output else desk
  | .unwrapWithFee _ wallet bps _ => desk.payOut WETH NATIVE wallet bps
  | .sweepWithFee token _ wallet bps _ => desk.payOut token token wallet bps

def deskMeets (desk : Desk) (output : Int) : RouterCall → Prop
  | .pancakeSingle _ _ _ _ _ minimum => minimum ≤ output
  | .slipstreamSingle _ _ _ _ _ _ minimum => minimum ≤ output
  | .v3Single _ _ _ _ _ _ minimum => minimum ≤ output
  | .pancakeMulti _ _ _ minimum => minimum ≤ output
  | .v3Multi _ _ _ _ minimum => minimum ≤ output
  | .unwrapWithFee minimum _ _ _ => minimum ≤ desk.held WETH
  | .sweepWithFee token minimum _ _ _ => minimum ≤ desk.held token

def deskChecking (self : Address) : Machine RouterCall Desk :=
  { ready := fun _ _ => True
    next := fun call desk next =>
      ∃ output, deskMeets desk output call ∧ next = deskAfter self desk output call }

def emptyDesk : Desk := ⟨fun _ => 0, fun _ _ => 0⟩

/-- The gross bound before the fee, as `finalize` computes it. -/
def grossBound (minOut feeBps : Int) : Int :=
  (minOut * 10000 + (10000 - feeBps) - 1).fdiv (10000 - feeBps)

theorem grossBound_net (minOut feeBps gross : Int) (fee : feeBps < 10000)
    (enough : grossBound minOut feeBps ≤ gross) : minOut ≤ gross - floorBps gross feeBps := by
  have kept : 0 < 10000 - feeBps := by omega
  have ceiling : minOut * 10000 ≤ gross * (10000 - feeBps) := by
    unfold grossBound at enough
    rw [Int.fdiv_eq_ediv_of_nonneg _ kept.le] at enough
    have below := Int.lt_ediv_add_one_mul_self (minOut * 10000 + (10000 - feeBps) - 1) kept
    have scaled := mul_le_mul_of_nonneg_right enough kept.le
    nlinarith
  have floor := Int.ediv_mul_le (gross * feeBps) (show (10000 : Int) ≠ 0 by norm_num)
  unfold floorBps
  nlinarith

theorem v3RouterSwap_quiet (self : Address) (tokens : List Address) (fees : List Int)
    (amount deadline : Int) (recipient : Address) (pancake slipstream : Bool)
    (swap : RouterCall) (desk : Desk) (output : Int)
    (made : v3RouterSwap tokens fees amount deadline recipient pancake slipstream = .ok swap) :
    (deskAfter self desk output swap).paid = desk.paid := by
  have receive : ∀ (asked : Prop) [Decidable asked] token,
      (if asked then desk.receive token output else desk).paid = desk.paid := by
    intro asked _ token
    split <;> rfl
  unfold v3RouterSwap at made
  split at made
  · split at made
    · cases made
      exact receive _ _
    · split at made <;> cases made <;> exact receive _ _
  · cases made
  · simp only [Try.bind_ok] at made
    obtain ⟨path, -, made⟩ := made
    split at made <;> cases made <;> exact receive _ _

theorem router_pays (self wallet token recipient : Address) (minOut feeBps : Int)
    (fee : feeBps < 10000) (desk : Desk) (none : desk.paid wallet token = 0) :
    Always (deskChecking self) (fun desk => minOut ≤ desk.paid wallet token)
      [v3RouterFee token (grossBound minOut feeBps) wallet feeBps recipient] desk := by
  refine ⟨trivial, ?_⟩
  rintro next ⟨output, met, rfl⟩
  rw [always_nil]
  have pays : ∀ source, grossBound minOut feeBps ≤ desk.held source →
      minOut ≤ (desk.payOut source token wallet feeBps).paid wallet token := by
    intro source enough
    have net := grossBound_net minOut feeBps _ fee enough
    simpa [Desk.payOut, none] using net
  unfold v3RouterFee at met ⊢
  split
  · rename_i native
    rw [if_pos native] at met
    subst native
    exact pays WETH met
  · rename_i other
    rw [if_neg other] at met
    exact pays token met

/-- In every run of the finalized calldata that passes the checks it encodes, the
wallet gets at least `minOut` of the output currency. -/
def Protected (abi : Codec) (final : Plan) (wallet currency : Address) (minOut : Int) : Prop :=
  match final.body with
  | .swap _ =>
    ∀ data commands deadline, final.calldata abi = .ok data →
      decodeUrExecute abi data = .ok (commands, deadline) →
      Always checking (fun router => minOut ≤ router.paid currency) commands
        (started final.value)
  | .router body =>
    ∀ swap fee, body.calls final.target final.deadline = .ok (swap, fee) →
      Always (deskChecking final.target) (fun desk => minOut ≤ desk.paid wallet currency)
        [swap, fee] emptyDesk

theorem finalize_router (body : RouterBody) (minOut : Int) (permit : Option Bytes)
    (shape : plan.body = .router body) (finalized : finalize plan minOut permit = .ok final) :
    final = { plan with body := .router { body with
      grossMinOut := grossBound minOut body.shape.feeBps } } := by
  simp only [finalize, shape] at finalized
  split at finalized
  · cases finalized
  · split at finalized
    · cases finalized
    · simp only [Except.ok.injEq] at finalized
      rw [← finalized]
      rfl

theorem plan_router (route : Route) (policy : TxPolicy) (deadline permitNonce : Int) (plan : Plan)
    (planned : TxPlan.plan abi intent route policy deadline permitNonce = .ok plan) :
    plan.target = UR ∨ plan.body =
      .router ⟨intent.shape route policy .output intent.currencyOut, 0⟩ := by
  unfold TxPlan.plan at planned
  split at planned
  · cases planned
  split at planned
  · simp only [planRouter, Try.bind_ok, Try.pure_ok, Except.ok.injEq] at planned
    obtain ⟨staging, -, rfl⟩ := planned
    exact Or.inr rfl
  · simp only [Try.bind_ok, Try.pure_ok, Except.ok.injEq] at planned
    obtain ⟨pay, paid, ⟨commands, index, feeCurrency⟩, made, rfl⟩ := planned
    exact Or.inl rfl

theorem protected_swap (body : SwapBody) (minOut : Int) (permit : Option Bytes)
    (before : List UrCommand) (last : UrCommand) (shape : plan.body = .swap body)
    (index : body.minOutIndex = body.commands.length - 1)
    (commands : body.commands = before ++ [last]) (payOut : body.split = none ∨ isSwap last = false)
    (closes : Closes intent.currencyOut before last)
    (finalized : finalize plan minOut permit = .ok final) :
    Protected abi final intent.wallet intent.currencyOut minOut := by
  obtain ⟨changed, written, pays⟩ := finalized_pays plan final body minOut permit _ before last
    final.value shape index commands payOut closes finalized
  simp only [Protected, written]
  intro data decoded deadline encoded read
  simp only [Plan.calldata, written] at encoded
  rw [decodeUrExecute_urExecute abi _ _ data encoded, Except.ok.injEq, Prod.mk.injEq] at read
  rw [← read.1]
  exact pays

theorem protected_plan (route : Route) (policy : TxPolicy) (plan final : Plan)
    (deadline permitNonce minOut : Int) (permit : Option Bytes) (fee : policy.feeBps < 10000)
    (planned : TxPlan.plan abi intent route policy deadline permitNonce = .ok plan)
    (finalized : finalize plan minOut permit = .ok final) :
    Protected abi final intent.wallet intent.currencyOut minOut := by
  rcases plan_router abi intent route policy deadline permitNonce plan planned with target | shape
  · obtain ⟨commands, feeCurrency, single⟩ :=
      plan_routePlan abi intent route policy deadline permitNonce plan target planned
    obtain ⟨before, last, written, closes⟩ :=
      route_closes intent route policy commands feeCurrency single.serves single.form
    exact protected_swap abi intent plan final _ minOut permit before last single.body rfl written
      (Or.inl rfl) closes finalized
  · rw [finalize_router plan final _ minOut permit shape finalized]
    intro swap payOut called
    simp only [RouterBody.calls, Try.bind_ok, Try.pure_ok, Except.ok.injEq,
      Prod.mk.injEq] at called
    obtain ⟨_, made, rfl, rfl⟩ := called
    refine ⟨trivial, ?_⟩
    rintro desk ⟨output, -, rfl⟩
    refine router_pays _ _ _ _ minOut policy.feeBps fee _ ?_
    rw [v3RouterSwap_quiet _ _ _ _ _ _ _ _ _ _ _ made]
    rfl

/-- Whatever kind of plan an order gets, `finalize` protects the minimum output. -/
theorem finalize_protects (abi : Codec) (intent : SwapIntent) (order : Order)
    (policy : TxPolicy) (plan final : Plan) (deadline permitNonce minOut : Int)
    (permit : Option Bytes) (fee : policy.feeBps < 10000)
    (planned : order.plan abi intent policy deadline permitNonce = .ok plan)
    (finalized : finalize plan minOut permit = .ok final) :
    Protected abi final intent.wallet intent.currencyOut minOut := by
  cases order with
  | onRoute route =>
    exact protected_plan abi intent route policy plan final deadline permitNonce minOut permit
      fee planned finalized
  | onSplit split =>
    rcases planSplit_cases abi intent split policy deadline permitNonce plan planned with
      ⟨leg, -, alone⟩ | ⟨first, legs, several⟩
    · exact protected_plan abi intent leg.route policy plan final deadline permitNonce minOut
        permit fee alone finalized
    · obtain ⟨before, last, written, payOut, closes⟩ :=
        split_closes intent _ split.legs policy legs several.form
      exact protected_swap abi intent plan final _ minOut permit before last several.body rfl written
        (Or.inr payOut) closes finalized

theorem finalize_protects_sample :
    ∃ plan final, TxPlan.plan layout (sampleTrade .buy) (sampleBuy .v3 UR_V3_FACTORY)
        samplePolicy 5000 0 = .ok plan ∧ finalize plan 90 none = .ok final ∧
      Protected layout final 0xaaaa#160 sampleToken 90 := by
  have runs : (TxPlan.plan layout (sampleTrade .buy) (sampleBuy .v3 UR_V3_FACTORY) samplePolicy
      5000 0 >>= fun plan => finalize plan 90 none).map (fun final => final.target) = .ok UR := by
    decide +kernel
  cases planned : TxPlan.plan layout (sampleTrade .buy) (sampleBuy .v3 UR_V3_FACTORY)
      samplePolicy 5000 0 with
  | error failure => simp [planned, Except.map] at runs
  | ok plan =>
    cases finalized : finalize plan 90 none with
    | error failure => simp [planned, finalized, Except.map] at runs
    | ok final =>
      exact ⟨plan, final, rfl, finalized, finalize_protects layout (sampleTrade .buy)
        (.onRoute (sampleBuy .v3 UR_V3_FACTORY)) samplePolicy plan final 5000 0 90 none
        (by decide) planned finalized⟩

end RhPools.MinOutProtection
