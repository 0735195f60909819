import RhPools.TxPlan
import RhPools.ProportionalShares

/-! What a produced plan looks like, one inversion for each planner function, and
what `finalize` may change in it. Results about plans use these and do not unfold
the planner. -/

namespace RhPools.PlannedSwaps
open BigEndian AbiCodec TxChain TxRoutes UrCommands RouterCalls TxPlan ProportionalShares

def v4Hop (hop : Hop) (recipient : Address) (amountIn stated minOut : Int) : List V4Param :=
  [.settle hop.currencyIn amountIn false,
   .swapExactInSingle hop.pool.key (hop.currencyIn = hop.pool.token0) stated minOut,
   .take hop.currencyOut recipient OPEN_DELTA]

theorem hopCommand_cases (hop : Hop) (recipient : Address) (minOut : Int) (command : UrCommand)
    (made : hopCommand hop recipient minOut = .ok command) :
    (hop.pool.venue = .v3 ∧ ∃ path,
      v3Path [hop.currencyIn, hop.currencyOut] [hop.pool.feePpm] = some path ∧
        command = .v3Swap recipient CONTRACT_BALANCE minOut path false) ∨
    (hop.pool.venue = .v2 ∧
      command = .v2Swap recipient CONTRACT_BALANCE minOut [hop.currencyIn, hop.currencyOut]
        false) ∨
    (hop.pool.venue = .v4 ∧
      command = .v4Swap (v4Hop hop recipient CONTRACT_BALANCE OPEN_DELTA minOut)) := by
  unfold hopCommand at made
  cases venue : hop.pool.venue with
  | v2 =>
    simp only [venue, Try.pure_ok, Except.ok.injEq] at made
    exact Or.inr (Or.inl ⟨rfl, made.symm⟩)
  | v3 =>
    simp only [venue, Try.bind_ok, orEncoding_ok, Try.pure_ok, Except.ok.injEq] at made
    obtain ⟨path, packed, same⟩ := made
    exact Or.inl ⟨rfl, path, packed, same.symm⟩
  | v4 =>
    simp only [venue, Try.pure_ok, Except.ok.injEq] at made
    exact Or.inr (Or.inr ⟨rfl, made.symm⟩)

def entry (held : Address) (hop : Hop) : List UrCommand :=
  if hop.currencyIn ≠ held then [convert held CONTRACT_BALANCE] else []

/-- The commands of consecutive hops that each take the whole balance; `payee`
says who receives a hop's output. -/
inductive Emitted (payee : Hop → List Hop → Address) :
    Address → List Hop → List UrCommand → Prop
  | nil (held : Address) : Emitted payee held [] []
  | cons (held : Address) (hop : Hop) (rest : List Hop) (command : UrCommand)
      (after : List UrCommand)
      (made : hopCommand hop (payee hop rest) 0 = .ok command)
      (later : Emitted payee hop.currencyOut rest after) :
      Emitted payee held (hop :: rest) (entry held hop ++ command :: after)

def routePayee (intent : SwapIntent) (hop : Hop) (rest : List Hop) : Address :=
  if direct intent hop rest then MSG_SENDER else ADDRESS_THIS

def inRouter (_ : Hop) (_ : List Hop) : Address := ADDRESS_THIS

def heldAfter (held : Address) : List Hop → Address
  | [] => held
  | hop :: rest => heldAfter hop.currencyOut rest

theorem enter_commands (draft : Draft) (hop : Hop) :
    (draft.enter hop).commands = draft.commands ++ entry draft.held hop := by
  unfold Draft.enter entry
  by_cases same : hop.currencyIn ≠ draft.held
  · rw [if_pos same, if_pos same]
    rfl
  · rw [if_neg same, if_neg same, List.append_nil]

theorem enter_minOutIndex (draft : Draft) (hop : Hop) :
    (draft.enter hop).minOutIndex = draft.minOutIndex := by
  unfold Draft.enter
  split <;> rfl

variable (abi : Codec) (intent : SwapIntent)

theorem planHops_emitted (draft last : Draft) (hops : List Hop)
    (planned : planHops intent draft hops = .ok last) :
    ∃ added, last.commands = draft.commands ++ added ∧
      Emitted (routePayee intent) draft.held hops added ∧ last.held = heldAfter draft.held hops := by
  induction hops generalizing draft with
  | nil =>
    simp only [planHops, Except.ok.injEq] at planned
    subst planned
    exact ⟨[], (List.append_nil _).symm, .nil draft.held, rfl⟩
  | cons hop rest ih =>
    simp only [planHops, Try.bind_ok] at planned
    obtain ⟨command, made, planned⟩ := planned
    obtain ⟨after, commands, later, held⟩ := ih _ planned
    refine ⟨entry draft.held hop ++ command :: after, ?_, .cons _ _ _ _ _ made later, held⟩
    rw [commands]
    simp [Draft.leave, enter_commands]

/-- A draft that had no slot for the minimum gets one exactly when the last hop
pays the wallet, and then at its last command. -/
theorem planHops_minOutIndex (draft last : Draft) (hops : List Hop)
    (fresh : draft.minOutIndex = none) (planned : planHops intent draft hops = .ok last) :
    last.minOutIndex = none ∨
      (last.minOutIndex = some (last.commands.length - 1) ∧ intent.feeLeg = .input ∧
        last.held = intent.currencyOut) := by
  induction hops generalizing draft with
  | nil =>
    simp only [planHops, Except.ok.injEq] at planned
    subst planned
    exact Or.inl fresh
  | cons hop rest ih =>
    simp only [planHops, Try.bind_ok] at planned
    obtain ⟨command, -, planned⟩ := planned
    cases straight : direct intent hop rest with
    | false =>
      refine ih _ ?_ planned
      simp [straight, Draft.leave, enter_minOutIndex, fresh]
    | true =>
      have facts := straight
      simp only [direct, decide_eq_true_eq] at facts
      obtain ⟨rfl, input, out⟩ := facts
      simp only [planHops, straight, Except.ok.injEq] at planned
      subst planned
      exact Or.inr ⟨by simp [Draft.leave], input, out⟩

variable (route : Route)

theorem Route.first_of_hops (hop : Hop) (rest : List Hop) (hops : route.hops = hop :: rest) :
    route.currencyIn = hop.currencyIn := by
  simp [Route.currencyIn, Route.first, hops]

theorem heldAfter_route (held : Address) (route : Route) :
    heldAfter held route.hops = route.currencyOut := by
  rcases route.cases_hops with ⟨hop, one⟩ | ⟨first, second, two⟩
  · simp [Route.currencyOut, Route.last, one, heldAfter]
  · simp [Route.currencyOut, Route.last, two, heldAfter]

def paidForm (intent : SwapIntent) (held : Address) : Address :=
  if intent.currencyOut = WETH ∧ held = NATIVE then WETH else held

def outputTail (intent : SwapIntent) (policy : TxPolicy) (held : Address) : List UrCommand :=
  (if intent.currencyOut = WETH ∧ held = NATIVE then [.wrapEth ADDRESS_THIS CONTRACT_BALANCE]
   else []) ++
  [.payPortion (paidForm intent held) policy.feeRecipient policy.feeBps,
   if intent.currencyOut = NATIVE ∧ paidForm intent held = WETH then .unwrapWeth MSG_SENDER 0
   else .sweep (paidForm intent held) MSG_SENDER 0]

variable (policy : TxPolicy)

theorem payOutput_spec (draft : Draft) :
    (payOutput intent policy draft).1.commands =
        draft.commands ++ outputTail intent policy draft.held ∧
      (payOutput intent policy draft).1.minOutIndex =
        some ((payOutput intent policy draft).1.commands.length - 1) ∧
      (payOutput intent policy draft).2 = paidForm intent draft.held := by
  unfold payOutput outputTail paidForm
  by_cases wrap : intent.currencyOut = WETH ∧ draft.held = NATIVE
  · obtain ⟨weth, native⟩ := wrap
    have apart : ¬(WETH = NATIVE) := by decide
    simp [weth, native, apart, Draft.push]
  · simp only [wrap, if_false]
    by_cases unwrap : intent.currencyOut = NATIVE ∧ draft.held = WETH
    · simp [unwrap, Draft.push]
    · simp [unwrap, Draft.push]

inductive RouteCommands (intent : SwapIntent) (route : Route) (policy : TxPolicy) :
    List UrCommand → Address → Prop
  | paidDirectly (added : List UrCommand)
      (emitted : Emitted (routePayee intent) intent.currencyIn route.hops added)
      (input : intent.feeLeg = .input) (out : route.currencyOut = intent.currencyOut) :
      RouteCommands intent route policy
        (pullInput intent ++ takeInputFee intent policy ++ added) intent.currencyIn
  | paidAfterFee (added : List UrCommand)
      (emitted : Emitted (routePayee intent) intent.currencyIn route.hops added)
      (output : intent.feeLeg = .output) :
      RouteCommands intent route policy
        (pullInput intent ++ added ++ outputTail intent policy route.currencyOut)
        (paidForm intent route.currencyOut)

theorem planCommands_form (commands : List UrCommand) (index : Nat) (feeCurrency : Address)
    (planned : planCommands intent route policy = .ok (commands, index, feeCurrency)) :
    index = commands.length - 1 ∧ RouteCommands intent route policy commands feeCurrency := by
  simp only [planCommands, Try.bind_ok] at planned
  obtain ⟨swapped, hops, planned⟩ := planned
  obtain ⟨added, written, emitted, held⟩ := planHops_emitted _ _ _ _ hops
  rw [heldAfter_route] at held
  cases leg : intent.feeLeg with
  | input =>
    have slot := planHops_minOutIndex _ _ _ _ rfl hops
    simp only [leg, reduceCtorEq, if_false] at planned
    cases found : swapped.minOutIndex with
    | none => simp [found] at planned
    | some last =>
      simp only [found, Except.ok.injEq, Prod.mk.injEq] at planned
      obtain ⟨rfl, rfl, rfl⟩ := planned
      rcases slot with none | ⟨atEnd, -, out⟩
      · simp [none] at found
      · rw [found, Option.some.injEq] at atEnd
        rw [held] at out
        rw [written] at atEnd ⊢
        exact ⟨atEnd, .paidDirectly added emitted leg out⟩
  | output =>
    obtain ⟨tail, atEnd, fee⟩ := payOutput_spec intent policy swapped
    simp only [leg, if_true, atEnd, Except.ok.injEq, Prod.mk.injEq] at planned
    obtain ⟨rfl, rfl, rfl⟩ := planned
    refine ⟨rfl, ?_⟩
    rw [fee, tail, written, held]
    have noFee : takeInputFee intent policy = [] := by simp [takeInputFee, leg]
    rw [noFee, List.append_nil]
    exact .paidAfterFee added emitted leg

theorem externalRouter_ne_ur (router : Address) (served : externalRouter route = some router) :
    router ≠ UR := by
  have known : ∀ factory, v3RouterByFactory factory = some router → router ≠ UR := by
    intro factory found
    unfold v3RouterByFactory at found
    split at found
    · cases found; decide
    split at found
    · cases found; decide
    split at found
    · cases found; decide
    · cases found
  unfold externalRouter at served
  dsimp only at served
  split at served
  · exact known _ served
  · cases served

def attached (intent : SwapIntent) : Int :=
  if intent.currencyIn = NATIVE then intent.amountIn else 0

structure RoutePlan (intent : SwapIntent) (route : Route) (policy : TxPolicy) (plan : Plan)
    (commands : List UrCommand) (feeCurrency : Address) : Prop where
  serves : serves intent route
  form : RouteCommands intent route policy commands feeCurrency
  target : plan.target = UR
  value : plan.value = attached intent
  body : plan.body = .swap ⟨commands, commands.length - 1,
    intent.shape route policy intent.feeLeg feeCurrency, none⟩

theorem payment_value (deadline permitNonce : Int) (pay : Payment)
    (paid : payment abi intent deadline permitNonce = .ok pay) :
    pay.value = attached intent := by
  unfold payment at paid
  unfold attached
  by_cases native : intent.currencyIn = NATIVE
  · simp only [native, if_true, Try.pure_ok, Except.ok.injEq] at paid
    subst paid
    simp [native]
  · simp only [native, if_false, Try.bind_ok, Try.pure_ok, Except.ok.injEq] at paid
    obtain ⟨approve, -, allow, -, rfl⟩ := paid
    simp [native]

theorem plan_routePlan (deadline permitNonce : Int) (plan : Plan) (target : plan.target = UR)
    (planned : TxPlan.plan abi intent route policy deadline permitNonce = .ok plan) :
    ∃ commands feeCurrency, RoutePlan intent route policy plan commands feeCurrency := by
  unfold TxPlan.plan at planned
  split at planned
  · cases planned
  rename_i served
  split at planned
  · rename_i router external
    simp only [planRouter, Try.bind_ok, Try.pure_ok, Except.ok.injEq] at planned
    obtain ⟨staging, -, rfl⟩ := planned
    exact absurd target (externalRouter_ne_ur route router external)
  · simp only [Try.bind_ok, Try.pure_ok, Except.ok.injEq] at planned
    obtain ⟨pay, paid, ⟨commands, index, feeCurrency⟩, made, rfl⟩ := planned
    obtain ⟨rfl, form⟩ := planCommands_form _ _ _ _ _ _ made
    exact ⟨commands, feeCurrency, not_not.mp served, form, rfl,
      payment_value _ _ _ _ _ paid, rfl⟩

def legEntry (held : Address) (hop : Hop) (share : Int) : List UrCommand :=
  if hop.currencyIn ≠ held then [convert held share] else []

inductive LegCommands (intent : SwapIntent) (route : Route) (share : Int) :
    List UrCommand → Prop
  | intro (first : Hop) (rest : List Hop) (command : UrCommand) (after : List UrCommand)
      (hops : route.hops = first :: rest)
      (made : hopCommand first ADDRESS_THIS 0 = .ok command)
      (later : Emitted inRouter first.currencyOut rest after) :
      LegCommands intent route share
        (legEntry intent.currencyIn first share ++ withAmountIn share command ::
          (after ++ splitExit intent.currencyOut route.currencyOut))

inductive LegsCommands (intent : SwapIntent) (net : Int) :
    Int → List SplitLeg → List UrCommand → Prop
  | nil (allocated : Int) : LegsCommands intent net allocated [] []
  | cons (allocated : Int) (leg : SplitLeg) (rest : List SplitLeg) (commands after : List UrCommand)
      (served : serves intent leg.route)
      (made : LegCommands intent leg.route (legShare net intent.amountIn allocated leg rest)
        commands)
      (later : LegsCommands intent net
        (allocated + legShare net intent.amountIn allocated leg rest) rest after) :
      LegsCommands intent net allocated (leg :: rest) (commands ++ after)

/-- The shares `plan_split` writes, in leg order. -/
def legShares (net amountIn : Int) : Int → List SplitLeg → List Int
  | _, [] => []
  | allocated, leg :: rest =>
    let share := legShare net amountIn allocated leg rest
    share :: legShares net amountIn (allocated + share) rest

theorem legShares_shares (net amountIn allocated : Int) (legs : List SplitLeg) :
    legShares net amountIn allocated legs =
      shares net amountIn allocated (legs.map SplitLeg.amountIn) := by
  induction legs generalizing allocated with
  | nil => rfl
  | cons leg rest ih =>
    cases rest with
    | nil => simp [legShares, legShare]
    | cons next rest =>
      rw [legShares, ih]
      simp [legShare, shares_cons]

theorem splitHops_emitted (share : Int) (held last : Address) (hops : List Hop)
    (commands : List UrCommand) (planned : splitHops share false held hops = .ok (commands, last)) :
    Emitted inRouter held hops commands ∧ last = heldAfter held hops := by
  induction hops generalizing held commands with
  | nil =>
    simp only [splitHops, Except.ok.injEq, Prod.mk.injEq] at planned
    obtain ⟨rfl, rfl⟩ := planned
    exact ⟨.nil held, rfl⟩
  | cons hop rest ih =>
    simp only [splitHops, Try.bind_ok, Try.pure_ok, Except.ok.injEq, Prod.mk.injEq,
      Bool.false_eq_true, if_false] at planned
    obtain ⟨command, made, ⟨after, exit⟩, later, rfl, rfl⟩ := planned
    obtain ⟨emitted, rfl⟩ := ih _ _ later
    exact ⟨.cons _ _ _ _ _ made emitted, rfl⟩

theorem splitLeg_form (share : Int) (commands : List UrCommand)
    (planned : splitLeg intent route share = .ok commands) :
    LegCommands intent route share commands := by
  simp only [splitLeg, Try.bind_ok, Try.pure_ok, Except.ok.injEq] at planned
  obtain ⟨⟨before, last⟩, hops, rfl⟩ := planned
  cases shape : route.hops with
  | nil => exact absurd shape route.ne_nil
  | cons first rest =>
    simp only [shape, splitHops, Try.bind_ok, Try.pure_ok, Except.ok.injEq, Prod.mk.injEq,
      if_true] at hops
    obtain ⟨command, made, ⟨after, exit⟩, later, rfl, rfl⟩ := hops
    obtain ⟨emitted, rfl⟩ := splitHops_emitted _ _ _ _ _ later
    have out : heldAfter first.currencyOut rest = route.currencyOut := by
      rw [← heldAfter_route first.currencyIn route, shape, heldAfter]
    rw [out, List.append_assoc, List.cons_append]
    exact .intro first rest command after shape made emitted

theorem splitLegs_form (net allocated : Int) (legs : List SplitLeg) (commands : List UrCommand)
    (planned : splitLegs intent net allocated legs = .ok commands) :
    LegsCommands intent net allocated legs commands := by
  induction legs generalizing allocated commands with
  | nil =>
    simp only [splitLegs, Except.ok.injEq] at planned
    subst planned
    exact .nil allocated
  | cons leg rest ih =>
    simp only [splitLegs] at planned
    split at planned
    · cases planned
    rename_i served
    simp only [Try.bind_ok, Try.pure_ok, Except.ok.injEq] at planned
    obtain ⟨first, made, after, later, rfl⟩ := planned
    exact .cons _ _ _ _ _ (not_not.mp served) (splitLeg_form _ _ _ _ made) (ih _ _ later)

structure SplitPlan (intent : SwapIntent) (split : Split) (policy : TxPolicy) (plan : Plan)
    (first : SplitLeg) (legs : List UrCommand) : Prop where
  several : 2 ≤ split.legs.length
  head : split.legs.head? = some first
  covers : (split.legs.map SplitLeg.amountIn).sum = intent.amountIn
  form : LegsCommands intent (netInput intent policy) 0 split.legs legs
  target : plan.target = UR
  value : plan.value = attached intent
  body : plan.body =
    let commands := pullInput intent ++ takeInputFee intent policy ++ legs ++
      splitTail intent policy
    .swap ⟨commands, commands.length - 1,
      intent.shape first.route policy intent.feeLeg
        (if intent.feeLeg = .output then splitOutput intent else intent.currencyIn), some split⟩

theorem RouteCommands.fee_input (commands : List UrCommand) (feeCurrency : Address)
    (form : RouteCommands intent route policy commands feeCurrency) (input : intent.feeLeg = .input) :
    feeCurrency = intent.currencyIn := by
  cases form with
  | paidDirectly => rfl
  | paidAfterFee added emitted output =>
    rw [input] at output
    cases output

theorem planSplit_cases (split : Split) (policy : TxPolicy) (deadline permitNonce : Int)
    (plan : Plan) (planned : planSplit abi intent split policy deadline permitNonce = .ok plan) :
    (∃ leg, split.legs = [leg] ∧
      TxPlan.plan abi intent leg.route policy deadline permitNonce = .ok plan) ∨
    ∃ first legs, SplitPlan intent split policy plan first legs := by
  unfold planSplit at planned
  cases shape : split.legs with
  | nil => simp [shape] at planned
  | cons leg rest =>
    simp only [shape] at planned
    by_cases alone : rest = []
    · subst alone
      exact Or.inl ⟨leg, rfl, by simpa using planned⟩
    simp only [alone, if_false] at planned
    split at planned
    · cases planned
    rename_i covers
    simp only [Try.bind_ok] at planned
    obtain ⟨base, based, planned⟩ := planned
    cases body : base.body with
    | router _ => simp [body] at planned
    | swap swap =>
      simp only [body] at planned
      split at planned
      · cases planned
      rename_i baseTarget
      simp only [Try.bind_ok, Try.pure_ok, Except.ok.injEq] at planned
      obtain ⟨legs, made, rfl⟩ := planned
      obtain ⟨commands, fee, single⟩ := plan_routePlan abi intent leg.route policy deadline
        permitNonce base (not_not.mp baseTarget) based
      have form := splitLegs_form _ _ _ _ _ made
      have swapShape : swap.shape = intent.shape leg.route policy intent.feeLeg fee := by
        have := single.body
        rw [body, Body.swap.injEq] at this
        rw [this]
      refine Or.inr ⟨leg, legs, ?_, by simp [shape], ?_, by rwa [shape], single.target,
        single.value, ?_⟩
      · have : rest.length ≠ 0 := by simpa using alone
        simp only [shape, List.length_cons]
        omega
      · rw [shape]
        exact not_not.mp covers
      · cases side : intent.feeLeg with
        | input =>
          have same := RouteCommands.fee_input _ _ _ _ _ single.form side
          simp [swapShape, side, same]
        | output => simp [swapShape, side, SwapIntent.shape]

theorem emitted_forall (holds : UrCommand → Prop) (held : Address) (hops : List Hop)
    (commands : List UrCommand) (conversion : ∀ held amount, holds (convert held amount))
    (hop : ∀ hop command, hopCommand hop ADDRESS_THIS 0 = .ok command → holds command)
    (emitted : Emitted inRouter held hops commands) : ∀ command ∈ commands, holds command := by
  induction emitted with
  | nil => simp
  | cons held next rest command after made later ih =>
    have entered : ∀ command ∈ entry held next, holds command := by
      unfold entry
      split
      · simpa using conversion held CONTRACT_BALANCE
      · simp
    simp only [List.forall_mem_append, List.forall_mem_cons]
    exact ⟨entered, hop next command made, ih⟩

theorem legs_forall (holds : UrCommand → Prop) (intent : SwapIntent) (net allocated : Int)
    (legs : List SplitLeg) (commands : List UrCommand)
    (conversion : ∀ held amount, holds (convert held amount))
    (hop : ∀ hop command, hopCommand hop ADDRESS_THIS 0 = .ok command → holds command)
    (share : ∀ hop command amount, hopCommand hop ADDRESS_THIS 0 = .ok command →
      holds (withAmountIn amount command))
    (form : LegsCommands intent net allocated legs commands) :
    ∀ command ∈ commands, holds command := by
  induction form with
  | nil => simp
  | cons allocated leg rest commands after served made later ih =>
    cases made with
    | intro first rest command hops shape made later =>
      have entered : ∀ amount, ∀ command ∈ legEntry intent.currencyIn first amount,
          holds command := by
        intro amount
        unfold legEntry
        split
        · simpa using conversion intent.currencyIn amount
        · simp
      have left : ∀ command ∈ splitExit intent.currencyOut leg.route.currencyOut,
          holds command := by
        have wrap := conversion NATIVE CONTRACT_BALANCE
        rw [convert, if_pos rfl] at wrap
        unfold splitExit
        split
        · simpa using wrap
        · split
          · simpa using conversion leg.route.currencyOut CONTRACT_BALANCE
          · simp
      simp only [List.forall_mem_append, List.forall_mem_cons]
      exact ⟨⟨entered _, share first command _ made,
        emitted_forall holds _ _ _ conversion hop later, left⟩, ih⟩

theorem floorBps_nonneg (amount bps : Int) (amountNonneg : 0 ≤ amount) (bpsNonneg : 0 ≤ bps) :
    0 ≤ floorBps amount bps :=
  Int.ediv_nonneg (mul_nonneg amountNonneg bpsNonneg) (by norm_num)

theorem netInput_le (valid : Validated intent) (feeNonneg : 0 ≤ policy.feeBps) :
    netInput intent policy ≤ intent.amountIn := by
  have fee := floorBps_nonneg intent.amountIn policy.feeBps valid.positive.le feeNonneg
  unfold netInput inputFee
  split <;> omega

theorem floorBps_le (amount bps : Int) (nonneg : 0 ≤ amount) (high : bps ≤ 10000) :
    floorBps amount bps ≤ amount := by
  have part : amount * bps ≤ amount * 10000 := mul_le_mul_of_nonneg_left high nonneg
  unfold floorBps
  omega

theorem netInput_nonneg (valid : Validated intent) (high : policy.feeBps ≤ 10000) :
    0 ≤ netInput intent policy := by
  have part := floorBps_le intent.amountIn policy.feeBps valid.positive.le high
  have positive := valid.positive
  unfold netInput inputFee
  split <;> omega

/-- A command with its minimum erased: what `finalize` leaves as it is. -/
def bare : UrCommand → UrCommand
  | .v3Swap recipient amountIn _ path payer => .v3Swap recipient amountIn 0 path payer
  | .v2Swap recipient amountIn _ path payer => .v2Swap recipient amountIn 0 path payer
  | .v4Swap params => .v4Swap (params.map (setMinOut 0))
  | .sweep token recipient _ => .sweep token recipient 0
  | .unwrapWeth recipient _ => .unwrapWeth recipient 0
  | command => command

theorem setMinOut_setMinOut (first second : Int) (param : V4Param) :
    setMinOut first (setMinOut second param) = setMinOut first param := by
  cases param <;> rfl

theorem bare_withMinOut (command changed : UrCommand) (minOut : Int)
    (bound : withMinOut command minOut = .ok changed) : bare changed = bare command := by
  cases command <;> simp only [withMinOut, Except.ok.injEq, reduceCtorEq] at bound <;>
    subst bound <;> simp [bare, Function.comp_def, setMinOut_setMinOut]

theorem bare_setAt (commands changed : List UrCommand) (index : Nat) (minOut : Int)
    (bound : setAt commands index minOut = .ok changed) :
    changed.map bare = commands.map bare := by
  unfold setAt at bound
  cases found : commands[index]? with
  | none => simp [found] at bound
  | some command =>
    simp only [found, Try.bind_ok, Try.pure_ok, Except.ok.injEq] at bound
    obtain ⟨bounded, slot, rfl⟩ := bound
    obtain ⟨inside, rfl⟩ := List.getElem?_eq_some_iff.mp found
    have mapped : index < (commands.map bare).length := by simpa using inside
    have unchanged := List.set_getElem_self mapped
    rw [List.getElem_map] at unchanged
    rw [List.map_set, bare_withMinOut _ _ _ slot, unchanged]

theorem bare_boundLegs (swaps : List Nat) (minOut total assigned : Int) (count : Nat)
    (legs : List SplitLeg) (commands changed : List UrCommand)
    (bound : boundLegs swaps minOut total count assigned legs commands = .ok changed) :
    changed.map bare = commands.map bare := by
  induction legs generalizing count assigned commands with
  | nil =>
    simp only [boundLegs, Except.ok.injEq] at bound
    rw [bound]
  | cons leg rest ih =>
    simp only [boundLegs] at bound
    split at bound
    · cases bound
    · simp only [Try.bind_ok] at bound
      obtain ⟨middle, one, later⟩ := bound
      rw [ih _ _ _ later, bare_setAt _ _ _ _ one]

theorem bare_boundSplit (split : Option Split) (minOut : Int)
    (commands changed : List UrCommand) (bound : boundSplit split minOut commands = .ok changed) :
    changed.map bare = commands.map bare := by
  unfold boundSplit at bound
  cases split with
  | none =>
    simp only [Except.ok.injEq] at bound
    rw [bound]
  | some split =>
    dsimp only at bound
    split at bound
    · exact bare_boundLegs _ _ _ _ _ _ _ _ bound
    · simp only [Except.ok.injEq] at bound
      rw [bound]

theorem finalize_swap (plan final : Plan) (body : SwapBody) (minOut : Int)
    (permit : Option Bytes) (shape : plan.body = .swap body)
    (finalized : finalize plan minOut permit = .ok final) :
    ∃ guarded commands,
      setAt body.commands body.minOutIndex minOut = .ok guarded ∧
      boundSplit body.split minOut guarded = .ok commands ∧
      final = { plan with
        body := .swap { body with commands := commands }, signature := permit } := by
  simp only [finalize, shape] at finalized
  split at finalized
  · cases finalized
  · simp only [Try.bind_ok, Except.ok.injEq] at finalized
    obtain ⟨guarded, slot, commands, bound, rfl⟩ := finalized
    exact ⟨guarded, commands, slot, bound, rfl⟩

def sampleToken : Address := 0x5555555555555555555555555555555555555555#160

def samplePool (venue : Venue) (factory : Address) : Pool :=
  { venue := venue, id := .pool 0x33#160, address := 0x33#160, token0 := WETH
    token1 := sampleToken, feePpm := 3000, tickSpacing := 60, hook := NATIVE, factory := factory }

def samplePolicy : TxPolicy := ⟨75, 0xfee#160⟩

def sampleTrade (side : Side) : SwapIntent := ⟨0xaaaa#160, side, sampleToken, NATIVE, 1000, 50⟩

def sampleBuy (venue : Venue) (factory : Address) : Route :=
  ⟨[⟨samplePool venue factory, WETH, sampleToken⟩], by
    refine ⟨by simp, ?_, by simp⟩
    simp [samplePool, Pool.other]⟩

def sampleSell (venue : Venue) (factory : Address) : Route :=
  ⟨[⟨samplePool venue factory, sampleToken, WETH⟩], by
    have apart : sampleToken ≠ WETH := by decide
    refine ⟨by simp, ?_, by simp⟩
    simp [samplePool, Pool.other, apart]⟩

def sampleSplit (first second : Int) (positive : 0 < first ∧ 0 < second) : Split :=
  ⟨[⟨sampleBuy .v3 UR_V3_FACTORY, first, 70⟩, ⟨sampleBuy .v2 UR_V2_FACTORY, second, 30⟩],
    by simp, by simpa using positive⟩

end RhPools.PlannedSwaps
