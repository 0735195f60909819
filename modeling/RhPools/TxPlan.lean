import Mathlib
import RhPools.UrCommands
import RhPools.RouterCalls
import RhPools.TxRoutes

/-! Swap plans. One route becomes UniversalRouter commands or calls to the V3
router of its factory; a split becomes one command list with a share for each
leg. Loops are written as recursions over the hops and legs in source order. -/

namespace RhPools.TxPlan
open BigEndian AbiCodec TxChain TxRoutes UrCommands RouterCalls

inductive FeeLeg where
  | input
  | output
  deriving DecidableEq, Repr

structure TxPolicy where
  feeBps : Int
  feeRecipient : Address
  deriving DecidableEq, Repr

structure SwapIntent where
  wallet : Address
  side : Side
  token : Address
  quoteCurrency : Address
  amountIn : Int
  slippageBps : Int
  deriving DecidableEq, Repr

def SwapIntent.currencyIn (intent : SwapIntent) : Address :=
  if intent.side = .buy then intent.quoteCurrency else intent.token

def SwapIntent.currencyOut (intent : SwapIntent) : Address :=
  if intent.side = .buy then intent.token else intent.quoteCurrency

def SwapIntent.feeLeg (intent : SwapIntent) : FeeLeg :=
  if intent.side = .buy then .input else .output

def QUOTE_CURRENCIES : List Address := [NATIVE, WETH, USDG]

/-- `TxCore._validate_swap` on an intent whose addresses are already well formed. -/
def validateSwap (policy : TxPolicy) (intent : SwapIntent) : Try SwapIntent :=
  if intent.wallet = policy.feeRecipient then
    .error (.refusal "fee_wallet" "the fee recipient cannot pay itself a fee")
  else if intent.quoteCurrency ∉ QUOTE_CURRENCIES then
    .error (.tx "invalid_intent" "quote_currency must be ETH, WETH or USDG")
  else if sameAsset intent.token intent.quoteCurrency then
    .error (.tx "invalid_intent" "token and pay-with currency are the same asset")
  else if ¬(0 < intent.amountIn ∧ intent.amountIn < 2 ^ 160) then
    .error (.tx "invalid_intent" "amount_in must be a positive integer below 2**160")
  else if ¬(0 ≤ intent.slippageBps ∧ intent.slippageBps ≤ 5000) then
    .error (.tx "invalid_intent" "slippage_bps must be within 0..5000")
  else .ok intent

structure Validated (intent : SwapIntent) : Prop where
  apart : ¬sameAsset intent.token intent.quoteCurrency
  quoted : intent.quoteCurrency ∈ QUOTE_CURRENCIES
  positive : 0 < intent.amountIn
  bounded : intent.amountIn < 2 ^ 160
  slippage : 0 ≤ intent.slippageBps ∧ intent.slippageBps ≤ 5000

theorem validateSwap_ok (policy : TxPolicy) (raw intent : SwapIntent)
    (passed : validateSwap policy raw = .ok intent) : Validated intent := by
  unfold validateSwap at passed
  split at passed
  · cases passed
  split at passed
  · cases passed
  split at passed
  · cases passed
  split at passed
  · cases passed
  split at passed
  · cases passed
  rename_i quoted apart amount slippage
  obtain rfl : raw = intent := by simpa using passed
  exact ⟨apart, by simpa using quoted, (not_not.mp amount).1, (not_not.mp amount).2,
    not_not.mp slippage⟩

structure ApprovalNeed where
  token : Address
  spender : Address
  approveAmount : Int
  required : Int
  deriving DecidableEq, Repr

structure Call where
  target : Address
  data : Bytes
  value : Int
  deriving DecidableEq, Repr

structure SwapShape where
  wallet : Address
  route : Route
  currencyIn : Address
  currencyOut : Address
  amountIn : Int
  feeLeg : FeeLeg
  feeCurrency : Address
  feeRecipient : Address
  feeBps : Int
  deriving DecidableEq

structure SplitLeg where
  route : Route
  amountIn : Int
  amountOut : Int
  deriving DecidableEq

/-- The check of `Split.__post_init__`. -/
def SplitValid (legs : List SplitLeg) : Prop :=
  (1 ≤ legs.length ∧ legs.length ≤ 3) ∧ ∀ leg ∈ legs, 0 < leg.amountIn

instance (legs : List SplitLeg) : Decidable (SplitValid legs) := by
  unfold SplitValid; infer_instance

structure Split where
  legs : List SplitLeg
  valid : SplitValid legs
  deriving DecidableEq

def Split.build (legs : List SplitLeg) : Try Split :=
  if valid : SplitValid legs then .ok ⟨legs, valid⟩
  else .error (.value "split needs one to three positive legs")

theorem Split.build_ok (legs : List SplitLeg) (split : Split)
    (built : Split.build legs = .ok split) : split.legs = legs ∧ SplitValid legs := by
  unfold Split.build at built
  split at built
  · rename_i valid
    cases built
    exact ⟨rfl, valid⟩
  · cases built

@[simp] theorem Split.build_legs (split : Split) : Split.build split.legs = .ok split := by
  simp [Split.build, split.valid]

structure SwapBody where
  commands : List UrCommand
  minOutIndex : Nat
  shape : SwapShape
  split : Option Split
  deriving DecidableEq

structure RouterBody where
  shape : SwapShape
  grossMinOut : Int
  deriving DecidableEq

inductive Body where
  | swap (body : SwapBody)
  | router (body : RouterBody)
  deriving DecidableEq

def Body.shape : Body → SwapShape
  | .swap body => body.shape
  | .router body => body.shape

structure Plan where
  target : Address
  value : Int
  deadline : Int
  body : Body
  approvals : List ApprovalNeed
  permit : Option PermitSingle
  staging : List Call
  signature : Option Bytes
  deriving DecidableEq

def Plan.shape (plan : Plan) : SwapShape := plan.body.shape

def RouterBody.calls (body : RouterBody) (target : Address) (deadline : Int) :
    Try (RouterCall × RouterCall) := do
  let hops := body.shape.route.hops
  let tokens := body.shape.route.currencyIn :: hops.map Hop.currencyOut
  let slipstream := target = SLIPSTREAM_SWAP_ROUTER
  let fees := hops.map fun hop => if slipstream then hop.pool.tickSpacing else hop.pool.feePpm
  let swap ← v3RouterSwap tokens fees body.shape.amountIn deadline target
    (target = PANCAKE_SMART_ROUTER) slipstream
  let fee := v3RouterFee body.shape.currencyOut body.grossMinOut body.shape.wallet
    body.shape.feeBps body.shape.feeRecipient
  return (swap, fee)

def Plan.commands (plan : Plan) (body : SwapBody) : List UrCommand :=
  match plan.signature, plan.permit with
  | some signature, some permit => .permit2Permit permit signature :: body.commands
  | _, _ => body.commands

def Plan.calldata (abi : Codec) (plan : Plan) : Try Bytes :=
  match plan.body with
  | .swap body => urExecute abi (plan.commands body) plan.deadline
  | .router body => do
    let (swap, fee) ← body.calls plan.target plan.deadline
    orEncoding do
      let calls ← [swap, fee].mapM (RouterCall.encode abi)
      if plan.target = PANCAKE_SMART_ROUTER then multicallDeadline abi plan.deadline calls
      else multicall abi calls

def floorBps (amount bps : Int) : Int := amount * bps / 10000

def minOutFor (netOut slippageBps : Int) : Int := netOut * (10000 - slippageBps) / 10000

def setMinOut (value : Int) : V4Param → V4Param
  | .swapExactInSingle key zeroForOne amountIn _ =>
    .swapExactInSingle key zeroForOne amountIn value
  | param => param

def withMinOut (command : UrCommand) (value : Int) : Try UrCommand :=
  match command with
  | .v3Swap recipient amountIn _ path payer => .ok (.v3Swap recipient amountIn value path payer)
  | .v2Swap recipient amountIn _ path payer => .ok (.v2Swap recipient amountIn value path payer)
  | .sweep token recipient _ => .ok (.sweep token recipient value)
  | .unwrapWeth recipient _ => .ok (.unwrapWeth recipient value)
  | .v4Swap params => .ok (.v4Swap (params.map (setMinOut value)))
  | _ => .error (.tx "internal" "command carries no min_out")

def hopCommand (hop : Hop) (recipient : Address) (minOut : Int) : Try UrCommand :=
  match hop.pool.venue with
  | .v3 => do
    let path ← orEncoding (v3Path [hop.currencyIn, hop.currencyOut] [hop.pool.feePpm])
    return .v3Swap recipient CONTRACT_BALANCE minOut path false
  | .v2 => return .v2Swap recipient CONTRACT_BALANCE minOut [hop.currencyIn, hop.currencyOut] false
  | .v4 => return .v4Swap [
      .settle hop.currencyIn CONTRACT_BALANCE false,
      .swapExactInSingle hop.pool.key (hop.currencyIn = hop.pool.token0) OPEN_DELTA minOut,
      .take hop.currencyOut recipient OPEN_DELTA]

def convert (held : Address) (amount : Int) : UrCommand :=
  if held = NATIVE then .wrapEth ADDRESS_THIS amount else .unwrapWeth ADDRESS_THIS 0

def SEL_ERC20_APPROVE : Bytes := [0x09, 0x5e, 0xa7, 0xb3]
def SEL_PERMIT2_APPROVE : Bytes := [0x87, 0x51, 0x7c, 0x45]

def erc20Approve (abi : Codec) (spender : Address) (amount : Int) : Try Bytes :=
  orEncoding ((abi.encode ADDRESS_UINT (spender, amount, ())).map (SEL_ERC20_APPROVE ++ ·))

abbrev PERMIT2_APPROVE : Tys := .cons address <| .cons address <| .cons (uint 160) <|
  .cons (uint 48) .nil

def permit2Approve (abi : Codec) (token spender : Address) (amount expiration : Int) : Try Bytes :=
  orEncoding ((abi.encode PERMIT2_APPROVE (token, spender, amount, expiration, ())).map
    (SEL_PERMIT2_APPROVE ++ ·))

structure Payment where
  value : Int
  approvals : List ApprovalNeed
  permit : Option PermitSingle
  staging : List Call

def pullInput (intent : SwapIntent) : List UrCommand :=
  if intent.currencyIn = NATIVE then []
  else [.permit2TransferFrom intent.currencyIn ADDRESS_THIS intent.amountIn]

def payment (abi : Codec) (intent : SwapIntent) (deadline permitNonce : Int) : Try Payment :=
  if intent.currencyIn = NATIVE then
    return { value := intent.amountIn, approvals := [], permit := none, staging := [] }
  else do
    let approve ← erc20Approve abi PERMIT2 MAX_UINT256
    let allow ← permit2Approve abi intent.currencyIn UR intent.amountIn deadline
    return { value := 0
             approvals := [⟨intent.currencyIn, PERMIT2, MAX_UINT256, intent.amountIn⟩]
             permit := some ⟨⟨intent.currencyIn, intent.amountIn, deadline, permitNonce⟩, UR,
               deadline⟩
             staging := [⟨intent.currencyIn, approve, 0⟩, ⟨PERMIT2, allow, 0⟩] }

def takeInputFee (intent : SwapIntent) (policy : TxPolicy) : List UrCommand :=
  if intent.feeLeg = .input then
    [.payPortion intent.currencyIn policy.feeRecipient policy.feeBps]
  else []

/-- The loop state of `SwapPlanner.plan`. -/
structure Draft where
  commands : List UrCommand
  held : Address
  minOutIndex : Option Nat

def Draft.push (draft : Draft) (command : UrCommand) : Draft :=
  { draft with commands := draft.commands ++ [command] }

def Draft.enter (draft : Draft) (hop : Hop) : Draft :=
  if hop.currencyIn ≠ draft.held then draft.push (convert draft.held CONTRACT_BALANCE) else draft

def Draft.leave (draft : Draft) (hop : Hop) (command : UrCommand) (straight : Bool) : Draft :=
  { commands := draft.commands ++ [command]
    held := hop.currencyOut
    minOutIndex := if straight then some draft.commands.length else draft.minOutIndex }

def direct (intent : SwapIntent) (hop : Hop) (rest : List Hop) : Bool :=
  rest = [] ∧ intent.feeLeg = .input ∧ hop.currencyOut = intent.currencyOut

def planHops (intent : SwapIntent) (draft : Draft) : List Hop → Try Draft
  | [] => .ok draft
  | hop :: rest => do
    let straight := direct intent hop rest
    let command ← hopCommand hop (if straight then MSG_SENDER else ADDRESS_THIS) 0
    planHops intent ((draft.enter hop).leave hop command straight) rest

def payOutput (intent : SwapIntent) (policy : TxPolicy) (draft : Draft) : Draft × Address :=
  let wrapped := if intent.currencyOut = WETH ∧ draft.held = NATIVE then
      { draft.push (.wrapEth ADDRESS_THIS CONTRACT_BALANCE) with held := WETH } else draft
  let paid := wrapped.push (.payPortion wrapped.held policy.feeRecipient policy.feeBps)
  let last := if intent.currencyOut = NATIVE ∧ paid.held = WETH then
      paid.push (.unwrapWeth MSG_SENDER 0) else paid.push (.sweep paid.held MSG_SENDER 0)
  ({ last with minOutIndex := some (last.commands.length - 1) }, wrapped.held)

def externalRouter (route : Route) : Option Address :=
  let factory := route.first.pool.factory
  if route.hops.all (fun hop => hop.pool.venue = .v3 && hop.pool.factory = factory) then
    v3RouterByFactory factory
  else none

def SwapIntent.shape (intent : SwapIntent) (route : Route) (policy : TxPolicy) (feeLeg : FeeLeg)
    (feeCurrency : Address) : SwapShape :=
  { wallet := intent.wallet, route := route, currencyIn := intent.currencyIn
    currencyOut := intent.currencyOut, amountIn := intent.amountIn, feeLeg := feeLeg
    feeCurrency := feeCurrency, feeRecipient := policy.feeRecipient, feeBps := policy.feeBps }

def planRouter (abi : Codec) (intent : SwapIntent) (route : Route) (policy : TxPolicy)
    (deadline : Int) (router : Address) : Try Plan := do
  let shape := intent.shape route policy .output intent.currencyOut
  let approvals := if intent.currencyIn = NATIVE then []
    else [⟨intent.currencyIn, router, intent.amountIn, intent.amountIn⟩]
  let staging ← approvals.mapM fun need : ApprovalNeed => do
    let data ← erc20Approve abi need.spender need.approveAmount
    return (⟨need.token, data, 0⟩ : Call)
  return { target := router
           value := if intent.currencyIn = NATIVE then intent.amountIn else 0
           deadline := deadline, body := .router ⟨shape, 0⟩, approvals := approvals
           permit := none, staging := staging, signature := none }

/-- Commands of one route: the input, its fee, the hops, then the output. The
plan is refused when no command protects the minimum output. -/
def planCommands (intent : SwapIntent) (route : Route) (policy : TxPolicy) :
    Try (List UrCommand × Nat × Address) := do
  let start : Draft := ⟨pullInput intent ++ takeInputFee intent policy, intent.currencyIn, none⟩
  let swapped ← planHops intent start route.hops
  let (draft, feeCurrency) := if intent.feeLeg = .output then payOutput intent policy swapped
    else (swapped, intent.currencyIn)
  match draft.minOutIndex with
  | none => .error (.tx "internal" "plan has no min_out slot")
  | some index => .ok (draft.commands, index, feeCurrency)

def serves (intent : SwapIntent) (route : Route) : Prop :=
  sameAsset route.currencyIn intent.currencyIn ∧ sameAsset route.currencyOut intent.currencyOut

instance (intent : SwapIntent) (route : Route) : Decidable (serves intent route) := by
  unfold serves; infer_instance

/-- `SwapPlanner.plan`. -/
def plan (abi : Codec) (intent : SwapIntent) (route : Route) (policy : TxPolicy)
    (deadline permitNonce : Int) : Try Plan :=
  if ¬serves intent route then
    .error (.tx "internal" "route does not serve the intent")
  else match externalRouter route with
    | some router => planRouter abi intent route policy deadline router
    | none => do
      let pay ← payment abi intent deadline permitNonce
      let (commands, index, feeCurrency) ← planCommands intent route policy
      let shape := intent.shape route policy intent.feeLeg feeCurrency
      return { target := UR, value := pay.value, deadline := deadline
               body := .swap ⟨commands, index, shape, none⟩, approvals := pay.approvals
               permit := pay.permit, staging := pay.staging, signature := none }

def setAmountIn (share : Int) : V4Param → V4Param
  | .settle currency _ payer => .settle currency share payer
  | .swapExactInSingle key zeroForOne _ minOut =>
    .swapExactInSingle key zeroForOne share minOut
  | param => param

def withAmountIn (share : Int) : UrCommand → UrCommand
  | .v2Swap recipient _ minOut path payer => .v2Swap recipient share minOut path payer
  | .v3Swap recipient _ minOut path payer => .v3Swap recipient share minOut path payer
  | .v4Swap params => .v4Swap (params.map (setAmountIn share))
  | command => command

/-- The inner loop of `plan_split`; `first` marks hop index 0. -/
def splitHops (share : Int) : Bool → Address → List Hop → Try (List UrCommand × Address)
  | _, held, [] => .ok ([], held)
  | first, held, hop :: rest => do
    let before := if hop.currencyIn ≠ held then
        [convert held (if first then share else CONTRACT_BALANCE)] else []
    let command ← hopCommand hop ADDRESS_THIS 0
    let (after, last) ← splitHops share false hop.currencyOut rest
    return (before ++ (if first then withAmountIn share command else command) :: after, last)

def splitExit (currencyOut held : Address) : List UrCommand :=
  if held = NATIVE ∧ currencyOut = NATIVE then [.wrapEth ADDRESS_THIS CONTRACT_BALANCE]
  else if held ≠ currencyOut then [convert held CONTRACT_BALANCE]
  else []

def splitLeg (intent : SwapIntent) (route : Route) (share : Int) : Try (List UrCommand) := do
  let (commands, held) ← splitHops share true intent.currencyIn route.hops
  return commands ++ splitExit intent.currencyOut held

def legShare (net amountIn allocated : Int) (leg : SplitLeg) (rest : List SplitLeg) : Int :=
  if rest = [] then net - allocated else (leg.amountIn * net).fdiv amountIn

def splitLegs (intent : SwapIntent) (net : Int) : Int → List SplitLeg → Try (List UrCommand)
  | _, [] => .ok []
  | allocated, leg :: rest =>
    if ¬serves intent leg.route then
      .error (.tx "internal" "split route does not serve the intent")
    else do
      let share := legShare net intent.amountIn allocated leg rest
      let commands ← splitLeg intent leg.route share
      let after ← splitLegs intent net (allocated + share) rest
      return commands ++ after

def splitOutput (intent : SwapIntent) : Address :=
  if intent.currencyOut = NATIVE then WETH else intent.currencyOut

def splitTail (intent : SwapIntent) (policy : TxPolicy) : List UrCommand :=
  (if intent.feeLeg = .output then
    [.payPortion (splitOutput intent) policy.feeRecipient policy.feeBps] else []) ++
  [if intent.currencyOut = NATIVE then .unwrapWeth MSG_SENDER 0
   else .sweep (splitOutput intent) MSG_SENDER 0]

def inputFee (intent : SwapIntent) (policy : TxPolicy) : Int :=
  if intent.feeLeg = .input then floorBps intent.amountIn policy.feeBps else 0

def netInput (intent : SwapIntent) (policy : TxPolicy) : Int :=
  intent.amountIn - inputFee intent policy

/-- `SwapPlanner.plan_split`. -/
def planSplit (abi : Codec) (intent : SwapIntent) (split : Split) (policy : TxPolicy)
    (deadline permitNonce : Int) : Try Plan :=
  match split.legs with
  | [] => .error .index
  | leg :: rest =>
    if rest = [] then plan abi intent leg.route policy deadline permitNonce
    else if (split.legs.map SplitLeg.amountIn).sum ≠ intent.amountIn then
      .error (.tx "internal" "split does not cover the order")
    else do
      let base ← plan abi intent leg.route policy deadline permitNonce
      match base.body with
      | .router _ =>
        .error (.tx "internal" "split route cannot execute in UniversalRouter")
      | .swap body =>
        if base.target ≠ UR then
          .error (.tx "internal" "split route cannot execute in UniversalRouter")
        else do
          let legs ← splitLegs intent (netInput intent policy) 0 split.legs
          let commands := pullInput intent ++ takeInputFee intent policy ++ legs ++
            splitTail intent policy
          let shape := if intent.feeLeg = .output then
              { body.shape with feeCurrency := splitOutput intent } else body.shape
          return { base with
            body := .swap ⟨commands, commands.length - 1, shape, some split⟩ }

inductive Order where
  | onRoute (route : Route)
  | onSplit (split : Split)

def Order.plan (abi : Codec) (intent : SwapIntent) (order : Order) (policy : TxPolicy)
    (deadline permitNonce : Int) : Try Plan :=
  match order with
  | .onRoute route => TxPlan.plan abi intent route policy deadline permitNonce
  | .onSplit split => planSplit abi intent split policy deadline permitNonce

def orderHops : Order → List Hop
  | .onRoute route => route.hops
  | .onSplit split => split.legs.flatMap fun leg => leg.route.hops

def orderLegs : Order → List SplitLeg
  | .onRoute _ => []
  | .onSplit split => split.legs

def isSwap : UrCommand → Bool
  | .v2Swap .. => true
  | .v3Swap .. => true
  | .v4Swap .. => true
  | _ => false

def swapPositions (commands : List UrCommand) : List Nat :=
  (commands.zipIdx.filter fun entry => isSwap entry.1).map Prod.snd

def setAt (commands : List UrCommand) (index : Nat) (minOut : Int) : Try (List UrCommand) :=
  match commands[index]? with
  | none => .error .index
  | some command => do
    let changed ← withMinOut command minOut
    return commands.set index changed

/-- The leg loop of `finalize`; `count` swaps belong to the legs already bound. -/
def boundLegs (swaps : List Nat) (minOut total : Int) :
    Nat → Int → List SplitLeg → List UrCommand → Try (List UrCommand)
  | _, _, [], commands => .ok commands
  | count, assigned, leg :: rest, commands => do
    let count := count + leg.route.hops.length
    let bound := if rest = [] then minOut - assigned
      else (minOut * leg.amountOut).fdiv total
    match swaps[count - 1]? with
    | none => .error .index
    | some position =>
      let changed ← setAt commands position bound
      boundLegs swaps minOut total count (assigned + bound) rest changed

def boundSplit (split : Option Split) (minOut : Int) (commands : List UrCommand) :
    Try (List UrCommand) :=
  match split with
  | none => .ok commands
  | some split =>
    let total := (split.legs.map SplitLeg.amountOut).sum
    if 1 < split.legs.length ∧ total ≠ 0 then
      boundLegs (swapPositions commands) minOut total 0 0 split.legs commands
    else .ok commands

/-- `SwapPlanner.finalize`. -/
def finalize (plan : Plan) (minOut : Int) (permit : Option Bytes) : Try Plan :=
  match plan.body with
  | .router body =>
    if minOut > 0 ∧ body.shape.feeBps ≥ 10000 then .error (.tx "internal" "invalid fee")
    else if 10000 - body.shape.feeBps = 0 then .error .division
    else
      let kept := 10000 - body.shape.feeBps
      let grossMin := (minOut * 10000 + kept - 1).fdiv kept
      .ok { plan with body := .router { body with grossMinOut := grossMin } }
  | .swap body =>
    if plan.permit.isSome ∧ permit.isNone then
      .error (.tx "permit_required" "the quote needs a Permit2 signature")
    else do
      let protectedCommands ← setAt body.commands body.minOutIndex minOut
      let commands ← boundSplit body.split minOut protectedCommands
      .ok { plan with body := .swap { body with commands := commands }, signature := permit }

end RhPools.TxPlan
