import RhPools.TxPlan

/-! Reconciliation of a plan against the logs of its execution. A ledger holds the
transfers and swaps read from the logs; the amounts of a plan are accepted only
when every hop input, the fee and the wallet's two sides agree to the wei. -/

namespace RhPools.TxLedger
open TxChain TxRoutes TxPlan

structure Transfer where
  currency : Address
  sender : Address
  recipient : Address
  amount : Int
  deriving DecidableEq, Repr

structure SwapLog where
  poolKey : PoolId
  amount0 : Int
  amount1 : Int
  venue : Venue
  deriving DecidableEq, Repr

/-- `nativeTraced` says that native moves are among the transfers. -/
structure Ledger where
  transfers : List Transfer
  swaps : List SwapLog
  nativeTraced : Bool
  nativeFlows : List (Address × Int)
  deriving DecidableEq, Repr

def Ledger.observable (ledger : Ledger) (currency : Address) : Bool :=
  currency ≠ NATIVE ∨ ledger.nativeTraced

def Ledger.received (ledger : Ledger) (currency who : Address) : Int :=
  ((ledger.transfers.filter fun move =>
    move.currency = currency ∧ move.recipient = who ∧ move.sender ≠ who).map Transfer.amount).sum

def Ledger.sent (ledger : Ledger) (currency who : Address) : Int :=
  ((ledger.transfers.filter fun move =>
    move.currency = currency ∧ move.sender = who ∧ move.recipient ≠ who).map Transfer.amount).sum

/-- Native falls back to the supplied balance delta when the logs were not traced. -/
def Ledger.flow (ledger : Ledger) (currency who : Address) : Try Int :=
  if currency = NATIVE ∧ ledger.nativeTraced = false then
    match ledger.nativeFlows.lookup who with
    | some delta => .ok delta
    | none => .error (.tx "unobservable" s!"no native flow for 0x{who.toHex}")
  else .ok (ledger.received currency who - ledger.sent currency who)

def Hop.key (hop : Hop) : PoolId :=
  if hop.pool.venue = .v4 then hop.pool.id else .pool hop.pool.address

def shortKey : PoolId → String
  | .hash id => "0x" ++ (id.extractLsb' 224 32).toHex
  | .pool address => "0x" ++ (address.extractLsb' 128 32).toHex

/-- Input and output of a hop as its swap log states them; pools of the V3 kind log
their own side, the others the side of the trader. -/
def hopAmounts (hop : Hop) (swap : SwapLog) : Int × Int :=
  let amounts := if hop.currencyIn = hop.pool.token0 then (swap.amount0, swap.amount1)
    else (swap.amount1, swap.amount0)
  match swap.venue with
  | .v3 => (amounts.1, -amounts.2)
  | .v2 => (-amounts.1, amounts.2)
  | .v4 => (-amounts.1, amounts.2)

def Ledger.hopIo (ledger : Ledger) (hop : Hop) (occurrence : Option Nat) : Try (Int × Int) :=
  let found := ledger.swaps.filter fun swap => swap.poolKey = Hop.key hop
  let index := occurrence.getD 0
  if occurrence = none ∧ found.length ≠ 1 then
    .error (.tx "unmodeled_fee"
      s!"expected one Swap log for {shortKey (Hop.key hop)}, saw {found.length}")
  else match found[index]? with
    | none => .error (.tx "unmodeled_fee"
        s!"expected Swap log {index + 1} for {shortKey (Hop.key hop)}, saw {found.length}")
    | some swap => .ok (hopAmounts hop swap)

structure Fee where
  currency : Address
  amount : Int
  deriving DecidableEq, Repr

structure Amounts where
  amountIn : Int
  poolOut : Int
  hookFee : Option Fee
  creatorTax : Option Fee
  rhpoolsFee : Fee
  netOut : Int
  minOut : Int
  impactBps : Option Int
  deriving DecidableEq, Repr

/-- Raises `unmodeled_fee` when a check finds the logs wrong. -/
def refuse (wrong : Prop) [Decidable wrong] (detail : String) : Try Unit :=
  if wrong then .error (.tx "unmodeled_fee" detail) else .ok ()

@[simp] theorem refuse_ok (wrong : Prop) [Decidable wrong] (detail : String) :
    refuse wrong detail = .ok () ↔ ¬wrong := by
  simp [refuse]

def refuseFlow (shape : SwapShape) (ledger : Ledger) (netOut : Int) (detail : Int → String) :
    Try Unit :=
  if ledger.observable shape.currencyOut then do
    let got ← ledger.flow shape.currencyOut shape.wallet
    refuse (got ≠ netOut) (detail got)
  else .ok ()

def refuseCarry (hopIn carry : Int) : Try Unit :=
  refuse (hopIn ≠ carry) s!"hop input {hopIn} != carried {carry}"

def shapeFee (shape : SwapShape) : Int :=
  if shape.feeLeg = .input then floorBps shape.amountIn shape.feeBps else 0

/-- The variables of the hop loop in `swap_amounts`. -/
structure Carried where
  carry : Int
  poolOut : Int
  hookFee : Option Fee
  creatorTax : Option Fee
  deriving DecidableEq, Repr

def swapHops (ledger : Ledger) (hookPolicy : Pool → HookPolicy) : Carried → List Hop → Try Carried
  | state, [] => .ok state
  | state, hop :: rest => do
    let (hopIn, hopOut) ← ledger.hopIo hop none
    refuseCarry hopIn state.carry
    let policy := hookPolicy hop.pool
    if policy.isPons then
      let hookFee := floorBps hopOut policy.hookFeeBps
      let creatorTax := floorBps hopOut policy.creatorTaxBps
      swapHops ledger hookPolicy
        ⟨hopOut - (hookFee + creatorTax), hopOut, some ⟨hop.currencyOut, hookFee⟩,
          some ⟨hop.currencyOut, creatorTax⟩⟩ rest
    else swapHops ledger hookPolicy { state with carry := hopOut, poolOut := hopOut } rest

/-- `swap_amounts`. -/
def swapAmounts (shape : SwapShape) (ledger : Ledger) (hookPolicy : Pool → HookPolicy) :
    Try Amounts := do
  let feeIn := shapeFee shape
  let swapped ← swapHops ledger hookPolicy ⟨shape.amountIn - feeIn, 0, none, none⟩ shape.route.hops
  let feeAmount := if shape.feeLeg = .output then floorBps swapped.carry shape.feeBps else feeIn
  let netOut := if shape.feeLeg = .output then swapped.carry - feeAmount else swapped.carry
  let paid := ledger.received shape.feeCurrency shape.feeRecipient
  refuse (ledger.observable shape.feeCurrency ∧ paid ≠ feeAmount)
    s!"fee recipient received {paid}, expected {feeAmount}"
  refuseFlow shape ledger netOut fun got => s!"wallet received {got}, expected {netOut}"
  let spent := ledger.sent shape.currencyIn shape.wallet
  refuse (shape.currencyIn ≠ NATIVE ∧ spent ≠ shape.amountIn)
    s!"wallet spent {spent}, expected {shape.amountIn}"
  return ⟨shape.amountIn, swapped.poolOut, swapped.hookFee, swapped.creatorTax,
    ⟨shape.feeCurrency, feeAmount⟩, netOut, 0, none⟩

/-- What the leg loop of `split_amounts` carries over from leg to leg; `seen` counts the
swap logs already used of each pool. -/
structure Tally where
  seen : PoolId → Nat
  poolOut : Int
  hookTotal : Int
  creatorTotal : Int
  hookCurrency : Option Address

def Tally.start : Tally := ⟨fun _ => 0, 0, 0, 0, none⟩

def Tally.pass (tally : Tally) (hop : Hop) (policy : HookPolicy) (hopOut : Int) : Tally :=
  let seen := Function.update tally.seen (Hop.key hop) (tally.seen (Hop.key hop) + 1)
  if policy.isPons then
    { seen := seen, poolOut := tally.poolOut
      hookTotal := tally.hookTotal + floorBps hopOut policy.hookFeeBps
      creatorTotal := tally.creatorTotal + floorBps hopOut policy.creatorTaxBps
      hookCurrency := some hop.currencyOut }
  else { tally with seen := seen }

def hookTaken (policy : HookPolicy) (hopOut : Int) : Int :=
  if policy.isPons then
    floorBps hopOut policy.hookFeeBps + floorBps hopOut policy.creatorTaxBps
  else 0

/-- The hop loop of a leg; the result holds what is carried out of the leg and the
output of its last hop. -/
def legHops (ledger : Ledger) (hookPolicy : Pool → HookPolicy) :
    Tally → Int → Int → List Hop → Try (Tally × Int × Int)
  | tally, carry, hopOut, [] => .ok (tally, carry, hopOut)
  | tally, carry, _, hop :: rest => do
    let (hopIn, hopOut) ← ledger.hopIo hop (some (tally.seen (Hop.key hop)))
    refuseCarry hopIn carry
    let policy := hookPolicy hop.pool
    legHops ledger hookPolicy (tally.pass hop policy hopOut)
      (hopOut - hookTaken policy hopOut) hopOut rest

def amountsShare (net amountIn : Int) (netShares : Bool) (allocated : Int) (leg : SplitLeg)
    (rest : List SplitLeg) : Try Int :=
  if netShares then .ok leg.amountIn
  else if rest ≠ [] ∧ amountIn = 0 then .error .division
  else .ok (legShare net amountIn allocated leg rest)

def splitAmountsLegs (ledger : Ledger) (hookPolicy : Pool → HookPolicy) (net amountIn : Int)
    (netShares : Bool) : Int → Tally → List SplitLeg → Try (Tally × List SplitLeg)
  | _, tally, [] => .ok (tally, [])
  | allocated, tally, leg :: rest => do
    let share ← amountsShare net amountIn netShares allocated leg rest
    let (passed, carry, hopOut) ← legHops ledger hookPolicy tally share 0 leg.route.hops
    let (final, outs) ← splitAmountsLegs ledger hookPolicy net amountIn netShares
      (allocated + share) { passed with poolOut := passed.poolOut + hopOut } rest
    return (final, { leg with amountOut := carry } :: outs)

def netLegs (netOut grossOut : Int) : Int → List SplitLeg → List SplitLeg
  | _, [] => []
  | distributed, leg :: rest =>
    let netLeg := if rest = [] then netOut - distributed
      else (leg.amountOut * netOut).fdiv grossOut
    { leg with amountOut := netLeg } :: netLegs netOut grossOut (distributed + netLeg) rest

/-- The last checks of `split_amounts` and its amounts. -/
def settledAmounts (shape : SwapShape) (ledger : Ledger) (tally : Tally) (fee netOut : Int) :
    Try Amounts := do
  refuse (ledger.observable shape.feeCurrency ∧
    ledger.received shape.feeCurrency shape.feeRecipient ≠ fee)
    "split fee transfer differs from stated fee"
  refuseFlow shape ledger netOut fun _ => "split wallet output differs from stated output"
  refuse (shape.currencyIn ≠ NATIVE ∧
    ledger.sent shape.currencyIn shape.wallet ≠ shape.amountIn)
    "split wallet input differs from stated input"
  return ⟨shape.amountIn, tally.poolOut,
    tally.hookCurrency.map fun currency => ⟨currency, tally.hookTotal⟩,
    tally.hookCurrency.map fun currency => ⟨currency, tally.creatorTotal⟩,
    ⟨shape.feeCurrency, fee⟩, netOut, 0, none⟩

/-- `split_amounts`. -/
def splitAmounts (shape : SwapShape) (split : Split) (ledger : Ledger)
    (hookPolicy : Pool → HookPolicy) (netShares : Bool) : Try (Amounts × Split) := do
  let feeIn := shapeFee shape
  let net := shape.amountIn - feeIn
  refuse (netShares ∧ (split.legs.map SplitLeg.amountIn).sum ≠ net)
    "split inputs do not cover the order"
  let (tally, outs) ← splitAmountsLegs ledger hookPolicy net shape.amountIn netShares 0
    Tally.start split.legs
  let grossOut := (outs.map SplitLeg.amountOut).sum
  let fee := if shape.feeLeg = .input then feeIn else floorBps grossOut shape.feeBps
  let netOut := grossOut - (if shape.feeLeg = .output then fee else 0)
  let measured := if shape.feeLeg = .output ∧ grossOut ≠ 0 then
    netLegs netOut grossOut 0 outs else outs
  let amounts ← settledAmounts shape ledger tally fee netOut
  let split ← Split.build measured
  return (amounts, split)

end RhPools.TxLedger
