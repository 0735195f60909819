import RhPools.CommandRuns
import RhPools.PlannedSwaps

/-! What UniversalRouter commands do to the router's balances. A command takes one
amount of one currency and gives one amount of one currency; how much a pool
returns is not known, so a swap may give any amount the run allows. -/

namespace RhPools.RouterBalances
open BigEndian AbiCodec TxChain TxRoutes UrCommands TxPlan PlannedSwaps CommandRuns

structure Router where
  held : Address → Int
  paid : Address → Int

/-- The router before the first command: it holds the attached ETH only. -/
def started (value : Int) : Router :=
  ⟨fun currency => if currency = NATIVE then value else 0, fun _ => 0⟩

def stated (amount balance : Int) : Int := if amount = CONTRACT_BALANCE then balance else amount

def settled : V4Param → Option (Address × Int)
  | .settle currency amount payerIsUser => if payerIsUser then none else some (currency, amount)
  | _ => none

def taken : V4Param → Option (Address × Address)
  | .take currency recipient _ => some (currency, recipient)
  | _ => none

def takes (router : Router) : UrCommand → Option (Address × Int)
  | .payPortion token _ bips => some (token, floorBps (router.held token) bips)
  | .wrapEth _ amount => some (NATIVE, stated amount (router.held NATIVE))
  | .unwrapWeth _ _ => some (WETH, router.held WETH)
  | .sweep token _ _ => some (token, router.held token)
  | .v3Swap _ amountIn _ path payerIsUser =>
    if payerIsUser then none
    else (decodeV3Path path).1.head?.map fun token =>
      (token, stated amountIn (router.held token))
  | .v2Swap _ amountIn _ path payerIsUser =>
    if payerIsUser then none
    else path.head?.map fun token => (token, stated amountIn (router.held token))
  | .v4Swap params => (params.findSome? settled).map fun (currency, amount) =>
    (currency, stated amount (router.held currency))
  | .permit2TransferFrom .. => none
  | .permit2Permit .. => none

/-- Recipient, currency and amount of what a command gives. The portion goes to the
fee recipient, whose balance is not followed. -/
def gives (router : Router) (output : Int) : UrCommand → Option (Address × Address × Int)
  | .permit2TransferFrom token recipient amount => some (recipient, token, amount)
  | .wrapEth recipient amount => some (recipient, WETH, stated amount (router.held NATIVE))
  | .unwrapWeth recipient _ => some (recipient, NATIVE, router.held WETH)
  | .sweep token recipient _ => some (recipient, token, router.held token)
  | .v3Swap recipient _ _ path _ =>
    (decodeV3Path path).1.getLast?.map fun token => (recipient, token, output)
  | .v2Swap recipient _ _ path _ => path.getLast?.map fun token => (recipient, token, output)
  | .v4Swap params => (params.findSome? taken).map fun (currency, recipient) =>
    (recipient, currency, output)
  | .payPortion .. => none
  | .permit2Permit .. => none

def Router.debit (router : Router) (currency : Address) (amount : Int) : Router :=
  { router with held := Function.update router.held currency (router.held currency - amount) }

def Router.credit (router : Router) (recipient currency : Address) (amount : Int) : Router :=
  if recipient = ADDRESS_THIS then
    { router with held := Function.update router.held currency (router.held currency + amount) }
  else if recipient = MSG_SENDER then
    { router with paid := Function.update router.paid currency (router.paid currency + amount) }
  else router

def after (router : Router) (output : Int) (command : UrCommand) : Router :=
  let debited := match takes router command with
    | none => router
    | some (currency, amount) => router.debit currency amount
  match gives router output command with
  | none => debited
  | some (recipient, currency, amount) => debited.credit recipient currency amount

def covered (command : UrCommand) (router : Router) : Prop :=
  ∀ currency amount, takes router command = some (currency, amount) →
    amount ≤ router.held currency

/-- Every command must be covered; a swap returns some positive amount. -/
def funding : Machine UrCommand Router :=
  { ready := covered
    next := fun command router next => ∃ output, 0 < output ∧ next = after router output command }

theorem funding_live : funding.Live :=
  fun command router => ⟨after router 1 command, 1, Int.one_pos, rfl⟩

variable (router : Router) (currency other : Address)

theorem held_debit (amount : Int) :
    (router.debit currency amount).held other =
      if other = currency then router.held currency - amount else router.held other := by
  simp [Router.debit, Function.update_apply]

@[simp] theorem paid_debit (currency : Address) (amount : Int) :
    (router.debit currency amount).paid = router.paid := rfl

theorem held_credit_this (amount : Int) :
    (router.credit ADDRESS_THIS currency amount).held other =
      if other = currency then router.held currency + amount else router.held other := by
  simp [Router.credit, Function.update_apply]

@[simp] theorem paid_credit_this (currency : Address) (amount : Int) :
    (router.credit ADDRESS_THIS currency amount).paid = router.paid := rfl

theorem sender_ne_this : MSG_SENDER ≠ ADDRESS_THIS := by decide

@[simp] theorem held_credit_sender (currency : Address) (amount : Int) :
    (router.credit MSG_SENDER currency amount).held = router.held := by
  simp [Router.credit, sender_ne_this]

theorem paid_credit_sender (amount : Int) :
    (router.credit MSG_SENDER currency amount).paid other =
      if other = currency then router.paid currency + amount else router.paid other := by
  simp [Router.credit, sender_ne_this, Function.update_apply]

theorem stated_whole (balance : Int) : stated CONTRACT_BALANCE balance = balance := by
  simp [stated]

theorem stated_share (share balance : Int) (amount : share ≠ CONTRACT_BALANCE) :
    stated share balance = share := by
  simp [stated, amount]

variable (hop : Hop) (recipient : Address)

theorem takes_hop (minOut : Int) (command : UrCommand)
    (made : hopCommand hop recipient minOut = .ok command) :
    takes router command = some (hop.currencyIn, router.held hop.currencyIn) := by
  rcases hopCommand_cases hop recipient minOut command made with
    ⟨-, path, packed, rfl⟩ | ⟨-, rfl⟩ | ⟨-, rfl⟩
  · simp [takes, decodeV3Path_v3Path _ _ _ packed, stated_whole]
  · simp [takes, stated_whole]
  · simp [takes, v4Hop, settled, stated_whole]

theorem gives_hop (minOut output : Int) (command : UrCommand)
    (made : hopCommand hop recipient minOut = .ok command) :
    gives router output command = some (recipient, hop.currencyOut, output) := by
  rcases hopCommand_cases hop recipient minOut command made with
    ⟨-, path, packed, rfl⟩ | ⟨-, rfl⟩ | ⟨-, rfl⟩
  · simp [gives, decodeV3Path_v3Path _ _ _ packed]
  · simp [gives]
  · simp [gives, v4Hop, List.findSome?_cons, taken]

theorem takes_share (minOut share : Int) (command : UrCommand) (amount : share ≠ CONTRACT_BALANCE)
    (made : hopCommand hop recipient minOut = .ok command) :
    takes router (withAmountIn share command) = some (hop.currencyIn, share) := by
  rcases hopCommand_cases hop recipient minOut command made with
    ⟨-, path, packed, rfl⟩ | ⟨-, rfl⟩ | ⟨-, rfl⟩
  · simp [withAmountIn, takes, decodeV3Path_v3Path _ _ _ packed, stated_share _ _ amount]
  · simp [withAmountIn, takes, stated_share _ _ amount]
  · simp [withAmountIn, takes, v4Hop, setAmountIn, settled, stated_share _ _ amount]

theorem gives_share (minOut share output : Int) (command : UrCommand)
    (made : hopCommand hop recipient minOut = .ok command) :
    gives router output (withAmountIn share command) =
      some (recipient, hop.currencyOut, output) := by
  rcases hopCommand_cases hop recipient minOut command made with
    ⟨-, path, packed, rfl⟩ | ⟨-, rfl⟩ | ⟨-, rfl⟩
  · simp [withAmountIn, gives, decodeV3Path_v3Path _ _ _ packed]
  · simp [withAmountIn, gives]
  · simp [withAmountIn, gives, v4Hop, List.findSome?_cons, setAmountIn, taken]

theorem after_hop (minOut output : Int) (command : UrCommand)
    (made : hopCommand hop recipient minOut = .ok command) :
    covered command router ∧ after router output command =
      (router.debit hop.currencyIn (router.held hop.currencyIn)).credit recipient
        hop.currencyOut output := by
  have takes := takes_hop router hop recipient minOut command made
  have gives := gives_hop router hop recipient minOut output command made
  refine ⟨fun currency amount taken => ?_, by simp [after, takes, gives]⟩
  rw [takes] at taken
  cases taken
  exact le_rfl

theorem after_share (minOut share output : Int) (command : UrCommand)
    (amount : share ≠ CONTRACT_BALANCE) (made : hopCommand hop recipient minOut = .ok command) :
    (covered (withAmountIn share command) router ↔ share ≤ router.held hop.currencyIn) ∧
      after router output (withAmountIn share command) =
        (router.debit hop.currencyIn share).credit recipient hop.currencyOut output := by
  have takes := takes_share router hop recipient minOut share command amount made
  have gives := gives_share router hop recipient minOut share output command made
  refine ⟨⟨fun all => all _ _ takes, fun enough currency taken same => ?_⟩,
    by simp [after, takes, gives]⟩
  rw [takes] at same
  cases same
  exact enough

theorem after_convert (held other : Address) (output : Int)
    (pair : (held = NATIVE ∧ other = WETH) ∨ (held = WETH ∧ other = NATIVE)) :
    covered (convert held CONTRACT_BALANCE) router ∧
      after router output (convert held CONTRACT_BALANCE) =
        (router.debit held (router.held held)).credit ADDRESS_THIS other (router.held held) := by
  have apart : WETH ≠ NATIVE := by decide
  rcases pair with ⟨rfl, rfl⟩ | ⟨rfl, rfl⟩
  · refine ⟨fun currency amount taken => ?_, by simp [after, convert, takes, gives, stated_whole]⟩
    simp only [convert, if_true, takes, stated_whole, Option.some.injEq, Prod.mk.injEq] at taken
    obtain ⟨rfl, rfl⟩ := taken
    exact le_rfl
  · refine ⟨fun currency amount taken => ?_, by simp [after, convert, apart, takes, gives]⟩
    simp only [convert, apart, if_false, takes, Option.some.injEq, Prod.mk.injEq] at taken
    obtain ⟨rfl, rfl⟩ := taken
    exact le_rfl

end RhPools.RouterBalances
