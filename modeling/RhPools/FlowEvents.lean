import RhPools.EventWords
import RhPools.PyValues

/-! The rows of public Fomo flow pages, as a publisher's JSON is checked and projected: every
check in the order of the source, with the text of the error that names the field. -/

namespace RhPools.FlowEvents

open PyValues

/-- `FomoFlowError`: a response outside the contract, or an endpoint without a usable page. -/
inductive Fault where
  | contract (message : String)
  | unavailable (message : String) (upstreamStatus : Option Int) (retryAfter : Option String)
deriving DecidableEq

def Fault.text : Fault → String
  | .contract message => message
  | .unavailable message _ _ => message

abbrev Checked := Except Fault

structure Library where
  /-- `Decimal(text)` as `format(number, "f")` writes it, if it is finite and not negative. -/
  decimal : String → Option String
  /-- `datetime.fromisoformat` with `Z` as `+00:00`; a naive time has no instant. -/
  instant : String → Option (Option Int)
  /-- `datetime.fromtimestamp(seconds, timezone.utc)` in milliseconds, with `Z`. -/
  stamp : Int → String

def invalid (publisher field : String) : Fault :=
  .contract (publisher ++ " flow response has an invalid " ++ field)

def APOLLO : String := "Apollo"
def RH_TRENCHES : String := "RH Trenches"

def SUPPORTED_CHAINS : List String := ["solana", "base", "robinhood"]
def APOLLO_ACTIONS : List String := ["open", "increase", "decrease", "close"]
def RHTRENCHES_ACTIONS : List String := ["buy", "sell"]
def IDENTITY_KINDS : List String := ["verified-fomo", "observed-wallet"]
def CONFIRMATIONS : List String := ["processed", "confirmed", "finalized"]
def SOURCE_KINDS : List String := ["chain-observed", "fomo-official"]

def isDigit (char : Char) : Bool := '0' ≤ char && char ≤ '9'

def isHex (char : Char) : Bool :=
  isDigit char || ('a' ≤ char && char ≤ 'f') || ('A' ≤ char && char ≤ 'F')

/-- `0|[1-9][0-9]*`. -/
def natural (chars : List Char) : Bool :=
  match chars with
  | [] => false
  | '0' :: rest => rest.isEmpty
  | first :: rest => isDigit first && rest.all isDigit

/-- `_DECIMAL_RE`. -/
def decimalText (text : String) : Bool :=
  let whole := text.toList.takeWhile (· ≠ '.')
  match text.toList.dropWhile (· ≠ '.') with
  | [] => natural whole
  | _ :: fraction => natural whole && !fraction.isEmpty && fraction.all isDigit

/-- `0x` and that many hexadecimal digits. -/
def hexWord (digits : Nat) (text : String) : Bool :=
  match text.toList with
  | '0' :: 'x' :: rest => rest.length = digits && rest.all isHex
  | _ => false

/-- `_CURSOR_RE`. -/
def cursorText (text : String) : Bool :=
  let chars := text.toList
  !chars.isEmpty && chars.length ≤ 4096 && chars.all fun char =>
    isDigit char || ('a' ≤ char && char ≤ 'z') || ('A' ≤ char && char ≤ 'Z') ||
      char = '_' || char = '-'

def object (value : Value) (field publisher : String) : Checked Dict :=
  match value with
  | .dict entries => .ok entries
  | _ => .error (invalid publisher field)

def text (value : Value) (field publisher : String) (maximum : Nat) : Checked String :=
  match value with
  | .str text => if text = "" ∨ maximum < text.length then .error (invalid publisher field) else .ok text
  | _ => .error (invalid publisher field)

def nullable {Result : Type} (check : Value → Checked Result) : Value → Checked (Option Result)
  | .none => .ok none
  | value => (check value).map some

def integer (value : Value) (field publisher : String) (minimum : Int) : Checked Int :=
  match value with
  | .int number => if number < minimum then .error (invalid publisher field) else .ok number
  | _ => .error (invalid publisher field)

def apolloDecimal (field : String) (value : Value) : Checked String := do
  let text ← text value field APOLLO 512
  if decimalText text then .ok text else .error (invalid APOLLO field)

def iso (library : Library) (field publisher : String) (value : Value) : Checked String := do
  let text ← text value field publisher 64
  match library.instant text with
  | some (some _) => .ok text
  | _ => .error (invalid publisher field)

def reportedDecimal (library : Library) (field : String) (value : Value) : Checked String :=
  let read := match value with
    | .str text => library.decimal text
    | .int number => library.decimal (toString number)
    | .float text => library.decimal text
    | _ => none
  match read with
  | some text => .ok text
  | none => .error (invalid RH_TRENCHES field)

def epoch (library : Library) (field : String) (value : Value) : Checked (String × String) := do
  let seconds ← integer value field RH_TRENCHES 0
  if 4102444800 < seconds then .error (invalid RH_TRENCHES field)
  else .ok (library.stamp seconds, toString seconds)

def evmAddress (lower : String → String) (field : String) (value : Value) : Checked String := do
  let text ← text value field RH_TRENCHES 42
  if hexWord 40 text then .ok (lower text) else .error (invalid RH_TRENCHES field)

structure Identity where
  kind : String
  traderId : Option String
  handle : String
  wallet : String

structure Source where
  kind : String
  transactionHash : Option String
  instructionOrLogIndex : Option Int
  blockHash : Option String
  blockNumberOrSlot : Option String
  confirmationStatus : Option String
  eventId : Option String
  sequence : Option String

structure Asset where
  chain : String
  address : String
  symbol : Option String
  name : Option String

structure Economics where
  leaderPositionBeforeUsd : Option String
  leaderPositionAfterUsd : Option String
  tradeSizeUsd : Option String
  leaderFillPriceUsd : Option String
  tradeQuantity : Option String
  quoteToken : Option String
  valueBasis : String

structure Evidence where
  occurredAt : Option String
  occurredAtUnix : Option String
  observedAt : Option String

structure FlowItem where
  publisher : String
  canonicalActionId : Option String
  sourceEventId : Option String
  traderStrategyId : Option String
  identity : Identity
  source : Source
  asset : Asset
  action : String
  actionBasis : String
  economics : Economics
  evidence : Evidence

def among (values : List String) (message : String) (text : String) : Checked Unit :=
  if text ∈ values then .ok () else .error (.contract message)

def apolloIdentity (value : Value) : Checked Identity := do
  let identity ← object value "identity" APOLLO
  let kind ← text (Dict.get identity "kind") "identity.kind" APOLLO 32
  among IDENTITY_KINDS "Apollo flow response has an unsupported identity kind" kind
  let traderId ← text (Dict.get identity "traderId") "identity.traderId" APOLLO 256
  let handle ← text (Dict.get identity "handle") "identity.handle" APOLLO 256
  let wallet ← text (Dict.get identity "wallet") "identity.wallet" APOLLO 256
  .ok ⟨kind, some traderId, handle, wallet⟩

def apolloSource (value : Value) : Checked Source := do
  let source ← object value "sourceRef" APOLLO
  let kind ← text (Dict.get source "kind") "sourceRef.kind" APOLLO 32
  among SOURCE_KINDS "Apollo flow response has an unsupported source kind" kind
  if kind = "chain-observed" then
    let confirmation ← text (Dict.get source "confirmationStatus") "sourceRef.confirmationStatus" APOLLO 16
    among CONFIRMATIONS "Apollo flow response has an invalid confirmation status" confirmation
    let block ← text (Dict.get source "blockNumberOrSlot") "sourceRef.blockNumberOrSlot" APOLLO 128
    if natural block.toList then
      let txHash ← text (Dict.get source "txHash") "sourceRef.txHash" APOLLO 256
      let index ← integer (Dict.get source "instructionOrLogIndex") "sourceRef.instructionOrLogIndex" APOLLO 0
      let blockHash ← text (Dict.get source "blockHash") "sourceRef.blockHash" APOLLO 256
      .ok ⟨kind, some txHash, some index, some blockHash, some block, some confirmation, none, none⟩
    else .error (.contract "Apollo flow response has an invalid block or slot")
  else
    let eventId ← text (Dict.get source "eventId") "sourceRef.eventId" APOLLO 512
    let sequence ← text (Dict.get source "sequence") "sourceRef.sequence" APOLLO 256
    .ok ⟨kind, none, none, none, none, none, some eventId, some sequence⟩

def apolloEvent (library : Library) (value : Value) : Checked FlowItem := do
  let event ← object value "items[]" APOLLO
  let asset ← object (Dict.get event "asset") "asset" APOLLO
  let chain ← text (Dict.get asset "chain") "asset.chain" APOLLO 32
  among SUPPORTED_CHAINS "Apollo flow response contains a chain outside the supported set" chain
  let action ← text (Dict.get event "action") "action" APOLLO 16
  among APOLLO_ACTIONS "Apollo flow response has an unsupported action" action
  let occurredAt ← iso library "occurredAt" APOLLO (Dict.get event "occurredAt")
  let observedAt ← iso library "observedAt" APOLLO (Dict.get event "observedAt")
  let canonicalActionId ← text (Dict.get event "canonicalActionId") "canonicalActionId" APOLLO 1024
  let traderStrategyId ← text (Dict.get event "traderStrategyId") "traderStrategyId" APOLLO 256
  let identity ← apolloIdentity (Dict.get event "identity")
  let source ← apolloSource (Dict.get event "sourceRef")
  let address ← text (Dict.get asset "address") "asset.address" APOLLO 256
  let symbol ← nullable (text · "assetSymbol" APOLLO 128) (Dict.get event "assetSymbol")
  let name ← nullable (text · "assetName" APOLLO 256) (Dict.get event "assetName")
  let before ← apolloDecimal "leaderPositionBeforeUsd" (Dict.get event "leaderPositionBeforeUsd")
  let after ← apolloDecimal "leaderPositionAfterUsd" (Dict.get event "leaderPositionAfterUsd")
  let size ← apolloDecimal "tradeSizeUsd" (Dict.get event "tradeSizeUsd")
  let price ← apolloDecimal "leaderFillPriceUsd" (Dict.get event "leaderFillPriceUsd")
  let quantity ← nullable (apolloDecimal "tradeQuantity") (Dict.get event "tradeQuantity")
  .ok
    { publisher := "apollo"
      canonicalActionId := some canonicalActionId
      sourceEventId := none
      traderStrategyId := some traderStrategyId
      identity := identity
      source := source
      asset := ⟨chain, address, symbol, name⟩
      action := action
      actionBasis := "apollo-normalized-leader-action"
      economics := ⟨some before, some after, some size, some price, quantity, none,
        "apollo-published-decimal"⟩
      evidence := ⟨some occurredAt, none, some observedAt⟩ }

def flagTexts : Value → Option (List String)
  | .list items => items.mapM fun item =>
    match item with
    | .str flag => if 256 < flag.length then none else some flag
    | _ => none
  | _ => none

def pricedBasis : Value → Checked (Option String)
  | .none => .ok none
  | .str priced =>
    if 64 < priced.length then
      .error (.contract "RH Trenches flow response has an invalid priced basis")
    else .ok (some priced)
  | _ => .error (.contract "RH Trenches flow response has an invalid priced basis")

def rhEvent (library : Library) (lower : String → String) (value : Value) :
    Checked (FlowItem ⊕ String) := do
  let event ← object value "tape[]" RH_TRENCHES
  let recordId ← integer (Dict.get event "id") "id" RH_TRENCHES 1
  let occurred ← epoch library "ts" (Dict.get event "ts")
  let txHash ← text (Dict.get event "tx") "tx" RH_TRENCHES 66
  if !hexWord 64 txHash then .error (invalid RH_TRENCHES "tx")
  else
    let block ← integer (Dict.get event "block") "block" RH_TRENCHES 0
    let action ← text (Dict.get event "side") "side" RH_TRENCHES 8
    among RHTRENCHES_ACTIONS "RH Trenches flow response has an unsupported side" action
    let wallet ← evmAddress lower "wallet" (Dict.get event "wallet")
    let token ← evmAddress lower "token" (Dict.get event "token")
    let handle ← text (Dict.get event "handle") "handle" RH_TRENCHES 256
    match flagTexts (Dict.get event "flags") with
    | none => .error (.contract "RH Trenches flow response has invalid flags")
    | some flags =>
      let priced ← pricedBasis (Dict.get event "priced")
      -- rows with a warning, and estimated values, are not republished
      if flags ≠ [] then .ok (.inr "publisher-warning")
      else if priced ≠ none ∧ priced ≠ some "cash_leg" then .ok (.inr "estimated-value")
      else
        let quoteToken ← nullable (evmAddress lower "quote_token") (Dict.get event "quote_token")
        let symbol ← nullable (text · "symbol" RH_TRENCHES 128) (Dict.get event "symbol")
        let name ← nullable (text · "name" RH_TRENCHES 256) (Dict.get event "name")
        let size ← nullable (reportedDecimal library "usd") (Dict.get event "usd")
        let price ← nullable (reportedDecimal library "price") (Dict.get event "price")
        let quantity ← nullable (reportedDecimal library "amount") (Dict.get event "amount")
        .ok (.inl
          { publisher := "rhtrenches"
            canonicalActionId := none
            sourceEventId := some (toString recordId)
            traderStrategyId := none
            identity := ⟨"observed-wallet", none, handle, wallet⟩
            source := ⟨"chain-observed", some (lower txHash), none, none, some (toString block), none,
              none, none⟩
            asset := ⟨"robinhood", token, symbol, name⟩
            action := action
            actionBasis := "rhtrenches-published-side"
            economics := ⟨none, none, size, price, quantity, quoteToken,
              if priced = some "cash_leg" then "rhtrenches-cash-leg" else "rhtrenches-published"⟩
            evidence := ⟨some occurred.1, some occurred.2, none⟩ })

/-- `_latest`: the first of the latest texts. -/
def latest (library : Library) (texts : List String) : Option String :=
  let instant := fun text => ((library.instant text).join).getD 0
  texts.foldl (fun best text =>
    match best with
    | none => some text
    | some other => if instant other < instant text then some text else best) none

end RhPools.FlowEvents
