import RhPools.TxChain

/-! Calls to the external V3 routers: one exact-input swap whose output stays in
the router, then one call that takes the fee and pays the wallet. -/

namespace RhPools.RouterCalls
open BigEndian AbiCodec TxChain

inductive RouterCall where
  | pancakeSingle (tokenIn tokenOut : Address) (fee : Int) (recipient : Address)
      (amountIn amountOutMin : Int)
  | slipstreamSingle (tokenIn tokenOut : Address) (tickSpacing : Int) (recipient : Address)
      (deadline amountIn amountOutMin : Int)
  | v3Single (tokenIn tokenOut : Address) (fee : Int) (recipient : Address)
      (deadline amountIn amountOutMin : Int)
  | pancakeMulti (path : Bytes) (recipient : Address) (amountIn amountOutMin : Int)
  | v3Multi (path : Bytes) (recipient : Address) (deadline amountIn amountOutMin : Int)
  | unwrapWithFee (minimum : Int) (wallet : Address) (bps : Int) (recipient : Address)
  | sweepWithFee (token : Address) (minimum : Int) (wallet : Address) (bps : Int)
      (recipient : Address)
  deriving DecidableEq, Repr

def SEL_V3_EXACT_INPUT_SINGLE : Bytes := [0x41, 0x4b, 0xf3, 0x89]
def SEL_V3_EXACT_INPUT : Bytes := [0xc0, 0x4b, 0x8d, 0x59]
def SEL_PANCAKE_EXACT_INPUT_SINGLE : Bytes := [0x04, 0xe4, 0x5a, 0xaf]
def SEL_PANCAKE_EXACT_INPUT : Bytes := [0xb8, 0x58, 0x18, 0x3f]
def SEL_SLIPSTREAM_EXACT_INPUT_SINGLE : Bytes := [0xa0, 0x26, 0x38, 0x3e]
def SEL_ROUTER_MULTICALL_DEADLINE : Bytes := [0x5a, 0xe4, 0x01, 0xdc]
def SEL_SWEEP_WITH_FEE : Bytes := [0xe0, 0xe1, 0x89, 0xa0]
def SEL_UNWRAP_WITH_FEE : Bytes := [0x9b, 0x2c, 0x0a, 0x37]
def SEL_MULTICALL : Bytes := [0xac, 0x96, 0x50, 0xd8]

abbrev PANCAKE_SINGLE : Tys := .cons address <| .cons address <| .cons (uint 24) <|
  .cons address <| .cons (uint 256) <| .cons (uint 256) <| .cons (uint 160) .nil
abbrev V3_SINGLE : Tys := .cons address <| .cons address <| .cons (uint 24) <|
  .cons address <| .cons (uint 256) <| .cons (uint 256) <| .cons (uint 256) <|
  .cons (uint 160) .nil
abbrev SLIPSTREAM_SINGLE : Tys := .cons address <| .cons address <| .cons (int 24) <|
  .cons address <| .cons (uint 256) <| .cons (uint 256) <| .cons (uint 256) <|
  .cons (uint 160) .nil
abbrev PANCAKE_MULTI : Tys := .cons (.tuple <| .cons bytes <| .cons address <|
  .cons (uint 256) <| .cons (uint 256) .nil) .nil
abbrev V3_MULTI : Tys := .cons (.tuple <| .cons bytes <| .cons address <| .cons (uint 256) <|
  .cons (uint 256) <| .cons (uint 256) .nil) .nil
abbrev UNWRAP_WITH_FEE : Tys := .cons (uint 256) <| .cons address <| .cons (uint 256) <|
  .cons address .nil
abbrev SWEEP_WITH_FEE : Tys := .cons address <| .cons (uint 256) <| .cons address <|
  .cons (uint 256) <| .cons address .nil

def RouterCall.encode (abi : Codec) : RouterCall → Option Bytes
  | .pancakeSingle tokenIn tokenOut fee recipient amountIn amountOutMin =>
    (abi.encode PANCAKE_SINGLE
      (tokenIn, tokenOut, fee, recipient, amountIn, amountOutMin, 0, ())).map
      (SEL_PANCAKE_EXACT_INPUT_SINGLE ++ ·)
  | .slipstreamSingle tokenIn tokenOut tickSpacing recipient deadline amountIn amountOutMin =>
    (abi.encode SLIPSTREAM_SINGLE
      (tokenIn, tokenOut, tickSpacing, recipient, deadline, amountIn, amountOutMin, 0, ())).map
      (SEL_SLIPSTREAM_EXACT_INPUT_SINGLE ++ ·)
  | .v3Single tokenIn tokenOut fee recipient deadline amountIn amountOutMin =>
    (abi.encode V3_SINGLE
      (tokenIn, tokenOut, fee, recipient, deadline, amountIn, amountOutMin, 0, ())).map
      (SEL_V3_EXACT_INPUT_SINGLE ++ ·)
  | .pancakeMulti path recipient amountIn amountOutMin =>
    (abi.encode PANCAKE_MULTI ((path, recipient, amountIn, amountOutMin, ()), ())).map
      (SEL_PANCAKE_EXACT_INPUT ++ ·)
  | .v3Multi path recipient deadline amountIn amountOutMin =>
    (abi.encode V3_MULTI ((path, recipient, deadline, amountIn, amountOutMin, ()), ())).map
      (SEL_V3_EXACT_INPUT ++ ·)
  | .unwrapWithFee minimum wallet bps recipient =>
    (abi.encode UNWRAP_WITH_FEE (minimum, wallet, bps, recipient, ())).map
      (SEL_UNWRAP_WITH_FEE ++ ·)
  | .sweepWithFee token minimum wallet bps recipient =>
    (abi.encode SWEEP_WITH_FEE (token, minimum, wallet, bps, recipient, ())).map
      (SEL_SWEEP_WITH_FEE ++ ·)

def v3RouterSwap (tokens : List Address) (fees : List Int) (amount deadline : Int)
    (recipient : Address) (pancake slipstream : Bool) : Try RouterCall :=
  match tokens, fees with
  | tokenIn :: tokenOut :: _, [fee] =>
    if pancake then .ok (.pancakeSingle tokenIn tokenOut fee recipient amount 0)
    else if slipstream then
      .ok (.slipstreamSingle tokenIn tokenOut fee recipient deadline amount 0)
    else .ok (.v3Single tokenIn tokenOut fee recipient deadline amount 0)
  | _, [_] => .error .index
  | tokens, fees => do
    let path ← orEncoding (v3Path tokens fees)
    if pancake then .ok (.pancakeMulti path recipient amount 0)
    else .ok (.v3Multi path recipient deadline amount 0)

def v3RouterFee (token : Address) (minimum : Int) (wallet : Address) (bps : Int)
    (recipient : Address) : RouterCall :=
  if token = NATIVE then .unwrapWithFee minimum wallet bps recipient
  else .sweepWithFee token minimum wallet bps recipient

def multicall (abi : Codec) (calls : List Bytes) : Option Bytes :=
  (abi.encode (.cons (.array bytes) .nil) (calls, ())).map (SEL_MULTICALL ++ ·)

def multicallDeadline (abi : Codec) (deadline : Int) (calls : List Bytes) : Option Bytes :=
  (abi.encode (.cons (uint 256) <| .cons (.array bytes) .nil) (deadline, calls, ())).map
    (SEL_ROUTER_MULTICALL_DEADLINE ++ ·)

end RhPools.RouterCalls
