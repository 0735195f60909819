import RhPools.TxChain

/-! UniversalRouter commands, the nested V4 actions and the two layers of
calldata around them. Decoding a command picks its parser by the command byte,
so the round trip is proved once for a coded list and used at both layers. -/

namespace RhPools.UrCommands
open BigEndian AbiCodec TxChain

inductive V4Param where
  | settle (currency : Address) (amount : Int) (payerIsUser : Bool)
  | settleAll (currency : Address) (maxAmount : Int)
  | take (currency recipient : Address) (amount : Int)
  | swapExactInSingle (key : PoolKey) (zeroForOne : Bool) (amountIn minOut : Int)
  deriving DecidableEq, Repr

inductive UrCommand where
  | wrapEth (recipient : Address) (amount : Int)
  | unwrapWeth (recipient : Address) (amountMin : Int)
  | payPortion (token recipient : Address) (bips : Int)
  | sweep (token recipient : Address) (amountMin : Int)
  | permit2TransferFrom (token recipient : Address) (amount : Int)
  | permit2Permit (permit : PermitSingle) (signature : Bytes)
  | v3Swap (recipient : Address) (amountIn minOut : Int) (path : Bytes) (payerIsUser : Bool)
  | v2Swap (recipient : Address) (amountIn minOut : Int) (path : List Address)
      (payerIsUser : Bool)
  | v4Swap (params : List V4Param)
  deriving DecidableEq, Repr

/-! The enumerations `V4Action` and `Cmd`. -/

def V4Param.action : V4Param → UInt8
  | .swapExactInSingle .. => 0x06
  | .settle .. => 0x0B
  | .settleAll .. => 0x0C
  | .take .. => 0x0E

def UrCommand.cmd : UrCommand → UInt8
  | .v3Swap .. => 0x00
  | .permit2TransferFrom .. => 0x02
  | .sweep .. => 0x04
  | .payPortion .. => 0x06
  | .v2Swap .. => 0x08
  | .permit2Permit .. => 0x0A
  | .wrapEth .. => 0x0B
  | .unwrapWeth .. => 0x0C
  | .v4Swap .. => 0x10

abbrev ADDRESS_UINT : Tys := .cons address <| .cons (uint 256) .nil
abbrev ADDRESS_ADDRESS_UINT : Tys := .cons address <| .cons address <| .cons (uint 256) .nil
abbrev TRANSFER_FROM : Tys := .cons address <| .cons address <| .cons (uint 160) .nil
abbrev SETTLE : Tys := .cons address <| .cons (uint 256) <| .cons bool .nil
abbrev PERMIT : Tys := .cons (.tuple PERMIT_SINGLE_TYPES) <| .cons bytes .nil
abbrev V3_SWAP : Tys := .cons address <| .cons (uint 256) <| .cons (uint 256) <| .cons bytes <|
  .cons bool <| .cons (.array (uint 256)) .nil
abbrev V2_SWAP : Tys := .cons address <| .cons (uint 256) <| .cons (uint 256) <|
  .cons (.array address) <| .cons bool <| .cons (.array (uint 256)) .nil
abbrev V4_SINGLE : Tys := .cons (.tuple V4_SINGLE_TYPES) .nil
abbrev CODED : Tys := .cons bytes <| .cons (.array bytes) .nil
abbrev EXECUTE : Tys := .cons bytes <| .cons (.array bytes) <| .cons (uint 256) .nil

def V4Param.encode (abi : Codec) : V4Param → Option Bytes
  | .settle currency amount payerIsUser => abi.encode SETTLE (currency, amount, payerIsUser, ())
  | .settleAll currency maxAmount => abi.encode ADDRESS_UINT (currency, maxAmount, ())
  | .take currency recipient amount =>
    abi.encode ADDRESS_ADDRESS_UINT (currency, recipient, amount, ())
  | .swapExactInSingle key zeroForOne amountIn minOut =>
    abi.encode V4_SINGLE ((key.tuple, zeroForOne, amountIn, minOut, 0, [], ()), ())

/-- The parser table `_V4_PARAMS`; an unknown action has no parser. -/
def V4Param.decode (abi : Codec) (action : UInt8) (data : Bytes) : Option V4Param :=
  if action = 0x0B then
    (abi.decode SETTLE data).map fun (currency, amount, payer, ()) => .settle currency amount payer
  else if action = 0x0C then
    (abi.decode ADDRESS_UINT data).map fun (currency, amount, ()) => .settleAll currency amount
  else if action = 0x0E then
    (abi.decode ADDRESS_ADDRESS_UINT data).map fun (currency, recipient, amount, ()) =>
      .take currency recipient amount
  else if action = 0x06 then
    (abi.decode V4_SINGLE data).map fun ((key, zeroForOne, amountIn, minOut, _, _, ()), ()) =>
      .swapExactInSingle (PoolKey.ofTuple key) zeroForOne amountIn minOut
  else none

theorem V4Param.decode_encode (abi : Codec) (param : V4Param) (data : Bytes)
    (encoded : param.encode abi = some data) :
    V4Param.decode abi param.action data = some param := by
  cases param <;>
    simp only [V4Param.encode] at encoded <;>
    simp [V4Param.decode, V4Param.action, abi.decode_encode _ _ _ encoded]

def decodeCoded {Item : Type} (decode : UInt8 → Bytes → Option Item) :
    Bytes → List Bytes → Option (List Item)
  | [], [] => some []
  | code :: codes, data :: rest => do
    let item ← decode code data
    let items ← decodeCoded decode codes rest
    some (item :: items)
  | _, _ => none

theorem decodeCoded_encoded {Item : Type} (code : Item → UInt8) (encode : Item → Option Bytes)
    (decode : UInt8 → Bytes → Option Item) (items : List Item) (inputs : List Bytes)
    (roundTrip : ∀ item ∈ items, ∀ data, encode item = some data →
      decode (code item) data = some item)
    (encoded : items.mapM encode = some inputs) :
    decodeCoded decode (items.map code) inputs = some items := by
  induction items generalizing inputs with
  | nil =>
    simp only [List.mapM_nil, Option.pure_def, Option.some.injEq] at encoded
    subst encoded
    rfl
  | cons item rest ih =>
    simp only [List.mapM_cons, Option.bind_eq_bind, Option.bind_eq_some_iff, Option.pure_def,
      Option.some.injEq] at encoded
    obtain ⟨data, written, restInputs, restWritten, rfl⟩ := encoded
    have head := roundTrip item List.mem_cons_self data written
    have tail := ih restInputs
      (fun other member => roundTrip other (List.mem_cons_of_mem item member)) restWritten
    simp [decodeCoded, head, tail]

def UrCommand.encode (abi : Codec) : UrCommand → Option Bytes
  | .wrapEth recipient amount => abi.encode ADDRESS_UINT (recipient, amount, ())
  | .unwrapWeth recipient amountMin => abi.encode ADDRESS_UINT (recipient, amountMin, ())
  | .payPortion token recipient bips =>
    abi.encode ADDRESS_ADDRESS_UINT (token, recipient, bips, ())
  | .sweep token recipient amountMin =>
    abi.encode ADDRESS_ADDRESS_UINT (token, recipient, amountMin, ())
  | .permit2TransferFrom token recipient amount =>
    abi.encode TRANSFER_FROM (token, recipient, amount, ())
  | .permit2Permit permit signature => abi.encode PERMIT (permit.tuple, signature, ())
  | .v3Swap recipient amountIn minOut path payerIsUser =>
    abi.encode V3_SWAP (recipient, amountIn, minOut, path, payerIsUser, [], ())
  | .v2Swap recipient amountIn minOut path payerIsUser =>
    abi.encode V2_SWAP (recipient, amountIn, minOut, path, payerIsUser, [], ())
  | .v4Swap params => do
    let inputs ← params.mapM (V4Param.encode abi)
    abi.encode CODED (params.map V4Param.action, inputs, ())

/-- The parser table `_UR_COMMANDS`. -/
def UrCommand.decode (abi : Codec) (cmd : UInt8) (data : Bytes) : Option UrCommand :=
  if cmd = 0x00 then
    (abi.decode V3_SWAP data).map fun (recipient, amountIn, minOut, path, payer, _, ()) =>
      .v3Swap recipient amountIn minOut path payer
  else if cmd = 0x02 then
    (abi.decode TRANSFER_FROM data).map fun (token, recipient, amount, ()) =>
      .permit2TransferFrom token recipient amount
  else if cmd = 0x04 then
    (abi.decode ADDRESS_ADDRESS_UINT data).map fun (token, recipient, amountMin, ()) =>
      .sweep token recipient amountMin
  else if cmd = 0x06 then
    (abi.decode ADDRESS_ADDRESS_UINT data).map fun (token, recipient, bips, ()) =>
      .payPortion token recipient bips
  else if cmd = 0x08 then
    (abi.decode V2_SWAP data).map fun (recipient, amountIn, minOut, path, payer, _, ()) =>
      .v2Swap recipient amountIn minOut path payer
  else if cmd = 0x0A then
    (abi.decode PERMIT data).map fun (permit, signature, ()) =>
      .permit2Permit (PermitSingle.ofTuple permit) signature
  else if cmd = 0x0B then
    (abi.decode ADDRESS_UINT data).map fun (recipient, amount, ()) => .wrapEth recipient amount
  else if cmd = 0x0C then
    (abi.decode ADDRESS_UINT data).map fun (recipient, amountMin, ()) =>
      .unwrapWeth recipient amountMin
  else if cmd = 0x10 then
    (abi.decode CODED data).bind fun (actions, params, ()) =>
      (decodeCoded (V4Param.decode abi) actions params).map .v4Swap
  else none

theorem UrCommand.decode_encode (abi : Codec) (command : UrCommand) (data : Bytes)
    (encoded : command.encode abi = some data) :
    UrCommand.decode abi command.cmd data = some command := by
  cases command with
  | v4Swap params =>
    simp only [UrCommand.encode, Option.bind_eq_bind, Option.bind_eq_some_iff] at encoded
    obtain ⟨inputs, written, encoded⟩ := encoded
    have inner := decodeCoded_encoded V4Param.action (V4Param.encode abi) (V4Param.decode abi)
      params inputs (fun param _ data => V4Param.decode_encode abi param data) written
    simp [UrCommand.decode, UrCommand.cmd, abi.decode_encode _ _ _ encoded, inner]
  | _ =>
    simp only [UrCommand.encode] at encoded
    simp [UrCommand.decode, UrCommand.cmd, abi.decode_encode _ _ _ encoded]

def SEL_EXECUTE : Bytes := [0x35, 0x93, 0x56, 0x4c]

def urExecute (abi : Codec) (commands : List UrCommand) (deadline : Int) : Try Bytes :=
  orEncoding do
    let inputs ← commands.mapM (UrCommand.encode abi)
    let body ← abi.encode EXECUTE (commands.map UrCommand.cmd, inputs, deadline, ())
    some (SEL_EXECUTE ++ body)

def decodeUrExecute (abi : Codec) (data : Bytes) : Try (List UrCommand × Int) :=
  if data.take 4 ≠ SEL_EXECUTE then
    .error (.value "not a UniversalRouter execute call")
  else
    orEncoding do
      let (cmds, inputs, deadline, ()) ← abi.decode EXECUTE (data.drop 4)
      let commands ← decodeCoded (UrCommand.decode abi) cmds inputs
      some (commands, deadline)

theorem decodeUrExecute_urExecute (abi : Codec) (commands : List UrCommand) (deadline : Int)
    (data : Bytes) (encoded : urExecute abi commands deadline = .ok data) :
    decodeUrExecute abi data = .ok (commands, deadline) := by
  simp only [urExecute, orEncoding_ok, Option.bind_eq_bind, Option.bind_eq_some_iff,
    Option.some.injEq] at encoded
  obtain ⟨inputs, written, body, bodyWritten, rfl⟩ := encoded
  have inner := decodeCoded_encoded UrCommand.cmd (UrCommand.encode abi) (UrCommand.decode abi)
    commands inputs (fun command _ data => UrCommand.decode_encode abi command data) written
  have selector : (SEL_EXECUTE ++ body).take 4 = SEL_EXECUTE := List.take_left' rfl
  have rest : (SEL_EXECUTE ++ body).drop 4 = body := List.drop_left' rfl
  simp [decodeUrExecute, selector, rest, abi.decode_encode _ _ _ bodyWritten, inner, orEncoding]

end RhPools.UrCommands
