import RhPools.AbiCodec

/-! Addresses, router commands and their calldata. A checked address is a
lowercase string of forty hex digits, which is the same as the number it spells.
Integers of the source are unbounded, so an amount is an `Int` and only encoding
bounds it. Hashing and the calldata codec come from outside the repository. -/

namespace RhPools.TxChain
open BigEndian AbiCodec

abbrev Address := BitVec 160

instance : LawfulBEq Address := inferInstance

/-- What a call raises: the planner's coded errors, the validation errors of the
data classes, and what encoding, indexing, division or `next` refuses. -/
inductive Failure where
  | tx (code detail : String)
  | refusal (code detail : String)
  | value (detail : String)
  | encoding
  | index
  | division
  | exhausted
  deriving DecidableEq, Repr

abbrev Try := Except Failure

theorem Try.bind_ok {α β : Type} (first : Try α) (next : α → Try β) (value : β) :
    (first >>= next) = .ok value ↔ ∃ middle, first = .ok middle ∧ next middle = .ok value := by
  cases first with
  | error failure => simp [bind, Except.bind]
  | ok middle => simp [bind, Except.bind]

@[simp] theorem Try.ok_bind {α β : Type} (value : α) (next : α → Try β) :
    (Except.ok value >>= next : Try β) = next value := rfl

@[simp] theorem Try.error_bind {α β : Type} (failure : Failure) (next : α → Try β) :
    (Except.error failure >>= next : Try β) = .error failure := rfl

@[simp] theorem Try.pure_ok {α : Type} (value : α) : (pure value : Try α) = .ok value := rfl

def orEncoding {α : Type} : Option α → Try α
  | some value => .ok value
  | none => .error .encoding

@[simp] theorem orEncoding_ok {α : Type} (result : Option α) (value : α) :
    orEncoding result = .ok value ↔ result = some value := by
  cases result <;> simp [orEncoding]

structure Eth where
  abi : Codec
  keccak : Bytes → BitVec 256

def NATIVE : Address := 0x0#160
def WETH : Address := 0x0bd7d308f8e1639fab988df18a8011f41eacad73#160
def USDG : Address := 0x5fc5360d0400a0fd4f2af552add042d716f1d168#160
def POOL_MANAGER : Address := 0x8366a39cc670b4001a1121b8f6a443a643e40951#160
def UR : Address := 0x8876789976decbfcbbbe364623c63652db8c0904#160
def PERMIT2 : Address := 0x000000000022d473030f116ddee9f6b43ac78ba3#160
def UR_V2_FACTORY : Address := 0x8bceaa40b9acdfaedf85adf4ff01f5ad6517937f#160
def UR_V3_FACTORY : Address := 0x1f7d7550b1b028f7571e69a784071f0205fd2efa#160
def PONS_HOOK : Address := 0xe5e702641ea86f4ae6cc3cdaed2b886f976be044#160
def GIGA_SWAP_ROUTER : Address := 0x56b2e2ee0487223663b458cf3492bccbe04536f2#160
def PANCAKE_SMART_ROUTER : Address := 0x13f4ea83d0bd40e75c8222255bc855a974568dd4#160
def PANCAKE_V3_FACTORY : Address := 0x0bfbcf9fa4f9c56b0f40a671ad40e0805a091865#160
def GIGA_V3_FACTORY : Address := 0xece6ecd61177336ea6fb9b17937ac439d85ee20b#160
def SLIPSTREAM_FACTORY : Address := 0x1ac9db4a2608ba45d6127b1737949b51bb54b7f3#160
def SLIPSTREAM_SWAP_ROUTER : Address := 0xc062b870e813fca720f1e002c234369ab3ab9415#160

def spell (address : Address) : String := "0x" ++ address.toHex

/-- The dictionary `V3_ROUTER_BY_FACTORY`. -/
def v3RouterByFactory (factory : Address) : Option Address :=
  if factory = PANCAKE_V3_FACTORY then some PANCAKE_SMART_ROUTER
  else if factory = GIGA_V3_FACTORY then some GIGA_SWAP_ROUTER
  else if factory = SLIPSTREAM_FACTORY then some SLIPSTREAM_SWAP_ROUTER
  else none

def MSG_SENDER : Address := 0x1#160
def ADDRESS_THIS : Address := 0x2#160
def CONTRACT_BALANCE : Int := 2 ^ 255
def OPEN_DELTA : Int := 0
def MAX_UINT256 : Int := 2 ^ 256 - 1

structure PoolKey where
  currency0 : Address
  currency1 : Address
  fee : Int
  tickSpacing : Int
  hooks : Address
  deriving DecidableEq, Repr

structure PermitDetails where
  token : Address
  amount : Int
  expiration : Int
  nonce : Int
  deriving DecidableEq, Repr

structure PermitSingle where
  details : PermitDetails
  spender : Address
  sigDeadline : Int
  deriving DecidableEq, Repr

abbrev address : Ty := .word .address
abbrev bool : Ty := .word .bool
abbrev uint (bits : Nat) : Ty := .word (.uint bits)
abbrev int (bits : Nat) : Ty := .word (.int bits)
abbrev bytes : Ty := .bytes

abbrev POOL_KEY_TYPES : Tys :=
  .cons address <| .cons address <| .cons (uint 24) <| .cons (int 24) <| .cons address .nil
abbrev PERMIT_DETAILS_TYPES : Tys :=
  .cons address <| .cons (uint 160) <| .cons (uint 48) <| .cons (uint 48) .nil
abbrev PERMIT_SINGLE_TYPES : Tys :=
  .cons (.tuple PERMIT_DETAILS_TYPES) <| .cons address <| .cons (uint 256) .nil
abbrev V4_SINGLE_TYPES : Tys :=
  .cons (.tuple POOL_KEY_TYPES) <| .cons bool <| .cons (uint 128) <| .cons (uint 128) <|
    .cons (uint 256) <| .cons bytes .nil

def PoolKey.tuple (key : PoolKey) : POOL_KEY_TYPES.Val :=
  (key.currency0, key.currency1, key.fee, key.tickSpacing, key.hooks, ())

def PoolKey.ofTuple : POOL_KEY_TYPES.Val → PoolKey
  | (currency0, currency1, fee, tickSpacing, hooks, ()) =>
    ⟨currency0, currency1, fee, tickSpacing, hooks⟩

@[simp] theorem PoolKey.ofTuple_tuple (key : PoolKey) : PoolKey.ofTuple key.tuple = key := rfl

def PoolKey.id (eth : Eth) (key : PoolKey) : Option (BitVec 256) :=
  (eth.abi.encode (.cons (.tuple POOL_KEY_TYPES) .nil) (key.tuple, ())).map eth.keccak

def PermitSingle.tuple (permit : PermitSingle) : PERMIT_SINGLE_TYPES.Val :=
  ((permit.details.token, permit.details.amount, permit.details.expiration,
    permit.details.nonce, ()), permit.spender, permit.sigDeadline, ())

def PermitSingle.ofTuple : PERMIT_SINGLE_TYPES.Val → PermitSingle
  | ((token, amount, expiration, nonce, ()), spender, sigDeadline, ()) =>
    ⟨⟨token, amount, expiration, nonce⟩, spender, sigDeadline⟩

@[simp] theorem PermitSingle.ofTuple_tuple (permit : PermitSingle) :
    PermitSingle.ofTuple permit.tuple = permit := rfl

/-! Packed V3 paths: a token, then a three-byte fee and a token for each hop. -/

def feeBytes (fee : Int) : Option Bytes :=
  if 0 ≤ fee ∧ fee < 2 ^ 24 then some (toBytes 3 fee.toNat) else none

def v3PathFrom : List Address → List Int → Option Bytes
  | [], [] => some []
  | token :: tokens, fee :: fees => do
    let packed ← feeBytes fee
    let rest ← v3PathFrom tokens fees
    some (packed ++ (toBytes 20 token.toNat ++ rest))
  | _, _ => none

def v3Path (tokens : List Address) (fees : List Int) : Option Bytes :=
  match tokens with
  | [] => none
  | first :: rest => (v3PathFrom rest fees).map (toBytes 20 first.toNat ++ ·)

def readAddress (packed : Bytes) : Address := BitVec.ofNat 160 (ofBytes packed)

/-- The loop of `decode_v3_path`; each turn drops at least one byte, so the
length of the path bounds the turns. -/
def decodeV3PathFrom : Nat → Bytes → List Address × List Int
  | 0, _ => ([], [])
  | turns + 1, rest =>
    if rest.isEmpty then ([], []) else
      let (tokens, fees) := decodeV3PathFrom turns (rest.drop 23)
      (readAddress ((rest.drop 3).take 20) :: tokens, (ofBytes (rest.take 3) : Int) :: fees)

def decodeV3Path (path : Bytes) : List Address × List Int :=
  let (tokens, fees) := decodeV3PathFrom path.length (path.drop 20)
  (readAddress (path.take 20) :: tokens, fees)

theorem readAddress_toBytes (token : Address) : readAddress (toBytes 20 token.toNat) = token := by
  have fits : token.toNat < 256 ^ 20 := by
    have := token.isLt
    omega
  rw [readAddress, ofBytes_toBytes_of_lt 20 _ fits, BitVec.ofNat_toNat, BitVec.setWidth_eq]

theorem feeBytes_read (fee : Int) (packed : Bytes) (written : feeBytes fee = some packed) :
    packed.length = 3 ∧ (ofBytes packed : Int) = fee := by
  simp only [feeBytes, Option.ite_none_right_eq_some, Option.some.injEq] at written
  obtain ⟨⟨nonneg, below⟩, rfl⟩ := written
  rw [length_toBytes, ofBytes_toBytes_of_lt 3 _ (by omega)]
  exact ⟨rfl, Int.toNat_of_nonneg nonneg⟩

theorem decodeV3PathFrom_v3PathFrom (tokens : List Address) (fees : List Int) (path : Bytes)
    (written : v3PathFrom tokens fees = some path) (turns : Nat) (enough : path.length ≤ turns) :
    decodeV3PathFrom turns path = (tokens, fees) := by
  induction tokens generalizing fees path turns with
  | nil =>
    cases fees with
    | nil =>
      simp only [v3PathFrom, Option.some.injEq] at written
      subst written
      cases turns <;> rfl
    | cons => simp [v3PathFrom] at written
  | cons token tokens ih =>
    cases fees with
    | nil => simp [v3PathFrom] at written
    | cons fee fees =>
      simp only [v3PathFrom, Option.bind_eq_bind, Option.bind_eq_some_iff,
        Option.some.injEq] at written
      obtain ⟨packed, feeWritten, rest, restWritten, rfl⟩ := written
      obtain ⟨three, value⟩ := feeBytes_read fee packed feeWritten
      have twenty : (toBytes 20 token.toNat).length = 20 := length_toBytes 20 _
      have size : (packed ++ (toBytes 20 token.toNat ++ rest)).length = 23 + rest.length := by
        simp only [List.length_append, three, twenty]
        omega
      cases turns with
      | zero => omega
      | succ turns =>
        have tail := ih fees rest restWritten turns (by omega)
        have nonempty : (packed ++ (toBytes 20 token.toNat ++ rest)).isEmpty = false := by
          rw [List.isEmpty_eq_false_iff]
          exact List.ne_nil_of_length_pos (by omega)
        have skip : (packed ++ (toBytes 20 token.toNat ++ rest)).drop 23 = rest := by
          rw [← List.append_assoc]
          exact List.drop_left' (by rw [List.length_append, three, twenty])
        simp only [decodeV3PathFrom, nonempty, Bool.false_eq_true, if_false, skip, tail]
        rw [List.drop_left' three, List.take_left' three, List.take_left' twenty,
          readAddress_toBytes, value]

theorem decodeV3Path_v3Path (tokens : List Address) (fees : List Int) (path : Bytes)
    (written : v3Path tokens fees = some path) : decodeV3Path path = (tokens, fees) := by
  cases tokens with
  | nil => simp [v3Path] at written
  | cons first rest =>
    simp only [v3Path, Option.map_eq_some_iff] at written
    obtain ⟨tail, tailWritten, rfl⟩ := written
    have twenty : (toBytes 20 first.toNat).length = 20 := length_toBytes 20 _
    have read := decodeV3PathFrom_v3PathFrom rest fees tail tailWritten
      (toBytes 20 first.toNat ++ tail).length (by simp)
    simp only [decodeV3Path]
    rw [List.drop_left' twenty, List.take_left' twenty, read, readAddress_toBytes]

end RhPools.TxChain
