import RhPools.TraceUpdates

/-! The calldata of `modifyLiquidity`, as the decoder of traced calls accepts it and as the
contract's ABI writes it: a pool key and the parameters in place, and hook data of any length
behind its offset. -/

namespace RhPools.ModifyCalldata
open BigEndian AbiCodec TxChain EventWords TraceUpdates

structure Arguments where
  token0 : Address
  token1 : Address
  fee : Int
  tickSpacing : Int
  hook : Address
  tickLower : Int
  tickUpper : Int
  liquidityDelta : Int
  salt : Hash
  hookData : Bytes

def poolKeyType : Ty := .tuple <| .cons (.word .address) <| .cons (.word .address) <|
  .cons (.word (.uint 24)) <| .cons (.word (.int 24)) <| .cons (.word .address) .nil

def paramsType : Ty := .tuple <| .cons (.word (.int 24)) <| .cons (.word (.int 24)) <|
  .cons (.word (.int 256)) <| .cons (.word (.uint 256)) .nil

def modifyType : Ty := .tuple <| .cons poolKeyType <| .cons paramsType <| .cons .bytes .nil

def Arguments.encode (arguments : Arguments) : Option Bytes :=
  modifyType.encode
    ((arguments.token0, arguments.token1, arguments.fee, arguments.tickSpacing, arguments.hook, ()),
      (arguments.tickLower, arguments.tickUpper, arguments.liquidityDelta,
        (arguments.salt.toNat : Int), ()),
      arguments.hookData, ())

structure BalanceDelta where
  amount0 : BitVec 128
  amount1 : BitVec 128

def BalanceDelta.encode (delta : BalanceDelta) : Bytes :=
  toBytes 16 delta.amount0.toNat ++ toBytes 16 delta.amount1.toNat

/-- The call that the arguments and the two returned deltas stand for. -/
def Arguments.call (eth : Eth) (arguments : Arguments) (caller fees : BalanceDelta) : ModifyCall :=
  { poolId := v4PoolId eth arguments.token0 arguments.token1 arguments.fee arguments.tickSpacing
      arguments.hook
    token0 := arguments.token0, token1 := arguments.token1, configuredFee := arguments.fee
    tickSpacing := arguments.tickSpacing, hook := arguments.hook
    tickLower := arguments.tickLower, tickUpper := arguments.tickUpper
    liquidityDelta := arguments.liquidityDelta, salt := arguments.salt
    callerDelta0 := caller.amount0.toInt, callerDelta1 := caller.amount1.toInt
    feesAccrued0 := fees.amount0.toInt, feesAccrued1 := fees.amount1.toInt }

theorem getD_wordsOf (raw : Bytes) (index : Nat) (inside : index < raw.length / 32) :
    (wordsOf raw).getD index 0 = ofBytes ((raw.drop (32 * index)).take 32) := by
  simp [wordsOf, List.getD, inside]

theorem flatten_words (raw : Bytes) (count : Nat) (inside : count ≤ raw.length / 32) :
    ((List.range count).map fun index => toBytes 32 ((wordsOf raw).getD index 0)).flatten =
      raw.take (32 * count) := by
  induction count with
  | zero => simp
  | succ count ih =>
    have slice : ((raw.drop (32 * count)).take 32).length = 32 := by
      rw [List.length_take, List.length_drop]
      omega
    have word := toBytes_ofBytes ((raw.drop (32 * count)).take 32)
    rw [slice] at word
    rw [List.range_succ, List.map_append, List.flatten_append, ih (by omega)]
    simp only [List.map_singleton, List.flatten_singleton]
    rw [getD_wordsOf raw count (by omega), word, Nat.mul_succ, List.take_add]

theorem uint_ok (word bits : Nat) (name : String) (value : Int) :
    EventWords.uint word bits name = .ok value ↔ decodeUint bits word = some value := by
  unfold EventWords.uint decodeUint
  have same : ((word : Int) < 0 ∨ (word : Int) ≥ 2 ^ bits) ↔ ¬word < 2 ^ bits := by
    rw [not_lt]
    constructor
    · rintro (negative | large)
      · omega
      · exact_mod_cast large
    · intro large
      exact .inr (by exact_mod_cast large)
  by_cases small : word < 2 ^ bits
  · rw [if_neg (by rw [same]; simpa using small), if_pos small]
    simp
  · rw [if_pos (same.mpr small), if_neg small]
    simp

theorem sint_ok (word bits : Nat) (name : String) (value : Int) (whole : word < wordSize)
    (positive : 0 < bits) (fits : bits ≤ 256) :
    sint word bits name = .ok value ↔ decodeInt bits word = some value := by
  obtain ⟨half, rfl⟩ : ∃ half, bits = half + 1 := ⟨bits - 1, by omega⟩
  have doubled : (2 : Int) ^ (half + 1) = 2 * 2 ^ half := by ring
  have low : (2 : Int) ^ half ≤ 2 ^ 255 := by exact_mod_cast Nat.pow_le_pow_right (by norm_num) (by omega)
  have one : (1 : Int) ≤ 2 ^ half := by exact_mod_cast Nat.one_le_two_pow
  have top : (word : Int) < 2 ^ 256 := by
    unfold wordSize at whole
    exact_mod_cast whole
  unfold sint decodeInt
  simp only [Nat.add_sub_cancel]
  by_cases small : (word : Int) < 2 ^ half
  · have below : word < 2 ^ 255 := by
      have : (word : Int) < 2 ^ 255 := small.trans_le low
      exact_mod_cast this
    rw [if_pos small, if_pos below, if_pos ⟨by omega, small⟩]
    simp
  · rw [if_neg small]
    by_cases large : (word : Int) < 2 ^ 256 - 2 ^ half
    · rw [if_pos (.inl large)]
      have outside : ¬(-(2 : Int) ^ half ≤ (if word < 2 ^ 255 then (word : Int) else word - 2 ^ 256) ∧
          (if word < 2 ^ 255 then (word : Int) else word - 2 ^ 256) < 2 ^ half) := by
        split <;> omega
      rw [if_neg outside]
      simp
    · have above : ¬word < 2 ^ 255 := by
        intro below
        have : (word : Int) < 2 ^ 255 := by exact_mod_cast below
        omega
      rw [if_neg (by omega), if_neg above, if_pos (by omega)]
      simp

theorem wordAddress_ok (word : Nat) (name : String) (value : Address) :
    wordAddress word name = .ok value ↔ word < 2 ^ 160 ∧ value = BitVec.ofNat 160 word := by
  unfold wordAddress
  rw [bind_ok]
  constructor
  · rintro ⟨middle, read, same⟩
    have small := (uint_ok word 160 name middle).mp read
    unfold decodeUint at small
    split at small
    · cases small
      cases same
      exact ⟨‹_›, by simp⟩
    · cases small
  · rintro ⟨small, rfl⟩
    refine ⟨word, (uint_ok word 160 name word).mpr (if_pos small), ?_⟩
    simp [pure, Except.pure]

theorem encodeNat_small (n : Nat) (small : n < wordSize) : encodeNat n = some (toBytes 32 n) :=
  if_pos small

theorem encodeUint_salt (salt : Hash) : encodeUint 256 salt.toNat = some salt.toNat := by
  have small : salt.toNat < 2 ^ 256 := salt.isLt
  rw [encodeUint, if_pos ⟨by omega, by exact_mod_cast small, by exact_mod_cast small⟩]
  simp

theorem encodeNat_address (address : Address) :
    encodeNat address.toNat = some (toBytes 32 address.toNat) := by
  have small : address.toNat < 2 ^ 160 := address.isLt
  exact encodeNat_small _ (by unfold wordSize; omega)

theorem encodeNat_some (n : Nat) (block : Bytes) :
    encodeNat n = some block ↔ n < wordSize ∧ toBytes 32 n = block := by
  simp [encodeNat, Option.ite_none_right_eq_some]

def headWords (arguments : Arguments) (fee spacing lower upper delta : Nat) : List Nat :=
  [arguments.token0.toNat, arguments.token1.toNat, fee, spacing, arguments.hook.toNat, lower,
    upper, delta, arguments.salt.toNat, 320, arguments.hookData.length]

theorem encode_iff (arguments : Arguments) (block : Bytes) :
    arguments.encode = some block ↔ ∃ fee spacing lower upper delta,
      encodeUint 24 arguments.fee = some fee ∧ encodeInt 24 arguments.tickSpacing = some spacing ∧
      encodeInt 24 arguments.tickLower = some lower ∧
      encodeInt 24 arguments.tickUpper = some upper ∧
      encodeInt 256 arguments.liquidityDelta = some delta ∧
      arguments.hookData.length < wordSize ∧
      block = ((headWords arguments fee spacing lower upper delta).map (toBytes 32)).flatten ++
        (arguments.hookData ++ padding arguments.hookData.length) := by
  have salt : encodeNat arguments.salt.toNat = some (toBytes 32 arguments.salt.toNat) :=
    encodeNat_small _ arguments.salt.isLt
  unfold Arguments.encode
  simp only [modifyType, poolKeyType, paramsType, Ty.encode, Tys.encode, Ty.dynamic, Tys.dynamic,
    Word.encode, Ty.headSize, Tys.headSize, Bool.or_false, Bool.false_eq_true, if_false, if_true,
    Option.bind_eq_bind, Option.bind_eq_some_iff, Option.bind_some, Option.some.injEq,
    Nat.add_zero, Nat.reduceAdd, Prod.exists, Prod.mk.injEq, encodeNat_address, encodeUint_salt,
    salt, List.append_nil, encodeNat_small 320 (by decide), encodeNat_some, ↓existsAndEq, and_true]
  simp only [headWords, List.map_cons, List.map_nil, List.flatten_cons, List.flatten_nil,
    List.append_nil, List.append_assoc]
  constructor
  · rintro ⟨fee, spacing, lower, upper, delta, ⟨⟨⟨charged, -⟩, spaced, -⟩, ⟨⟨below, -⟩, ⟨above, -⟩,
      moved, -⟩, long⟩, same⟩
    exact ⟨fee, spacing, lower, upper, delta, charged, spaced, below, above, moved, long,
      same.symm⟩
  · rintro ⟨fee, spacing, lower, upper, delta, charged, spaced, below, above, moved, long, same⟩
    have fits := decodeInt_encodeInt 24
    exact ⟨fee, spacing, lower, upper, delta,
      ⟨⟨⟨charged, (decodeUint_encodeUint 24 _ fee charged).1⟩, spaced, (fits _ spacing spaced).1⟩,
        ⟨⟨below, (fits _ lower below).1⟩, ⟨above, (fits _ upper above).1⟩, moved,
          (decodeInt_encodeInt 256 _ delta moved).1⟩, long⟩, same.symm⟩

def word (args : Bytes) (index : Nat) : Nat := (wordsOf args).getD index 0

structure Reads (args : Bytes) (arguments : Arguments) : Prop where
  long : 11 * 32 ≤ args.length
  whole : args.length % 32 = 0
  token0 : word args 0 < 2 ^ 160 ∧ arguments.token0 = BitVec.ofNat 160 (word args 0)
  token1 : word args 1 < 2 ^ 160 ∧ arguments.token1 = BitVec.ofNat 160 (word args 1)
  fee : decodeUint 24 (word args 2) = some arguments.fee
  tickSpacing : decodeInt 24 (word args 3) = some arguments.tickSpacing
  hook : word args 4 < 2 ^ 160 ∧ arguments.hook = BitVec.ofNat 160 (word args 4)
  tickLower : decodeInt 24 (word args 5) = some arguments.tickLower
  tickUpper : decodeInt 24 (word args 6) = some arguments.tickUpper
  liquidityDelta : decodeInt 256 (word args 7) = some arguments.liquidityDelta
  salt : arguments.salt = BitVec.ofNat 256 (word args 8)
  offset : word args 9 = 320
  size : args.length = 320 + 32 + (word args 10 + 31) / 32 * 32
  padded : ∀ byte ∈ args.drop (320 + 32 + word args 10), byte = 0
  hookData : arguments.hookData = (args.drop 352).take (word args 10)

def Arguments.decoded (eth : Eth) (arguments : Arguments) (output : Bytes) : ModifyCall :=
  let caller := decodeBalanceDelta (ofBytes (output.take 32))
  let fees := decodeBalanceDelta (ofBytes (output.drop 32))
  { poolId := v4PoolId eth arguments.token0 arguments.token1 arguments.fee arguments.tickSpacing
      arguments.hook
    token0 := arguments.token0, token1 := arguments.token1, configuredFee := arguments.fee
    tickSpacing := arguments.tickSpacing, hook := arguments.hook
    tickLower := arguments.tickLower, tickUpper := arguments.tickUpper
    liquidityDelta := arguments.liquidityDelta, salt := arguments.salt
    callerDelta0 := caller.1, callerDelta1 := caller.2
    feesAccrued0 := fees.1, feesAccrued1 := fees.2 }

theorem word_lt (args : Bytes) (index : Nat) : word args index < wordSize := by
  unfold word
  by_cases inside : index < args.length / 32
  · have small := ofBytes_lt ((args.drop (32 * index)).take 32)
    have short : ((args.drop (32 * index)).take 32).length ≤ 32 := List.length_take_le _ _
    rw [getD_wordsOf args index inside]
    refine small.trans_le ?_
    calc 256 ^ ((args.drop (32 * index)).take 32).length ≤ 256 ^ 32 :=
          Nat.pow_le_pow_right (by norm_num) short
      _ = wordSize := by norm_num [wordSize]
  · have none_ : (wordsOf args).length ≤ index := by
      simpa [wordsOf] using not_lt.mp inside
    rw [List.getD_eq_getElem?_getD, List.getElem?_eq_none none_]
    norm_num [wordSize]

theorem guard_ok {α : Type} (failed : Prop) [Decidable failed] (error : String) (next : Decode α)
    (value : α) : (if failed then (throw error : Decode PUnit) >>= fun _ => next else next) =
      .ok value ↔ ¬failed ∧ next = .ok value := by
  by_cases here : failed <;> simp [here, throw, throwThe, MonadExceptOf.throw, bind, Except.bind]

theorem decode_ok (eth : Eth) (frame : Call) (input output : Bytes) (decoded : ModifyCall)
    (given : frame.input = some input) (returned : frame.output = some output)
    (two : output.length = 64) :
    decodeModifyCall eth frame = .ok decoded ↔ ∃ args arguments,
      input = MODIFY_LIQUIDITY_SELECTOR ++ args ∧ Reads args arguments ∧
        decoded = arguments.decoded eth output := by
  have sint24 := fun index name value => sint_ok (word (input.drop 4) index) 24 name value
    (word_lt _ _) (by norm_num) (by norm_num)
  have sint256 := fun index name value => sint_ok (word (input.drop 4) index) 256 name value
    (word_lt _ _) (by norm_num) (by norm_num)
  unfold decodeModifyCall
  rw [given, returned]
  simp only [↓bind_ok, ↓guard_ok, rawHex, Except.ok.injEq, exists_eq_left', two, ne_eq,
    not_true_eq_false, not_false_eq_true, true_and, pure, Except.pure]
  have named : ∀ index, (wordsOf (input.drop 4)).getD index 0 = word (input.drop 4) index :=
    fun _ => rfl
  simp only [named, wordAddress_ok, uint_ok, sint24, sint256]
  constructor
  · rintro ⟨selector, long, token0, first, token1, second, fee, third, spacing, fourth, hook, fifth,
      lower, sixth, upper, seventh, delta, eighth, offset, size, padded, rfl⟩
    have starts : input.take 4 = MODIFY_LIQUIDITY_SELECTOR := by
      by_contra other
      exact selector (.inr other)
    have offset : word (input.drop 4) 9 = 320 := not_not.mp offset
    refine ⟨input.drop 4, ⟨token0, token1, fee, spacing, hook, lower, upper, delta,
      BitVec.ofNat 256 (word (input.drop 4) 8),
      ((input.drop 4).drop 352).take (word (input.drop 4) 10)⟩, ?_, ?_, rfl⟩
    · rw [← starts, List.take_append_drop]
    · rw [offset] at size padded
      exact
        { long := by omega
          whole := by omega
          token0 := first, token1 := second, fee := third, tickSpacing := fourth, hook := fifth
          tickLower := sixth, tickUpper := seventh, liquidityDelta := eighth, salt := rfl
          offset := offset, size := not_not.mp size
          padded := by simpa using padded
          hookData := rfl }
  · rintro ⟨args, arguments, rfl, reads, rfl⟩
    have four : MODIFY_LIQUIDITY_SELECTOR.length = 4 := length_toBytes 4 _
    have behind : (MODIFY_LIQUIDITY_SELECTOR ++ args).drop 4 = args := List.drop_left' four
    have before : (MODIFY_LIQUIDITY_SELECTOR ++ args).take 4 = MODIFY_LIQUIDITY_SELECTOR :=
      List.take_left' four
    rw [behind, before]
    have long := reads.long
    have whole := reads.whole
    refine ⟨?_, by omega, arguments.token0, reads.token0, arguments.token1, reads.token1,
      arguments.fee, reads.fee, arguments.tickSpacing, reads.tickSpacing, arguments.hook,
      reads.hook, arguments.tickLower, reads.tickLower, arguments.tickUpper, reads.tickUpper,
      arguments.liquidityDelta, reads.liquidityDelta, not_not.mpr reads.offset, ?_, ?_, ?_⟩
    · simp [four]
    · rw [reads.offset]
      exact not_not.mpr reads.size
    · rw [reads.offset]
      simpa using reads.padded
    · rw [← reads.salt]
      rfl

theorem flatten_length (words : List Nat) :
    ((words.map (toBytes 32)).flatten).length = 32 * words.length := by
  induction words with
  | nil => rfl
  | cons first rest ih =>
    rw [List.map_cons, List.flatten_cons, List.length_append, ih, length_toBytes,
      List.length_cons]
    ring

theorem word_flatten (words : List Nat) (data : Bytes) (index : Nat)
    (inside : index < words.length) (small : words.getD index 0 < wordSize) :
    word ((words.map (toBytes 32)).flatten ++ data) index = words.getD index 0 := by
  have long : index < ((words.map (toBytes 32)).flatten ++ data).length / 32 := by
    rw [List.length_append, flatten_length]
    omega
  rw [word, getD_wordsOf _ _ long]
  clear long
  induction words generalizing index with
  | nil => simp at inside
  | cons first rest ih =>
    cases index with
    | zero =>
      have head : (toBytes 32 first ++ ((rest.map (toBytes 32)).flatten ++ data)).take 32 =
          toBytes 32 first := List.take_left' (length_toBytes 32 first)
      rw [List.map_cons, List.flatten_cons, List.append_assoc, Nat.mul_zero, List.drop_zero,
        head]
      exact ofBytes_toBytes_of_lt 32 first (by simpa [wordSize] using small)
    | succ index =>
      have behind : 32 * (index + 1) = 32 + 32 * index := by ring
      rw [List.map_cons, List.flatten_cons, List.append_assoc, behind, ← List.drop_drop,
        List.drop_left' (length_toBytes 32 first)]
      exact ih index (Nat.lt_of_succ_lt_succ inside) small

theorem padding_length (length : Nat) :
    length + (padding length).length = (length + 31) / 32 * 32 := by
  rw [padding, List.length_replicate]
  omega

theorem encode_of_reads (args : Bytes) (arguments : Arguments) (reads : Reads args arguments) :
    arguments.encode = some args := by
  have long := reads.long
  have size := reads.size
  have data : arguments.hookData.length = word args 10 := by
    rw [reads.hookData, List.length_take, List.length_drop]
    omega
  have address : ∀ index (value : Address),
      word args index < 2 ^ 160 ∧ value = BitVec.ofNat 160 (word args index) →
        value.toNat = word args index := by
    rintro index value ⟨small, rfl⟩
    rw [BitVec.toNat_ofNat, Nat.mod_eq_of_lt small]
  have salt : arguments.salt.toNat = word args 8 := by
    rw [reads.salt, BitVec.toNat_ofNat]
    exact Nat.mod_eq_of_lt (word_lt args 8)
  refine (encode_iff arguments args).mpr ⟨word args 2, word args 3, word args 5, word args 6,
    word args 7, encodeUint_decodeUint _ _ _ (word_lt _ _) reads.fee,
    encodeInt_decodeInt _ _ _ (word_lt _ _) reads.tickSpacing,
    encodeInt_decodeInt _ _ _ (word_lt _ _) reads.tickLower,
    encodeInt_decodeInt _ _ _ (word_lt _ _) reads.tickUpper,
    encodeInt_decodeInt _ _ _ (word_lt _ _) reads.liquidityDelta, data ▸ word_lt args 10, ?_⟩
  have heads : headWords arguments (word args 2) (word args 3) (word args 5) (word args 6)
      (word args 7) = (List.range 11).map (word args) := by
    rw [headWords, address 0 _ reads.token0, address 1 _ reads.token1, address 4 _ reads.hook, salt,
      data, ← reads.offset]
    rfl
  have front : ((((List.range 11).map (word args)).map (toBytes 32)).flatten) =
      args.take (32 * 11) := by
    rw [← flatten_words args 11 (by omega), List.map_map]
    rfl
  have back : args.drop (320 + 32 + word args 10) = padding arguments.hookData.length := by
    refine List.eq_replicate_iff.mpr ⟨?_, reads.padded⟩
    rw [List.length_drop, data]
    omega
  have tail : args.drop 352 = arguments.hookData ++ padding arguments.hookData.length := by
    rw [← back, reads.hookData, ← List.drop_drop, List.take_append_drop]
  rw [heads, front, ← tail, List.take_append_drop]

theorem reads_of_encode (args : Bytes) (arguments : Arguments)
    (encoded : arguments.encode = some args) : Reads args arguments := by
  obtain ⟨fee, spacing, lower, upper, delta, charged, spaced, below, above, moved, short, rfl⟩ :=
    (encode_iff arguments args).mp encoded
  obtain ⟨fee_lt, fee_read⟩ := decodeUint_encodeUint 24 _ fee charged
  obtain ⟨spacing_lt, spacing_read⟩ := decodeInt_encodeInt 24 _ spacing spaced
  obtain ⟨lower_lt, lower_read⟩ := decodeInt_encodeInt 24 _ lower below
  obtain ⟨upper_lt, upper_read⟩ := decodeInt_encodeInt 24 _ upper above
  obtain ⟨delta_lt, delta_read⟩ := decodeInt_encodeInt 256 _ delta moved
  have address_lt : ∀ value : Address, value.toNat < wordSize := by
    intro value
    have small : value.toNat < 2 ^ 160 := value.isLt
    unfold wordSize
    omega
  have salt_lt : arguments.salt.toNat < wordSize := arguments.salt.isLt
  have word_of := fun index inside small => word_flatten
    (headWords arguments fee spacing lower upper delta)
    (arguments.hookData ++ padding arguments.hookData.length) index inside small
  have first := word_of 0 (by simp [headWords]) (address_lt arguments.token0)
  have second := word_of 1 (by simp [headWords]) (address_lt arguments.token1)
  have third := word_of 2 (by simp [headWords]) fee_lt
  have fourth := word_of 3 (by simp [headWords]) spacing_lt
  have fifth := word_of 4 (by simp [headWords]) (address_lt arguments.hook)
  have sixth := word_of 5 (by simp [headWords]) lower_lt
  have seventh := word_of 6 (by simp [headWords]) upper_lt
  have eighth := word_of 7 (by simp [headWords]) delta_lt
  have ninth := word_of 8 (by simp [headWords]) salt_lt
  have tenth := word_of 9 (by simp [headWords]) (by norm_num [headWords, wordSize])
  have last := word_of 10 (by simp [headWords]) short
  have whole := padding_length arguments.hookData.length
  have heads : (((headWords arguments fee spacing lower upper delta).map
      (toBytes 32)).flatten).length = 352 := by
    rw [flatten_length]
    rfl
  have address : ∀ value : Address, value.toNat < 2 ^ 160 ∧ value = BitVec.ofNat 160 value.toNat :=
    fun value => ⟨value.isLt, by simp⟩
  constructor
  · rw [List.length_append, heads]
    omega
  · rw [List.length_append, heads, List.length_append, whole]
    omega
  · rw [first]
    exact address arguments.token0
  · rw [second]
    exact address arguments.token1
  · rw [third]
    exact fee_read
  · rw [fourth]
    exact spacing_read
  · rw [fifth]
    exact address arguments.hook
  · rw [sixth]
    exact lower_read
  · rw [seventh]
    exact upper_read
  · rw [eighth]
    exact delta_read
  · rw [ninth]
    simp [headWords]
  · exact tenth
  · rw [last, List.length_append, heads, List.length_append, whole]
    rfl
  · rw [last, show 320 + 32 + (headWords arguments fee spacing lower upper delta).getD 10 0 =
      352 + arguments.hookData.length from rfl, ← List.drop_drop, List.drop_left' heads,
      List.drop_left' rfl]
    exact fun byte member => List.eq_of_mem_replicate member
  · rw [last, List.drop_left' heads]
    exact (List.take_left' rfl).symm

theorem signed128_toInt (amount : BitVec 128) : signed128 amount.toNat = amount.toInt := by
  have small : amount.toNat < 2 ^ 128 := amount.isLt
  rw [signed128, BitVec.toInt_eq_toNat_cond]
  by_cases negative : amount.toNat ≥ 2 ^ 127
  · rw [if_pos negative, if_neg (by omega)]
    norm_num
  · rw [if_neg negative, if_pos (by omega)]

theorem decode_balanceDelta (delta : BalanceDelta) :
    decodeBalanceDelta (ofBytes delta.encode) = (delta.amount0.toInt, delta.amount1.toInt) := by
  have high : delta.amount0.toNat < 2 ^ 128 := delta.amount0.isLt
  have low : delta.amount1.toNat < 2 ^ 128 := delta.amount1.isLt
  have word : ofBytes delta.encode = delta.amount0.toNat * 2 ^ 128 + delta.amount1.toNat := by
    rw [BalanceDelta.encode, ofBytes_append, length_toBytes,
      ofBytes_toBytes_of_lt 16 _ (by omega), ofBytes_toBytes_of_lt 16 _ (by omega)]
    norm_num
  have first : ofBytes delta.encode / 2 ^ 128 % 2 ^ 128 = delta.amount0.toNat := by omega
  have second : ofBytes delta.encode % 2 ^ 128 = delta.amount1.toNat := by omega
  rw [decodeBalanceDelta, first, second, signed128_toInt, signed128_toInt]

theorem balanceDelta_exists (bytes : Bytes) (length : bytes.length = 32) :
    ∃ delta : BalanceDelta, bytes = delta.encode := by
  have half : ∀ part : Bytes, part.length = 16 →
      toBytes 16 (BitVec.ofNat 128 (ofBytes part)).toNat = part := by
    intro part size
    have small := ofBytes_lt part
    have back := toBytes_ofBytes part
    rw [size] at small back
    rw [BitVec.toNat_ofNat, Nat.mod_eq_of_lt (by omega), back]
  refine ⟨⟨BitVec.ofNat 128 (ofBytes (bytes.take 16)), BitVec.ofNat 128 (ofBytes (bytes.drop 16))⟩,
    ?_⟩
  rw [BalanceDelta.encode, half _ (by simp [length]), half _ (by simp [length]),
    List.take_append_drop]

theorem encode_length (delta : BalanceDelta) : delta.encode.length = 32 := by
  simp [BalanceDelta.encode]

theorem decoded_call (eth : Eth) (arguments : Arguments) (caller fees : BalanceDelta) :
    arguments.decoded eth (caller.encode ++ fees.encode) = arguments.call eth caller fees := by
  rw [Arguments.decoded, List.take_left' (encode_length caller),
    List.drop_left' (encode_length caller), decode_balanceDelta, decode_balanceDelta,
    Arguments.call]

/-- The decoder accepts a call that returned two words exactly when its input is the selector and
the canonical encoding of some arguments, and then gives these and the returned amounts. -/
theorem modify_call_exact (eth : Eth) (frame : Call) (input output : Bytes) (decoded : ModifyCall)
    (given : frame.input = some input) (returned : frame.output = some output)
    (two : output.length = 64) :
    decodeModifyCall eth frame = .ok decoded ↔
      ∃ (arguments : Arguments) (block : Bytes) (caller fees : BalanceDelta),
        arguments.encode = some block ∧ input = MODIFY_LIQUIDITY_SELECTOR ++ block ∧
        output = caller.encode ++ fees.encode ∧ decoded = arguments.call eth caller fees := by
  rw [decode_ok eth frame input output decoded given returned two]
  constructor
  · rintro ⟨args, arguments, same, reads, rfl⟩
    obtain ⟨caller, first⟩ := balanceDelta_exists (output.take 32) (by simp [two])
    obtain ⟨fees, second⟩ := balanceDelta_exists (output.drop 32) (by simp [two])
    have whole : output = caller.encode ++ fees.encode := by
      rw [← first, ← second, List.take_append_drop]
    refine ⟨arguments, args, caller, fees, encode_of_reads args arguments reads, same, whole, ?_⟩
    rw [whole, decoded_call]
  · rintro ⟨arguments, block, caller, fees, encoded, same, rfl, rfl⟩
    exact ⟨block, arguments, same, reads_of_encode block arguments encoded,
      (decoded_call eth arguments caller fees).symm⟩

def hookedArguments : Arguments :=
  { token0 := WETH, token1 := USDG, fee := 3000, tickSpacing := 60, hook := 0, tickLower := -60
    tickUpper := 60, liquidityDelta := -1000, salt := 7#256, hookData := [1, 2, 3] }

def hookedInput : Bytes :=
  MODIFY_LIQUIDITY_SELECTOR ++
    ([WETH.toNat, USDG.toNat, 3000, 60, 0, 2 ^ 256 - 60, 60, 2 ^ 256 - 1000, 7, 320, 3].map
      (toBytes 32)).flatten ++ ([1, 2, 3] ++ List.replicate 29 0)

theorem modify_call_exact_hooked :
    decodeModifyCall sampleKeccak { sampleCall 8 with input := some hookedInput } =
      .ok (hookedArguments.call sampleKeccak ⟨8, 8⟩ ⟨0, 0⟩) := by
  refine (modify_call_exact sampleKeccak { sampleCall 8 with input := some hookedInput }
    hookedInput (toBytes 32 (8 * 2 ^ 128 + 8) ++ toBytes 32 0) _ rfl rfl (by simp)).mpr
    ⟨hookedArguments, hookedInput.drop 4, ⟨8, 8⟩, ⟨0, 0⟩, ?_, ?_, ?_, rfl⟩
  · decide +kernel
  · decide +kernel
  · decide +kernel

end RhPools.ModifyCalldata
