import RhPools.BigEndian

/-! The head and tail layout of contract calldata. Static values stand in the
head; a dynamic value leaves in the head its offset from the start of the
enclosing tuple and stands in the tail. Encoding fails on a value outside the
range of its type, and decoding reads back whatever encoding wrote, wherever
the block stands in the buffer. -/

namespace RhPools.AbiCodec
open BigEndian

inductive Word where
  | uint (bits : Nat)
  | int (bits : Nat)
  | address
  | bool
  deriving DecidableEq

@[reducible] def Word.Val : Word → Type
  | .uint _ => Int
  | .int _ => Int
  | .address => BitVec 160
  | .bool => Bool

def wordSize : Nat := 2 ^ 256

def encodeUint (bits : Nat) (value : Int) : Option Nat :=
  if 0 ≤ value ∧ value < 2 ^ bits ∧ value < 2 ^ 256 then some value.toNat else none

def decodeUint (bits n : Nat) : Option Int :=
  if n < 2 ^ bits then some n else none

def encodeInt (bits : Nat) (value : Int) : Option Nat :=
  if -2 ^ (bits - 1) ≤ value ∧ value < 2 ^ (bits - 1) ∧ -2 ^ 255 ≤ value ∧ value < 2 ^ 255 then
    some (if 0 ≤ value then value.toNat else (value + 2 ^ 256).toNat)
  else none

def decodeInt (bits n : Nat) : Option Int :=
  let value : Int := if n < 2 ^ 255 then n else n - 2 ^ 256
  if -2 ^ (bits - 1) ≤ value ∧ value < 2 ^ (bits - 1) then some value else none

def Word.encode : (kind : Word) → kind.Val → Option Nat
  | .uint bits, value => encodeUint bits value
  | .int bits, value => encodeInt bits value
  | .address, value => some (BitVec.toNat value)
  | .bool, value => some (Bool.toNat value)

def Word.decode : (kind : Word) → Nat → Option kind.Val
  | .uint bits, n => decodeUint bits n
  | .int bits, n => decodeInt bits n
  | .address, n => if n < 2 ^ 160 then some (BitVec.ofNat 160 n) else none
  | .bool, n => if n = 0 then some false else if n = 1 then some true else none

mutual
inductive Ty where
  | word (kind : Word)
  | bytes
  | array (element : Ty)
  | tuple (fields : Tys)
inductive Tys where
  | nil
  | cons (field : Ty) (rest : Tys)
end

mutual
@[reducible] def Ty.Val : Ty → Type
  | .word kind => kind.Val
  | .bytes => Bytes
  | .array element => List element.Val
  | .tuple fields => fields.Val
@[reducible] def Tys.Val : Tys → Type
  | .nil => Unit
  | .cons field rest => field.Val × rest.Val
end

mutual
def Ty.dynamic : Ty → Bool
  | .word _ => false
  | .bytes => true
  | .array _ => true
  | .tuple fields => fields.dynamic
def Tys.dynamic : Tys → Bool
  | .nil => false
  | .cons field rest => field.dynamic || rest.dynamic
end

mutual
def Ty.headSize : Ty → Nat
  | .word _ => 32
  | .bytes => 32
  | .array _ => 32
  | .tuple fields => if fields.dynamic then 32 else fields.headSize
def Tys.headSize : Tys → Nat
  | .nil => 0
  | .cons field rest => field.headSize + rest.headSize
end

def encodeNat (n : Nat) : Option Bytes :=
  if n < wordSize then some (toBytes 32 n) else none

def padding (length : Nat) : Bytes := List.replicate ((32 - length % 32) % 32) 0

section Elements
variable {Value : Type}

/-- Heads and tails of a run of values of one type; `offset` is where the next
tail will stand. -/
def encodeElements (encode : Value → Option Bytes) (dynamic : Bool) :
    Nat → List Value → Option (Bytes × Bytes)
  | _, [] => some ([], [])
  | offset, value :: rest => do
    let block ← encode value
    if dynamic then
      let head ← encodeNat offset
      let (heads, tails) ← encodeElements encode dynamic (offset + block.length) rest
      some (head ++ heads, block ++ tails)
    else
      let (heads, tails) ← encodeElements encode dynamic offset rest
      some (block ++ heads, tails)

def readNat (bytes : Bytes) (pos : Nat) : Option Nat :=
  let word := (bytes.drop pos).take 32
  if word.length = 32 then some (ofBytes word) else none

def readHead (decode : Nat → Option Value) (dynamic : Bool) (bytes : Bytes)
    (base head : Nat) : Option Value :=
  if dynamic then (readNat bytes head).bind fun offset => decode (base + offset)
  else decode head

def decodeElements (decode : Nat → Option Value) (dynamic : Bool) (size : Nat)
    (bytes : Bytes) (base : Nat) : Nat → Nat → Option (List Value)
  | _, 0 => some []
  | head, count + 1 => do
    let value ← readHead decode dynamic bytes base head
    let rest ← decodeElements decode dynamic size bytes base (head + size) count
    some (value :: rest)
end Elements

mutual
def Ty.encode : (type : Ty) → type.Val → Option Bytes
  | .word kind, value => (kind.encode value).bind encodeNat
  | .bytes, value => do
    let length ← encodeNat value.length
    some (length ++ (value ++ padding value.length))
  | .array element, values => do
    let length ← encodeNat values.length
    let (heads, tails) ← encodeElements (element.encode) element.dynamic
      (values.length * element.headSize) values
    some (length ++ (heads ++ tails))
  | .tuple fields, values => do
    let (heads, tails) ← fields.encode fields.headSize values
    some (heads ++ tails)
def Tys.encode : (types : Tys) → Nat → types.Val → Option (Bytes × Bytes)
  | .nil, _, _ => some ([], [])
  | .cons field rest, offset, (value, values) => do
    let block ← field.encode value
    if field.dynamic then
      let head ← encodeNat offset
      let (heads, tails) ← rest.encode (offset + block.length) values
      some (head ++ heads, block ++ tails)
    else
      let (heads, tails) ← rest.encode offset values
      some (block ++ heads, tails)
end

mutual
def Ty.decode : (type : Ty) → Bytes → Nat → Option type.Val
  | .word kind, bytes, pos => (readNat bytes pos).bind kind.decode
  | .bytes, bytes, pos => do
    let length ← readNat bytes pos
    let value := (bytes.drop (pos + 32)).take length
    if value.length = length then some value else none
  | .array element, bytes, pos => do
    let count ← readNat bytes pos
    decodeElements (element.decode bytes) element.dynamic element.headSize bytes
      (pos + 32) (pos + 32) count
  | .tuple fields, bytes, pos => fields.decode bytes pos pos
def Tys.decode : (types : Tys) → Bytes → Nat → Nat → Option types.Val
  | .nil, _, _, _ => some ()
  | .cons field rest, bytes, base, head => do
    let value ← readHead (field.decode bytes) field.dynamic bytes base head
    let values ← rest.decode bytes base (head + field.headSize)
    some (value, values)
end

theorem decodeUint_encodeUint (bits : Nat) (value : Int) (n : Nat)
    (encoded : encodeUint bits value = some n) :
    n < wordSize ∧ decodeUint bits n = some value := by
  simp only [encodeUint, Option.ite_none_right_eq_some, Option.some.injEq] at encoded
  obtain ⟨⟨nonneg, below, word⟩, rfl⟩ := encoded
  have back : ((value.toNat : Nat) : Int) = value := Int.toNat_of_nonneg nonneg
  have inside : value.toNat < 2 ^ bits := by
    have cast : ((value.toNat : Nat) : Int) < ((2 ^ bits : Nat) : Int) := by
      rw [back]; exact_mod_cast below
    exact_mod_cast cast
  refine ⟨by unfold wordSize; omega, ?_⟩
  simp [decodeUint, inside, back]

theorem decodeInt_encodeInt (bits : Nat) (value : Int) (n : Nat)
    (encoded : encodeInt bits value = some n) :
    n < wordSize ∧ decodeInt bits n = some value := by
  simp only [encodeInt, Option.ite_none_right_eq_some, Option.some.injEq] at encoded
  obtain ⟨⟨low, high, wordLow, wordHigh⟩, written⟩ := encoded
  have word : n < wordSize ∧
      (if n < 2 ^ 255 then (n : Int) else n - 2 ^ 256) = value := by
    unfold wordSize
    by_cases nonneg : 0 ≤ value
    · rw [if_pos nonneg] at written
      rw [if_pos (by omega)]
      omega
    · rw [if_neg nonneg] at written
      rw [if_neg (by omega)]
      omega
  exact ⟨word.1, by simp only [decodeInt, word.2, low, high, and_self, if_true]⟩

theorem encodeUint_decodeUint (bits n : Nat) (value : Int) (whole : n < wordSize)
    (decoded : decodeUint bits n = some value) : encodeUint bits value = some n := by
  simp only [decodeUint, Option.ite_none_right_eq_some, Option.some.injEq] at decoded
  obtain ⟨small, rfl⟩ := decoded
  have bound : (n : Int) < 2 ^ bits := by exact_mod_cast small
  have word : (n : Int) < 2 ^ 256 := by exact_mod_cast whole
  rw [encodeUint, if_pos ⟨by omega, bound, word⟩, Int.toNat_natCast]

theorem encodeInt_decodeInt (bits n : Nat) (value : Int) (whole : n < wordSize)
    (decoded : decodeInt bits n = some value) : encodeInt bits value = some n := by
  simp only [decodeInt, Option.ite_none_right_eq_some, Option.some.injEq] at decoded
  obtain ⟨⟨low, high⟩, rfl⟩ := decoded
  have word : (n : Int) < 2 ^ 256 := by exact_mod_cast whole
  by_cases small : n < 2 ^ 255
  · have half : (n : Int) < 2 ^ 255 := by exact_mod_cast small
    rw [if_pos small] at low high ⊢
    rw [encodeInt, if_pos ⟨low, high, by omega, half⟩, if_pos (by omega)]
    simp
  · have half : (2 : Int) ^ 255 ≤ n := by exact_mod_cast not_lt.mp small
    rw [if_neg small] at low high ⊢
    rw [encodeInt, if_pos ⟨low, high, by omega, by omega⟩, if_neg (by omega)]
    simp

theorem Word.decode_encode (kind : Word) (value : kind.Val) (n : Nat)
    (encoded : kind.encode value = some n) : n < wordSize ∧ kind.decode n = some value := by
  cases kind with
  | uint bits => exact decodeUint_encodeUint bits value n encoded
  | int bits => exact decodeInt_encodeInt bits value n encoded
  | address =>
    simp only [Word.encode, Option.some.injEq] at encoded
    subst encoded
    have below : BitVec.toNat value < 2 ^ 160 := BitVec.isLt value
    refine ⟨by unfold wordSize; omega, ?_⟩
    rw [Word.decode, if_pos below, BitVec.ofNat_toNat, BitVec.setWidth_eq]
  | bool =>
    simp only [Word.encode, Option.some.injEq] at encoded
    subst encoded
    cases value <;> exact ⟨by decide, rfl⟩

theorem encodeNat_length (n : Nat) (block : Bytes) (encoded : encodeNat n = some block) :
    block.length = 32 := by
  simp only [encodeNat, Option.ite_none_right_eq_some, Option.some.injEq] at encoded
  rw [← encoded.2, length_toBytes]

theorem readNat_encodeNat (n : Nat) (block bytes : Bytes) (pos : Nat)
    (encoded : encodeNat n = some block) (held : Holds bytes pos block) :
    readNat bytes pos = some n := by
  have size := encodeNat_length n block encoded
  have slice := holds_take bytes pos block held
  rw [size] at slice
  simp only [encodeNat, Option.ite_none_right_eq_some, Option.some.injEq] at encoded
  have back : ofBytes block = n := by
    rw [← encoded.2]
    exact ofBytes_toBytes_of_lt 32 n (by have := encoded.1; unfold wordSize at this; omega)
  simp only [readNat, slice, size, if_true, back]

/-! A head slot holds the value itself or the offset of its tail. -/

theorem encodeElements_head_length {Value : Type} (encode : Value → Option Bytes)
    (dynamic : Bool) (size offset : Nat) (values : List Value) (heads tails : Bytes)
    (fixed : ∀ value block, encode value = some block → dynamic = false → block.length = size)
    (slot : dynamic = true → size = 32)
    (encoded : encodeElements encode dynamic offset values = some (heads, tails)) :
    heads.length = values.length * size := by
  induction values generalizing offset heads tails with
  | nil =>
    simp only [encodeElements, Option.some.injEq, Prod.mk.injEq] at encoded
    simp [← encoded.1]
  | cons value rest ih =>
    simp only [encodeElements, Option.bind_eq_bind, Option.bind_eq_some_iff] at encoded
    obtain ⟨block, written, encoded⟩ := encoded
    cases kind : dynamic with
    | true =>
      simp only [kind, if_true, Option.bind_eq_some_iff] at encoded
      obtain ⟨head, headWritten, ⟨restHeads, restTails⟩, restEncoded, same⟩ := encoded
      simp only [Option.some.injEq, Prod.mk.injEq] at same
      have headSize := encodeNat_length _ _ headWritten
      have restSize := ih _ _ _ (kind ▸ restEncoded)
      rw [← same.1, List.length_append, headSize, restSize, slot kind, List.length_cons]
      ring
    | false =>
      simp only [kind, Bool.false_eq_true, if_false, Option.bind_eq_some_iff] at encoded
      obtain ⟨⟨restHeads, restTails⟩, restEncoded, same⟩ := encoded
      simp only [Option.some.injEq, Prod.mk.injEq] at same
      have restSize := ih _ _ _ (kind ▸ restEncoded)
      rw [← same.1, List.length_append, fixed _ _ written kind, restSize, List.length_cons]
      ring

def ReadsBack {Value : Type} (encode : Value → Option Bytes)
    (decode : Nat → Option Value) (bytes : Bytes) : Prop :=
  ∀ value block pos, encode value = some block → Holds bytes pos block →
    decode pos = some value

theorem decodeElements_encodeElements {Value : Type} (encode : Value → Option Bytes)
    (decode : Nat → Option Value) (dynamic : Bool) (size offset base head : Nat)
    (bytes : Bytes) (values : List Value) (heads tails : Bytes)
    (element : ReadsBack encode decode bytes)
    (fixed : ∀ value block, encode value = some block → dynamic = false → block.length = size)
    (slot : dynamic = true → size = 32)
    (encoded : encodeElements encode dynamic offset values = some (heads, tails))
    (headsHeld : Holds bytes head heads) (tailsHeld : Holds bytes (base + offset) tails) :
    decodeElements decode dynamic size bytes base head values.length = some values := by
  induction values generalizing offset head heads tails with
  | nil => rfl
  | cons value rest ih =>
    simp only [encodeElements, Option.bind_eq_bind, Option.bind_eq_some_iff] at encoded
    obtain ⟨block, written, encoded⟩ := encoded
    cases kind : dynamic with
    | true =>
      simp only [kind, if_true, Option.bind_eq_some_iff] at encoded
      obtain ⟨slotBytes, headWritten, ⟨restHeads, restTails⟩, restEncoded, same⟩ := encoded
      simp only [Option.some.injEq, Prod.mk.injEq] at same
      rw [← same.1, holds_append, encodeNat_length _ _ headWritten] at headsHeld
      rw [← same.2, holds_append, Nat.add_assoc] at tailsHeld
      have first := readNat_encodeNat _ _ _ _ headWritten headsHeld.1
      have read := element _ _ _ written tailsHeld.1
      have tail := ih _ (head + size) _ _ (kind ▸ restEncoded)
        (by rw [slot kind]; exact headsHeld.2) tailsHeld.2
      rw [kind] at tail
      simp [decodeElements, readHead, first, read, tail]
    | false =>
      simp only [kind, Bool.false_eq_true, if_false, Option.bind_eq_some_iff] at encoded
      obtain ⟨⟨restHeads, restTails⟩, restEncoded, same⟩ := encoded
      simp only [Option.some.injEq, Prod.mk.injEq] at same
      rw [← same.1, holds_append, fixed _ _ written kind] at headsHeld
      rw [← same.2] at tailsHeld
      have read := element _ _ _ written headsHeld.1
      have tail := ih _ (head + size) _ _ (kind ▸ restEncoded) headsHeld.2 tailsHeld
      rw [kind] at tail
      simp [decodeElements, readHead, read, tail]

/-! Every type, by recursion over its structure: a static value fills exactly
its head slot, and a tuple's heads end where its first tail begins. -/

mutual
theorem Ty.static_length (type : Ty) (value : type.Val) (block : Bytes)
    (encoded : type.encode value = some block) (static : type.dynamic = false) :
    block.length = type.headSize := by
  cases type with
  | word kind =>
    simp only [Ty.encode, Option.bind_eq_some_iff] at encoded
    obtain ⟨n, _, written⟩ := encoded
    exact encodeNat_length n block written
  | bytes => simp [Ty.dynamic] at static
  | array element => simp [Ty.dynamic] at static
  | tuple fields =>
    simp only [Ty.dynamic] at static
    simp only [Ty.encode, Option.bind_eq_bind, Option.bind_eq_some_iff] at encoded
    obtain ⟨⟨heads, tails⟩, parts, same⟩ := encoded
    simp only [Option.some.injEq] at same
    have layout := Tys.encode_layout fields fields.headSize value heads tails parts
    rw [← same, layout.2 static, List.append_nil, layout.1]
    simp [Ty.headSize, static]
theorem Tys.encode_layout (types : Tys) (offset : Nat) (values : types.Val)
    (heads tails : Bytes) (encoded : types.encode offset values = some (heads, tails)) :
    heads.length = types.headSize ∧ (types.dynamic = false → tails = []) := by
  cases types with
  | nil =>
    simp only [Tys.encode, Option.some.injEq, Prod.mk.injEq] at encoded
    exact ⟨by simp [← encoded.1, Tys.headSize], fun _ => encoded.2.symm⟩
  | cons field rest =>
    obtain ⟨value, values⟩ := values
    simp only [Tys.encode, Option.bind_eq_bind, Option.bind_eq_some_iff] at encoded
    obtain ⟨block, written, encoded⟩ := encoded
    cases kind : field.dynamic with
    | true =>
      simp only [kind, if_true, Option.bind_eq_some_iff] at encoded
      obtain ⟨head, headWritten, ⟨restHeads, restTails⟩, restEncoded, same⟩ := encoded
      simp only [Option.some.injEq, Prod.mk.injEq] at same
      have layout := Tys.encode_layout rest _ values restHeads restTails restEncoded
      have slot : field.headSize = 32 := Ty.dynamic_head field kind
      refine ⟨?_, fun static => by simp [Tys.dynamic, kind] at static⟩
      rw [← same.1, List.length_append, encodeNat_length _ _ headWritten, layout.1,
        Tys.headSize, slot]
    | false =>
      simp only [kind, Bool.false_eq_true, if_false, Option.bind_eq_some_iff] at encoded
      obtain ⟨⟨restHeads, restTails⟩, restEncoded, same⟩ := encoded
      simp only [Option.some.injEq, Prod.mk.injEq] at same
      have layout := Tys.encode_layout rest _ values restHeads restTails restEncoded
      have block_length := Ty.static_length field value block written kind
      refine ⟨?_, fun static => ?_⟩
      · rw [← same.1, List.length_append, block_length, layout.1, Tys.headSize]
      · rw [← same.2]
        exact layout.2 (by simpa [Tys.dynamic, kind] using static)
theorem Ty.dynamic_head (type : Ty) (dynamic : type.dynamic = true) : type.headSize = 32 := by
  cases type with
  | word kind => rfl
  | bytes => rfl
  | array element => rfl
  | tuple fields =>
    simp only [Ty.dynamic] at dynamic
    simp [Ty.headSize, dynamic]
end

mutual
theorem Ty.decode_encode (type : Ty) (bytes : Bytes) :
    ReadsBack type.encode (type.decode bytes) bytes := by
  intro value block pos encoded held
  cases type with
  | word kind =>
    simp only [Ty.encode, Option.bind_eq_some_iff] at encoded
    obtain ⟨n, word, written⟩ := encoded
    simp only [Ty.decode, readNat_encodeNat n block bytes pos written held,
      Option.bind_some]
    exact (Word.decode_encode kind value n word).2
  | bytes =>
    simp only [Ty.encode, Option.bind_eq_bind, Option.bind_eq_some_iff] at encoded
    obtain ⟨length, written, same⟩ := encoded
    simp only [Option.some.injEq] at same
    rw [← same, holds_append, encodeNat_length _ _ written, holds_append] at held
    have count := readNat_encodeNat _ _ _ _ written held.1
    have content := holds_take _ _ _ held.2.1
    simp only [Ty.decode, count, Option.bind_eq_bind, Option.bind_some, content, if_true]
  | array element =>
    simp only [Ty.encode, Option.bind_eq_bind, Option.bind_eq_some_iff] at encoded
    obtain ⟨length, written, ⟨heads, tails⟩, parts, same⟩ := encoded
    simp only [Option.some.injEq] at same
    rw [← same, holds_append, encodeNat_length _ _ written, holds_append] at held
    have count := readNat_encodeNat _ _ _ _ written held.1
    have headsEnd := encodeElements_head_length _ _ _ _ _ _ _
      (fun v b => Ty.static_length element v b) (Ty.dynamic_head element) parts
    rw [headsEnd] at held
    have elements := decodeElements_encodeElements _ _ _ _ _ _ _ _ _ _ _
      (Ty.decode_encode element bytes) (fun v b => Ty.static_length element v b)
      (Ty.dynamic_head element) parts held.2.1 held.2.2
    simp [Ty.decode, count, elements]
  | tuple fields =>
    simp only [Ty.encode, Option.bind_eq_bind, Option.bind_eq_some_iff] at encoded
    obtain ⟨⟨heads, tails⟩, parts, same⟩ := encoded
    simp only [Option.some.injEq] at same
    rw [← same, holds_append, (Tys.encode_layout _ _ _ _ _ parts).1] at held
    exact Tys.decode_encode fields bytes fields.headSize pos pos value heads tails parts
      held.1 held.2
theorem Tys.decode_encode (types : Tys) (bytes : Bytes) (offset base head : Nat)
    (values : types.Val) (heads tails : Bytes)
    (encoded : types.encode offset values = some (heads, tails))
    (headsHeld : Holds bytes head heads) (tailsHeld : Holds bytes (base + offset) tails) :
    types.decode bytes base head = some values := by
  cases types with
  | nil => rfl
  | cons field rest =>
    obtain ⟨value, values⟩ := values
    simp only [Tys.encode, Option.bind_eq_bind, Option.bind_eq_some_iff] at encoded
    obtain ⟨block, written, encoded⟩ := encoded
    cases kind : field.dynamic with
    | true =>
      simp only [kind, if_true, Option.bind_eq_some_iff] at encoded
      obtain ⟨slotBytes, headWritten, ⟨restHeads, restTails⟩, restEncoded, same⟩ := encoded
      simp only [Option.some.injEq, Prod.mk.injEq] at same
      rw [← same.1, holds_append, encodeNat_length _ _ headWritten] at headsHeld
      rw [← same.2, holds_append, Nat.add_assoc] at tailsHeld
      have first := readNat_encodeNat _ _ _ _ headWritten headsHeld.1
      have read := Ty.decode_encode field bytes _ _ _ written tailsHeld.1
      have tail := Tys.decode_encode rest bytes _ base (head + 32) values restHeads restTails
        restEncoded headsHeld.2 tailsHeld.2
      simp [Tys.decode, readHead, kind, first, read, Ty.dynamic_head field kind, tail]
    | false =>
      simp only [kind, Bool.false_eq_true, if_false, Option.bind_eq_some_iff] at encoded
      obtain ⟨⟨restHeads, restTails⟩, restEncoded, same⟩ := encoded
      simp only [Option.some.injEq, Prod.mk.injEq] at same
      rw [← same.1, holds_append, Ty.static_length field value block written kind] at headsHeld
      rw [← same.2] at tailsHeld
      have read := Ty.decode_encode field bytes _ _ _ written headsHeld.1
      have tail := Tys.decode_encode rest bytes _ base (head + field.headSize) values restHeads
        restTails restEncoded headsHeld.2 tailsHeld
      simp [Tys.decode, readHead, kind, read, tail]
end

/-- The calldata codec as a caller sees it: values of a type list to bytes and
back, the round trip being the only law. -/
structure Codec where
  encode : (types : Tys) → types.Val → Option Bytes
  decode : (types : Tys) → Bytes → Option types.Val
  decode_encode : ∀ types values bytes, encode types values = some bytes →
    decode types bytes = some values

def layout : Codec where
  encode types values := (Ty.tuple types).encode values
  decode types bytes := (Ty.tuple types).decode bytes 0
  decode_encode := fun types values bytes encoded =>
    Ty.decode_encode (.tuple types) bytes values bytes 0 encoded (holds_self bytes)

end RhPools.AbiCodec
