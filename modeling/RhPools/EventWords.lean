import Mathlib.Data.List.Forall2
import RhPools.TxChain

/-! Event logs and the words in them. Hex text of the source is the bytes it spells: an
address twenty of them, a hash thirty-two. Every decoding step may raise, with the text
the source gives. -/

namespace RhPools.EventWords
open BigEndian TxChain

/-- What decoding returns, or the text of the `ProtocolDecodeError`. -/
abbrev Decode := Except String

theorem bind_ok {Error α β : Type} (first : Except Error α) (next : α → Except Error β)
    (value : β) : (first >>= next) = .ok value ↔
      ∃ middle, first = .ok middle ∧ next middle = .ok value := by
  cases first with
  | error failure => simp [bind, Except.bind]
  | ok middle => simp [bind, Except.bind]

theorem mapM_ok {Error α β : Type} (step : α → Except Error β) (items : List α)
    (results : List β) : items.mapM step = .ok results ↔
      List.Forall₂ (fun item result => step item = .ok result) items results := by
  induction items generalizing results with
  | nil => simp [pure, Except.pure, List.forall₂_nil_left_iff, eq_comm]
  | cons item rest ih =>
    rw [List.mapM_cons, bind_ok]
    constructor
    · rintro ⟨first, here, others⟩
      obtain ⟨tail, later, same⟩ := (bind_ok _ _ _).mp others
      cases same
      exact .cons here ((ih tail).mp later)
    · intro related
      cases related with
      | cons here later => exact ⟨_, here, (bind_ok _ _ _).mpr ⟨_, (ih _).mpr later, rfl⟩⟩

theorem related_left {α β : Type} {Related : α → β → Prop} {lefts : List α} {rights : List β}
    (related : List.Forall₂ Related lefts rights) (left : α) (member : left ∈ lefts) :
    ∃ right ∈ rights, Related left right := by
  induction related with
  | nil => cases member
  | @cons first other lefts rights here _ ih =>
    rcases List.mem_cons.mp member with rfl | later
    · exact ⟨other, List.mem_cons_self, here⟩
    · obtain ⟨right, found, same⟩ := ih later
      exact ⟨right, List.mem_cons_of_mem other found, same⟩

theorem related_right {α β : Type} {Related : α → β → Prop} {lefts : List α} {rights : List β}
    (related : List.Forall₂ Related lefts rights) (right : β) (member : right ∈ rights) :
    ∃ left ∈ lefts, Related left right :=
  @related_left _ _ (flip Related) _ _ related.flip right member

abbrev Hash := BitVec 256

instance : LawfulBEq Hash := inferInstance

structure Log where
  address : Address
  topics : List Bytes
  data : Bytes
  deriving DecidableEq, Repr

def rawHex (value : Option Bytes) (name : String) : Decode Bytes :=
  match value with
  | some raw => .ok raw
  | none => .error (name ++ " is not hex data")

def hash (value : Bytes) (name : String) : Decode Hash :=
  if value.length = 32 then .ok (BitVec.ofNat 256 (ofBytes value))
  else .error (name ++ " is not bytes32")

def address (value : Option Address) (name : String) : Decode Address :=
  match value with
  | some address => .ok address
  | none => .error (name ++ " is not a 20-byte address")

/-- The whole words of `raw`, in order. -/
def wordsOf (raw : Bytes) : List Nat :=
  (List.range (raw.length / 32)).map fun index => ofBytes ((raw.drop (32 * index)).take 32)

def words (raw : Bytes) (name : String) (count : Option Nat) : Decode (List Nat) :=
  if raw.length % 32 ≠ 0 then .error (name ++ " is not whole ABI words")
  else match count with
    | none => .ok (wordsOf raw)
    | some expected =>
      if (wordsOf raw).length ≠ expected then
        .error (name ++ " has " ++ toString (wordsOf raw).length ++ " words, expected " ++
          toString expected)
      else .ok (wordsOf raw)

def uint (word : Int) (bits : Nat) (name : String) : Decode Int :=
  if word < 0 ∨ word ≥ 2 ^ bits then .error (name ++ " is not canonical uint" ++ toString bits)
  else .ok word

def sint (word : Int) (bits : Nat) (name : String) : Decode Int :=
  if word < 2 ^ (bits - 1) then .ok word
  else if word < 2 ^ 256 - 2 ^ (bits - 1) ∨ word ≥ 2 ^ 256 then
    .error (name ++ " is not canonical int" ++ toString bits)
  else .ok (word - 2 ^ 256)

def wordAddress (word : Int) (name : String) : Decode Address := do
  let value ← uint word 160 name
  return BitVec.ofInt 160 value

def topicAddress (value : Bytes) (name : String) : Decode Address :=
  if value.length ≠ 32 ∨ (value.take 12).any (· ≠ 0) then
    .error (name ++ " is not a canonical indexed address")
  else .ok (readAddress (value.drop 12))

def topic0 (log : Log) : Option Bytes :=
  log.topics.head?.filter fun topic => topic.length = 32

def V4_MODIFY_LIQUIDITY_TOPIC : Bytes :=
  toBytes 32 0xf208f4912782fd25c7f114ca3723a2d5dd6f3bcc3ac8db5af63baa85f711d5ec

def MODIFY_LIQUIDITY_SELECTOR : Bytes := toBytes 4 0x5a6bcfda

end RhPools.EventWords
