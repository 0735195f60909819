import Mathlib.Data.List.Sort
import RhPools.EventWords
import RhPools.PyValues
import RhPools.SqlTables

/-! `repair_v4_owners`: the owner of a V4 manager row, from the token transfers of its
transaction. The transfer at or before the action has the last word; when all come later, the
first one says who held the token, or that it was minted. -/

namespace RhPools.OwnerRepairs
open BigEndian EventWords OrderedTables PyValues

def ZERO_ADDRESS : String := "0x0000000000000000000000000000000000000000"
def V4_POSITION_MANAGER : String := "0x58daec3116aae6d93017baaea7749052e8a04fa7"

def lower (text : String) : String := String.ofList (text.toList.map Char.toLower)

def hexDigits (bytes : Bytes) : String :=
  String.ofList (bytes.flatMap fun byte =>
    [Nat.digitChar (byte.toNat / 16), Nat.digitChar (byte.toNat % 16)])

/-- `_integer`. -/
def integer (value : Value) (name : String) : Decode Int :=
  match value with
  | .bool _ => throw (name ++ " is boolean")
  | .int value => return value
  | .str text =>
    let hex := text.toList.take 2 = ['0', 'x'] ∨ text.toList.take 2 = ['0', 'X']
    let base := if hex then 16 else 10
    match readInt base text with
    | some value => return value
    | none => throw (name ++ " is not an integer")
  | _ => throw (name ++ " is not an integer")

/-- `_address(value, name, strict=False)`. -/
def addressText : Value → Option String
  | .bytes bytes => if bytes.length = 20 then some ("0x" ++ hexDigits bytes) else none
  | .str text => if (hexText 40 text).isSome then some (lower text) else none
  | _ => none

def address (value : Value) (name : String) : Decode String :=
  match addressText value with
  | some text => return text
  | none => throw (name ++ " is not a 20-byte address")

def hash (value : Value) (name : String) : Decode String :=
  match value with
  | .str text =>
    if (hexText 64 text).isSome then return lower text else throw (name ++ " is not bytes32")
  | _ => throw (name ++ " is not bytes32")

/-- `nft_position_key` of the manager. -/
def nftPositionKey (token : Int) : Decode String :=
  if token < 0 ∨ 2 ^ 256 ≤ token then throw "NFT token id is outside uint256"
  else return "nft:" ++ V4_POSITION_MANAGER ++ ":" ++ toString token

/-- `str(value or "").lower() == key`: only a text prints as the key of a token, and only a text
in ASCII lowers to it. -/
def namesKey (value : Value) (key : String) : Bool :=
  match value with
  | .str text => lower text = key
  | _ => false

def isNone : Value → Bool
  | .none => true
  | _ => false

def custodied (row : Dict) : Bool := addressText (row.get "custody") = some V4_POSITION_MANAGER

/-- A transfer's transaction, token and log index, in the two levels of the source's dictionary. -/
abbrev Place := String × Int × Int

abbrev Endpoints := String × String

abbrev Transfers := OrderedTable Place Endpoints

def transferOf (row : Dict) : Decode (Option (Place × Endpoints)) := do
  if !(row.get "protocol").is "nft" ∨ !(row.get "kind").is "transfer" ∨ !custodied row then
    return none
  let tokenId ← integer (row.get "token_id") "V4 transfer token id"
  let key ← nftPositionKey tokenId
  if !namesKey (row.get "position_key") key then
    throw "V4 manager transfer has inconsistent NFT position key"
  match row.get "data" with
  | .dict data =>
    let priorOwner ← address (Dict.get data "prior_owner") "V4 transfer prior owner"
    let newOwner ← address (Dict.get data "new_owner") "V4 transfer new owner"
    if priorOwner = ZERO_ADDRESS ∧ newOwner = ZERO_ADDRESS then
      throw "V4 manager transfer has two zero endpoints"
    let txHash ← hash (row.get "tx_hash") "V4 transfer transaction"
    let logIndex ← integer (row.get "log_index") "V4 transfer log index"
    return some ((txHash, tokenId, logIndex), (priorOwner, newOwner))
  | _ => throw "V4 manager transfer data is missing"

def placeTransfer (transfers : Transfers) (transfer : Place × Endpoints) : Decode Transfers :=
  match transfers.get transfer.1 with
  | some existing =>
    if existing ≠ transfer.2 then throw "conflicting normalized V4 manager transfers"
    else return transfers.assign transfer.1 transfer.2
  | none => return transfers.assign transfer.1 transfer.2

def addTransfer (transfers : Transfers) (row : Dict) : Decode Transfers := do
  match ← transferOf row with
  | none => return transfers
  | some transfer => placeTransfer transfers transfer

def gatherTransfers (rows : List Dict) : Decode Transfers := rows.foldlM addTransfer .empty

def earlier (left right : Int × Endpoints) : Prop := left.1 ≤ right.1

instance : DecidableRel earlier := fun left right => inferInstanceAs (Decidable (left.1 ≤ right.1))

instance : Std.Total earlier := ⟨fun left right => le_total left.1 right.1⟩

instance : IsTrans (Int × Endpoints) earlier := ⟨fun _ _ _ first second => first.trans second⟩

def candidates (transfers : Transfers) (txHash : String) (tokenId : Int) :
    List (Int × Endpoints) :=
  ((transfers.entries.filter fun entry => entry.1.1 = txHash ∧ entry.1.2.1 = tokenId).map
    fun entry => (entry.1.2.2, entry.2)).insertionSort earlier

structure Proof where
  owner : String
  basis : String
  deriving DecidableEq

/-- The owner at an action, by the transfers of its token: `first` is the earliest of them. -/
def proveOwner (first : Int × Endpoints) (all : List (Int × Endpoints)) (actionIndex : Int) :
    Proof :=
  match (all.filter fun item => item.1 ≤ actionIndex).getLast? with
  | some (_, priorOwner, newOwner) =>
    { owner := if newOwner ≠ ZERO_ADDRESS then newOwner else priorOwner
      basis := "manager_transfer_same_tx" }
  | none =>
    if first.2.1 = ZERO_ADDRESS then
      { owner := first.2.2, basis := "manager_mint_transfer_same_tx" }
    else { owner := first.2.1, basis := "manager_transfer_same_tx_prestate" }

def proofOf (transfers : Transfers) (row : Dict) : Decode (Option Proof) := do
  if !(row.get "protocol").is "v4" ∨ !custodied row ∨ isNone (row.get "liquidity_delta") then
    return none
  let tokenId ← integer (row.get "token_id") "V4 core token id"
  let key ← nftPositionKey tokenId
  if !namesKey (row.get "position_key") key then
    throw "V4 manager core row has inconsistent NFT position key"
  let txHash ← hash (row.get "tx_hash") "V4 core transaction"
  match candidates transfers txHash tokenId with
  | [] => return none
  | first :: rest =>
    let actionIndex ← integer (row.get "log_index") "V4 core log index"
    let proof := proveOwner first (first :: rest) actionIndex
    if proof.owner = ZERO_ADDRESS then throw "V4 manager transfer cannot prove a zero owner"
    return some proof

/-- `dict(row)` with the owner and its basis, which stands in the data too. -/
def attributed (row data : Dict) (proof : Proof) : Dict :=
  ((row.set "owner" (.str proof.owner)).set "identity_basis" (.str proof.basis)).set "data"
    (.dict (Dict.set data "identity_basis" (.str proof.basis)))

def attributeOwner (row : Dict) (proof : Proof) : Decode (Option Dict) :=
  match row.get "data" with
  | .dict data =>
    if (row.get "owner").is proof.owner ∧ (row.get "identity_basis").is proof.basis ∧
        (Dict.get data "identity_basis").is proof.basis then
      return none
    else return some (attributed row data proof)
  | _ => throw "V4 manager core data is missing"

def repairRow (transfers : Transfers) (row : Dict) : Decode (Option Dict) := do
  match ← proofOf transfers row with
  | none => return none
  | some proof => attributeOwner row proof

def verdicts (rows : List Dict) : Decode (List (Option Dict)) := do
  let transfers ← gatherTransfers rows
  rows.mapM (repairRow transfers)

def repairV4Owners (rows : List Dict) : Decode (List Dict) :=
  (verdicts rows).map List.reduceOption

def Within (left right : Transfers) : Prop :=
  ∀ place endpoints, left.get place = some endpoints → right.get place = some endpoints

def Placed (transfers : Transfers) (row : Dict) : Prop :=
  ∃ found, transferOf row = .ok found ∧
    ∀ transfer ∈ found, transfers.get transfer.1 = some transfer.2

variable (rows : List Dict) (before after : Transfers)

theorem placeTransfer_ok (transfer : Place × Endpoints) :
    placeTransfer before transfer = .ok after ↔
      (∀ existing ∈ before.get transfer.1, existing = transfer.2) ∧
        before.assign transfer.1 transfer.2 = after := by
  unfold placeTransfer
  cases before.get transfer.1 with
  | none => simp [pure, Except.pure]
  | some existing =>
    by_cases same : existing = transfer.2
    · simp [same, pure, Except.pure]
    · simp [same, throw, throwThe, MonadExceptOf.throw]

theorem addTransfer_ok (row : Dict) :
    addTransfer before row = .ok after ↔ ∃ found, transferOf row = .ok found ∧
      match found with
      | none => before = after
      | some transfer => placeTransfer before transfer = .ok after := by
  unfold addTransfer
  rw [bind_ok]
  refine exists_congr fun found => and_congr_right fun _ => ?_
  cases found with
  | none => simp [pure, Except.pure]
  | some transfer => rfl

theorem addTransfer_placed (row : Dict) (added : addTransfer before row = .ok after) :
    Within before after ∧ Placed after row := by
  obtain ⟨found, read, placed⟩ := (addTransfer_ok before after row).mp added
  cases found with
  | none =>
    obtain rfl : before = after := placed
    exact ⟨fun _ _ there => there, none, read, fun _ absent => absurd absent (Option.not_mem_none _)⟩
  | some transfer =>
    obtain ⟨agrees, rfl⟩ := (placeTransfer_ok before after transfer).mp placed
    constructor
    · intro place endpoints there
      rw [get_assign]
      split
      · rename_i same
        subst same
        rw [agrees endpoints there]
      · exact there
    · refine ⟨some transfer, read, ?_⟩
      rintro other ⟨⟩
      rw [get_assign, if_pos rfl]

theorem addTransfer_within (before whole : Transfers) (row : Dict) (bounded : Within before whole)
    (placed : Placed whole row) :
    ∃ after, addTransfer before row = .ok after ∧ Within after whole := by
  obtain ⟨found, read, known⟩ := placed
  cases found with
  | none => exact ⟨before, (addTransfer_ok _ _ _).mpr ⟨none, read, rfl⟩, bounded⟩
  | some transfer =>
    have here := known transfer rfl
    have agrees : ∀ existing ∈ before.get transfer.1, existing = transfer.2 := by
      intro existing there
      exact Option.some.inj ((bounded _ _ there).symm.trans here)
    refine ⟨_, (addTransfer_ok _ _ _).mpr
      ⟨some transfer, read, (placeTransfer_ok _ _ transfer).mpr ⟨agrees, rfl⟩⟩, ?_⟩
    intro place endpoints there
    rw [get_assign] at there
    split at there
    · rename_i same
      rw [same, ← Option.some.inj there, here]
    · exact bounded place endpoints there

theorem foldlM_placed (gathered : rows.foldlM addTransfer before = .ok after) :
    Within before after ∧ ∀ row ∈ rows, Placed after row := by
  induction rows generalizing before with
  | nil =>
    obtain rfl : before = after := Except.ok.inj gathered
    exact ⟨fun _ _ there => there, fun _ member => absurd member List.not_mem_nil⟩
  | cons row rest ih =>
    rw [List.foldlM_cons] at gathered
    obtain ⟨middle, added, gathered⟩ := (bind_ok _ _ _).mp gathered
    obtain ⟨first, found, read, known⟩ := addTransfer_placed before middle row added
    obtain ⟨later, others⟩ := ih middle gathered
    refine ⟨fun place endpoints there => later _ _ (first _ _ there), ?_⟩
    intro other member
    rcases List.mem_cons.mp member with rfl | member
    · exact ⟨found, read, fun transfer here => later _ _ (known transfer here)⟩
    · exact others other member

theorem foldlM_within (before whole : Transfers) (bounded : Within before whole)
    (placed : ∀ row ∈ rows, Placed whole row) :
    ∃ after, rows.foldlM addTransfer before = .ok after ∧ Within after whole := by
  induction rows generalizing before with
  | nil => exact ⟨before, rfl, bounded⟩
  | cons row rest ih =>
    obtain ⟨middle, added, bounded⟩ :=
      addTransfer_within before whole row bounded (placed row List.mem_cons_self)
    obtain ⟨after, gathered, bounded⟩ :=
      ih middle bounded fun other member => placed other (List.mem_cons_of_mem row member)
    refine ⟨after, ?_, bounded⟩
    rw [List.foldlM_cons]
    exact (bind_ok _ _ _).mpr ⟨middle, added, gathered⟩

theorem gather_same (rows others : List Dict) (transfers : Transfers)
    (gathered : gatherTransfers rows = .ok transfers)
    (forth : ∀ row ∈ others, ∃ twin ∈ rows, transferOf twin = transferOf row)
    (back : ∀ row ∈ rows, ∃ twin ∈ others, transferOf twin = transferOf row) :
    ∃ again, gatherTransfers others = .ok again ∧ again.get = transfers.get := by
  obtain ⟨-, placed⟩ := foldlM_placed rows .empty transfers gathered
  have empty : ∀ table : Transfers, Within .empty table := fun _ _ _ there => absurd there nofun
  obtain ⟨again, gatheredAgain, bounded⟩ := foldlM_within others .empty transfers (empty _) (by
    intro row member
    obtain ⟨twin, inside, same⟩ := forth row member
    obtain ⟨found, read, known⟩ := placed twin inside
    exact ⟨found, same ▸ read, known⟩)
  obtain ⟨-, placedAgain⟩ := foldlM_placed others .empty again gatheredAgain
  obtain ⟨third, gatheredThird, covers⟩ := foldlM_within rows .empty again (empty _) (by
    intro row member
    obtain ⟨twin, inside, same⟩ := back row member
    obtain ⟨found, read, known⟩ := placedAgain twin inside
    exact ⟨found, same ▸ read, known⟩)
  obtain rfl : third = transfers := Except.ok.inj (gatheredThird.symm.trans gathered)
  refine ⟨again, gatheredAgain, funext fun place => ?_⟩
  apply Option.ext
  intro endpoints
  exact ⟨bounded place endpoints, covers place endpoints⟩

variable (transfers : Transfers)

theorem candidates_pairwise (txHash : String) (tokenId : Int) :
    (candidates transfers txHash tokenId).Pairwise earlier :=
  List.pairwise_insertionSort earlier _

theorem mem_candidates (txHash : String) (tokenId : Int) (item : Int × Endpoints) :
    item ∈ candidates transfers txHash tokenId ↔
      transfers.get (txHash, tokenId, item.1) = some item.2 := by
  rw [candidates, List.mem_insertionSort, List.mem_map, get_some]
  constructor
  · rintro ⟨⟨⟨tx, token, index⟩, endpoints⟩, member, rfl⟩
    obtain ⟨inside, matching⟩ := List.mem_filter.mp member
    obtain ⟨rfl, rfl⟩ := of_decide_eq_true matching
    exact inside
  · intro inside
    exact ⟨_, List.mem_filter.mpr ⟨inside, by simp⟩, rfl⟩

theorem candidates_same (left right : Transfers) (same : left.get = right.get) (txHash : String)
    (tokenId : Int) : candidates left txHash tokenId = candidates right txHash tokenId := by
  have nodup : ∀ table : Transfers, (candidates table txHash tokenId).Nodup := by
    intro table
    rw [candidates, (List.perm_insertionSort earlier _).nodup_iff]
    refine (List.Nodup.of_map Prod.fst table.distinct).filter _ |>.map_on ?_
    rintro ⟨⟨tx, token, index⟩, ends⟩ inside ⟨⟨tx', token', index'⟩, ends'⟩ inside' equal
    have here := of_decide_eq_true (List.mem_filter.mp inside).2
    have there := of_decide_eq_true (List.mem_filter.mp inside').2
    simp only [Prod.mk.injEq] at here there equal ⊢
    exact ⟨⟨here.1.trans there.1.symm, here.2.trans there.2.symm, equal.1⟩, equal.2⟩
  have perm : (candidates left txHash tokenId).Perm (candidates right txHash tokenId) := by
    apply (List.perm_ext_iff_of_nodup (nodup left) (nodup right)).mpr
    intro item
    rw [mem_candidates, mem_candidates, same]
  refine List.Perm.eq_of_pairwise ?_ (candidates_pairwise _ _ _) (candidates_pairwise _ _ _) perm
  intro first second inLeft inRight le ge
  rw [mem_candidates, same, Int.le_antisymm le ge] at inLeft
  rw [mem_candidates] at inRight
  exact Prod.ext (Int.le_antisymm le ge) (Option.some.inj (inLeft.symm.trans inRight))

theorem repairRow_same (left right : Transfers) (same : left.get = right.get) (row : Dict) :
    repairRow left row = repairRow right row := by
  have equal : candidates left = candidates right := by
    funext txHash tokenId
    exact candidates_same left right same txHash tokenId
  rw [repairRow, repairRow, proofOf, proofOf, equal]

def SameBut (keys : List String) (row other : Dict) : Prop :=
  ∀ key ∉ keys, ∀ missing, other.getOr key missing = row.getOr key missing

def REPAIRED_KEYS : List String := ["owner", "identity_basis", "data"]

structure Repaired (row repaired : Dict) : Prop where
  keys : SameBut REPAIRED_KEYS row repaired
  data : ∃ data repairedData, row.get "data" = .dict data ∧
    repaired.get "data" = .dict repairedData ∧ SameBut ["identity_basis"] data repairedData
  owner : ∃ owner, repaired.get "owner" = .str owner ∧ owner ≠ ZERO_ADDRESS

theorem sameBut_set (keys : List String) (row : Dict) (key : String) (value : Value)
    (own : key ∈ keys) : SameBut keys row (row.set key value) := by
  intro other apart missing
  exact getOr_set_other row key other value missing fun same => apart (same ▸ own)

theorem SameBut.then {keys : List String} {row middle other : Dict}
    (first : SameBut keys row middle) (second : SameBut keys middle other) :
    SameBut keys row other :=
  fun key apart missing => (second key apart missing).trans (first key apart missing)

theorem SameBut.get {keys : List String} {row other : Dict} (same : SameBut keys row other)
    (key : String) (apart : key ∉ keys) : other.get key = row.get key :=
  same key apart .none

theorem attributed_sameBut (row data : Dict) (proof : Proof) :
    SameBut REPAIRED_KEYS row (attributed row data proof) :=
  ((sameBut_set _ _ _ _ (by decide)).then (sameBut_set _ _ _ _ (by decide))).then
    (sameBut_set _ _ _ _ (by decide))

theorem attributed_owner (row data : Dict) (proof : Proof) :
    (attributed row data proof).get "owner" = .str proof.owner := by
  rw [attributed, get_set_other _ _ _ _ (by decide), get_set_other _ _ _ _ (by decide),
    get_set_same]

theorem attributed_basis (row data : Dict) (proof : Proof) :
    (attributed row data proof).get "identity_basis" = .str proof.basis := by
  rw [attributed, get_set_other _ _ _ _ (by decide), get_set_same]

theorem attributed_data (row data : Dict) (proof : Proof) :
    (attributed row data proof).get "data" =
      .dict (Dict.set data "identity_basis" (.str proof.basis)) := by
  rw [attributed, get_set_same]

theorem proofOf_same (row other : Dict) (same : SameBut REPAIRED_KEYS row other) :
    proofOf transfers other = proofOf transfers row := by
  unfold proofOf custodied
  rw [same.get "protocol" (by decide), same.get "custody" (by decide),
    same.get "liquidity_delta" (by decide), same.get "token_id" (by decide),
    same.get "position_key" (by decide), same.get "tx_hash" (by decide),
    same.get "log_index" (by decide)]

theorem is_unique (value : Value) (left right : String) (first : value.is left)
    (second : value.is right) : left = right := by
  cases value with
  | str text =>
    simp only [Value.is, decide_eq_true_eq] at first second
    exact first.symm.trans second
  | _ => cases first

theorem transferOf_none (row : Dict) (core : (row.get "protocol").is "v4") :
    transferOf row = .ok none := by
  have other : ¬(row.get "protocol").is "nft" :=
    fun nft => absurd (is_unique _ _ _ core nft) (by decide)
  unfold transferOf
  rw [if_pos (.inl (by simpa using other))]
  rfl

theorem proofOf_some (row : Dict) (proof : Proof)
    (proved : proofOf transfers row = .ok (some proof)) :
    (row.get "protocol").is "v4" ∧ proof.owner ≠ ZERO_ADDRESS := by
  unfold proofOf at proved
  split at proved
  · cases proved
  · rename_i core
    simp only [not_or, Bool.not_eq_true, Bool.not_eq_false'] at core
    refine ⟨core.1, ?_⟩
    obtain ⟨tokenId, -, proved⟩ := (bind_ok _ _ _).mp proved
    obtain ⟨key, -, proved⟩ := (bind_ok _ _ _).mp proved
    split at proved
    · cases proved
    · obtain ⟨txHash, -, proved⟩ := (bind_ok _ _ _).mp proved
      split at proved
      · cases proved
      · obtain ⟨actionIndex, -, proved⟩ := (bind_ok _ _ _).mp proved
        dsimp only at proved
        split at proved
        · cases proved
        · rename_i nonzero
          obtain rfl := Option.some.inj (Except.ok.inj proved)
          exact nonzero

variable (row repaired : Dict)

theorem repairRow_some (returned : repairRow transfers row = .ok (some repaired)) :
    ∃ proof data, proofOf transfers row = .ok (some proof) ∧ row.get "data" = .dict data ∧
      repaired = attributed row data proof := by
  obtain ⟨found, proved, returned⟩ := (bind_ok _ _ _).mp returned
  cases found with
  | none => cases returned
  | some proof =>
    simp only [attributeOwner] at returned
    split at returned
    · rename_i data holds
      split at returned
      · cases returned
      · exact ⟨proof, data, proved, holds, (Option.some.inj (Except.ok.inj returned)).symm⟩
    · cases returned

theorem repaired_transfer (returned : repairRow transfers row = .ok (some repaired)) :
    transferOf repaired = transferOf row := by
  obtain ⟨proof, data, proved, -, rfl⟩ := repairRow_some transfers row repaired returned
  have core := (proofOf_some transfers row proof proved).1
  rw [transferOf_none row core, transferOf_none]
  rw [(attributed_sameBut row data proof).get "protocol" (by decide)]
  exact core

theorem repaired_fixed (returned : repairRow transfers row = .ok (some repaired)) :
    repairRow transfers repaired = .ok none := by
  obtain ⟨proof, data, proved, -, rfl⟩ := repairRow_some transfers row repaired returned
  have again := proofOf_same transfers row _ (attributed_sameBut row data proof)
  refine (bind_ok _ _ _).mpr ⟨some proof, again.trans proved, ?_⟩
  simp only [attributeOwner, attributed_data, attributed_owner, attributed_basis, get_set_same,
    is_str, and_self, if_true]
  rfl

theorem repaired_shape (returned : repairRow transfers row = .ok (some repaired)) :
    Repaired row repaired := by
  obtain ⟨proof, data, proved, holds, rfl⟩ := repairRow_some transfers row repaired returned
  refine ⟨attributed_sameBut row data proof, ?_, ?_⟩
  · exact ⟨data, _, holds, attributed_data row data proof, sameBut_set _ _ _ _ (by decide)⟩
  · exact ⟨proof.owner, attributed_owner row data proof, (proofOf_some transfers row proof proved).2⟩

def replaced (rows : List Dict) (outcome : List (Option Dict)) : List Dict :=
  List.zipWith (fun row verdict => verdict.getD row) rows outcome

theorem replaced_related {Related : Dict → Option Dict → Prop} {rows : List Dict}
    {outcome : List (Option Dict)} (related : List.Forall₂ Related rows outcome) :
    List.Forall₂ (fun row later => ∃ verdict, Related row verdict ∧ later = verdict.getD row) rows
      (replaced rows outcome) := by
  induction related with
  | nil => exact .nil
  | cons here _ ih => exact .cons ⟨_, here, rfl⟩ ih

theorem verdicts_ok (outcome : List (Option Dict)) :
    verdicts rows = .ok outcome ↔ ∃ transfers, gatherTransfers rows = .ok transfers ∧
      List.Forall₂ (fun row verdict => repairRow transfers row = .ok verdict) rows outcome := by
  unfold verdicts
  simp only [bind_ok, mapM_ok]

theorem repair_ok (rows changed : List Dict) : repairV4Owners rows = .ok changed ↔
    ∃ outcome, verdicts rows = .ok outcome ∧ changed = outcome.reduceOption := by
  unfold repairV4Owners
  cases verdicts rows with
  | error failure => simp [Except.map]
  | ok outcome => simp [Except.map, eq_comm]

theorem repair_replaced (outcome : List (Option Dict)) (done : verdicts rows = .ok outcome) :
    repairV4Owners (replaced rows outcome) = .ok [] := by
  obtain ⟨transfers, gathered, related⟩ := (verdicts_ok rows outcome).mp done
  have pairs := replaced_related related
  have same : ∀ row verdict, repairRow transfers row = .ok verdict →
      transferOf (verdict.getD row) = transferOf row := by
    rintro row (_ | repaired) returned
    · rfl
    · exact repaired_transfer transfers row repaired returned
  have fixed : ∀ row verdict, repairRow transfers row = .ok verdict →
      repairRow transfers (verdict.getD row) = .ok none := by
    rintro row (_ | repaired) returned
    · exact returned
    · exact repaired_fixed transfers row repaired returned
  obtain ⟨again, gatheredAgain, equal⟩ := gather_same rows (replaced rows outcome) transfers gathered
    (by
      intro later member
      obtain ⟨row, inside, verdict, returned, rfl⟩ := related_right pairs later member
      exact ⟨row, inside, (same row verdict returned).symm⟩)
    (by
      intro row member
      obtain ⟨later, inside, verdict, returned, rfl⟩ := related_left pairs row member
      exact ⟨_, inside, same row verdict returned⟩)
  apply (repair_ok _ _).mpr
  refine ⟨(replaced rows outcome).map fun _ => none, ?_, ?_⟩
  · apply (verdicts_ok _ _).mpr
    refine ⟨again, gatheredAgain, ?_⟩
    rw [List.forall₂_map_right_iff, List.forall₂_same]
    intro later member
    obtain ⟨row, inside, verdict, returned, rfl⟩ := related_right pairs later member
    rw [repairRow_same again transfers equal]
    exact fixed row verdict returned
  · induction replaced rows outcome with
    | nil => rfl
    | cons row rest ih => exact ih

theorem repair_perm (rows others : List Dict) (outcome : List (Option Dict))
    (done : verdicts rows = .ok outcome) (perm : others.Perm rows) :
    ∃ again, repairV4Owners others = .ok again ∧ again.Perm outcome.reduceOption := by
  obtain ⟨transfers, gathered, related⟩ := (verdicts_ok rows outcome).mp done
  obtain ⟨again, gatheredAgain, equal⟩ := gather_same rows others transfers gathered
    (fun row member => ⟨row, perm.mem_iff.mp member, rfl⟩)
    (fun row member => ⟨row, perm.mem_iff.mpr member, rfl⟩)
  obtain ⟨reordered, pairs, same⟩ := List.perm_comp_forall₂ perm related
  refine ⟨reordered.reduceOption, ?_, same.filterMap id⟩
  apply (repair_ok _ _).mpr
  refine ⟨reordered, (verdicts_ok _ _).mpr ⟨again, gatheredAgain, ?_⟩, rfl⟩
  refine pairs.imp ?_
  intro row verdict returned
  rw [repairRow_same again transfers equal]
  exact returned

/-- Repairs touch the owner and its basis only, name no zero owner, leave nothing to repair and
do not depend on the order of the rows. -/
theorem owners_repaired (rows changed : List Dict) (done : repairV4Owners rows = .ok changed) :
    ∃ outcome, verdicts rows = .ok outcome ∧ changed = outcome.reduceOption ∧
      List.Forall₂ (fun row verdict => ∀ repaired ∈ verdict, Repaired row repaired) rows outcome ∧
      repairV4Owners (replaced rows outcome) = .ok [] ∧
      ∀ others : List Dict, others.Perm rows →
        ∃ again, repairV4Owners others = .ok again ∧ again.Perm changed := by
  obtain ⟨outcome, judged, rfl⟩ := (repair_ok rows changed).mp done
  obtain ⟨transfers, -, related⟩ := (verdicts_ok rows outcome).mp judged
  refine ⟨outcome, judged, rfl, related.imp ?_, repair_replaced rows outcome judged,
    fun others perm => repair_perm rows others outcome judged perm⟩
  rintro row verdict returned repaired ⟨⟩
  exact repaired_shape transfers row repaired returned

/-! A position is minted after its core row: the transfer names its owner. -/

def sampleOwner : String := "0x00000000000000000000000000000000000000aa"

def sampleTx : String := "0x00000000000000000000000000000000000000000000000000000000000000f1"

def sampleFields (protocol kind : String) (logIndex : Int) (data : Dict) : Dict :=
  [("block_hash", .str sampleTx), ("tx_hash", .str sampleTx), ("log_index", .int logIndex),
    ("protocol", .str protocol), ("kind", .str kind), ("custody", .str V4_POSITION_MANAGER),
    ("token_id", .str "77"), ("position_key", .str ("nft:" ++ V4_POSITION_MANAGER ++ ":77")),
    ("owner", .none), ("identity_basis", .none), ("data", .dict data)]

def sampleCore : Dict :=
  ("liquidity_delta", .str "1000") :: sampleFields "v4" "modify_liquidity" 4 [("salt", .str "0x4d")]

def sampleMint : Dict :=
  sampleFields "nft" "transfer" 5
    [("prior_owner", .str ZERO_ADDRESS), ("new_owner", .str sampleOwner)]

def sampleRepaired : Dict :=
  attributed sampleCore [("salt", .str "0x4d")]
    { owner := sampleOwner, basis := "manager_mint_transfer_same_tx" }

theorem owners_repaired_mint :
    ∃ outcome, verdicts [sampleCore, sampleMint] = .ok outcome ∧
      [sampleRepaired] = outcome.reduceOption ∧
      List.Forall₂ (fun row verdict => ∀ repaired ∈ verdict, Repaired row repaired)
        [sampleCore, sampleMint] outcome ∧
      repairV4Owners (replaced [sampleCore, sampleMint] outcome) = .ok [] ∧
      ∀ others : List Dict, others.Perm [sampleCore, sampleMint] →
        ∃ again, repairV4Owners others = .ok again ∧ again.Perm [sampleRepaired] :=
  owners_repaired [sampleCore, sampleMint] [sampleRepaired] rfl

end RhPools.OwnerRepairs
