import RhPools.MarketTables
import RhPools.OffsetPaging

/-! Queries for the logs of a range of blocks. A query for one block that fails for its size,
or whose reply reaches the cap, is split by topics, then by addresses, and at last answered
from the receipts of the whole block. A provider may answer every call in its own way. -/

namespace RhPools.LogQueries
open BigEndian TxChain OrderedTables OffsetPaging
open EventWords (Hash bind_ok mapM_ok)
open MarketTables (Header)

def V4_INITIALIZE_TOPIC : Hash :=
  0xdd466e674ea557f56295e2d0218a125ea4b4f0f6f3307b95f85e6110838d6438#256
def V3_POOL_CREATED_TOPIC : Hash :=
  0x783cca1c0412dd0d695e784568c96da2e9c22ff989357a2e8b1d9b2b4e6b7118#256
def V3_POOL_CREATED_COMPACT_TOPIC : Hash :=
  0x97d23878912fda7f82bd5a8502f2c6e9086f5a4728f9054627788b3162f86ced#256
def SLIPSTREAM_POOL_CREATED_TOPIC : Hash :=
  0xab0d57f0df537bb25e80245ef7748fa62353808c54d6e528a9dd20887aed9ac2#256
def V2_PAIR_CREATED_TOPIC : Hash :=
  0x0d3648bd0f6ba80134a33ba9275ac585d9d315f0ad8355cddefde31afa28d0e9#256
def V2_SWAP_TOPIC : Hash :=
  0xd78ad95fa46c994b6551d0da85fc275fe613ce37657fb8d5e3d130840159d822#256
def V2_MINT_TOPIC : Hash :=
  0x4c209b5fc8ad50758f13e2e1088ba56a560dff690a1c6fef26394f4c03821c4f#256
def V2_BURN_TOPIC : Hash :=
  0xdccd412f0b1252819cb1fd330b93224ca42612892bb3f4f789976e6d81936496#256
def V2_SYNC_TOPIC : Hash :=
  0x1c411e9a96e071241c2f21f7726b17ae89e3cab4c78be50e062b03a9fffbbad1#256
def V3_INITIALIZE_TOPIC : Hash :=
  0x98636036cb66a9c19a37435efc1e90142190214e8abeb821bdba3f2990dd4c95#256
def V3_SWAP_TOPIC : Hash :=
  0xc42079f94a6350d7e6235f29174924f928cc2ac818eb64fed8004e115fbcca67#256
def CL_SWAP_EXTENDED_TOPIC : Hash :=
  0x19b47279256b2a23a1665c810c8d55a1758940ee09377d4f8d26497a3577dc83#256
def V3_MINT_TOPIC : Hash :=
  0x7a53080ba414158be7ec69b987b5fb7d07dee101fe85488f0853ae16239d0bde#256
def V3_BURN_TOPIC : Hash :=
  0x0c396cd989a39f4459b5fa1aed6a9a8dcdbc45908acfd67e028cd568da98982c#256
def V3_COLLECT_TOPIC : Hash :=
  0x70935338e69775456a85ddef226c395fb668b63fa0115f5f20610b388e6ca9c0#256
def V3_FLASH_TOPIC : Hash :=
  0xbdbdb71d7860376ba52b25a5028beea23581364a40522f6bcfb86bb1f2dca633#256
def V3_SET_FEE_PROTOCOL_TOPIC : Hash :=
  0x973d8d92bb299f4af6ce49b52a8adb85ae46b9f214c4c4fc06ac77401237b133#256
def PANCAKE_V3_SET_FEE_PROTOCOL_TOPIC : Hash :=
  0xb3159fed3ddfba67bae294599eafe2d0ec98c08bb38e0e5fb87d33154b6e05aa#256
def V3_COLLECT_PROTOCOL_TOPIC : Hash :=
  0x596b573906218d3411850b26a6b437d6c4522fdb43d2d2386263f86d50b8b151#256
def NFT_INCREASE_LIQUIDITY_TOPIC : Hash :=
  0x3067048beee31b25b2f1681f88dac838c8bba36af25bfb2b7cf7473a5847e35f#256
def NFT_DECREASE_LIQUIDITY_TOPIC : Hash :=
  0x26f6a048ee9138f2c0ce266f322cb99228e8d619ae2bff30c67f8dcf9d2377b4#256
def NFT_COLLECT_TOPIC : Hash :=
  0x40d0efd1a53d60ecbf40971b9daf7dc90178c3aadc7aab1765632738fa8b8f01#256
def V4_SWAP_TOPIC : Hash :=
  0x40e9cecb9f5f1f1c5b9c97dec2917b7ee92e57ba5563708daca94dd84ad7112f#256
def V4_MODIFY_LIQUIDITY_TOPIC : Hash :=
  0xf208f4912782fd25c7f114ca3723a2d5dd6f3bcc3ac8db5af63baa85f711d5ec#256
def V4_DONATE_TOPIC : Hash :=
  0x29ef05caaff9404b7cb6d1c0e9bbae9eaa7ab2541feba1a9c4248594c08156cb#256
def V4_PROTOCOL_FEE_UPDATED_TOPIC : Hash :=
  0xe9c42593e71f84403b84352cd168d693e2c9fcd1fdbcc3feb21d92b43e6696f9#256
def V4_PROTOCOL_FEE_CONTROLLER_UPDATED_TOPIC : Hash :=
  0xb4bd8ef53df690b9943d3318996006dbb82a25f54719d8c8035b516a2a5b8acc#256
def V4_MODIFY_POSITION_TOPIC : Hash :=
  0x54e5dca345d804c4bcfd2d92dae077325838444a21d118beb4d25ec99a5788e5#256
def TRANSFER_TOPIC : Hash :=
  0xddf252ad1be2c89b69c2b068fc378daa952ba7f163c4a11628f55a4df523b3ef#256

def NFT_EVENT_TOPICS : List Hash := [TRANSFER_TOPIC]

def EVENT_TOPICS : List Hash :=
  [V4_INITIALIZE_TOPIC, V3_POOL_CREATED_TOPIC, V3_POOL_CREATED_COMPACT_TOPIC,
    SLIPSTREAM_POOL_CREATED_TOPIC, V2_PAIR_CREATED_TOPIC, V2_SWAP_TOPIC, V2_MINT_TOPIC,
    V2_BURN_TOPIC, V2_SYNC_TOPIC, V3_INITIALIZE_TOPIC, V3_SWAP_TOPIC, CL_SWAP_EXTENDED_TOPIC,
    V3_MINT_TOPIC, V3_BURN_TOPIC, V3_COLLECT_TOPIC, V3_FLASH_TOPIC, V3_SET_FEE_PROTOCOL_TOPIC,
    PANCAKE_V3_SET_FEE_PROTOCOL_TOPIC, V3_COLLECT_PROTOCOL_TOPIC, NFT_INCREASE_LIQUIDITY_TOPIC,
    NFT_DECREASE_LIQUIDITY_TOPIC, NFT_COLLECT_TOPIC, V4_SWAP_TOPIC, V4_MODIFY_LIQUIDITY_TOPIC,
    V4_DONATE_TOPIC, V4_PROTOCOL_FEE_UPDATED_TOPIC, V4_PROTOCOL_FEE_CONTROLLER_UPDATED_TOPIC,
    V4_MODIFY_POSITION_TOPIC]

def UNISWAP_V3_POSITION_MANAGER : Address := 0x73991a25c818bf1f1128deaab1492d45638de0d3#160
def PANCAKE_V3_POSITION_MANAGER : Address := 0x46a15b0b27311cedf172ab29e4f4766fbe7f4364#160
def GIGA_V3_POSITION_MANAGER : Address := 0xa79f5775b0b49e51202c48ddf03f380faa96f641#160
def V4_POSITION_MANAGER : Address := 0x58daec3116aae6d93017baaea7749052e8a04fa7#160

def NFT_MANAGER_ADDRESSES : List Address :=
  [UNISWAP_V3_POSITION_MANAGER, PANCAKE_V3_POSITION_MANAGER, GIGA_V3_POSITION_MANAGER,
    V4_POSITION_MANAGER]

structure RpcError where
  code : Option Int
  message : String

def RANGE_FRAGMENTS : List String :=
  ["too many", "more than", "response size", "query returned", "block range", "limit exceeded",
    "request entity too large", "timeout"]

def RpcError.rangeTooLarge (error : RpcError) : Bool :=
  error.code = some (-32002) || error.code = some (-32005) || error.code = some (-32602) ||
    RANGE_FRAGMENTS.any fun fragment => fragment.toList <:+: error.message.toLower.toList

abbrev Rpc := Except RpcError

def rpcError (message : String) : RpcError := ⟨none, message⟩

abbrev Path := List Nat

structure Endpoint (Call Reply : Type) where
  call : Path → Call → Rpc Reply
  batch : Path → List Call → Rpc (List Reply)

def MAX_BATCH_CALLS : Nat := 100

section Batches
variable {Call Reply : Type}

def batchChunk (endpoint : Endpoint Call Reply) (path : Path) (calls : List Call) :
    Rpc (List Reply) := do
  let results ← endpoint.batch path calls
  if results.length ≠ calls.length then
    throw (rpcError "batch RPC returned an incomplete result set")
  return results

/-- Consecutive chunks of at most `size`. -/
def chunks {Item : Type} (size : Nat) (items : List Item) : List (List Item) :=
  (List.range ((items.length + size - 1) / size)).map fun page => slice (page * size) size items

/-- `_batch_on`. -/
def rpcBatch (endpoint : Endpoint Call Reply) (path : Path) (calls : List Call) :
    Rpc (List Reply) := do
  let results ← (chunks MAX_BATCH_CALLS calls).zipIdx.mapM fun chunk =>
    batchChunk endpoint (chunk.2 :: path) chunk.1
  return results.flatten

def requiredBatch (endpoint : Endpoint Call Reply) (path : Path) (calls : List Call) :
    Rpc (List Reply) :=
  match rpcBatch endpoint path calls with
  | .ok results => .ok results
  | .error _ => calls.zipIdx.mapM fun call => endpoint.call (call.2 :: path) call.1

end Batches

structure Log where
  address : Address
  topics : List Hash
  data : Bytes
  blockNumber : Int
  blockHash : Option Hash
  transactionHash : Hash
  transactionIndex : Int
  logIndex : Int
  deriving DecidableEq

structure LogRequest where
  fromBlock : Int
  toBlock : Int
  topics : List Hash
  address : Option (List Address)

/-- What a client answers; malformed results are `none`. -/
structure Client where
  getLogs : Path → LogRequest → Rpc (Option (List Log))
  transactionCount : Path → Int → Rpc Int
  transactions : Endpoint (Int × Nat) (Option Hash)
  receipts : Endpoint Hash (Option (List Log))

def MAX_LOGS_PER_RESPONSE : Nat := 10000

def named (addresses : Option (List Address)) : Option (List Address) :=
  addresses.filter (· ≠ [])

def selected (topics : List Hash) (addresses : Option (List Address)) (log : Log) : Bool :=
  log.topics.head?.any (· ∈ topics) && (named addresses).all (log.address ∈ ·)

def receiptChunk (client : Client) (path : Path) (blockNumber : Int) (indexes : List Nat)
    (topics : List Hash) (addresses : Option (List Address)) : Rpc (List Log) := do
  let transactions ← requiredBatch client.transactions (0 :: path)
    (indexes.map fun index => (blockNumber, index))
  let txHashes ← transactions.mapM fun transaction =>
    transaction.elim (throw (rpcError "indexed transaction fallback returned malformed data")) pure
  let receipts ← requiredBatch client.receipts (1 :: path) txHashes
  let logs ← receipts.mapM fun receipt =>
    receipt.elim (throw (rpcError "receipt fallback returned malformed logs")) pure
  return logs.flatten.filter (selected topics addresses)

def receiptLogs (client : Client) (path : Path) (blockNumber : Int) (topics : List Hash)
    (addresses : Option (List Address)) : Rpc (List Log) := do
  let count ← client.transactionCount path blockNumber
  if count < 0 then throw (rpcError "block transaction count is negative")
  let matched ← (chunks MAX_BATCH_CALLS (List.range count.toNat)).zipIdx.mapM fun indexes =>
    receiptChunk client (indexes.2 :: path) blockNumber indexes.1 topics addresses
  return matched.flatten

def width (topics : List Hash) (addresses : Option (List Address)) : Nat :=
  topics.length + (addresses.getD []).length

mutual

def splitSingleBlockLogs (client : Client) (path : Path) (blockNumber : Int)
    (topics : List Hash) (addresses : Option (List Address)) : Rpc (List Log) :=
  if 1 < topics.length then do
    let middle := topics.length / 2
    let first ← logQuery client (0 :: path) blockNumber blockNumber (topics.take middle) addresses
    let second ← logQuery client (1 :: path) blockNumber blockNumber (topics.drop middle) addresses
    return first ++ second
  else match addresses with
    | some list =>
      if 1 < list.length then do
        let middle := list.length / 2
        let first ← logQuery client (0 :: path) blockNumber blockNumber topics
          (some (list.take middle))
        let second ← logQuery client (1 :: path) blockNumber blockNumber topics
          (some (list.drop middle))
        return first ++ second
      else receiptLogs client path blockNumber topics (some list)
    | none => receiptLogs client path blockNumber topics none
termination_by 2 * width topics addresses
decreasing_by
  all_goals
    simp only [width, List.length_take, List.length_drop, Option.getD_some]
    omega

def logQuery (client : Client) (path : Path) (start stop : Int) (topics : List Hash)
    (addresses : Option (List Address)) : Rpc (List Log) :=
  if topics = [] then .ok []
  else match client.getLogs path ⟨start, stop, topics, named addresses⟩ with
    | .error failure =>
      if start = stop ∧ failure.rangeTooLarge then
        splitSingleBlockLogs client path start topics addresses
      else .error failure
    | .ok none => .error (rpcError "eth_getLogs returned a non-list or malformed log")
    | .ok (some result) =>
      if MAX_LOGS_PER_RESPONSE ≤ result.length then
        if start = stop then splitSingleBlockLogs client path start topics addresses
        else .error ⟨some (-32005), "eth_getLogs returned " ++ toString result.length ++
          " logs at safety threshold"⟩
      else .ok result
termination_by 2 * width topics addresses + 1

end

structure Chain where
  receipts : Int → List (Hash × List Log)
  placed : ∀ number, ∀ receipt ∈ receipts number, ∀ log ∈ receipt.2, log.blockNumber = number
  hashed : ∀ number, ∀ receipt ∈ receipts number, ∀ log ∈ receipt.2, log.blockHash ≠ none

def Chain.Has (chain : Chain) (log : Log) : Prop :=
  ∃ receipt ∈ chain.receipts log.blockNumber, log ∈ receipt.2

def Exact (chain : Chain) (start stop : Int) (topics : List Hash)
    (addresses : Option (List Address)) (logs : List Log) : Prop :=
  ∀ log, log ∈ logs ↔ chain.Has log ∧ start ≤ log.blockNumber ∧ log.blockNumber ≤ stop ∧
    selected topics addresses log = true

structure Endpoint.Answers {Call Reply : Type} (endpoint : Endpoint Call Reply)
    (right : Call → Reply → Prop) : Prop where
  call : ∀ path call reply, endpoint.call path call = .ok reply → right call reply
  batch : ∀ path calls replies, endpoint.batch path calls = .ok replies →
    ∀ pair ∈ calls.zip replies, right pair.1 pair.2

def Chain.transactionRight (chain : Chain) (call : Int × Nat) (reply : Option Hash) : Prop :=
  ∀ hash, reply = some hash → ((chain.receipts call.1)[call.2]?).map Prod.fst = some hash

def Chain.receiptRight (chain : Chain) (txHash : Hash) (reply : Option (List Log)) : Prop :=
  ∀ logs, reply = some logs → ∀ number, ∀ receipt ∈ chain.receipts number, receipt.1 = txHash →
    ∀ log, log ∈ logs ↔ log ∈ receipt.2

/-- A client of the chain: what it answers below the cap, and of receipts, is complete. Any
call may fail. -/
structure Client.Honest (client : Client) (chain : Chain) : Prop where
  logs : ∀ path request result, client.getLogs path request = .ok (some result) →
    result.length < MAX_LOGS_PER_RESPONSE →
      Exact chain request.fromBlock request.toBlock request.topics request.address result
  count : ∀ path number count, client.transactionCount path number = .ok count →
    count = (chain.receipts number).length
  transactions : client.transactions.Answers chain.transactionRight
  receipts : client.receipts.Answers chain.receiptRight

theorem chunks_flatten {Item : Type} (size : Nat) (positive : 0 < size) (items : List Item) :
    (chunks size items).flatten = items := by
  rw [chunks, ← List.flatMap_def, ← pages, pages_take]
  apply List.take_of_length_le
  have bound := Nat.div_add_mod (items.length + size - 1) size
  have rest := Nat.mod_lt (items.length + size - 1) positive
  rw [Nat.mul_comm] at bound
  omega

section Batches
variable {Call Reply : Type} {right : Call → Reply → Prop}

theorem forall₂_zipIdx {Item Result : Type} {R : Item → Result → Prop} (items : List Item)
    (results : List Result)
    (each : List.Forall₂ (fun item result => R item.1 result) items.zipIdx results) :
    List.Forall₂ R items results := by
  have mapped := (List.forall₂_map_left_iff (R := R) (f := Prod.fst)).mpr each
  rwa [List.zipIdx_map_fst] at mapped

variable (endpoint : Endpoint Call Reply)

theorem batchChunk_right (answers : endpoint.Answers right) (path : Path) (calls : List Call)
    (replies : List Reply) (answered : batchChunk endpoint path calls = .ok replies) :
    List.Forall₂ right calls replies := by
  unfold batchChunk at answered
  obtain ⟨results, asked, answered⟩ := (bind_ok _ _ _).mp answered
  split at answered
  · cases answered
  · rename_i same
    cases answered
    apply List.forall₂_iff_zip.mpr
    exact ⟨(not_not.mp same).symm, fun member => answers.batch path calls _ asked _ member⟩

theorem rpcBatch_right (answers : endpoint.Answers right) (path : Path) (calls : List Call)
    (replies : List Reply) (answered : rpcBatch endpoint path calls = .ok replies) :
    List.Forall₂ right calls replies := by
  unfold rpcBatch at answered
  obtain ⟨results, asked, same⟩ := (bind_ok _ _ _).mp answered
  cases same
  have each := forall₂_zipIdx (R := List.Forall₂ right) _ results
    (((mapM_ok _ _ _).mp asked).imp fun chunk result taken =>
      batchChunk_right endpoint answers _ chunk.1 result taken)
  have whole := List.rel_flatten each
  rwa [chunks_flatten MAX_BATCH_CALLS (by decide) calls] at whole

theorem requiredBatch_right (answers : endpoint.Answers right) (path : Path) (calls : List Call)
    (replies : List Reply) (answered : requiredBatch endpoint path calls = .ok replies) :
    List.Forall₂ right calls replies := by
  unfold requiredBatch at answered
  split at answered
  · rename_i results asked
    cases answered
    exact rpcBatch_right endpoint answers path calls _ asked
  · exact forall₂_zipIdx calls replies (((mapM_ok _ _ _).mp answered).imp
      fun call reply taken => answers.call _ call.1 reply taken)

end Batches

theorem forall₂_through {First Second Third : Type} {before : First → Second → Prop}
    {after : Second → Third → Prop} {firsts : List First} {seconds : List Second}
    {thirds : List Third} (left : List.Forall₂ before firsts seconds)
    (right : List.Forall₂ after seconds thirds) :
    List.Forall₂ (fun first third => ∃ second, before first second ∧ after second third)
      firsts thirds := by
  induction left generalizing thirds with
  | nil =>
    cases right
    exact .nil
  | cons here _ ih =>
    cases right with
    | cons there rest => exact .cons ⟨_, here, there⟩ (ih rest)

section Receipts
variable {client : Client} {chain : Chain}

def Chain.logsAt (chain : Chain) (number : Int) (index : Nat) (logs : List Log) : Prop :=
  ∃ receipt, (chain.receipts number)[index]? = some receipt ∧
    ∀ log, log ∈ logs ↔ log ∈ receipt.2

theorem required_given {Call Value : Type} (endpoint : Endpoint Call (Option Value))
    {right : Call → Option Value → Prop} (answers : endpoint.Answers right) (path : Path)
    (calls : List Call) (replies : List (Option Value)) (values : List Value) (text : String)
    (answered : requiredBatch endpoint path calls = .ok replies)
    (given : replies.mapM (fun reply => reply.elim (throw (rpcError text) : Rpc Value) pure) =
      .ok values) : List.Forall₂ (fun call value => right call (some value)) calls values := by
  have present : List.Forall₂ (fun reply value => reply = some value) replies values := by
    apply ((mapM_ok _ _ _).mp given).imp
    intro reply value taken
    cases reply with
    | none => cases taken
    | some held => rw [show held = value from Except.ok.inj taken]
  apply (forall₂_through (requiredBatch_right endpoint answers path calls replies answered)
    present).imp
  rintro call value ⟨reply, answer, rfl⟩
  exact answer

theorem receiptChunk_logs (honest : client.Honest chain) (path : Path) (number : Int)
    (indexes : List Nat) (topics : List Hash) (addresses : Option (List Address))
    (result : List Log)
    (answered : receiptChunk client path number indexes topics addresses = .ok result) :
    ∃ logs, List.Forall₂ (chain.logsAt number) indexes logs ∧
      result = logs.flatten.filter (selected topics addresses) := by
  unfold receiptChunk at answered
  obtain ⟨transactions, first, answered⟩ := (bind_ok _ _ _).mp answered
  obtain ⟨txHashes, named, answered⟩ := (bind_ok _ _ _).mp answered
  obtain ⟨receipts, second, answered⟩ := (bind_ok _ _ _).mp answered
  obtain ⟨logs, given, same⟩ := (bind_ok _ _ _).mp answered
  cases same
  have hashes := List.forall₂_map_left_iff.mp (required_given client.transactions
    honest.transactions _ _ transactions txHashes _ first named)
  have fetched := required_given client.receipts honest.receipts _ _ receipts logs _ second given
  refine ⟨logs, (forall₂_through hashes fetched).imp ?_, rfl⟩
  rintro index found ⟨txHash, right, complete⟩
  obtain ⟨receipt, there, rfl⟩ := Option.map_eq_some_iff.mp (right txHash rfl)
  exact ⟨receipt, there, complete found rfl number receipt (List.mem_of_getElem? there) rfl⟩

theorem chunked_logs {number : Int} (topics : List Hash) (addresses : Option (List Address))
    (groups : List (List Nat)) (matched : List (List Log))
    (each : List.Forall₂ (fun indexes result => ∃ logs,
      List.Forall₂ (chain.logsAt number) indexes logs ∧
        result = logs.flatten.filter (selected topics addresses)) groups matched) :
    ∃ logs, List.Forall₂ (chain.logsAt number) groups.flatten logs ∧
      matched.flatten = logs.flatten.filter (selected topics addresses) := by
  induction each with
  | nil => exact ⟨[], .nil, rfl⟩
  | cons here _ ih =>
    obtain ⟨logs, taken, rfl⟩ := here
    obtain ⟨others, rest, same⟩ := ih
    refine ⟨logs ++ others, List.rel_append taken rest, ?_⟩
    rw [List.flatten_cons, same, List.flatten_append, List.filter_append]

theorem receiptLogs_exact (honest : client.Honest chain) (path : Path) (number : Int)
    (topics : List Hash) (addresses : Option (List Address)) (result : List Log)
    (answered : receiptLogs client path number topics addresses = .ok result) :
    Exact chain number number topics addresses result := by
  unfold receiptLogs at answered
  obtain ⟨count, counted, answered⟩ := (bind_ok _ _ _).mp answered
  have whole := honest.count path number count counted
  split at answered
  · cases answered
  · obtain ⟨matched, each, same⟩ := (bind_ok _ _ _).mp answered
    cases same
    have fetched := forall₂_zipIdx (R := fun indexes result =>
      ∃ logs, List.Forall₂ (chain.logsAt number) indexes logs ∧
        result = logs.flatten.filter (selected topics addresses)) _ matched
      (((mapM_ok _ _ _).mp each).imp fun indexes result taken =>
        receiptChunk_logs honest _ number indexes.1 topics addresses result taken)
    obtain ⟨logs, taken, same⟩ := chunked_logs topics addresses _ matched fetched
    rw [chunks_flatten MAX_BATCH_CALLS (by decide)] at taken
    intro log
    rw [same, List.mem_filter, List.mem_flatten]
    constructor
    · rintro ⟨⟨part, member, inside⟩, chosen⟩
      obtain ⟨index, -, receipt, there, complete⟩ := EventWords.related_right taken part member
      have known := List.mem_of_getElem? there
      have carried := (complete log).mp inside
      have here := chain.placed number receipt known log carried
      exact ⟨⟨receipt, here ▸ known, carried⟩, here.ge, here.le, chosen⟩
    · rintro ⟨⟨receipt, known, carried⟩, low, high, chosen⟩
      obtain rfl := le_antisymm high low
      obtain ⟨index, short, rfl⟩ := List.mem_iff_getElem.mp known
      have listed : index ∈ List.range count.toNat := List.mem_range.mpr (by omega)
      obtain ⟨part, member, receipt, there, complete⟩ := EventWords.related_left taken index listed
      rw [List.getElem?_eq_getElem short, Option.some.injEq] at there
      exact ⟨⟨part, member, (complete log).mpr (there ▸ carried)⟩, chosen⟩

theorem mem_halves {Item : Type} [DecidableEq Item] (items : List Item) (middle : Nat)
    (item : Item) : decide (item ∈ items) =
      (decide (item ∈ items.take middle) || decide (item ∈ items.drop middle)) := by
  rw [Bool.eq_iff_iff, Bool.or_eq_true, decide_eq_true_eq, decide_eq_true_eq, decide_eq_true_eq,
    ← List.mem_append, List.take_append_drop]

theorem selected_topics (topics : List Hash) (middle : Nat) (addresses : Option (List Address))
    (log : Log) : selected topics addresses log =
      (selected (topics.take middle) addresses log ||
        selected (topics.drop middle) addresses log) := by
  unfold selected
  cases log.topics.head? with
  | none => rfl
  | some topic =>
    simp only [Option.any_some, mem_halves topics middle topic, Bool.and_or_distrib_right]

theorem named_named (addresses : Option (List Address)) : named (named addresses) =
    named addresses := by
  cases addresses with
  | none => rfl
  | some list => by_cases empty : list = [] <;> simp [named, empty]

theorem selected_addresses (topics : List Hash) (middle : Nat) (list : List Address) (log : Log)
    (positive : 0 < middle) (short : middle < list.length) : selected topics (some list) log =
      (selected topics (some (list.take middle)) log ||
        selected topics (some (list.drop middle)) log) := by
  have whole : list ≠ [] := List.ne_nil_of_length_pos (by omega)
  have first : list.take middle ≠ [] :=
    List.ne_nil_of_length_pos (by rw [List.length_take]; omega)
  have second : list.drop middle ≠ [] :=
    List.ne_nil_of_length_pos (by rw [List.length_drop]; omega)
  unfold selected
  simp only [named, Option.filter_some, whole, first, second, decide_true, ne_eq,
    not_false_eq_true, ↓reduceIte, Option.all_some, mem_halves list middle log.address,
    Bool.and_or_distrib_left]

theorem exact_append {start stop : Int} {topics first second : List Hash}
    {addresses one other : Option (List Address)} {logs rest : List Log}
    (left : Exact chain start stop first one logs)
    (right : Exact chain start stop second other rest)
    (parts : ∀ log, selected topics addresses log =
      (selected first one log || selected second other log)) :
    Exact chain start stop topics addresses (logs ++ rest) := by
  intro log
  rw [List.mem_append, left log, right log, parts log, Bool.or_eq_true]
  tauto

theorem splitSingleBlockLogs_exact (honest : client.Honest chain) (path : Path) (number : Int)
    (topics : List Hash) (addresses : Option (List Address)) (result : List Log)
    (queries : ∀ path part list logs, width part list < width topics addresses →
      logQuery client path number number part list = .ok logs →
        Exact chain number number part list logs)
    (answered : splitSingleBlockLogs client path number topics addresses = .ok result) :
    Exact chain number number topics addresses result := by
  rw [splitSingleBlockLogs.eq_def] at answered
  split at answered
  · rename_i several
    obtain ⟨first, one, answered⟩ := (bind_ok _ _ _).mp answered
    obtain ⟨second, other, same⟩ := (bind_ok _ _ _).mp answered
    cases same
    refine exact_append (queries _ _ _ first ?_ one) (queries _ _ _ second ?_ other)
      (selected_topics topics _ addresses)
    · rw [width, width, List.length_take]
      omega
    · rw [width, width, List.length_drop]
      omega
  · cases addresses with
    | none => exact receiptLogs_exact honest path number topics none result answered
    | some list =>
      dsimp only at answered
      split at answered
      · rename_i several
        obtain ⟨first, one, answered⟩ := (bind_ok _ _ _).mp answered
        obtain ⟨second, other, same⟩ := (bind_ok _ _ _).mp answered
        cases same
        refine exact_append (queries _ _ _ first ?_ one) (queries _ _ _ second ?_ other)
          fun log => selected_addresses topics _ list log (by omega) (by omega)
        · simp only [width, Option.getD_some, List.length_take]
          omega
        · simp only [width, Option.getD_some, List.length_drop]
          omega
      · exact receiptLogs_exact honest path number topics (some list) result answered

theorem logQuery_exact (honest : client.Honest chain) (path : Path) (start stop : Int)
    (topics : List Hash) (addresses : Option (List Address)) (result : List Log)
    (answered : logQuery client path start stop topics addresses = .ok result) :
    Exact chain start stop topics addresses result := by
  induction size : width topics addresses using Nat.strong_induction_on
    generalizing path start stop topics addresses result with
  | _ size ih =>
    subst size
    have split : ∀ result, start = stop →
        splitSingleBlockLogs client path start topics addresses = .ok result →
          Exact chain start stop topics addresses result := by
      rintro result rfl splitted
      exact splitSingleBlockLogs_exact honest path start topics addresses result
        (fun path part list logs smaller asked => ih _ smaller path start start part list logs
          asked rfl) splitted
    rw [logQuery] at answered
    split at answered
    · rename_i none
      cases answered
      intro log
      simp [selected, none]
    · split at answered
      · split at answered
        · rename_i single
          exact split result single.1 answered
        · cases answered
      · cases answered
      · rename_i found asked
        split at answered
        · split at answered
          · rename_i single
            exact split result single answered
          · cases answered
        · rename_i below
          cases answered
          have complete := honest.logs path _ _ asked (not_le.mp below)
          intro log
          have matched := complete log
          rwa [selected, named_named] at matched

end Receipts

end RhPools.LogQueries
