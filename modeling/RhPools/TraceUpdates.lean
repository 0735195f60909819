import Mathlib.Data.List.ReduceOption
import RhPools.CallTrees
import RhPools.EventWords
import RhPools.OrderedTables

/-! Receipt logs against call traces. The return values of a `modifyLiquidity` call are
only in the trace, and its event only in the receipt. Calls and logs with equal event
bytes are paired by their order: frame paths on one side, log indices on the other. -/

namespace RhPools.TraceUpdates
open BigEndian TxChain EventWords CallTrees OrderedTables

inductive CallType where
  | call | staticCall | delegateCall | callCode | create | create2 | selfDestruct
  deriving DecidableEq, Repr

/-- A frame of `callTracer`, its logs and calls aside. -/
structure Call where
  type : Option CallType
  fromAddress : Option Address
  toAddress : Option Address
  input : Option Bytes
  output : Option Bytes
  error : Option String
  revertReason : Option String
  deriving Repr

def truthy (text : Option String) : Bool := text.any (· ≠ "")

def Call.failed (call : Call) : Bool := truthy call.error || truthy call.revertReason

structure ReceiptLog extends Log where
  logIndex : Int
  transactionHash : Hash
  blockHash : Hash
  deriving Repr

structure Receipt where
  status : Int
  transactionHash : Hash
  blockHash : Hash
  logs : Option (List ReceiptLog)
  deriving Repr

abbrev Identity := Hash × Hash × Int

def ReceiptLog.identity (log : ReceiptLog) : Identity :=
  (log.blockHash, log.transactionHash, log.logIndex)

abbrev LogKey := Address × List Bytes × Bytes

def traceLogKey (log : Log) : LogKey := (log.address, log.topics, log.data)

def isModifyLiquidity (log : Log) : Bool :=
  topic0 log = some V4_MODIFY_LIQUIDITY_TOPIC && log.address = POOL_MANAGER

def v4PoolId (eth : Eth) (token0 token1 : Address) (fee spacing : Int) (hook : Address) : Hash :=
  eth.keccak (toBytes 32 token0.toNat ++ toBytes 32 token1.toNat ++ toBytes 32 fee.toNat ++
    toBytes 32 (if 0 ≤ spacing then spacing else 2 ^ 256 + spacing).toNat ++
    toBytes 32 hook.toNat)

def signed128 (word : Nat) : Int :=
  if word ≥ 2 ^ 127 then word - 2 ^ 128 else word

def decodeBalanceDelta (word : Nat) : Int × Int :=
  (signed128 (word / 2 ^ 128 % 2 ^ 128), signed128 (word % 2 ^ 128))

structure ModifyCall where
  poolId : Hash
  token0 : Address
  token1 : Address
  configuredFee : Int
  tickSpacing : Int
  hook : Address
  tickLower : Int
  tickUpper : Int
  liquidityDelta : Int
  salt : Hash
  callerDelta0 : Int
  callerDelta1 : Int
  feesAccrued0 : Int
  feesAccrued1 : Int
  deriving DecidableEq, Repr

def decodeModifyCall (eth : Eth) (frame : Call) : Decode ModifyCall := do
  let raw ← rawHex frame.input "modifyLiquidity trace input"
  if raw.length < 4 ∨ raw.take 4 ≠ MODIFY_LIQUIDITY_SELECTOR then
    throw "trace frame is not canonical modifyLiquidity"
  let args := raw.drop 4
  if args.length < 11 * 32 ∨ args.length % 32 ≠ 0 then
    throw "modifyLiquidity calldata is truncated"
  let word (index : Nat) : Nat := (wordsOf args).getD index 0
  let token0 ← wordAddress (word 0) "modifyLiquidity currency0"
  let token1 ← wordAddress (word 1) "modifyLiquidity currency1"
  let fee ← uint (word 2) 24 "modifyLiquidity fee"
  let spacing ← sint (word 3) 24 "modifyLiquidity tick spacing"
  let hook ← wordAddress (word 4) "modifyLiquidity hook"
  let lower ← sint (word 5) 24 "modifyLiquidity tickLower"
  let upper ← sint (word 6) 24 "modifyLiquidity tickUpper"
  let liquidityDelta ← sint (word 7) 256 "modifyLiquidity liquidityDelta"
  let salt := BitVec.ofNat 256 (word 8)
  let offset := word 9
  if offset ≠ 10 * 32 then throw "modifyLiquidity hookData has non-canonical offset"
  let size := word 10
  let padded := (size + 31) / 32 * 32
  if args.length ≠ offset + 32 + padded then
    throw "modifyLiquidity hookData length is inconsistent"
  if (args.drop (offset + 32 + size)).any (· ≠ 0) then
    throw "modifyLiquidity hookData padding is non-zero"
  let output ← rawHex frame.output "modifyLiquidity trace output"
  if output.length ≠ 64 then
    throw "modifyLiquidity must return exactly two BalanceDelta words"
  let (caller0, caller1) := decodeBalanceDelta (ofBytes (output.take 32))
  let (fees0, fees1) := decodeBalanceDelta (ofBytes (output.drop 32))
  return { poolId := v4PoolId eth token0 token1 fee spacing hook
           token0 := token0, token1 := token1, configuredFee := fee
           tickSpacing := spacing, hook := hook
           tickLower := lower, tickUpper := upper
           liquidityDelta := liquidityDelta, salt := salt
           callerDelta0 := caller0, callerDelta1 := caller1
           feesAccrued0 := fees0, feesAccrued1 := fees1 }

abbrev EventKey := Hash × Address × Int × Int × Int × Hash

def eventValues (log : Log) : Decode EventKey := do
  let words ← words log.data "traced ModifyLiquidity event" (some 4)
  match log.topics with
  | [_, pool, sender] =>
    return (← hash pool "traced pool id", ← topicAddress sender "traced sender",
      ← sint (words.getD 0 0) 24 "traced tickLower",
      ← sint (words.getD 1 0) 24 "traced tickUpper",
      ← sint (words.getD 2 0) 256 "traced liquidityDelta",
      BitVec.ofNat 256 (words.getD 3 0))
  | _ => throw "traced ModifyLiquidity event topics are malformed"

/-- The turn of the loop over the walk: nothing, or what it adds to `calls_by_key`. -/
def traceCall (eth : Eth) (visit : Visit Call Log) :
    Decode (Option (LogKey × Path × ModifyCall)) := do
  let frame := visit.frame.head
  if (frame.input.getD []).take 4 ≠ MODIFY_LIQUIDITY_SELECTOR then return none
  if frame.toAddress ≠ some POOL_MANAGER then return none
  if visit.failed then return none
  if frame.type.getD .call ≠ .call then throw "modifyLiquidity trace frame is not CALL"
  let decoded ← decodeModifyCall eth frame
  match visit.frame.logs.filter isModifyLiquidity with
  | [eventLog] =>
    let event ← eventValues eventLog
    let callFrom ← address frame.fromAddress "modifyLiquidity caller"
    if event ≠ (decoded.poolId, callFrom, decoded.tickLower, decoded.tickUpper,
        decoded.liquidityDelta, decoded.salt) then
      throw "modifyLiquidity trace call/event key mismatch"
    return some (traceLogKey eventLog, visit.path, decoded)
  | _ => throw "successful modifyLiquidity call did not emit exactly one core event"

section
variable {Key Item : Type} [DecidableEq Key]

/-- A `defaultdict(list)`: the groups in the order of their first items. -/
def grouped (items : List (Key × Item)) : List (Key × List Item) :=
  (items.map Prod.fst).eraseDups.map fun key =>
    (key, (items.filter fun item => item.1 = key).map Prod.snd)

def groupOf (groups : List (Key × List Item)) (key : Key) : List Item :=
  ((groups.find? fun group => group.1 = key).map Prod.snd).getD []

end

def pairUpdate (receipt : Receipt) (pair : (Path × ModifyCall) × ReceiptLog) :
    Decode (Identity × ModifyCall) :=
  if pair.2.transactionHash ≠ receipt.transactionHash ∨ pair.2.blockHash ≠ receipt.blockHash then
    throw "trace/receipt log identity mismatch"
  else return ((receipt.blockHash, receipt.transactionHash, pair.2.logIndex), pair.1.2)

def groupUpdates (receipt : Receipt) (matching : List (LogKey × List ReceiptLog))
    (group : LogKey × List (Path × ModifyCall)) : Decode (List (Identity × ModifyCall)) := do
  let receiptGroup := groupOf matching group.1
  if group.2.length ≠ receiptGroup.length then
    throw "ambiguous trace/receipt ModifyLiquidity correlation"
  if ¬group.2.Pairwise fun left right => ¬Nested left.1 right.1 then
    throw "ambiguous nested duplicate ModifyLiquidity trace key"
  let calls := group.2.insertionSort fun left right => left.1 ≤ right.1
  let logs := receiptGroup.insertionSort fun left right => left.logIndex ≤ right.logIndex
  (calls.zip logs).mapM (pairUpdate receipt)

def traceUpdates (eth : Eth) (receipt : Receipt) (trace : Trace Call Log) :
    Decode (OrderedTable Identity ModifyCall) := do
  if receipt.status ≠ 1 then return .empty
  match receipt.logs with
  | none => throw "receipt logs are unavailable for trace correlation"
  | some receiptLogs =>
    let matching := grouped ((receiptLogs.filter fun log => isModifyLiquidity log.toLog).map
      fun log => (traceLogKey log.toLog, log))
    let calls ← (walkTrace Call.failed [] false trace).mapM (traceCall eth)
    let callsByKey := grouped calls.reduceOption
    if matching.isEmpty && callsByKey.isEmpty then return .empty
    if callsByKey.isEmpty then
      throw "trace omitted successful receipt modifyLiquidity calls"
    let updates ← callsByKey.mapM (groupUpdates receipt matching)
    if matching.any fun group => !callsByKey.any fun calls => calls.1 = group.1 then
      throw "receipt contains uncorrelated successful ModifyLiquidity event"
    return OrderedTable.empty.putAll updates.flatten

section
variable {Key Item : Type} [DecidableEq Key]

variable (items : List (Key × Item))

theorem mem_grouped (group : Key × List Item) :
    group ∈ grouped items ↔ group.1 ∈ items.map Prod.fst ∧
      group.2 = (items.filter fun item => item.1 = group.1).map Prod.snd := by
  simp only [grouped, List.mem_map, List.mem_eraseDups]
  constructor
  · rintro ⟨key, known, rfl⟩
    exact ⟨known, rfl⟩
  · rintro ⟨known, same⟩
    exact ⟨group.1, known, by rw [← same]⟩

theorem grouped_key (key : Key) (known : key ∈ items.map Prod.fst) :
    ∃ group ∈ grouped items, group.1 = key :=
  ⟨(key, (items.filter fun item => item.1 = key).map Prod.snd),
    (mem_grouped items _).mpr ⟨known, rfl⟩, rfl⟩

theorem groupOf_grouped (key : Key) :
    groupOf (grouped items) key = (items.filter fun item => item.1 = key).map Prod.snd := by
  unfold groupOf
  cases found : (grouped items).find? fun group => group.1 = key with
  | none =>
    have absent : ∀ item ∈ items, item.1 ≠ key := by
      intro item member same
      obtain ⟨group, listed, here⟩ :=
        grouped_key items key (List.mem_map.mpr ⟨item, member, same⟩)
      exact List.find?_eq_none.mp found group listed (decide_eq_true here)
    rw [List.filter_eq_nil_iff.mpr fun item member => by simpa using absent item member]
    rfl
  | some group =>
    have here : group.1 = key := by simpa using List.find?_some found
    have member := (mem_grouped items group).mp (List.mem_of_find?_eq_some found)
    rw [← here]
    exact member.2

end

theorem traceCall_some (eth : Eth) (visit : Visit Call Log)
    (entry : LogKey × Path × ModifyCall) (read : traceCall eth visit = .ok (some entry)) :
    visit.failed = false ∧ entry.2.1 = visit.path ∧
      decodeModifyCall eth visit.frame.head = .ok entry.2.2 ∧
      ∃ log ∈ visit.frame.logs, isModifyLiquidity log ∧ traceLogKey log = entry.1 := by
  simp only [traceCall] at read
  split at read
  · cases read
  split at read
  · cases read
  split at read
  · cases read
  rename_i alive
  split at read
  · cases read
  obtain ⟨decoded, call, read⟩ := (bind_ok _ _ _).mp read
  split at read
  · rename_i log only
    obtain ⟨event, -, read⟩ := (bind_ok _ _ _).mp read
    obtain ⟨callFrom, -, read⟩ := (bind_ok _ _ _).mp read
    split at read
    · cases read
    · cases read
      have kept : log ∈ visit.frame.logs.filter isModifyLiquidity := by simp [only]
      obtain ⟨member, core⟩ := List.mem_filter.mp kept
      exact ⟨by simpa using alive, rfl, call, log, member, core, rfl⟩
  · cases read

def collected (eth : Eth) (visit : Visit Call Log) : Option (LogKey × Path × ModifyCall) :=
  match traceCall eth visit with
  | .ok entry => entry
  | .error _ => none

theorem collected_some (eth : Eth) (visit : Visit Call Log)
    (entry : LogKey × Path × ModifyCall) :
    collected eth visit = some entry ↔ traceCall eth visit = .ok (some entry) := by
  unfold collected
  split <;> rename_i read <;> simp [read]

theorem reduceOption_mapM (eth : Eth) (visits : List (Visit Call Log))
    (results : List (Option (LogKey × Path × ModifyCall)))
    (read : visits.mapM (traceCall eth) = .ok results) :
    results.reduceOption = visits.filterMap (collected eth) := by
  induction (mapM_ok _ _ _).mp read with
  | nil => rfl
  | @cons visit result visits results here later ih =>
    have same : collected eth visit = result := by simp [collected, here]
    cases result with
    | none =>
      rw [List.reduceOption_cons_of_none, List.filterMap_cons_none same]
      exact ih ((mapM_ok _ _ _).mpr later)
    | some entry =>
      rw [List.reduceOption_cons_of_some, List.filterMap_cons_some same]
      exact congrArg (entry :: ·) (ih ((mapM_ok _ _ _).mpr later))

theorem zip_mapM {Left Right Row Out : Type} {Related : Left → Row → Prop}
    (view : Row → Right) (step : Left × Right → Decode Out) (lefts : List Left)
    (rows : List Row) (outs : List Out) (aligned : List.Forall₂ Related lefts rows)
    (ran : (lefts.zip (rows.map view)).mapM step = .ok outs) :
    List.Forall₂ (fun row out => ∃ left, Related left row ∧ step (left, view row) = .ok out)
      rows outs := by
  rw [mapM_ok] at ran
  induction aligned generalizing outs with
  | nil =>
    rw [List.zip_nil_left, List.forall₂_nil_left_iff] at ran
    exact ran ▸ .nil
  | @cons left row lefts rows here later ih =>
    rw [List.map_cons, List.zip_cons_cons, List.forall₂_cons_left_iff] at ran
    obtain ⟨out, others, done, tail, rfl⟩ := ran
    exact .cons ⟨left, here, done⟩ (ih others tail)

theorem pairUpdate_ok (receipt : Receipt) (pair : (Path × ModifyCall) × ReceiptLog)
    (entry : Identity × ModifyCall) (paired : pairUpdate receipt pair = .ok entry) :
    entry = (pair.2.identity, pair.1.2) := by
  unfold pairUpdate at paired
  split at paired
  · cases paired
  · rename_i same
    simp only [ne_eq, not_or, not_not] at same
    cases paired
    rw [ReceiptLog.identity, same.1, same.2]

/-- The receipt of a transaction that succeeded lists the logs that survive, in execution
order, under increasing indices. -/
structure Receipt.Records (receipt : Receipt) (logs : List ReceiptLog)
    (transaction : Frame Call Log) : Prop where
  succeeded : receipt.status = 1
  present : receipt.logs = some logs
  listed : logs.map ReceiptLog.toLog = (transaction.emitted Call.failed).map Emission.log
  increasing : logs.Pairwise fun earlier later => earlier.logIndex < later.logIndex

def recorded (logs : List ReceiptLog) (transaction : Frame Call Log) :
    List (ReceiptLog × Emission Call Log) :=
  logs.zip (transaction.emitted Call.failed)

section
variable {receipt : Receipt} {logs : List ReceiptLog} {transaction : Frame Call Log}
  (records : receipt.Records logs transaction)
include records

theorem recorded_length : logs.length = (transaction.emitted Call.failed).length := by
  simpa using congrArg List.length records.listed

theorem recorded_logs : (recorded logs transaction).map Prod.fst = logs :=
  List.map_fst_zip (recorded_length records).le

theorem recorded_emissions :
    (recorded logs transaction).map Prod.snd = transaction.emitted Call.failed :=
  List.map_snd_zip (recorded_length records).ge

theorem recorded_same (pair : ReceiptLog × Emission Call Log)
    (member : pair ∈ recorded logs transaction) : pair.1.toLog = pair.2.log := by
  have alike : List.Forall₂ (fun log emission => log.toLog = emission.log) logs
      (transaction.emitted Call.failed) := by
    have equal : List.Forall₂ Eq (logs.map ReceiptLog.toLog)
        ((transaction.emitted Call.failed).map Emission.log) :=
      records.listed ▸ List.forall₂_same.mpr fun log _ => rfl
    rwa [List.forall₂_map_left_iff, List.forall₂_map_right_iff] at equal
  exact List.forall₂_zip alike member

theorem recorded_unique (first second : ReceiptLog × Emission Call Log)
    (here : first ∈ recorded logs transaction) (there : second ∈ recorded logs transaction)
    (same : first.1.identity = second.1.identity) : first = second := by
  have distinct : ((recorded logs transaction).map fun pair => pair.1.logIndex).Nodup := by
    have increasing := records.increasing
    rw [← recorded_logs records, List.pairwise_map] at increasing
    exact List.pairwise_map.mpr (increasing.imp ne_of_lt)
  exact List.inj_on_of_nodup_map distinct here there (congrArg (fun name => name.2.2) same)

variable {eth : Eth} {cleared : Bool} {calls : List (LogKey × Path × ModifyCall)}
  (walked : (walkTrace Call.failed [] false (transaction.trace Call.failed cleared)).filterMap
    (collected eth) = calls)
include walked

def alike (logs : List ReceiptLog) (transaction : Frame Call Log) (key : LogKey) :
    List (ReceiptLog × Emission Call Log) :=
  (recorded logs transaction).filter fun pair =>
    isModifyLiquidity pair.1.toLog && traceLogKey pair.1.toLog = key

variable (key : LogKey) (entry : LogKey × Path × ModifyCall)

omit records in
theorem call_visited (member : entry ∈ calls) :
    ∃ visit ∈ walkTrace Call.failed [] false (transaction.trace Call.failed cleared),
      traceCall eth visit = .ok (some entry) := by
  rw [← walked] at member
  obtain ⟨visit, here, read⟩ := List.mem_filterMap.mp member
  exact ⟨visit, here, (collected_some eth visit entry).mp read⟩

omit records in
theorem calls_sorted : calls.Pairwise fun first second => first.2.1 < second.2.1 := by
  rw [← walked, List.pairwise_filterMap]
  apply (walkTrace_sorted Call.failed cleared transaction).imp
  intro first second before left leftRead right rightRead
  have leftPath := (traceCall_some eth first left ((collected_some _ _ _).mp leftRead)).2.1
  have rightPath := (traceCall_some eth second right ((collected_some _ _ _).mp rightRead)).2.1
  rwa [leftPath, rightPath]

omit records in
theorem call_decoded (member : entry ∈ calls) (emission : Emission Call Log)
    (emitted : emission ∈ transaction.emitted Call.failed) (same : emission.path = entry.2.1) :
    decodeModifyCall eth emission.head = .ok entry.2.2 := by
  obtain ⟨visit, here, read⟩ := call_visited walked entry member
  obtain ⟨alive, path, decoded, -⟩ := traceCall_some eth visit entry read
  have found : emission ∈ (transaction.emitted Call.failed).filter
      fun emission => emission.path = visit.path :=
    List.mem_filter.mpr ⟨emitted, by simp [same, path]⟩
  rw [emitted_at Call.failed cleared transaction visit here alive] at found
  obtain ⟨log, -, rfl⟩ := List.mem_map.mp found
  exact decoded

theorem call_recorded (member : entry ∈ calls) :
    ∃ pair ∈ alike logs transaction entry.1, pair.2.path = entry.2.1 := by
  obtain ⟨visit, here, read⟩ := call_visited walked entry member
  obtain ⟨alive, path, -, log, kept, core, key⟩ := traceCall_some eth visit entry read
  have found : (⟨visit.path, visit.frame.head, log⟩ : Emission Call Log) ∈
      (transaction.emitted Call.failed).filter fun emission => emission.path = visit.path := by
    rw [emitted_at Call.failed cleared transaction visit here alive]
    exact List.mem_map_of_mem kept
  have emitted := (List.mem_filter.mp found).1
  rw [← recorded_emissions records] at emitted
  obtain ⟨pair, listed, same⟩ := List.mem_map.mp emitted
  refine ⟨pair, List.mem_filter.mpr ⟨listed, ?_⟩, by rw [same, path]⟩
  rw [recorded_same records pair listed, same]
  simp [core, key]

omit records walked in
def callsOf (calls : List (LogKey × Path × ModifyCall)) (key : LogKey) :
    List (Path × ModifyCall) :=
  (calls.filter fun entry => entry.1 = key).map Prod.snd

omit records in
theorem callsOf_sorted :
    (callsOf calls key).Pairwise fun first second => first.1 < second.1 :=
  List.pairwise_map.mpr ((calls_sorted walked).filter _)

omit walked in
theorem receiptGroup_eq :
    groupOf (grouped ((logs.filter fun log => isModifyLiquidity log.toLog).map
      fun log => (traceLogKey log.toLog, log))) key =
        (alike logs transaction key).map Prod.fst := by
  rw [groupOf_grouped, List.filter_map, List.map_map, List.filter_filter]
  nth_rewrite 1 [← recorded_logs records]
  rw [List.filter_map, List.map_map, alike]
  congr 1
  apply List.filter_congr
  intro pair _
  simp [Bool.and_comm]

omit walked in
theorem alike_increasing :
    ((alike logs transaction key).map Prod.fst).Pairwise fun earlier later =>
      earlier.logIndex < later.logIndex := by
  have part : ((alike logs transaction key).map Prod.fst).Sublist logs := by
    nth_rewrite 2 [← recorded_logs records]
    exact List.filter_sublist.map Prod.fst
  exact records.increasing.sublist part

/-- Where no two calls of a group are nested, and they are as many as the logs, the call
and the log at one position belong to one frame. -/
theorem group_aligned
    (separate : (callsOf calls key).Pairwise fun left right => ¬Nested left.1 right.1)
    (count : (callsOf calls key).length = (alike logs transaction key).length) :
    List.Forall₂ (fun call pair => decodeModifyCall eth pair.2.head = .ok call.2)
      (callsOf calls key) (alike logs transaction key) := by
  have emitted : ((alike logs transaction key).map Prod.snd).Sublist
      (transaction.emitted Call.failed) := by
    rw [← recorded_emissions records]
    exact List.filter_sublist.map Prod.snd
  have covered : ∀ call ∈ callsOf calls key,
      ∃ emission ∈ (alike logs transaction key).map Prod.snd, emission.path = call.1 := by
    intro call member
    obtain ⟨entry, listed, rfl⟩ := List.mem_map.mp member
    obtain ⟨kept, here⟩ := List.mem_filter.mp listed
    obtain ⟨pair, there, path⟩ := call_recorded records walked entry kept
    rw [of_decide_eq_true here] at there
    exact ⟨pair.2, List.mem_map_of_mem there, path⟩
  have paths := paths_agree (callsOf calls key) _ (callsOf_sorted walked key) separate
    ((emitted_ordered Call.failed transaction).sublist emitted) covered (by simpa using count)
  have aligned : List.Forall₂ Eq ((callsOf calls key).map Prod.fst)
      (((alike logs transaction key).map Prod.snd).map Emission.path) :=
    paths ▸ List.forall₂_same.mpr fun path _ => rfl
  rw [List.forall₂_map_left_iff, List.map_map, List.forall₂_map_right_iff] at aligned
  apply List.forall₂_iff_zip.mpr
  refine ⟨count, fun {call pair} zipped => ?_⟩
  have same := List.forall₂_zip aligned zipped
  obtain ⟨listed, there⟩ := List.of_mem_zip zipped
  obtain ⟨entry, kept, rfl⟩ := List.mem_map.mp listed
  exact call_decoded walked entry (List.mem_filter.mp kept).1 pair.2
    (emitted.mem (List.mem_map_of_mem there)) same.symm

/-- What the group of `key` adds: one entry for each of its logs, with the call of the
frame that emitted the log. -/
theorem groupUpdates_ok (entries : List (Identity × ModifyCall))
    (paired : groupUpdates receipt (grouped ((logs.filter fun log =>
      isModifyLiquidity log.toLog).map fun log => (traceLogKey log.toLog, log)))
        (key, callsOf calls key) = .ok entries) :
    List.Forall₂ (fun pair entry => entry.1 = pair.1.identity ∧
      decodeModifyCall eth pair.2.head = .ok entry.2) (alike logs transaction key) entries := by
  simp only [groupUpdates, receiptGroup_eq records] at paired
  split at paired
  · cases paired
  rename_i count
  split at paired
  · cases paired
  rename_i separate
  rw [List.length_map, not_not] at count
  rw [not_not] at separate
  rw [List.Pairwise.insertionSort_eq, List.Pairwise.insertionSort_eq] at paired
  · have aligned := group_aligned records walked key separate count
    apply (zip_mapM Prod.fst (pairUpdate receipt) _ _ entries aligned paired).imp
    rintro pair entry ⟨call, decoded, made⟩
    rw [pairUpdate_ok receipt _ entry made]
    exact ⟨rfl, decoded⟩
  · exact (alike_increasing records key).imp le_of_lt
  · exact (callsOf_sorted walked key).imp le_of_lt

omit records walked in
theorem mem_alike (pair : ReceiptLog × Emission Call Log) (key : LogKey) :
    pair ∈ alike logs transaction key ↔ pair ∈ recorded logs transaction ∧
      isModifyLiquidity pair.1.toLog ∧ traceLogKey pair.1.toLog = key := by
  simp [alike]

omit walked in
theorem matching_key (pair : ReceiptLog × Emission Call Log)
    (member : pair ∈ recorded logs transaction) (core : isModifyLiquidity pair.1.toLog) :
    ∃ group ∈ grouped ((logs.filter fun log => isModifyLiquidity log.toLog).map
      fun log => (traceLogKey log.toLog, log)), group.1 = traceLogKey pair.1.toLog := by
  apply grouped_key
  have listed : pair.1 ∈ logs := recorded_logs records ▸ List.mem_map_of_mem member
  rw [List.map_map]
  exact List.mem_map.mpr ⟨pair.1, List.mem_filter.mpr ⟨listed, core⟩, rfl⟩

omit records walked in
theorem grouped_calls (group : LogKey × List (Path × ModifyCall))
    (member : group ∈ grouped calls) : group = (group.1, callsOf calls group.1) :=
  Prod.ext rfl ((mem_grouped calls group).mp member).2

omit walked in
/-- The assignments of a call that returns: every entry comes from the emission of one of
the receipt's `ModifyLiquidity` logs, and each of these logs has an entry. -/
theorem traceUpdates_entries (updates : OrderedTable Identity ModifyCall)
    (returned : traceUpdates eth receipt (transaction.trace Call.failed cleared) = .ok updates) :
    ∃ entries, updates = OrderedTable.empty.putAll entries ∧
      (∀ entry ∈ entries, ∃ pair ∈ recorded logs transaction, isModifyLiquidity pair.1.toLog ∧
        entry.1 = pair.1.identity ∧ decodeModifyCall eth pair.2.head = .ok entry.2) ∧
      ∀ pair ∈ recorded logs transaction, isModifyLiquidity pair.1.toLog →
        pair.1.identity ∈ entries.map Prod.fst := by
  simp only [traceUpdates, records.succeeded, records.present, ne_eq, not_true_eq_false,
    if_false] at returned
  obtain ⟨results, walked, returned⟩ := (bind_ok _ _ _).mp returned
  rw [reduceOption_mapM eth _ results walked] at returned
  generalize called : (walkTrace Call.failed [] false
    (transaction.trace Call.failed cleared)).filterMap (collected eth) = calls at returned
  split at returned
  · rename_i nothing
    cases returned
    refine ⟨[], rfl, fun _ => List.not_mem_nil.elim, ?_⟩
    intro pair member core
    obtain ⟨group, found, -⟩ := matching_key records pair member core
    rw [Bool.and_eq_true, List.isEmpty_iff] at nothing
    rw [nothing.1] at found
    cases found
  · split at returned
    · cases returned
    · obtain ⟨lists, paired, returned⟩ := (bind_ok _ _ _).mp returned
      split at returned
      · cases returned
      · rename_i covered
        cases returned
        have related := (mapM_ok _ _ _).mp paired
        refine ⟨lists.flatten, rfl, ?_, ?_⟩
        · intro entry member
          obtain ⟨list, among, inside⟩ := List.mem_flatten.mp member
          obtain ⟨group, grouped, made⟩ := related_right related list among
          rw [grouped_calls group grouped] at made
          obtain ⟨pair, same, identity, decoded⟩ :=
            related_right (groupUpdates_ok records called group.1 list made) entry inside
          obtain ⟨recorded, core, -⟩ := (mem_alike pair group.1).mp same
          exact ⟨pair, recorded, core, identity, decoded⟩
        · intro pair member core
          obtain ⟨matched, found, key⟩ := matching_key records pair member core
          have known : ∃ group ∈ grouped calls, group.1 = traceLogKey pair.1.toLog := by
            by_contra absent
            apply covered
            refine List.any_eq_true.mpr ⟨matched, found, ?_⟩
            rw [Bool.not_eq_true', List.any_eq_false]
            intro group member same
            exact absent ⟨group, member, (of_decide_eq_true same).trans key⟩
          obtain ⟨group, grouped, same⟩ := known
          obtain ⟨list, among, made⟩ := related_left related group grouped
          rw [grouped_calls group grouped, same] at made
          have alike := (mem_alike pair (traceLogKey pair.1.toLog)).mpr ⟨member, core, rfl⟩
          obtain ⟨entry, inside, identity, -⟩ :=
            related_left (groupUpdates_ok records called _ list made) pair alike
          rw [← identity]
          exact List.mem_map_of_mem (List.mem_flatten.mpr ⟨list, among, inside⟩)

end

/-- Where `_trace_updates` returns, it answers for the `ModifyLiquidity` logs of the
receipt and for nothing else, each with the call of the frame that emitted it. -/
theorem trace_updates_sound (eth : Eth) (cleared : Bool) (transaction : Frame Call Log)
    (receipt : Receipt) (logs : List ReceiptLog) (records : receipt.Records logs transaction)
    (updates : OrderedTable Identity ModifyCall)
    (returned : traceUpdates eth receipt (transaction.trace Call.failed cleared) = .ok updates) :
    (∀ identity, updates.get identity ≠ none ↔
      ∃ log ∈ logs, isModifyLiquidity log.toLog ∧ log.identity = identity) ∧
    ∀ pair ∈ logs.zip (transaction.emitted Call.failed), isModifyLiquidity pair.1.toLog →
      ∃ decoded, updates.get pair.1.identity = some decoded ∧
        decodeModifyCall eth pair.2.head = .ok decoded := by
  obtain ⟨entries, rfl, sound, complete⟩ := traceUpdates_entries records updates returned
  constructor
  · intro identity
    rw [(get_putAll_empty entries identity).2, List.mem_map]
    constructor
    · rintro ⟨entry, member, rfl⟩
      obtain ⟨pair, recorded, core, same, -⟩ := sound entry member
      exact ⟨pair.1, recorded_logs records ▸ List.mem_map_of_mem recorded, core, same.symm⟩
    · rintro ⟨log, listed, core, rfl⟩
      rw [← recorded_logs records] at listed
      obtain ⟨pair, member, rfl⟩ := List.mem_map.mp listed
      exact List.mem_map.mp (complete pair member core)
  · intro pair member core
    have known := (get_putAll_empty entries pair.1.identity).2.mpr (complete pair member core)
    obtain ⟨decoded, found⟩ := Option.ne_none_iff_exists'.mp known
    refine ⟨decoded, found, ?_⟩
    obtain ⟨other, recorded, -, same, read⟩ :=
      sound _ ((get_putAll_empty entries pair.1.identity).1 decoded found)
    rw [recorded_unique records pair other member recorded same]
    exact read

/-! A manager adds liquidity twice with the same parameters, after an attempt that failed
with its log; the two calls return different deltas. -/

def sampleManager : Address := 0x58daec3116aae6d93017baaea7749052e8a04fa7#160

def samplePool : Hash :=
  0x77c25b9386d47de62e0155c393696e9f43f7e6d036c6ca52f66735ccbb8808a7#256

def sampleKeccak : Eth :=
  ⟨AbiCodec.layout, fun _ => samplePool⟩

def sampleInput : Bytes :=
  MODIFY_LIQUIDITY_SELECTOR ++
    ([WETH.toNat, USDG.toNat, 3000, 60, 0, 2 ^ 256 - 60, 60, 1000, 0, 320, 0].map
      (toBytes 32)).flatten

def sampleCall (paid : Nat) : Call :=
  { type := some .call, fromAddress := some sampleManager, toAddress := some POOL_MANAGER
    input := some sampleInput
    output := some (toBytes 32 (paid * 2 ^ 128 + paid) ++ toBytes 32 0)
    error := none, revertReason := none }

def sampleEvent : Log :=
  { address := POOL_MANAGER
    topics := [V4_MODIFY_LIQUIDITY_TOPIC, toBytes 32 samplePool.toNat,
      toBytes 32 sampleManager.toNat]
    data := ([2 ^ 256 - 60, 60, 1000, 0].map (toBytes 32)).flatten }

def sampleTransaction : Frame Call Log :=
  { head := { type := some .call, fromAddress := some WETH, toAddress := some sampleManager
              input := none, output := none, error := none, revertReason := none }
    body :=
      .call { sampleCall 7 with error := some "execution reverted" } (.log sampleEvent .done) <|
      .call (sampleCall 8) (.log sampleEvent .done) <|
      .call (sampleCall 9) (.log sampleEvent .done) .done }

def sampleLog (index : Int) : ReceiptLog :=
  { sampleEvent with logIndex := index, transactionHash := 5#256, blockHash := 6#256 }

def sampleLogs : List ReceiptLog := [sampleLog 3, sampleLog 4]

def sampleReceipt : Receipt :=
  { status := 1, transactionHash := 5#256, blockHash := 6#256, logs := some sampleLogs }

theorem sample_recorded : sampleReceipt.Records sampleLogs sampleTransaction := by
  refine ⟨rfl, rfl, ?_, ?_⟩
  · decide
  · decide

/-- The two calls keep their deltas apart; the failed one is nowhere. -/
theorem trace_updates_sound_sample : ∃ updates,
    traceUpdates sampleKeccak sampleReceipt (sampleTransaction.trace Call.failed true) =
      .ok updates ∧
    (∃ decoded, updates.get (6#256, 5#256, 3) = some decoded ∧
      decodeModifyCall sampleKeccak (sampleCall 8) = .ok decoded ∧ decoded.callerDelta0 = 8) ∧
    ∃ decoded, updates.get (6#256, 5#256, 4) = some decoded ∧
      decodeModifyCall sampleKeccak (sampleCall 9) = .ok decoded ∧ decoded.callerDelta0 = 9 := by
  have ran : (traceUpdates sampleKeccak sampleReceipt
      (sampleTransaction.trace Call.failed true)).isOk = true := by decide +kernel
  cases returned : traceUpdates sampleKeccak sampleReceipt
      (sampleTransaction.trace Call.failed true) with
  | error reason =>
    rw [returned] at ran
    cases ran
  | ok updates =>
    have sound := (trace_updates_sound sampleKeccak true sampleTransaction sampleReceipt
      sampleLogs sample_recorded updates returned).2
    have listed : sampleLogs.zip (sampleTransaction.emitted Call.failed) =
        [(sampleLog 3, ⟨[1], sampleCall 8, sampleEvent⟩),
          (sampleLog 4, ⟨[2], sampleCall 9, sampleEvent⟩)] := rfl
    rw [listed] at sound
    have core : isModifyLiquidity sampleEvent := by decide +kernel
    obtain ⟨first, held, read⟩ := sound (sampleLog 3, _) List.mem_cons_self core
    obtain ⟨second, kept, next⟩ :=
      sound (sampleLog 4, _) (List.mem_cons_of_mem _ List.mem_cons_self) core
    have eight : (decodeModifyCall sampleKeccak (sampleCall 8)).map ModifyCall.callerDelta0 =
        .ok 8 := by decide +kernel
    have nine : (decodeModifyCall sampleKeccak (sampleCall 9)).map ModifyCall.callerDelta0 =
        .ok 9 := by decide +kernel
    rw [read] at eight
    rw [next] at nine
    exact ⟨updates, rfl, ⟨first, held, read, Except.ok.inj eight⟩,
      second, kept, next, Except.ok.inj nine⟩

end RhPools.TraceUpdates
