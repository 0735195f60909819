import Mathlib.Data.Rat.Floor
import Mathlib.Data.Prod.Lex
import RhPools.LogQueries

/-! The fetch of an interval: its logs, from one source or from an archive in pages that are
halved while they are too large, and the headers of its ends and of every block with a log,
with the checks that tie them together. -/

namespace RhPools.IntervalFetch
open OrderedTables OffsetPaging LogQueries
open EventWords (Hash bind_ok mapM_ok)
open MarketTables (Header)

inductive Failure where
  | rpc (error : RpcError)
  | conflict (text : String)
  | value (text : String)
  | key (number : Int)

abbrev Fetch := Except Failure

abbrev Query := List Hash × Option (List TxChain.Address)

def asked {Value : Type} : Rpc Value → Fetch Value
  | .ok value => .ok value
  | .error error => .error (.rpc error)

def page (client : Client) (topics : List Hash) (addresses : Option (List TxChain.Address))
    (path : Path) (low high : Int) : Rpc (List Log) :=
  match logQuery client path low high topics addresses with
  | .ok logs => .ok logs
  | .error failure =>
    if low < high ∧ failure.rangeTooLarge then do
      let middle := (low + high) / 2
      let first ← page client topics addresses (0 :: path) low middle
      let second ← page client topics addresses (1 :: path) (middle + 1) high
      return first ++ second
    else .error failure
termination_by (high - low).toNat

def ARCHIVE_PAGE_LOGS : ℚ := 8000

def pageBlocks (density : ℚ) (start stop : Int) : Int :=
  max 1 (min (stop - start + 1) ⌊ARCHIVE_PAGE_LOGS / max density (1 / 1000)⌋)

/-- `range(start, stop + 1, blocks)`. -/
def lows (start stop blocks : Int) : List Int :=
  (List.range ((stop - start) / blocks + 1).toNat).map fun index : Nat =>
    start + index * blocks

def queries : List Query :=
  (EVENT_TOPICS, none) ::
    if NFT_MANAGER_ADDRESSES ≠ [] ∧ NFT_EVENT_TOPICS ≠ [] then
      [(NFT_EVENT_TOPICS, some NFT_MANAGER_ADDRESSES)]
    else []

def archiveLogs (archive : Client) (density : ℚ) (start stop : Int) : Rpc (List Log) := do
  let blocks := pageBlocks density start stop
  let futures := (lows start stop blocks).flatMap fun low => queries.map fun query => (low, query)
  let pages ← futures.zipIdx.mapM fun future =>
    page archive future.1.2.1 future.1.2.2 [future.2] future.1.1
      (min (future.1.1 + blocks - 1) stop)
  return pages.flatten

def providerLogs (client : Client) (start stop : Int) : Rpc (List Log) := do
  let found ← queries.zipIdx.mapM fun query =>
    logQuery client [query.2] start stop query.1.1 query.1.2
  return found.flatten

/-- `_header`. -/
def header (raw : Option Header) (expected : Int) : Rpc Header :=
  match raw with
  | none => .error (rpcError "block RPC returned no header")
  | some block =>
    if block.number ≠ expected then
      .error (rpcError ("requested block " ++ toString expected ++ ", received " ++
        toString block.number))
    else .ok block

abbrev Headers := OrderedTable Int Header

def update (headers : Headers) (numbers : List Int) (raws : List (Option Header)) : Rpc Headers := do
  let found ← (numbers.zip raws).mapM fun pair => do
    let block ← header pair.2 pair.1
    return (pair.1, block)
  return found.foldl (fun table entry => table.assign entry.1 entry.2) headers

def blocks (endpoint : Endpoint Int (Option Header)) (path : Path) (numbers : List Int) :
    Rpc Headers := do
  let ordered := numbers.eraseDups
  let results ← rpcBatch endpoint path ordered
  update .empty ordered results

def look (headers : Headers) (number : Int) : Fetch Header :=
  match headers.get number with
  | some block => .ok block
  | none => .error (.key number)

abbrev LogKey := Option Hash × Hash × Int

def Log.key (log : Log) : LogKey := (log.blockHash, log.transactionHash, log.logIndex)

abbrev Place := Int ×ₗ (Int ×ₗ Int)

def Log.place (log : Log) : Place :=
  toLex (log.blockNumber, toLex (log.transactionIndex, log.logIndex))

def keepLog (start stop : Int) (table : OrderedTable LogKey Log) (log : Log) :
    Fetch (OrderedTable LogKey Log) :=
  if ¬(start ≤ log.blockNumber ∧ log.blockNumber ≤ stop) then
    .error (.rpc (rpcError "eth_getLogs returned a log outside the requested interval"))
  else if (table.get (Log.key log)).any (· ≠ log) then
    .error (.rpc (rpcError "eth_getLogs returned conflicting duplicate log identities"))
  else .ok (table.assign (Log.key log) log)

def deduplicate (start stop : Int) (logs : List Log) : Fetch (List Log) := do
  let table ← logs.foldlM (keepLog start stop) .empty
  return (table.entries.map Prod.snd).insertionSort (ordered Log.place)

def confirm (headers : Headers) (log : Log) : Fetch Log := do
  let block ← look headers log.blockNumber
  if log.blockHash.any (· ≠ block.hash) then
    throw (.conflict ("log block " ++ toString log.blockNumber ++
      " changed during interval fetch"))
  return { log with blockHash := some block.hash }

/-- The clients of a lane: that of its logs, whether it is the archive, and those of headers. -/
structure Clients where
  log : Client
  archive : Bool
  header : Endpoint Int (Option Header)
  archiveHeader : Endpoint Int (Option Header)

def eventHeaders (clients : Clients) (boundaries : Headers) (missing : List Int)
    (start stop : Int) : Fetch (Headers × Header) :=
  if clients.archive then do
    let raws ← asked (rpcBatch clients.archiveHeader [2] (missing ++ [start, stop]))
    let headers ← asked (update boundaries missing raws)
    let _ ← ([start, stop].zip (raws.drop missing.length)).mapM fun pair => do
      let block ← asked (header pair.2 pair.1)
      let boundary ← look boundaries pair.1
      if block.hash ≠ boundary.hash then
        throw (.conflict ("archive source disagrees with canonical header " ++
          toString pair.1))
    let verified ← asked (clients.header.call [3] stop)
    let verified ← asked (header verified stop)
    return (headers, verified)
  else do
    let raws ← asked (rpcBatch clients.header [2] (missing ++ [stop]))
    let headers ← asked (update boundaries missing raws.dropLast)
    match raws.getLast? with
    | none => throw (.key stop)
    | some raw => do
      let verified ← asked (header raw stop)
      return (headers, verified)

def sourceLogs (clients : Clients) (density : ℚ) (start stop : Int) : Rpc (List Log) :=
  if clients.archive then archiveLogs clients.log density start stop
  else providerLogs clients.log start stop

def fetchInterval (clients : Clients) (density : ℚ) (start stop : Int) :
    Fetch (List Log × Headers) :=
  if start < 0 ∨ stop < start then .error (.value "invalid inclusive log interval")
  else do
    let boundaries ← asked (blocks clients.header [0] [start, stop])
    let found ← asked (sourceLogs clients density start stop)
    let logs ← deduplicate start stop found
    let missing := ((logs.map fun log => log.blockNumber).dedup.filter fun number =>
      boundaries.get number = none).insertionSort (· ≤ ·)
    let (headers, verified) ← eventHeaders clients boundaries missing start stop
    let logs ← logs.mapM (confirm headers)
    let boundary ← look boundaries stop
    if verified.hash ≠ boundary.hash then
      .error (.conflict ("interval end block " ++ toString stop ++ " changed during fetch"))
    else .ok (logs, headers)

def Wanted (log : Log) : Prop :=
  (∃ topic ∈ EVENT_TOPICS, log.topics.head? = some topic) ∨
    log.address ∈ NFT_MANAGER_ADDRESSES ∧ ∃ topic ∈ NFT_EVENT_TOPICS, log.topics.head? = some topic

section Pages
variable {client : Client} {chain : Chain}

theorem page_exact (honest : client.Honest chain) (topics : List Hash)
    (addresses : Option (List TxChain.Address)) (path : Path) (low high : Int) (result : List Log)
    (answered : page client topics addresses path low high = .ok result) :
    Exact chain low high topics addresses result := by
  induction size : (high - low).toNat using Nat.strong_induction_on
    generalizing path low high result with
  | _ size ih =>
    subst size
    rw [page] at answered
    split at answered
    · rename_i logs whole
      cases answered
      exact logQuery_exact honest path low high topics addresses _ whole
    · split at answered
      · rename_i wide
        obtain ⟨first, one, answered⟩ := (bind_ok _ _ _).mp answered
        obtain ⟨second, other, same⟩ := (bind_ok _ _ _).mp answered
        cases same
        have below := ih _ (by omega) _ low _ first one rfl
        have above := ih _ (by omega) _ _ high second other rfl
        intro log
        rw [List.mem_append, below log, above log]
        constructor
        · rintro (⟨there, least, most, chosen⟩ | ⟨there, least, most, chosen⟩)
          · exact ⟨there, least, by omega, chosen⟩
          · exact ⟨there, by omega, most, chosen⟩
        · rintro ⟨there, least, most, chosen⟩
          rcases Int.lt_or_le ((low + high) / 2) log.blockNumber with right | left
          · exact .inr ⟨there, by omega, most, chosen⟩
          · exact .inl ⟨there, least, left, chosen⟩
      · cases answered

theorem selected_iff (topics : List Hash) (addresses : Option (List TxChain.Address)) (log : Log) :
    selected topics addresses log = true ↔
      (∃ topic ∈ topics, log.topics.head? = some topic) ∧
        ∀ list, named addresses = some list → log.address ∈ list := by
  unfold selected
  rw [Bool.and_eq_true]
  refine and_congr ?_ ?_
  · cases log.topics.head? with
    | none => simp
    | some topic => simp [eq_comm]
  · cases named addresses with
    | none => simp
    | some list => simp

theorem queries_wanted (log : Log) :
    (∃ query ∈ queries, selected query.1 query.2 log = true) ↔ Wanted log := by
  have managers : named (some NFT_MANAGER_ADDRESSES) = some NFT_MANAGER_ADDRESSES := rfl
  have both : queries = [(EVENT_TOPICS, none), (NFT_EVENT_TOPICS, some NFT_MANAGER_ADDRESSES)] :=
    rfl
  have none : named none = none := rfl
  rw [both, Wanted, and_comm (a := log.address ∈ NFT_MANAGER_ADDRESSES)]
  simp only [List.mem_cons, List.not_mem_nil, or_false, exists_eq_or_imp, exists_eq_left,
    selected_iff, managers, none, Option.some.injEq, forall_eq', reduceCtorEq, false_implies,
    implies_true, and_true]

theorem mem_flatten_each {Item : Type} {holds : Item → Log → Prop} (items : List Item)
    (results : List (List Log))
    (each : List.Forall₂ (fun item result => ∀ log, log ∈ result ↔ holds item log) items results)
    (log : Log) : log ∈ results.flatten ↔ ∃ item ∈ items, holds item log := by
  rw [List.mem_flatten]
  constructor
  · rintro ⟨result, member, inside⟩
    obtain ⟨item, listed, same⟩ := EventWords.related_right each result member
    exact ⟨item, listed, (same log).mp inside⟩
  · rintro ⟨item, listed, held⟩
    obtain ⟨result, member, same⟩ := EventWords.related_left each item listed
    exact ⟨result, member, (same log).mpr held⟩

theorem lows_cover (start stop size number : Int) (positive : 0 < size) :
    (∃ low ∈ lows start stop size, low ≤ number ∧ number ≤ min (low + size - 1) stop) ↔
      start ≤ number ∧ number ≤ stop := by
  unfold lows
  simp only [List.mem_map, List.mem_range, exists_exists_and_eq_and]
  constructor
  · rintro ⟨index, -, least, most⟩
    have grows : (0 : Int) ≤ index * size := Int.mul_nonneg (Int.natCast_nonneg _) positive.le
    omega
  · rintro ⟨least, most⟩
    have count := Int.ediv_le_ediv positive (show number - start ≤ stop - start by omega)
    have some := Int.ediv_nonneg (show 0 ≤ number - start by omega) positive.le
    have parts := Int.mul_ediv_add_emod (number - start) size
    have rest := Int.emod_nonneg (number - start) positive.ne'
    have short := Int.emod_lt_of_pos (number - start) positive
    refine ⟨((number - start) / size).toNat, by omega, ?_⟩
    rw [Int.toNat_of_nonneg some, Int.mul_comm]
    omega

theorem pageBlocks_pos (density : ℚ) (start stop : Int) : 0 < pageBlocks density start stop :=
  Int.lt_of_lt_of_le Int.one_pos (le_max_left _ _)

theorem archiveLogs_wanted (honest : client.Honest chain) (density : ℚ) (start stop : Int)
    (result : List Log)
    (answered : archiveLogs client density start stop = .ok result) (log : Log) :
    log ∈ result ↔ chain.Has log ∧ (start ≤ log.blockNumber ∧ log.blockNumber ≤ stop) ∧
      Wanted log := by
  unfold archiveLogs at answered
  obtain ⟨pages, each, same⟩ := (bind_ok _ _ _).mp answered
  cases same
  have found := forall₂_zipIdx (R := fun (future : Int × Query) result => Exact chain future.1
      (min (future.1 + pageBlocks density start stop - 1) stop) future.2.1 future.2.2 result) _ pages
    (((mapM_ok _ _ _).mp each).imp fun future result taken =>
      page_exact honest _ _ _ _ _ result taken)
  rw [mem_flatten_each _ pages found log,
    ← lows_cover start stop _ log.blockNumber (pageBlocks_pos density start stop),
    ← queries_wanted]
  simp only [List.mem_flatMap, List.mem_map]
  constructor
  · rintro ⟨_, ⟨low, listed, query, chosen, rfl⟩, there, least, most, same⟩
    exact ⟨there, ⟨low, listed, least, most⟩, query, chosen, same⟩
  · rintro ⟨there, ⟨low, listed, least, most⟩, query, chosen, same⟩
    exact ⟨_, ⟨low, listed, query, chosen, rfl⟩, there, least, most, same⟩

theorem providerLogs_wanted (honest : client.Honest chain) (start stop : Int) (result : List Log)
    (answered : providerLogs client start stop = .ok result) (log : Log) :
    log ∈ result ↔ chain.Has log ∧ (start ≤ log.blockNumber ∧ log.blockNumber ≤ stop) ∧
      Wanted log := by
  unfold providerLogs at answered
  obtain ⟨pages, each, same⟩ := (bind_ok _ _ _).mp answered
  cases same
  have found := forall₂_zipIdx (R := fun (query : Query) result =>
      Exact chain start stop query.1 query.2 result) _ pages
    (((mapM_ok _ _ _).mp each).imp fun query result taken =>
      logQuery_exact honest _ _ _ _ _ result taken)
  rw [mem_flatten_each _ pages found log, ← queries_wanted]
  constructor
  · rintro ⟨query, chosen, there, least, most, same⟩
    exact ⟨there, ⟨least, most⟩, query, chosen, same⟩
  · rintro ⟨there, ⟨least, most⟩, query, chosen, same⟩
    exact ⟨query, chosen, there, least, most, same⟩

end Pages

structure Seen (start stop : Int) (table : OrderedTable LogKey Log) (seen : List Log) : Prop where
  keyed : ∀ pair ∈ table.entries, pair.1 = Log.key pair.2
  same : ∀ log, table.get (Log.key log) = some log ↔ log ∈ seen
  inside : ∀ log ∈ seen, start ≤ log.blockNumber ∧ log.blockNumber ≤ stop

variable (start stop : Int)

theorem keepLog_seen (table next : OrderedTable LogKey Log) (seen : List Log) (log : Log)
    (held : Seen start stop table seen) (kept : keepLog start stop table log = .ok next) :
    Seen start stop next (seen ++ [log]) := by
  unfold keepLog at kept
  split at kept
  · cases kept
  · rename_i inside
    split at kept
    · cases kept
    · rename_i agrees
      cases kept
      constructor
      · intro pair member
        rcases mem_assign table _ log pair member with old | rfl
        · exact held.keyed pair old
        · rfl
      · intro other
        rw [get_assign, List.mem_append, List.mem_singleton, ← held.same other]
        split
        · rename_i alike
          -- a log under the same key is this one, or the call would have failed
          rw [Option.some.injEq, alike]
          constructor
          · exact fun same => .inr same.symm
          · rintro (prior | same)
            · rw [prior, Option.any_some] at agrees
              exact (by simpa using agrees : other = log).symm
            · exact same.symm
        · rename_i apart
          constructor
          · exact .inl
          · rintro (prior | rfl)
            · exact prior
            · exact absurd rfl apart
      · intro other member
        rcases List.mem_append.mp member with old | new
        · exact held.inside other old
        · exact List.mem_singleton.mp new ▸ not_not.mp inside

theorem keepLogs_seen (logs seen : List Log) (table next : OrderedTable LogKey Log)
    (held : Seen start stop table seen) (kept : logs.foldlM (keepLog start stop) table = .ok next) :
    Seen start stop next (seen ++ logs) := by
  induction logs generalizing table seen with
  | nil =>
    cases kept
    rwa [List.append_nil]
  | cons log rest ih =>
    rw [List.foldlM_cons] at kept
    obtain ⟨middle, first, others⟩ := (bind_ok _ _ _).mp kept
    have after := ih (seen ++ [log]) middle
      (keepLog_seen start stop table middle seen log held first) others
    rwa [List.append_assoc, List.singleton_append] at after

theorem deduplicate_logs (found logs : List Log) (kept : deduplicate start stop found = .ok logs) :
    (∀ log, log ∈ logs ↔ log ∈ found) ∧ (logs.map Log.key).Nodup ∧
      logs.Pairwise (ordered Log.place) ∧
        ∀ log ∈ logs, start ≤ log.blockNumber ∧ log.blockNumber ≤ stop := by
  unfold deduplicate at kept
  obtain ⟨table, folded, same⟩ := (bind_ok _ _ _).mp kept
  cases same
  have seen := keepLogs_seen start stop found [] .empty table
    ⟨fun _ member => absurd member List.not_mem_nil, fun log => by simp,
      fun _ member => absurd member List.not_mem_nil⟩ folded
  rw [List.nil_append] at seen
  have members : ∀ log, log ∈ (table.entries.map Prod.snd).insertionSort (ordered Log.place) ↔
      log ∈ found := by
    intro log
    rw [List.mem_insertionSort, ← seen.same log, get_some, List.mem_map]
    constructor
    · rintro ⟨pair, member, rfl⟩
      exact seen.keyed pair member ▸ member
    · exact fun member => ⟨_, member, rfl⟩
  refine ⟨members, ?_, List.pairwise_insertionSort _ _, fun log member =>
    seen.inside log ((members log).mp member)⟩
  have sorted := List.perm_insertionSort (ordered Log.place) (table.entries.map Prod.snd)
  rw [(sorted.map Log.key).nodup_iff, List.map_map]
  have keys : table.entries.map (Log.key ∘ Prod.snd) = table.entries.map Prod.fst :=
    List.map_congr_left fun pair member => (seen.keyed pair member).symm
  rw [keys]
  exact table.distinct

theorem assigned_covers (found : List (Int × Header)) (headers : Headers) (number : Int)
    (known : headers.get number ≠ none ∨ number ∈ found.map Prod.fst) :
    (found.foldl (fun table entry => table.assign entry.1 entry.2) headers).get number ≠ none := by
  induction found generalizing headers with
  | nil => exact known.resolve_right List.not_mem_nil
  | cons entry rest ih =>
    apply ih
    rw [get_assign]
    split
    · exact .inl (Option.some_ne_none _)
    · rename_i other
      rcases known with known | listed
      · exact .inl known
      · exact .inr ((List.mem_cons.mp listed).resolve_left other)

theorem update_covers (headers next : Headers) (numbers : List Int) (raws : List (Option Header))
    (updated : update headers numbers raws = .ok next) (number : Int)
    (known : headers.get number ≠ none ∨ number ∈ (numbers.zip raws).map Prod.fst) :
    next.get number ≠ none := by
  unfold update at updated
  obtain ⟨found, each, same⟩ := (bind_ok _ _ _).mp updated
  cases same
  apply assigned_covers
  refine known.imp_right fun listed => ?_
  obtain ⟨pair, member, rfl⟩ := List.mem_map.mp listed
  obtain ⟨entry, there, taken⟩ := EventWords.related_left ((mapM_ok _ _ _).mp each) pair member
  obtain ⟨block, -, same⟩ := (bind_ok _ _ _).mp taken
  cases same
  exact List.mem_map_of_mem (f := Prod.fst) there

theorem blocks_covers (endpoint : Endpoint Int (Option Header)) (path : Path)
    (numbers : List Int) (headers : Headers) (answered : blocks endpoint path numbers = .ok headers)
    (number : Int) (listed : number ∈ numbers) : headers.get number ≠ none := by
  unfold blocks at answered
  obtain ⟨results, asked, updated⟩ := (bind_ok _ _ _).mp answered
  have all : endpoint.Answers fun _ _ => True := ⟨fun _ _ _ _ => trivial, fun _ _ _ _ _ _ => trivial⟩
  have same := (rpcBatch_right endpoint all path _ results asked).length_eq
  apply update_covers .empty headers _ results updated number
  rw [List.map_fst_zip same.le]
  exact .inr (List.mem_eraseDups.mpr listed)

theorem asked_ok {Value : Type} (answer : Rpc Value) (value : Value)
    (given : asked answer = .ok value) : answer = .ok value := by
  cases answer with
  | error error => cases given
  | ok found =>
    cases given
    rfl

theorem eventHeaders_covers (clients : Clients) (boundaries headers : Headers)
    (missing : List Int) (start stop : Int) (verified : Header)
    (answered : eventHeaders clients boundaries missing start stop = .ok (headers, verified))
    (number : Int) (known : boundaries.get number ≠ none) : headers.get number ≠ none := by
  unfold eventHeaders at answered
  split at answered
  · obtain ⟨raws, _, answered⟩ := (bind_ok _ _ _).mp answered
    obtain ⟨next, updated, answered⟩ := (bind_ok _ _ _).mp answered
    obtain ⟨_, _, answered⟩ := (bind_ok _ _ _).mp answered
    obtain ⟨_, _, answered⟩ := (bind_ok _ _ _).mp answered
    obtain ⟨_, _, same⟩ := (bind_ok _ _ _).mp answered
    cases same
    exact update_covers boundaries _ missing raws (asked_ok _ _ updated) number (.inl known)
  · obtain ⟨raws, _, answered⟩ := (bind_ok _ _ _).mp answered
    obtain ⟨next, updated, answered⟩ := (bind_ok _ _ _).mp answered
    split at answered
    · cases answered
    · obtain ⟨_, _, same⟩ := (bind_ok _ _ _).mp answered
      cases same
      exact update_covers boundaries _ missing _ (asked_ok _ _ updated) number (.inl known)

theorem confirm_same (headers : Headers) (log result : Log) (hashed : log.blockHash ≠ none)
    (confirmed : confirm headers log = .ok result) :
    result = log ∧ ∃ block, headers.get log.blockNumber = some block ∧
      log.blockHash = some block.hash := by
  unfold confirm at confirmed
  obtain ⟨block, found, confirmed⟩ := (bind_ok _ _ _).mp confirmed
  have there : headers.get log.blockNumber = some block := by
    unfold look at found
    split at found
    · rename_i other there
      cases found
      exact there
    · cases found
  split at confirmed
  · cases confirmed
  · rename_i agrees
    cases confirmed
    obtain ⟨hash, names⟩ := Option.ne_none_iff_exists'.mp hashed
    rw [names, Option.any_some] at agrees
    have same : hash = block.hash := by simpa using agrees
    refine ⟨?_, block, there, by rw [names, same]⟩
    rw [← same, ← names]

/-- A fetch that returns has the logs of the interval that are indexed, each once, in order,
with the headers of their blocks and of both ends. -/
theorem fetched_interval_exact (clients : Clients) (chain : Chain)
    (honest : clients.log.Honest chain) (density : ℚ) (start stop : Int) (logs : List Log)
    (headers : Headers) (fetched : fetchInterval clients density start stop = .ok (logs, headers)) :
    (∀ log, log ∈ logs ↔ chain.Has log ∧
      (start ≤ log.blockNumber ∧ log.blockNumber ≤ stop) ∧ Wanted log) ∧
    logs.Nodup ∧ logs.Pairwise (fun one other => Log.place one ≤ Log.place other) ∧
    (∀ log ∈ logs, ∃ block, headers.get log.blockNumber = some block ∧
      log.blockHash = some block.hash) ∧
    headers.get start ≠ none ∧ headers.get stop ≠ none := by
  unfold fetchInterval at fetched
  split at fetched
  · cases fetched
  · obtain ⟨boundaries, bounded, fetched⟩ := (bind_ok _ _ _).mp fetched
    obtain ⟨found, answered, fetched⟩ := (bind_ok _ _ _).mp fetched
    obtain ⟨unique, kept, fetched⟩ := (bind_ok _ _ _).mp fetched
    obtain ⟨⟨blocks, verified⟩, extended, fetched⟩ := (bind_ok _ _ _).mp fetched
    obtain ⟨confirmed, each, fetched⟩ := (bind_ok _ _ _).mp fetched
    obtain ⟨boundary, _, fetched⟩ := (bind_ok _ _ _).mp fetched
    split at fetched
    · cases fetched
    · cases fetched
      have wanted : ∀ log, log ∈ found ↔ chain.Has log ∧
          (start ≤ log.blockNumber ∧ log.blockNumber ≤ stop) ∧ Wanted log := by
        have answered := asked_ok _ _ answered
        unfold sourceLogs at answered
        split at answered
        · exact archiveLogs_wanted honest density start stop found answered
        · exact providerLogs_wanted honest start stop found answered
      obtain ⟨same, distinct, sorted, -⟩ := deduplicate_logs start stop found unique kept
      -- the chain's logs name their blocks, so the checks leave them as they are
      have passed : ∀ log ∈ unique, ∀ result, confirm headers log = .ok result →
          result = log ∧ ∃ block, headers.get log.blockNumber = some block ∧
            log.blockHash = some block.hash := by
        intro log member result taken
        obtain ⟨⟨receipt, there, carried⟩, -⟩ := (wanted log).mp ((same log).mp member)
        exact confirm_same headers log result (chain.hashed _ receipt there log carried) taken
      have related := (mapM_ok _ _ _).mp each
      have unchanged : unique = logs := by
        rw [← List.forall₂_eq_eq_eq]
        apply ((List.forall₂_and_left unique logs).mpr ⟨passed, related⟩).imp
        rintro log result ⟨passes, taken⟩
        exact (passes result taken).1.symm
      have covers : ∀ number, number = start ∨ number = stop → headers.get number ≠ none := by
        intro number ends
        apply eventHeaders_covers clients boundaries headers _ start stop verified extended
        exact blocks_covers clients.header [0] [start, stop] boundaries (asked_ok _ _ bounded)
          number (by simpa using ends)
      subst unchanged
      refine ⟨fun log => (same log).trans (wanted log), List.Nodup.of_map _ distinct, sorted, ?_,
        covers start (.inl rfl), covers stop (.inr rfl)⟩
      intro log member
      obtain ⟨result, -, taken⟩ := EventWords.related_left related log member
      exact (passed log member result taken).2

def sampleLog : Log := ⟨0x1#160, [V2_SWAP_TOPIC], [], 7, some 9, 5, 0, 0⟩

def sampleHeader (number : Int) : Header := ⟨number, 9, 8, 100⟩

def sampleChain : Chain where
  receipts number := if number = 7 then [(5, [sampleLog])] else []
  placed number receipt there log carried := by
    split at there
    · rename_i same
      cases List.mem_singleton.mp there
      cases List.mem_singleton.mp carried
      exact same.symm
    · cases there
  hashed number receipt there log carried := by
    split at there
    · cases List.mem_singleton.mp there
      cases List.mem_singleton.mp carried
      exact Option.some_ne_none _
    · cases there

def sampleAnswer (request : LogRequest) : List Log :=
  [sampleLog].filter fun log => request.fromBlock ≤ log.blockNumber &&
    log.blockNumber ≤ request.toBlock && selected request.topics request.address log

def sampleReceipt (txHash : Hash) : Option (List Log) :=
  if txHash = 5 then some [sampleLog] else none

def sampleTransaction (call : Int × Nat) : Option Hash :=
  ((sampleChain.receipts call.1)[call.2]?).map Prod.fst

def sampleClients : Clients where
  log :=
    { getLogs := fun _ request => .ok (some (sampleAnswer request))
      transactionCount := fun _ number => .ok (sampleChain.receipts number).length
      transactions := ⟨fun _ call => .ok (sampleTransaction call),
        fun _ calls => .ok (calls.map sampleTransaction)⟩
      receipts := ⟨fun _ txHash => .ok (sampleReceipt txHash),
        fun _ txHashes => .ok (txHashes.map sampleReceipt)⟩ }
  archive := false
  header := ⟨fun _ number => .ok (some (sampleHeader number)),
    fun _ numbers => .ok (numbers.map fun number => some (sampleHeader number))⟩
  archiveHeader := ⟨fun _ _ => .ok none, fun _ _ => .ok []⟩

theorem sample_has (log : Log) : sampleChain.Has log ↔ log = sampleLog := by
  constructor
  · rintro ⟨receipt, there, carried⟩
    simp only [sampleChain] at there
    split at there
    · cases List.mem_singleton.mp there
      exact List.mem_singleton.mp carried
    · cases there
  · rintro rfl
    exact ⟨_, List.mem_singleton_self _, List.mem_singleton_self _⟩

theorem answers_map {Call Reply : Type} (answer : Call → Reply) (right : Call → Reply → Prop)
    (each : ∀ call, right call (answer call)) :
    (⟨fun _ call => .ok (answer call), fun _ calls => .ok (calls.map answer)⟩ :
      Endpoint Call Reply).Answers right := by
  constructor
  · rintro path call reply same
    cases same
    exact each call
  · rintro path calls replies same pair member
    cases same
    have related : List.Forall₂ right calls (calls.map answer) :=
      List.forall₂_map_right_iff.mpr (List.forall₂_same.mpr fun call _ => each call)
    exact (List.forall₂_iff_zip.mp related).2 member

theorem sample_honest : sampleClients.log.Honest sampleChain := by
  constructor
  · rintro path request result same - log
    cases same
    rw [sample_has, sampleAnswer, List.mem_filter, List.mem_singleton]
    simp [Bool.and_eq_true, and_assoc]
  · rintro path number count same
    cases same
    rfl
  · apply answers_map sampleTransaction
    exact fun call hash same => same
  · apply answers_map sampleReceipt
    rintro txHash logs same number receipt there rfl log
    simp only [sampleChain] at there
    split at there
    · cases List.mem_singleton.mp there
      cases same
      rfl
    · cases there

theorem sample_query (path : Path) (topics : List Hash)
    (addresses : Option (List TxChain.Address)) (some : topics ≠ []) :
    logQuery sampleClients.log path 7 7 topics addresses =
      .ok (sampleAnswer ⟨7, 7, topics, named addresses⟩) := by
  have short : ¬MAX_LOGS_PER_RESPONSE ≤ (sampleAnswer ⟨7, 7, topics, named addresses⟩).length := by
    have one : (sampleAnswer ⟨7, 7, topics, named addresses⟩).length ≤ 1 :=
      List.length_filter_le _ _
    have many : 1 < MAX_LOGS_PER_RESPONSE := by decide
    omega
  rw [logQuery, if_neg some]
  simp only [sampleClients, short, ↓reduceIte]

theorem sample_logs : sourceLogs sampleClients 1 7 7 = .ok [sampleLog] := by
  have first : sampleAnswer ⟨7, 7, EVENT_TOPICS, named none⟩ = [sampleLog] := by decide
  have second : sampleAnswer ⟨7, 7, NFT_EVENT_TOPICS, named (some NFT_MANAGER_ADDRESSES)⟩ = [] := by
    decide
  have both : queries = [(EVENT_TOPICS, none), (NFT_EVENT_TOPICS, some NFT_MANAGER_ADDRESSES)] :=
    rfl
  have single : sourceLogs sampleClients 1 7 7 = providerLogs sampleClients.log 7 7 := rfl
  rw [single, providerLogs, both]
  simp only [List.zipIdx_cons, List.zipIdx_nil, List.mapM_cons, List.mapM_nil]
  rw [sample_query _ EVENT_TOPICS _ (List.cons_ne_nil _ _),
    sample_query _ NFT_EVENT_TOPICS _ (List.cons_ne_nil _ _), first, second]
  rfl

theorem sample_fetched : fetchInterval sampleClients 1 7 7 =
    .ok ([sampleLog], ⟨[(7, sampleHeader 7)], by decide⟩) := by
  rw [fetchInterval, sample_logs]
  rfl

theorem fetched_interval_exact_sample : sampleLog ∈ [sampleLog] ∧ sampleChain.Has sampleLog ∧
    Wanted sampleLog := by
  have complete := fetched_interval_exact sampleClients sampleChain sample_honest 1 7 7 _ _
    sample_fetched
  have one := (complete.1 sampleLog).mp (List.mem_singleton_self _)
  exact ⟨List.mem_singleton_self _, one.1, one.2.2⟩

end RhPools.IntervalFetch
