import Mathlib.Algebra.Order.BigOperators.Group.List
import Mathlib.Algebra.Order.Ring.Int
import Mathlib.Tactic.Ring
import RhPools.GroupedSums

/-! The counts of the pool catalogue. A batch of pools adds to the counts of pairs and
protocols what it changed in the rows: it takes each pool's previous row off and counts its
new one, and a pool that comes twice in a batch is taken off by its own first row. -/

namespace RhPools.CatalogCounts
open OrderedTables

structure Pool where
  id : String
  kind : String
  token0 : String
  token1 : String

/-- A row of `lp_catalog_search`. -/
structure CatalogRow where
  id : String
  protocol : String
  token0 : String
  token1 : String
  symbol0 : Option String
  symbol1 : Option String
  label : String
  subtitle : String
  href : String
  deriving DecidableEq

abbrev Symbols := String → Option String

def front (text : String) (count : Nat) : String := String.ofList (text.toList.take count)

/-- `str(..)[:32] or None`. -/
def symbolOf (symbols : Symbols) (token : String) : Option String :=
  let text := front ((symbols token).getD "") 32
  if text = "" then none else some text

/-- The row of a pool; `quote` is `urllib.parse.quote`. -/
def catalogRow (quote : String → String) (symbols : Symbols) (pool : Pool) : CatalogRow :=
  let token0 := pool.token0.toLower
  let token1 := pool.token1.toLower
  let id := pool.id.toLower
  let protocol := pool.kind.toLower
  let symbol0 := symbolOf symbols token0
  let symbol1 := symbolOf symbols token1
  { id, protocol, token0, token1, symbol0, symbol1
    label := symbol0.getD (front token0 10) ++ " / " ++ symbol1.getD (front token1 10)
    subtitle := protocol.toUpper ++ " VERIFIED CATALOG POOL · " ++ id
    href := "/pool?id=" ++ quote id }

abbrev Pair := String × String

def pairOf (row : CatalogRow) : Option Pair :=
  match row.symbol0, row.symbol1 with
  | some symbol0, some symbol1 => if symbol0 ≠ "" ∧ symbol1 ≠ "" then some (symbol0, symbol1) else none
  | _, _ => none

structure Catalog where
  search : OrderedTable String CatalogRow
  tokens : OrderedTable String (Option String)
  pairs : OrderedTable Pair Int
  protocolCounts : OrderedTable String Int
  signature : String
  pending : String
  cursor : Nat

def Catalog.fresh : Catalog := ⟨.empty, .empty, .empty, .empty, "", "", 0⟩

structure Pass where
  existing : OrderedTable String CatalogRow
  poolRows : List CatalogRow
  tokenRows : OrderedTable String (Option String)
  batchCounts : OrderedTable String Int
  pairCounts : OrderedTable Pair Int

/-- `counts[key] = counts.get(key, 0) + amount`. -/
def bump {Key : Type} [DecidableEq Key] (counts : OrderedTable Key Int) (key : Key)
    (amount : Int) : OrderedTable Key Int :=
  counts.assign key ((counts.get key).getD 0 + amount)

def bumpPair (counts : OrderedTable Pair Int) (row : CatalogRow) (amount : Int) :
    OrderedTable Pair Int :=
  match pairOf row with
  | some pair => bump counts pair amount
  | none => counts

def passPool (quote : String → String) (symbols : Symbols) (pass : Pass) (pool : Pool) : Pass :=
  let row := catalogRow quote symbols pool
  let previous := pass.existing.get row.id
  if previous = some row then pass
  else
    let uncounted := match previous with
      | none => (pass.batchCounts, pass.pairCounts)
      | some old => (bump pass.batchCounts old.protocol (-1), bumpPair pass.pairCounts old (-1))
    let symbol0 := row.symbol0.or (pass.tokenRows.get row.token0).join
    let named0 := pass.tokenRows.assign row.token0 symbol0
    let symbol1 := row.symbol1.or (named0.get row.token1).join
    { existing := pass.existing.assign row.id row
      poolRows := pass.poolRows ++ [row]
      tokenRows := named0.assign row.token1 symbol1
      batchCounts := bump uncounted.1 row.protocol 1
      pairCounts := bumpPair uncounted.2 row 1 }

/-- `ON CONFLICT .. COALESCE(excluded.symbol,symbol)`. -/
def writeToken (tokens : OrderedTable String (Option String))
    (entry : String × Option String) : OrderedTable String (Option String) :=
  match tokens.get entry.1 with
  | none => tokens.put entry.1 entry.2
  | some old => if entry.2 = none ∨ entry.2 = old then tokens else tokens.put entry.1 entry.2

def writePair (pairs : OrderedTable Pair Int) (entry : Pair × Int) : OrderedTable Pair Int :=
  if entry.2 = 0 then pairs else pairs.put entry.1 ((pairs.get entry.1).getD 0 + entry.2)

def clearPair (pairs : OrderedTable Pair Int) (entry : Pair × Int) : OrderedTable Pair Int :=
  if entry.2 < 0 ∧ (pairs.get entry.1).any (· ≤ 0) then pairs.erase entry.1 else pairs

def writeProtocol (counts : OrderedTable String Int) (entry : String × Int) :
    OrderedTable String Int :=
  let total := (counts.get entry.1).getD 0 + entry.2
  if total ≠ 0 then counts.assign entry.1 total else counts.erase entry.1

def upsertCatalogBatch (quote : String → String) (catalog : Catalog) (pools : List Pool)
    (symbols : Symbols) : Catalog :=
  let ids := pools.map fun pool => pool.id.toLower
  let known := catalog.search.keep
    (catalog.search.entries.filter fun entry => entry.1 ∈ ids) List.filter_sublist
  let pass := pools.foldl (passPool quote symbols) ⟨known, [], .empty, .empty, .empty⟩
  if pass.poolRows = [] then catalog
  else
    { catalog with
      search := catalog.search.putAll (pass.poolRows.map fun row => (row.id, row))
      tokens := pass.tokenRows.entries.foldl writeToken catalog.tokens
      pairs := pass.pairCounts.entries.foldl clearPair
        (pass.pairCounts.entries.foldl writePair catalog.pairs)
      protocolCounts :=
        if pass.batchCounts.entries.any fun entry => entry.2 ≠ 0 then
          pass.batchCounts.entries.foldl writeProtocol catalog.protocolCounts
        else catalog.protocolCounts }

def upsertCatalogPools (quote : String → String) (catalog : Catalog) (pools : List Pool)
    (symbols : Symbols) : Catalog :=
  if pools = [] then catalog else upsertCatalogBatch quote catalog pools symbols

/-- The first transaction of `build_catalog_search`. -/
def startBuild (catalog : Catalog) (signature : String) : Catalog :=
  if catalog.signature = signature then catalog
  else if catalog.pending ≠ signature then
    { catalog with
      search := .empty, tokens := .empty, pairs := .empty, protocolCounts := .empty
      cursor := 0, pending := signature }
  else catalog

/-- One round of the loop of `build_catalog_search`. -/
def advanceBuild (quote : String → String) (catalog : Catalog) (pools : List Pool)
    (symbols : Symbols) (signature : String) (batchSize : Int) : Catalog :=
  if catalog.signature = signature ∨ catalog.pending ≠ signature then catalog
  else
    let bounded := (max 100 (min batchSize 1000)).toNat
    let batch := (pools.drop catalog.cursor).take bounded
    let stored := upsertCatalogBatch quote catalog batch symbols
    let cursor := catalog.cursor + batch.length
    if pools.length ≤ cursor then
      { stored with cursor := cursor, signature := signature, pending := "" }
    else { stored with cursor := cursor }

section Writes
variable {Key Row : Type} [DecidableEq Key]

theorem total_put (table : OrderedTable Key Row) (key : Key) (row : Row) (amount : Row → Int) :
    (table.put key row).total amount =
      table.total amount - (table.get key).elim 0 amount + amount row := by
  have split : table.total amount = (table.erase key).total amount + (table.get key).elim 0 amount := by
    rw [← entries_sum table amount key]
    simp only [OrderedTable.total, OrderedTable.erase, OrderedTable.keep]
    induction table.entries with
    | nil => rfl
    | cons entry rest ih =>
      by_cases here : entry.1 = key
      · simp [here, ih]
        ring
      · simp [here, ih]
        ring
  have grown : (table.put key row).total amount = (table.erase key).total amount + amount row := by
    simp [OrderedTable.total, OrderedTable.put]
  rw [grown, split]
  ring

end Writes

abbrev Search := OrderedTable String CatalogRow

def pairCount (search : Search) (pair : Pair) : Int := search.grouped pairOf (fun _ => 1) pair

def protocolCount (search : Search) (protocol : String) : Int :=
  search.grouped (fun row => some row.protocol) (fun _ => 1) protocol

def share {Group : Type} [DecidableEq Group] (group : CatalogRow → Option Group) (chosen : Group)
    (row : CatalogRow) : Int :=
  if group row = some chosen then 1 else 0

section Groups
variable {Group : Type} [DecidableEq Group]

theorem grouped_put (search : Search) (group : CatalogRow → Option Group) (id : String)
    (row : CatalogRow) (chosen : Group) :
    (search.put id row).grouped group (fun _ => (1 : Int)) chosen =
      search.grouped group (fun _ => (1 : Int)) chosen -
        (search.get id).elim 0 (share group chosen) + share group chosen row :=
  total_put search id row (share group chosen)

theorem grouped_nonneg (search : Search) (group : CatalogRow → Option Group) (chosen : Group) :
    0 ≤ search.grouped group (fun _ => (1 : Int)) chosen := by
  apply List.sum_nonneg
  intro amount member
  obtain ⟨entry, _, rfl⟩ := List.mem_map.mp member
  dsimp only
  split <;> decide

end Groups

theorem get_bump {Key : Type} [DecidableEq Key] (counts : OrderedTable Key Int) (key other : Key)
    (amount : Int) : ((bump counts key amount).get other).getD 0 =
      (counts.get other).getD 0 + if key = other then amount else 0 := by
  rw [bump, get_assign]
  by_cases same : other = key
  · rw [if_pos same, if_pos same.symm, same, Option.getD_some]
  · rw [if_neg same, if_neg (Ne.symm same), add_zero]

theorem get_bumpPair (counts : OrderedTable Pair Int) (row : CatalogRow) (amount : Int)
    (pair : Pair) : ((bumpPair counts row amount).get pair).getD 0 =
      (counts.get pair).getD 0 + amount * share pairOf pair row := by
  unfold bumpPair share
  cases found : pairOf row with
  | none => simp
  | some own =>
    simp only [get_bump, Option.some.injEq]
    split <;> simp

theorem get_bumpProtocol (counts : OrderedTable String Int) (row : CatalogRow) (amount : Int)
    (protocol : String) : ((bump counts row.protocol amount).get protocol).getD 0 =
      (counts.get protocol).getD 0 +
        amount * share (fun row => some row.protocol) protocol row := by
  simp only [get_bump, share, Option.some.injEq]
  split <;> simp

def CatalogRow.Named (row : CatalogRow) : Prop := row.symbol0 ≠ some "" ∧ row.symbol1 ≠ some ""

theorem symbolOf_named (symbols : Symbols) (token : String) : symbolOf symbols token ≠ some "" := by
  unfold symbolOf
  dsimp only
  split
  · exact nofun
  · rename_i apart
    intro empty
    exact apart (Option.some.inj empty)

theorem catalogRow_named (quote : String → String) (symbols : Symbols) (pool : Pool) :
    (catalogRow quote symbols pool).Named :=
  ⟨symbolOf_named symbols _, symbolOf_named symbols _⟩

def Pass.rows (search : Search) (pass : Pass) : Search :=
  search.putAll (pass.poolRows.map fun row => (row.id, row))

structure Gathered (search : Search) (ids : List String) (pass : Pass) : Prop where
  existing : ∀ id ∈ ids, pass.existing.get id = (pass.rows search).get id
  pairs : ∀ pair, (pass.pairCounts.get pair).getD 0 =
    pairCount (pass.rows search) pair - pairCount search pair
  protocols : ∀ protocol, (pass.batchCounts.get protocol).getD 0 =
    protocolCount (pass.rows search) protocol - protocolCount search protocol
  named : ∀ row ∈ pass.poolRows, row.Named

theorem passPool_gathered {search : Search} {ids : List String} {pass : Pass}
    (gathered : Gathered search ids pass) (quote : String → String) (symbols : Symbols)
    {pool : Pool} (asked : pool.id.toLower ∈ ids) :
    Gathered search ids (passPool quote symbols pass pool) := by
  have known := gathered.existing _ asked
  have own : (catalogRow quote symbols pool).id = pool.id.toLower := rfl
  have fresh := catalogRow_named quote symbols pool
  unfold passPool
  dsimp only
  rw [← own] at known
  generalize catalogRow quote symbols pool = row at known fresh
  split
  · exact gathered
  · have rows : ∀ existing tokens batches pairs,
        Pass.rows search ⟨existing, pass.poolRows ++ [row], tokens, batches, pairs⟩ =
          (pass.rows search).put row.id row := by
      intro existing tokens batches pairs
      simp only [Pass.rows, OrderedTable.putAll, List.map_append, List.foldl_append]
      rfl
    constructor
    · intro id member
      rw [rows, get_put, get_assign, gathered.existing id member]
    · intro pair
      rw [rows, pairCount, grouped_put, ← known, ← pairCount]
      have before := gathered.pairs pair
      cases pass.existing.get row.id with
      | none =>
        simp only [get_bumpPair, Option.elim_none]
        omega
      | some old =>
        simp only [get_bumpPair, Option.elim_some]
        omega
    · intro protocol
      rw [rows, protocolCount, grouped_put, ← known, ← protocolCount]
      have before := gathered.protocols protocol
      cases pass.existing.get row.id with
      | none =>
        simp only [get_bumpProtocol, Option.elim_none]
        omega
      | some old =>
        simp only [get_bumpProtocol, Option.elim_some]
        omega
    · intro other member
      rcases List.mem_append.mp member with old | new
      · exact gathered.named other old
      · rw [List.mem_singleton] at new
        exact new ▸ fresh

theorem foldl_gathered {search : Search} {ids : List String} (quote : String → String)
    (symbols : Symbols) (pools : List Pool) (inside : ∀ pool ∈ pools, pool.id.toLower ∈ ids)
    {pass : Pass} (gathered : Gathered search ids pass) :
    Gathered search ids (pools.foldl (passPool quote symbols) pass) := by
  induction pools generalizing pass with
  | nil => exact gathered
  | cons pool rest ih =>
    apply ih (fun other member => inside other (List.mem_cons_of_mem _ member))
    exact passPool_gathered gathered quote symbols (inside pool List.mem_cons_self)

/-- Pairs with a positive count and protocols with a count, with that count. -/
structure Counted (catalog : Catalog) : Prop where
  pairs : ∀ pair, catalog.pairs.get pair =
    if 0 < pairCount catalog.search pair then some (pairCount catalog.search pair) else none
  protocols : ∀ protocol, catalog.protocolCounts.get protocol =
    if protocolCount catalog.search protocol ≠ 0 then
      some (protocolCount catalog.search protocol) else none
  named : ∀ entry ∈ catalog.search.entries, entry.2.Named

def becomePair (old : Option Int) (count : Int) : Option Int :=
  let written := if count = 0 then old else some (old.getD 0 + count)
  if count < 0 ∧ written.any (· ≤ 0) then none else written

theorem written_pairs (pairs : OrderedTable Pair Int) (counts : OrderedTable Pair Int)
    (pair : Pair) :
    (counts.entries.foldl clearPair (counts.entries.foldl writePair pairs)).get pair =
      (counts.get pair).elim (pairs.get pair) (becomePair (pairs.get pair)) := by
  have written := get_foldl writePair
    (fun _ old count => if count = 0 then old else some (old.getD 0 + count)) (by
      intro table entry other
      unfold writePair
      split
      · split <;> simp_all
      · rw [get_put]) counts pairs pair
  have cleared := get_foldl clearPair
    (fun _ old count => if count < 0 ∧ old.any (· ≤ 0) then none else old) (by
      intro table entry other
      unfold clearPair
      split
      · rw [get_erase]
      · split <;> simp_all) counts (counts.entries.foldl writePair pairs) pair
  rw [cleared, written]
  cases counts.get pair <;> rfl

theorem written_protocols (stored : OrderedTable String Int) (counts : OrderedTable String Int)
    (protocol : String) :
    (counts.entries.foldl writeProtocol stored).get protocol =
      (counts.get protocol).elim (stored.get protocol) fun count =>
        if (stored.get protocol).getD 0 + count ≠ 0 then
          some ((stored.get protocol).getD 0 + count) else none := by
  apply get_foldl writeProtocol fun _ old count =>
    if old.getD 0 + count ≠ 0 then some (old.getD 0 + count) else none
  intro table entry other
  unfold writeProtocol
  dsimp only
  split
  · rw [get_assign]
  · rw [get_erase]

theorem becomePair_count {before after count : Int} (low : 0 ≤ before) (high : 0 ≤ after)
    (moved : count = after - before) :
    becomePair (if 0 < before then some before else none) count =
      if 0 < after then some after else none := by
  have old : (if 0 < before then some before else none).getD 0 = before := by
    split
    · rfl
    · simp only [Option.getD_none]
      omega
  unfold becomePair
  rw [old]
  dsimp only
  by_cases still : count = 0
  · have same : after = before := by omega
    rw [if_pos still, if_neg (by omega), same]
  · rw [if_neg still, show before + count = after by omega]
    by_cases falls : count < 0 ∧ (some after).any (fun count => decide (count ≤ 0)) = true
    · have gone : after ≤ 0 := by simpa using falls.2
      rw [if_pos falls, if_neg (by omega)]
    · rw [if_neg falls]
      have stays : ¬ (count < 0 ∧ after ≤ 0) := by simpa using falls
      rw [if_pos (by omega)]

variable {catalog : Catalog}

theorem upsertCatalogBatch_counted (counted : Counted catalog) (quote : String → String)
    (pools : List Pool) (symbols : Symbols) :
    Counted (upsertCatalogBatch quote catalog pools symbols) := by
  have start : Gathered catalog.search (pools.map fun pool => pool.id.toLower)
      ⟨catalog.search.keep (catalog.search.entries.filter fun entry =>
        entry.1 ∈ pools.map fun pool => pool.id.toLower) List.filter_sublist,
        [], .empty, .empty, .empty⟩ := by
    constructor
    · intro id member
      apply Option.ext
      intro row
      rw [get_some, Pass.rows, get_some]
      simp [OrderedTable.keep, OrderedTable.putAll] at member ⊢
      intro _
      exact member
    · intro pair
      simp [Pass.rows, OrderedTable.putAll]
    · intro protocol
      simp [Pass.rows, OrderedTable.putAll]
    · exact fun _ absent => absurd absent List.not_mem_nil
  have gathered := foldl_gathered quote symbols pools
    (fun pool member => List.mem_map_of_mem (f := fun pool : Pool => pool.id.toLower) member) start
  unfold upsertCatalogBatch
  dsimp only
  generalize pools.foldl (passPool quote symbols) _ = pass at gathered
  split
  · exact counted
  · constructor
    · intro pair
      have moved := gathered.pairs pair
      have low := grouped_nonneg catalog.search pairOf pair
      have high := grouped_nonneg (pass.rows catalog.search) pairOf pair
      show (pass.pairCounts.entries.foldl clearPair _).get pair =
        if 0 < pairCount (pass.rows catalog.search) pair then
          some (pairCount (pass.rows catalog.search) pair) else none
      rw [written_pairs, counted.pairs pair]
      cases found : pass.pairCounts.get pair with
      | none =>
        rw [found, Option.getD_none] at moved
        have same : pairCount (pass.rows catalog.search) pair = pairCount catalog.search pair := by
          omega
        rw [same]
        rfl
      | some count =>
        rw [found, Option.getD_some] at moved
        exact becomePair_count low high moved
    · intro protocol
      have moved := gathered.protocols protocol
      show (if _ then pass.batchCounts.entries.foldl writeProtocol catalog.protocolCounts
          else catalog.protocolCounts).get protocol =
        if protocolCount (pass.rows catalog.search) protocol ≠ 0 then
          some (protocolCount (pass.rows catalog.search) protocol) else none
      have old : (catalog.protocolCounts.get protocol).getD 0 =
          protocolCount catalog.search protocol := by
        rw [counted.protocols protocol]
        split
        · rfl
        · rename_i none_
          exact (not_not.mp none_).symm
      have same : (pass.batchCounts.get protocol).getD 0 = 0 →
          catalog.protocolCounts.get protocol =
            if protocolCount (pass.rows catalog.search) protocol ≠ 0 then
              some (protocolCount (pass.rows catalog.search) protocol) else none := by
        intro nothing
        rw [nothing] at moved
        rw [counted.protocols protocol, show protocolCount (pass.rows catalog.search) protocol =
          protocolCount catalog.search protocol by omega]
      split
      · rw [written_protocols, old]
        cases found : pass.batchCounts.get protocol with
        | none => exact same (by rw [found]; rfl)
        | some count =>
          rw [found, Option.getD_some] at moved
          rw [Option.elim_some, show protocolCount catalog.search protocol + count =
            protocolCount (pass.rows catalog.search) protocol by omega]
      · rename_i quiet
        apply same
        cases found : pass.batchCounts.get protocol with
        | none => rfl
        | some count =>
          by_contra moves
          apply quiet
          rw [List.any_eq_true]
          exact ⟨_, (get_some _ _ _).mp found, decide_eq_true moves⟩
    · intro entry member
      rcases mem_putAll _ _ _ member with old | new
      · exact counted.named entry old
      · obtain ⟨row, inside, rfl⟩ := List.mem_map.mp new
        exact gathered.named row inside

theorem startBuild_counted (counted : Counted catalog) (signature : String) :
    Counted (startBuild catalog signature) := by
  unfold startBuild
  split
  · exact counted
  · split
    · exact ⟨fun _ => rfl, fun _ => rfl, fun _ absent => absurd absent List.not_mem_nil⟩
    · exact counted

theorem advanceBuild_counted (counted : Counted catalog) (quote : String → String)
    (pools : List Pool) (symbols : Symbols) (signature : String) (batchSize : Int) :
    Counted (advanceBuild quote catalog pools symbols signature batchSize) := by
  unfold advanceBuild
  split
  · exact counted
  · dsimp only
    have stored := upsertCatalogBatch_counted counted quote
      ((pools.drop catalog.cursor).take (max 100 (min batchSize 1000)).toNat) symbols
    split
    · exact ⟨stored.pairs, stored.protocols, stored.named⟩
    · exact ⟨stored.pairs, stored.protocols, stored.named⟩

/-- The transactions of discovery and of builds. A build is a `start` and then rounds, until
one finds the signature stored or the build is stopped. -/
inductive Transaction where
  | upsert (pools : List Pool) (symbols : Symbols)
  | start (signature : String)
  | round (pools : List Pool) (symbols : Symbols) (signature : String) (batchSize : Int)

def commit (quote : String → String) (catalog : Catalog) : Transaction → Catalog
  | .upsert pools symbols => upsertCatalogPools quote catalog pools symbols
  | .start signature => startBuild catalog signature
  | .round pools symbols signature batchSize =>
    advanceBuild quote catalog pools symbols signature batchSize

theorem commit_counted (counted : Counted catalog) (quote : String → String)
    (transaction : Transaction) : Counted (commit quote catalog transaction) := by
  cases transaction with
  | upsert pools symbols =>
    show Counted (upsertCatalogPools quote catalog pools symbols)
    unfold upsertCatalogPools
    split
    · exact counted
    · exact upsertCatalogBatch_counted counted quote pools symbols
  | start signature => exact startBuild_counted counted signature
  | round pools symbols signature batchSize =>
    exact advanceBuild_counted counted quote pools symbols signature batchSize

/-- After any transactions the counts are those of a recount over the stored rows. -/
theorem counts_recount (quote : String → String) (transactions : List Transaction) :
    Counted (transactions.foldl (commit quote) .fresh) := by
  have counted : ∀ catalog, Counted catalog →
      Counted (transactions.foldl (commit quote) catalog) := by
    induction transactions with
    | nil => exact fun _ counted => counted
    | cons transaction rest ih =>
      exact fun catalog counted => ih _ (commit_counted counted quote transaction)
  exact counted .fresh ⟨fun _ => rfl, fun _ => rfl, fun _ absent => absurd absent List.not_mem_nil⟩

end RhPools.CatalogCounts
