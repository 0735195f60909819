import Mathlib.Data.String.Basic
import RhPools.GateCredentials
import RhPools.LocalWrites
import RhPools.LogQueries
import RhPools.MarketStore

/-! The typed search catalogue of the market store: one entity under each kind and id, and
the terms it is found by. Pools give entities for themselves, their tokens and their venue;
events for their owner, their custody and their position. How a text is put into lower case
is fixed for ASCII and open elsewhere. -/

namespace RhPools.SearchCatalogue
open TxChain EventWords OrderedTables OffsetPaging MarketTables LocalWrites

def asciiLower (text : String) : String := String.ofList (text.toList.map Char.toLower)

def asciiUpper (text : String) : String := String.ofList (text.toList.map Char.toUpper)

def Ascii (text : String) : Prop := ∀ char ∈ text.toList, char.toNat < 128

structure Casing where
  lower : String → String
  ascii : ∀ text, Ascii text → lower text = asciiLower text
  again : ∀ text, lower (lower text) = lower text

theorem toLower_again (char : Char) : char.toLower.toLower = char.toLower := by
  by_cases high : 'A'.val ≤ char.val ∧ char.val ≤ 'Z'.val
  · have moved : char.toLower.val = char.val + ('a'.val - 'A'.val) := by
      have raised : char.toLower = ⟨char.val + ('a'.val - 'A'.val), _⟩ := dif_pos high
      rw [raised]
    apply dif_neg
    rw [moved]
    rintro ⟨-, below⟩
    obtain ⟨low, top⟩ := high
    rw [UInt32.le_iff_toNat_le] at low top
    rw [UInt32.le_iff_toNat_le, UInt32.toNat_add] at below
    simp at low top below
    omega
  · have same : char.toLower = char := dif_neg high
    rw [same, same]

def asciiCasing : Casing where
  lower := asciiLower
  ascii _ _ := rfl
  again text := by
    rw [asciiLower, asciiLower, String.toList_ofList, List.map_map]
    congr 2
    exact funext toLower_again

def strip (text : String) : String := String.ofList (GateCredentials.strip text.toList)

/-- `text[:limit]`. -/
def cutText (limit : Nat) (text : String) : String := String.ofList (text.toList.take limit)

def words (text : String) : List String :=
  ((text.toList.splitOnP fun char => !(char.isLower || char.isDigit)).filter
    fun word => !word.isEmpty).map String.ofList

def quoteChar (char : Char) : List Char :=
  if char.isAlphanum || char = '_' || char = '.' || char = '-' || char = '~' then [char]
  else (String.utf8EncodeChar char).flatMap fun byte =>
    ['%', (Nat.digitChar (byte.toNat / 16)).toUpper, (Nat.digitChar (byte.toNat % 16)).toUpper]

/-- `urllib.parse.quote` with nothing held safe. -/
def quote (text : String) : String := String.ofList (text.toList.flatMap quoteChar)

def hexText (digits value : Nat) : String :=
  "0x" ++ String.ofList ((List.range digits).map fun index =>
    Nat.digitChar (value / 16 ^ (digits - 1 - index) % 16))

def addressText (address : Address) : String := hexText 40 address.toNat

def hashText (hash : Hash) : String := hexText 64 hash.toNat

def poolText : PoolId → String
  | .contract contract => addressText contract
  | .key name => hashText name

def protocolText : Protocol → String
  | .v2 => "v2"
  | .v3 => "v3"
  | .v4 => "v4"
  | .nft => "nft"

/-- `str(value or default)`. -/
def orText (value : Option String) (default : String) : String :=
  match value with
  | some text => if text = "" then default else text
  | none => default

inductive SearchKind where
  | pool | token | protocol | owner | custody | transaction | position
  deriving DecidableEq, Repr

def SearchKind.text : SearchKind → String
  | .pool => "pool"
  | .token => "token"
  | .protocol => "protocol"
  | .owner => "owner"
  | .custody => "custody"
  | .transaction => "transaction"
  | .position => "position"

abbrev Key := SearchKind × String

def keyRank (key : Key) : String ×ₗ String := toLex (key.1.text, key.2)

structure Entity where
  kind : SearchKind
  id : String
  label : String
  subtitle : String
  href : String
  rank : Nat
  terms : List String

/-- A row of `lp_search_entities` without its key. -/
structure Entry where
  label : String
  subtitle : String
  href : String
  rank : Nat
  deriving DecidableEq, Repr

/-- `lp_search_entities` and `lp_search_terms`. Terms are in lower case, so that comparing
them without case compares them. -/
structure Catalogue where
  entities : OrderedTable Key Entry
  terms : OrderedTable (String × Key) Nat

def Catalogue.empty : Catalogue := ⟨.empty, .empty⟩

variable (casing : Casing)

def searchTokens (values : List String) : List String :=
  (values.flatMap fun value =>
    let text := casing.lower (strip value)
    if text = "" then [] else cutText 256 text :: (words text).map (cutText 256)).dedup

def searchId (id : String) : String := cutText 512 (casing.lower (strip id))

def Entity.key (entity : Entity) : Key := (entity.kind, searchId casing entity.id)

def Entity.entry (entity : Entity) : Entry :=
  ⟨cutText 512 entity.label, cutText 1000 entity.subtitle, cutText 1500 entity.href, entity.rank⟩

def Entity.tokens (entity : Entity) : List String :=
  searchTokens casing (searchId casing entity.id :: entity.label :: entity.subtitle :: entity.terms)

def entityRows (entities : List Entity) : List (Key × Entry) :=
  (entities.filter fun entity => searchId casing entity.id ≠ "").map fun entity =>
    (entity.key casing, entity.entry)

def weight (term : String) (key : Key) : Nat := if term = key.2 then 0 else 10

def termRows (entities : List Entity) : List ((String × Key) × Nat) :=
  (entities.filter fun entity => searchId casing entity.id ≠ "").flatMap fun entity =>
    (entity.tokens casing).map fun term =>
      ((term, entity.key casing), weight term (entity.key casing))

def unchanged (catalogue : Catalogue) (rows : List (Key × Entry)) (key : Key) : Bool :=
  (key.1 = .owner || key.1 = .custody) &&
    match (rows.filter fun row => row.1 = key).getLast? with
    | some row => catalogue.entities.get key = some row.2
    | none => false

def putSearchEntities (catalogue : Catalogue) (entities : List Entity) : Catalogue :=
  let rows := (entityRows casing entities).insertionSort (ordered fun row => keyRank row.1)
  let fresh := fun key => !unchanged catalogue rows key
  { entities := (rows.filter fun row => fresh row.1).foldl
      (fun table row => table.assign row.1 row.2) catalogue.entities
    terms := catalogue.terms.insertAll
      ((termRows casing entities).filter fun row => fresh row.1.2) }

def deleteEntities (catalogue : Catalogue) (keys : List Key) : Catalogue :=
  { entities := catalogue.entities.remove fun key _ => key ∈ keys
    terms := catalogue.terms.remove fun term _ => term.2 ∈ keys }

def FACTORY_NAMES : List (Address × String) :=
  [(0x1f7d7550b1b028f7571e69a784071f0205fd2efa#160, "Uniswap V3"),
    (0x1ac9db4a2608ba45d6127b1737949b51bb54b7f3#160, "Slipstream"),
    (0x0bfbcf9fa4f9c56b0f40a671ad40e0805a091865#160, "Pancake V3"),
    (0x0fbfcf9fa4f9c56b0f40a671ad40e0805a091865#160, "Pancake V3"),
    (0xece6ecd61177336ea6fb9b17937ac439d85ee20b#160, "Giga V3")]

def venueName (protocol : Protocol) (factory : Option Address) : String :=
  if protocol = .v4 then "Uniswap V4"
  else (factory.bind fun factory => List.lookup factory FACTORY_NAMES).getD
    (asciiUpper (protocolText protocol))

def tokenEntity (token : Address) (symbol : Option String) : Entity :=
  let address := addressText token
  ⟨.token, address, orText symbol address, "TOKEN · " ++ address, "/lp?q=" ++ quote address, 1,
    [symbol.getD "", address]⟩

/-- `venue.lower().replace(" ", "-")`. -/
def venueId (venue : String) : String :=
  String.ofList ((casing.lower venue).toList.map fun char => if char = ' ' then '-' else char)

def venueEntity (protocol : Protocol) (factory : Option Address) : Entity :=
  let venue := venueName protocol factory
  ⟨.protocol, venueId casing venue, venue,
    "INDEXED " ++ asciiUpper (protocolText protocol) ++ " PROTOCOL",
    "/lp?protocol=" ++ quote (protocolText protocol), 3,
    [protocolText protocol, venue, (factory.map addressText).getD ""]⟩

def poolEntity (id : PoolId) (pool : PoolRow) : Entity :=
  let token0 := addressText pool.token0
  let token1 := addressText pool.token1
  let symbol0 := orText pool.symbol0 token0
  let symbol1 := orText pool.symbol1 token1
  let venue := venueName pool.protocol pool.factory
  let pair := symbol0 ++ " / " ++ symbol1
  ⟨.pool, poolText id, pair, venue ++ " POOL · " ++ poolText id, "/pool?id=" ++ quote (poolText id),
    0, [protocolText pool.protocol, venue, (pool.factory.map addressText).getD "",
      addressText pool.address, token0, token1, symbol0, symbol1, pair]⟩

def poolSearchEntities (id : PoolId) (pool : PoolRow) : List Entity :=
  [poolEntity id pool, tokenEntity pool.token0 pool.symbol0, tokenEntity pool.token1 pool.symbol1,
    venueEntity casing pool.protocol pool.factory]

structure SearchRow where
  owner : Option String
  custody : Option String
  positionKey : Option String
  tokenId : Option String
  poolId : Option String
  protocol : Option String
  deriving DecidableEq

def SearchRow.blank : SearchRow := ⟨none, none, none, none, none, none⟩

def ownerEntity (address : String) : Entity :=
  ⟨.owner, address, address, "LP OWNER" ++ " · indexed canonical activity",
    "/lp?owner=" ++ quote address, 4, [address]⟩

def custodyEntity (address : String) : Entity :=
  ⟨.custody, address, address, "LP CUSTODY" ++ " · indexed canonical activity",
    "/lp?owner=" ++ quote address, 5, [address]⟩

def positionEntity (key : String) (row : SearchRow) : Entity :=
  ⟨.position, key,
    match row.tokenId with
    | some token => "Position " ++ token
    | none => key,
    asciiUpper (row.protocol.getD "") ++ " POSITION · " ++ key, "/lp?q=" ++ quote key, 2,
    [key, row.tokenId.getD "", row.poolId.getD ""]⟩

def eventSearchEntities (row : SearchRow) : List Entity :=
  let owner := casing.lower (row.owner.getD "")
  let custody := casing.lower (row.custody.getD "")
  let position := casing.lower (row.positionKey.getD "")
  (if owner = "" then [] else [ownerEntity owner]) ++
    (if custody = "" then [] else [custodyEntity custody]) ++
      if position = "" then [] else [positionEntity position row]

def identityRows (row : SearchRow) : List (Key × SearchRow) :=
  let owner := casing.lower (row.owner.getD "")
  let custody := casing.lower (row.custody.getD "")
  let position := casing.lower (row.positionKey.getD "")
  (if owner = "" then [] else [((.owner, owner), { SearchRow.blank with owner := owner })]) ++
    (if custody = "" then []
      else [((.custody, custody), { SearchRow.blank with custody := custody })]) ++
      if position = "" then [] else [((.position, position),
        { SearchRow.blank with
          positionKey := position, tokenId := row.tokenId, poolId := row.poolId
          protocol := row.protocol })]

/-- The entities `_index_event_search_batch` puts: the first row of each identity, in the
order of the identities. -/
def batchEntities (rows : List SearchRow) : List Entity :=
  let found := (OrderedTable.empty : OrderedTable Key SearchRow).insertAll
    (rows.flatMap (identityRows casing))
  (found.entries.insertionSort (ordered fun entry => keyRank entry.1)).flatMap
    fun entry => eventSearchEntities casing entry.2

/-- The column of `events` that names identities of a kind. -/
def column (kind : SearchKind) (row : Place × Terms) : Option String :=
  match kind with
  | .transaction => some (hashText row.1.txHash)
  | .owner => (row.2.party .owner).map addressText
  | .custody => (row.2.party .custody).map addressText
  | .position => row.2.label .positionKey
  | _ => none

/-- `SELECT .. GROUP BY`, without the block number, which no entity shows. -/
def groupRow (kind : SearchKind) (events : List (Place × Terms)) (identity : String) : SearchRow :=
  let members := events.filter fun row => column kind row = some identity
  match kind with
  | .owner => { SearchRow.blank with owner := identity }
  | .custody => { SearchRow.blank with custody := identity }
  | .position =>
    { SearchRow.blank with
      positionKey := identity
      tokenId := (members.filterMap fun row => row.2.label .tokenId).max?
      poolId := (members.filterMap fun row => row.2.poolId.map poolText).max?
      protocol := (members.map fun row => protocolText row.2.protocol).max? }
  | _ => .blank

def groupKeys (kind : SearchKind) (events : List (Place × Terms)) : List String :=
  (events.filterMap (column kind)).dedup.insertionSort (· ≤ ·)

inductive SearchWrite where
  | delete (keys : List Key)
  | put (entities : List Entity)

def write (catalogue : Catalogue) : SearchWrite → Catalogue
  | .delete keys => deleteEntities catalogue keys
  | .put entities => putSearchEntities casing catalogue entities

def BASE_PROTOCOLS : List (Protocol × String) :=
  [(.v2, "V2"), (.v3, "V3"), (.v4, "Uniswap V4")]

def baseEntity (base : Protocol × String) : Entity :=
  let protocol := protocolText base.1
  ⟨.protocol, protocol, base.2, "INDEXED " ++ asciiUpper protocol ++ " PROTOCOL",
    "/lp?protocol=" ++ protocol, 3,
    [protocol, base.2, if base.1 = .v3 ∨ base.1 = .v4 then "uniswap" else ""]⟩

def EVENT_KINDS : List SearchKind := [.transaction, .owner, .custody, .position]

def eventPuts (events : List (Place × Terms)) (kind : SearchKind) : List SearchWrite :=
  (groupKeys kind events).map fun identity =>
    .put (eventSearchEntities casing (groupRow kind events identity))

def poolPut (entry : PoolId × PoolRow) : SearchWrite :=
  .put (poolSearchEntities casing entry.1 entry.2)

def rebuildWrites (events : List (Place × Terms)) (pools : List (PoolId × PoolRow)) :
    List SearchWrite :=
  BASE_PROTOCOLS.map (fun base => .put [baseEntity base]) ++ pools.map (poolPut casing) ++
    EVENT_KINDS.flatMap (eventPuts casing events)

variable {Lp : Type}

/-- The columns of `events` that the catalogue is made of. -/
def eventRows (db : Db Lp) : List (Place × Terms) :=
  db.events.entries.map fun entry => (entry.2.place, entry.2.terms)

def rebuildSearchIndex (db : Db Lp) : Catalogue :=
  (rebuildWrites casing (eventRows db) db.pools.entries).foldl (write casing) .empty

def above (ancestor : Int) (row : Place × Terms) : Bool := ancestor < row.1.blockNumber

def orphaned (events : List (Place × Terms)) (ancestor : Int) (kind : SearchKind) : List String :=
  ((events.filter (above ancestor)).filterMap (column kind)).dedup

def repairBatch (events : List (Place × Terms)) (ancestor : Int) (kind : SearchKind)
    (batch : List String) : List SearchWrite :=
  let surviving := events.filter fun row => !above ancestor row
  let rows := ((groupKeys kind surviving).filter (· ∈ batch)).map (groupRow kind surviving)
  [.delete (batch.map fun identity => (kind, identity)), .put (batchEntities casing rows)]

def eventRepairs (events : List (Place × Terms)) (ancestor : Int) (kind : SearchKind) :
    List SearchWrite :=
  (LogQueries.chunks 500 (orphaned events ancestor kind)).flatMap
    (repairBatch casing events ancestor kind)

def poolIdentities (entry : PoolId × PoolRow) : List Key :=
  (poolSearchEntities casing entry.1 entry.2).map fun entity => (entity.kind, entity.id)

def poolRepairs (db : Db Lp) (ancestor : Int) : List SearchWrite :=
  let gone := db.pools.entries.filter fun entry => MarketStore.removable db ancestor entry.1 entry.2
  let affected := (gone.flatMap (poolIdentities casing)).dedup
  if affected.isEmpty then []
  else
    let staying := db.pools.entries.filter fun entry =>
      !MarketStore.removable db ancestor entry.1 entry.2
    .delete affected :: staying.map (fun entry =>
      .put ((poolSearchEntities casing entry.1 entry.2).filter fun entity =>
        (entity.kind, entity.id) ∈ affected)) ++
      (BASE_PROTOCOLS.filter fun base => (SearchKind.protocol, protocolText base.1) ∈ affected).map
        fun base => .put [baseEntity base]

def rollbackSearchIndex (catalogue : Catalogue) (db : Db Lp) (ancestor : Int) : Catalogue :=
  (EVENT_KINDS.flatMap (eventRepairs casing (eventRows db) ancestor) ++
    poolRepairs casing db ancestor).foldl (write casing) catalogue

end RhPools.SearchCatalogue
