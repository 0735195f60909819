import RhPools.SearchCatalogue

/-! The catalogue, one key at a time: what puts and deletions do to the entity and the terms of
a key. Ids that are spelled as they are listed, as those of pools, tokens and venues are, and
the repair of these. -/

namespace RhPools.SearchCells
open OrderedTables OffsetPaging MarketTables LocalWrites SearchCatalogue

structure Cell where
  entry : Option Entry
  weights : String → Option Nat

def Cell.empty : Cell := ⟨none, fun _ => none⟩

def cell (catalogue : Catalogue) (key : Key) : Cell :=
  ⟨catalogue.entities.get key, fun term => catalogue.terms.get (term, key)⟩

theorem filter_sorted {Item Rank : Type} [LinearOrder Rank] (rank : Item → Rank)
    (chosen : Item → Bool) (items : List Item)
    (level : ∀ one ∈ items, ∀ other ∈ items, chosen one = true → chosen other = true →
      rank one = rank other) :
    (items.insertionSort (ordered rank)).filter chosen = items.filter chosen := by
  have flat : (items.filter chosen).Pairwise (ordered rank) := by
    apply List.pairwise_of_forall_mem_list
    intro one first other second
    obtain ⟨oneIn, oneChosen⟩ := List.mem_filter.mp first
    obtain ⟨otherIn, otherChosen⟩ := List.mem_filter.mp second
    exact (level one oneIn other otherIn oneChosen otherChosen).le
  have inside := (List.sublist_insertionSort flat List.filter_sublist).filter chosen
  simp only [List.filter_filter, Bool.and_self] at inside
  refine (inside.eq_of_length ?_).symm
  exact ((List.perm_insertionSort (ordered rank) items).symm.filter chosen).length_eq

theorem get_assigned {Row Value : Type} [DecidableEq Row] (table : OrderedTable Row Value)
    (rows : List (Row × Value)) (key : Row) :
    (rows.foldl (fun table row => table.assign row.1 row.2) table).get key =
      ((rows.filter fun row => row.1 = key).getLast?.map Prod.snd).or (table.get key) := by
  induction rows generalizing table with
  | nil => rfl
  | cons row rest ih =>
    rw [List.foldl_cons, ih, get_assign]
    by_cases here : row.1 = key
    · rw [List.filter_cons_of_pos (by simp [here]), if_pos here.symm, List.getLast?_cons]
      cases (rest.filter fun row => row.1 = key).getLast? <;> rfl
    · rw [List.filter_cons_of_neg (by simp [here]), if_neg (Ne.symm here)]

theorem get_insertAll_same {Row Value : Type} [DecidableEq Row] (table : OrderedTable Row Value)
    (pairs : List (Row × Value)) (key : Row) (value : Value) (listed : Prop) [Decidable listed]
    (there : key ∈ pairs.map Prod.fst ↔ listed)
    (same : ∀ pair ∈ pairs, pair.1 = key → pair.2 = value) :
    (table.insertAll pairs).get key =
      (table.get key).or (if listed then some value else none) := by
  cases before : table.get key with
  | some held => rw [get_insertAll_some table pairs key held before, Option.some_or]
  | none =>
    rw [Option.none_or]
    split
    · rename_i holds
      cases after : (table.insertAll pairs).get key with
      | none => exact absurd (there.mpr holds) ((get_insertAll_none table pairs key).mp after).2
      | some held =>
        rcases get_insertAll table pairs key held after with old | ⟨-, member⟩
        · simp [before] at old
        · rw [← same _ member rfl]
    · rename_i missing
      have absent : key ∉ pairs.map Prod.fst := fun named => missing (there.mp named)
      exact (get_insertAll_none table pairs key).mpr ⟨before, absent⟩

variable (casing : Casing)

def OwnItem (key : Key) (entity : Entity) : Bool :=
  searchId casing entity.id ≠ "" && entity.key casing = key

def ownItems (key : Key) (entities : List Entity) : List Entity :=
  entities.filter (OwnItem casing key)

def stable (key : Key) : Bool := key.1 = .owner || key.1 = .custody

def writeCell (key : Key) (items : List Entity) (cell : Cell) : Cell :=
  match items.getLast? with
  | none => cell
  | some last =>
    if stable key && cell.entry = some last.entry then cell
    else
      { entry := some last.entry
        weights := fun term => (cell.weights term).or
          (if term ∈ items.flatMap (Entity.tokens casing) then some (weight term key) else none) }

theorem entityRows_own (entities : List Entity) (key : Key) :
    (entityRows casing entities).filter (fun row => row.1 = key) =
      (ownItems casing key entities).map fun entity => (key, entity.entry) := by
  rw [entityRows, List.filter_map, List.filter_filter, ownItems]
  have same : (entities.filter fun entity => (fun row : Key × Entry => decide (row.1 = key))
      (entity.key casing, entity.entry) && decide (searchId casing entity.id ≠ "")) =
      entities.filter (OwnItem casing key) := by
    apply List.filter_congr
    intro entity _
    simp [OwnItem, Bool.and_comm]
  refine (congrArg _ same).trans ?_
  apply List.map_congr_left
  intro entity member
  have own := (List.mem_filter.mp member).2
  simp only [OwnItem, Bool.and_eq_true, decide_eq_true_eq] at own
  rw [own.2]

theorem mem_termRows (entities : List Entity) (key : Key) (term : String) (value : Nat) :
    ((term, key), value) ∈ termRows casing entities ↔
      term ∈ (ownItems casing key entities).flatMap (Entity.tokens casing) ∧
        value = weight term key := by
  simp only [termRows, ownItems, OwnItem, List.mem_flatMap, List.mem_filter, List.mem_map,
    Prod.mk.injEq, Bool.and_eq_true, decide_eq_true_eq]
  constructor
  · rintro ⟨entity, ⟨member, named⟩, token, listed, ⟨rfl, rfl⟩, rfl⟩
    exact ⟨⟨entity, ⟨member, named, rfl⟩, listed⟩, rfl⟩
  · rintro ⟨⟨entity, ⟨member, named, rfl⟩, listed⟩, rfl⟩
    exact ⟨entity, ⟨member, named⟩, term, listed, ⟨rfl, rfl⟩, rfl⟩


theorem filter_at {Value : Type} (rows : List (Key × Value)) (fresh : Key → Bool) (key : Key) :
    (rows.filter fun row => fresh row.1).filter (fun row => row.1 = key) =
      if fresh key then rows.filter fun row => row.1 = key else [] := by
  rw [List.filter_filter]
  split
  · rename_i taken
    apply List.filter_congr
    intro row _
    by_cases here : row.1 = key
    · simp [here, taken]
    · simp [here]
  · rename_i refused
    apply List.filter_eq_nil_iff.mpr
    intro row _
    by_cases here : row.1 = key
    · simp [here, refused]
    · simp [here]

theorem put_cell (catalogue : Catalogue) (entities : List Entity) (key : Key) :
    cell (putSearchEntities casing catalogue entities) key =
      writeCell casing key (ownItems casing key entities) (cell catalogue key) := by
  have rows : ((entityRows casing entities).insertionSort
      (ordered fun row => keyRank row.1)).filter (fun row => row.1 = key) =
      (ownItems casing key entities).map fun entity => (key, entity.entry) := by
    rw [filter_sorted (fun row : Key × Entry => keyRank row.1), entityRows_own]
    intro one _ other _ first second
    rw [of_decide_eq_true first, of_decide_eq_true second]
  generalize sorted : (entityRows casing entities).insertionSort
    (ordered fun row => keyRank row.1) = table at rows
  have terms : ∀ term, (catalogue.terms.insertAll ((termRows casing entities).filter fun row =>
      !unchanged catalogue table row.1.2)).get (term, key) = (catalogue.terms.get (term, key)).or
        (if unchanged catalogue table key = false ∧
            term ∈ (ownItems casing key entities).flatMap (Entity.tokens casing) then
          some (weight term key) else none) := by
    intro term
    apply get_insertAll_same
    · rw [List.mem_map]
      constructor
      · rintro ⟨⟨other, value⟩, member, rfl⟩
        obtain ⟨listed, fresh⟩ := List.mem_filter.mp member
        exact ⟨by simpa using fresh, ((mem_termRows casing entities key term value).mp listed).1⟩
      · rintro ⟨fresh, listed⟩
        refine ⟨((term, key), weight term key), List.mem_filter.mpr ⟨?_, by simp [fresh]⟩, rfl⟩
        exact (mem_termRows casing entities key term _).mpr ⟨listed, rfl⟩
    · rintro ⟨other, value⟩ member rfl
      exact ((mem_termRows casing entities key term value).mp (List.mem_filter.mp member).1).2
  have entities_ : ((table.filter fun row => !unchanged catalogue table row.1).foldl
      (fun table row => table.assign row.1 row.2) catalogue.entities).get key =
      ((if unchanged catalogue table key = false then (ownItems casing key entities).getLast?.map
        Entity.entry else none).or (catalogue.entities.get key)) := by
    rw [get_assigned, filter_at _ (fun key => !unchanged catalogue table key), rows]
    cases unchanged catalogue table key with
    | true => rfl
    | false => simp [List.getLast?_map, Function.comp_def]
  simp only [cell, putSearchEntities, sorted, terms, entities_]
  rw [writeCell]
  cases ends : (ownItems casing key entities).getLast? with
  | none =>
    rw [List.getLast?_eq_none_iff.mp ends]
    simp
  | some last =>
    -- whether the key is left alone is decided by the last of its own entities
    have left : unchanged catalogue table key =
        (stable key && decide (catalogue.entities.get key = some last.entry)) := by
      rw [unchanged, rows, List.getLast?_map, ends]
      rfl
    dsimp only
    rw [left]
    generalize (stable key && decide (catalogue.entities.get key = some last.entry)) = kept
    cases kept <;> simp

theorem delete_cell (catalogue : Catalogue) (keys : List Key) (key : Key) :
    cell (deleteEntities catalogue keys) key =
      if key ∈ keys then Cell.empty else cell catalogue key := by
  simp only [cell, deleteEntities, get_remove]
  split
  · rename_i gone
    simp [gone, Cell.empty]
  · rename_i stays
    have all : ∀ {Value : Type} (value : Option Value), value.filter (fun _ => true) = value :=
      fun value => by cases value <;> rfl
    simp [stays, all]

def writeEffect (change : SearchWrite) (key : Key) (cell : Cell) : Cell :=
  match change with
  | .delete keys => if keys.contains key then Cell.empty else cell
  | .put entities => writeCell casing key (ownItems casing key entities) cell

theorem delete_effect (keys : List Key) (key : Key) (cell : Cell) :
    writeEffect casing (.delete keys) key cell = if key ∈ keys then Cell.empty else cell := by
  simp [writeEffect]

def catalogueWrites : Local Catalogue Key Cell SearchWrite where
  perform := write casing
  view := cell
  effect := writeEffect casing
  apart catalogue change key := by
    cases change with
    | delete keys =>
      rw [delete_effect]
      exact delete_cell catalogue keys key
    | put entities => exact put_cell casing catalogue entities key

theorem quiet_put (key : Key) (entities : List Entity)
    (none_ : ownItems casing key entities = []) :
    (catalogueWrites casing).Quiet key (.put entities) := by
  intro cell
  show writeCell casing key (ownItems casing key entities) cell = cell
  rw [none_]
  rfl

theorem ownItems_none (key : Key) (entities : List Entity)
    (apart : ∀ entity ∈ entities, entity.key casing ≠ key) : ownItems casing key entities = [] := by
  apply List.filter_eq_nil_iff.mpr
  intro entity member own
  simp only [OwnItem, Bool.and_eq_true, decide_eq_true_eq] at own
  exact apart entity member own.2

def Plain (text : String) : Prop :=
  casing.lower text = text ∧ strip text = text ∧ text.length ≤ 512

def Simple (char : Char) : Prop :=
  char.toNat < 128 ∧ char.toLower = char ∧ GateCredentials.space char = false

instance (char : Char) : Decidable (Simple char) := by
  unfold Simple
  infer_instance

instance (chars : List Char) : Decidable (∀ char ∈ chars, Simple char) :=
  List.decidableBAll Simple chars

theorem plain_simple (text : String) (simple : ∀ char ∈ text.toList, Simple char)
    (short : text.length ≤ 512) : Plain casing text := by
  refine ⟨?_, ?_, short⟩
  · rw [casing.ascii text fun char member => (simple char member).1, asciiLower]
    have same : text.toList.map Char.toLower = text.toList := by
      conv_rhs => rw [← List.map_id text.toList]
      exact List.map_congr_left fun char member => (simple char member).2.1
    rw [same, String.ofList_toList]
  · have kept : ∀ chars : List Char, (∀ char ∈ chars, Simple char) →
        chars.dropWhile GateCredentials.space = chars := by
      intro chars all
      cases chars with
      | nil => rfl
      | cons char rest =>
        exact List.dropWhile_cons_of_neg (by simp [(all char List.mem_cons_self).2.2])
    rw [strip, GateCredentials.strip, kept _ simple,
      kept _ fun char member => simple char (List.mem_reverse.mp member), List.reverse_reverse,
      String.ofList_toList]

theorem Plain.searchId {text : String} (plain : Plain casing text) :
    searchId casing text = text := by
  rw [SearchCatalogue.searchId, plain.2.1, plain.1, cutText,
    List.take_of_length_le (String.length_toList ▸ plain.2.2), String.ofList_toList]

theorem Plain.listed {text : String} (plain : Plain casing text) :
    SearchCatalogue.searchId casing (casing.lower text) = text := by
  rw [plain.1, plain.searchId]

theorem hexText_plain (digits value : Nat) (short : digits ≤ 510) :
    Plain casing (hexText digits value) := by
  apply plain_simple
  · intro char member
    rw [hexText, String.toList_append, List.mem_append] at member
    rcases member with front | digit
    · have simple : ∀ char ∈ "0x".toList, Simple char := by decide
      exact simple char front
    · rw [String.toList_ofList] at digit
      obtain ⟨index, -, rfl⟩ := List.mem_map.mp digit
      have simple : ∀ value < 16, Simple (Nat.digitChar value) := by decide
      exact simple _ (Nat.mod_lt _ (by decide))
  · rw [← String.length_toList, hexText, String.toList_append, String.toList_ofList]
    simp
    omega

theorem hexText_named (digits value : Nat) : hexText digits value ≠ "" := by
  intro blank
  have chars := congrArg String.toList blank
  rw [hexText, String.toList_append] at chars
  cases chars

def VENUE_IDS : List String := ["uniswap-v4", "uniswap-v3", "slipstream", "pancake-v3", "giga-v3"]

theorem venueId_ascii (venue id : String) (ascii : Ascii venue)
    (made : String.ofList ((asciiLower venue).toList.map fun char =>
      if char = ' ' then '-' else char) = id) : venueId casing venue = id := by
  rw [venueId, casing.ascii venue ascii]
  exact made

instance (text : String) : Decidable (Ascii text) :=
  List.decidableBAll (fun char : Char => char.toNat < 128) text.toList

theorem venueId_cases (protocol : Protocol) (factory : Option TxChain.Address) :
    venueId casing (venueName protocol factory) ∈ VENUE_IDS ∨
      protocol ≠ .v4 ∧ venueName protocol factory = asciiUpper (protocolText protocol) ∧
        venueId casing (venueName protocol factory) = protocolText protocol := by
  have named : ∀ entry ∈ FACTORY_NAMES, venueId casing entry.2 ∈ VENUE_IDS := by
    intro entry member
    have shown : Ascii entry.2 ∧ String.ofList ((asciiLower entry.2).toList.map fun char =>
        if char = ' ' then '-' else char) ∈ VENUE_IDS := by
      revert entry
      decide
    rw [venueId_ascii casing entry.2 _ shown.1 rfl]
    exact shown.2
  by_cases latest : protocol = .v4
  · left
    rw [venueName, if_pos latest, venueId_ascii casing "Uniswap V4" "uniswap-v4" (by decide) (by
      decide)]
    decide
  · rw [venueName, if_neg latest]
    cases known : factory.bind fun factory => List.lookup factory FACTORY_NAMES with
    | some name =>
      obtain ⟨address, -, found⟩ := Option.bind_eq_some_iff.mp known
      obtain ⟨before, after, parts, -⟩ := List.lookup_eq_some_iff.mp found
      exact .inl (named (address, name) (by rw [parts]; simp))
    | none =>
      refine .inr ⟨latest, rfl, ?_⟩
      apply venueId_ascii
      · cases protocol <;> decide
      · cases protocol <;> decide

theorem venueId_simple (protocol : Protocol) (factory : Option TxChain.Address) :
    Plain casing (venueId casing (venueName protocol factory)) ∧
      venueId casing (venueName protocol factory) ≠ "" := by
  rcases venueId_cases casing protocol factory with named | ⟨-, -, called⟩
  · have simple : ∀ id ∈ VENUE_IDS,
        (∀ char ∈ id.toList, Simple char) ∧ id.length ≤ 512 ∧ id ≠ "" := by
      decide
    obtain ⟨plain, short, shown⟩ := simple _ named
    exact ⟨plain_simple casing _ plain short, shown⟩
  · rw [called]
    refine ⟨plain_simple casing _ ?_ ?_, ?_⟩ <;> cases protocol <;> decide

theorem pool_plain (id : PoolId) (pool : PoolRow) (entity : Entity)
    (member : entity ∈ poolSearchEntities casing id pool) :
    Plain casing entity.id ∧ entity.id ≠ "" := by
  have address : ∀ address, Plain casing (addressText address) ∧ addressText address ≠ "" :=
    fun address => ⟨hexText_plain casing 40 _ (by decide), hexText_named 40 _⟩
  simp only [poolSearchEntities, List.mem_cons, List.not_mem_nil, or_false] at member
  rcases member with rfl | rfl | rfl | rfl
  · cases id with
    | contract contract => exact address contract
    | key name => exact ⟨hexText_plain casing 64 _ (by decide), hexText_named 64 _⟩
  · exact address pool.token0
  · exact address pool.token1
  · exact venueId_simple casing pool.protocol pool.factory

theorem base_plain (base : Protocol × String) :
    Plain casing (baseEntity base).id ∧ (baseEntity base).id ≠ "" := by
  obtain ⟨protocol, label⟩ := base
  refine ⟨plain_simple casing _ ?_ ?_, ?_⟩ <;> cases protocol <;>
    (simp only [baseEntity, protocolText]; decide)

theorem key_plain {entity : Entity} (plain : Plain casing entity.id) :
    entity.key casing = (entity.kind, entity.id) := by
  rw [Entity.key, plain.searchId]

theorem ownItems_plain (key : Key) (entities : List Entity)
    (plain : ∀ entity ∈ entities, Plain casing entity.id ∧ entity.id ≠ "") :
    ownItems casing key entities =
      entities.filter fun entity => (entity.kind, entity.id) = key := by
  apply List.filter_congr
  intro entity member
  obtain ⟨spelled, named⟩ := plain entity member
  simp [OwnItem, key_plain casing spelled, spelled.searchId, named]

variable {Lp : Type}

def basePuts : List SearchWrite := BASE_PROTOCOLS.map fun base => .put [baseEntity base]

def staying (db : Db Lp) (ancestor : Int) : List (PoolId × PoolRow) :=
  db.pools.entries.filter fun entry => !MarketStore.removable db ancestor entry.1 entry.2

def goneKeys (db : Db Lp) (ancestor : Int) : List Key :=
  (db.pools.entries.filter fun entry =>
    MarketStore.removable db ancestor entry.1 entry.2).flatMap (poolIdentities casing)

theorem base_quiet (base : Protocol × String) (key : Key)
    (apart : (SearchKind.protocol, protocolText base.1) ≠ key) :
    (catalogueWrites casing).Quiet key (.put [baseEntity base]) := by
  apply quiet_put
  rw [ownItems_plain casing key _ fun entity member =>
    List.mem_singleton.mp member ▸ base_plain casing base]
  exact List.filter_eq_nil_iff.mpr fun entity member same => by
    rw [List.mem_singleton.mp member] at same
    exact apart (of_decide_eq_true same)

theorem pool_own (key : Key) (entry : PoolId × PoolRow) :
    ownItems casing key (poolSearchEntities casing entry.1 entry.2) =
      (poolSearchEntities casing entry.1 entry.2).filter fun entity =>
        (entity.kind, entity.id) = key :=
  ownItems_plain casing key _ fun entity => pool_plain casing entry.1 entry.2 entity

theorem pool_quiet (entry : PoolId × PoolRow) (key : Key)
    (apart : key ∉ poolIdentities casing entry) :
    (catalogueWrites casing).Quiet key (poolPut casing entry) := by
  apply quiet_put
  rw [pool_own]
  apply List.filter_eq_nil_iff.mpr
  intro entity member same
  exact apart (List.mem_map.mpr ⟨entity, member, of_decide_eq_true same⟩)

theorem poolRepairs_through (db : Db Lp) (ancestor : Int) (key : Key) (cell : Cell) :
    (catalogueWrites casing).through (poolRepairs casing db ancestor) key cell =
      if key ∈ goneKeys casing db ancestor then
        (catalogueWrites casing).through
          ((staying db ancestor).map (poolPut casing) ++ basePuts) key .empty
      else cell := by
  have dropped : ∀ affected : List Key, key ∈ affected ↔ key ∈ affected.dedup :=
    fun affected => List.mem_dedup.symm
  generalize keys : goneKeys casing db ancestor = affected
  have unfolded : poolRepairs casing db ancestor = if affected.dedup.isEmpty then [] else
      .delete affected.dedup :: (staying db ancestor).map (fun entry =>
        .put ((poolSearchEntities casing entry.1 entry.2).filter fun entity =>
          (entity.kind, entity.id) ∈ affected.dedup)) ++
        (BASE_PROTOCOLS.filter fun base =>
          (SearchKind.protocol, protocolText base.1) ∈ affected.dedup).map
            fun base => .put [baseEntity base] := by
    rw [← keys]
    rfl
  rw [unfolded]
  -- of the affected keys each write sees its own one only
  have puts : ∀ cell, (catalogueWrites casing).through ((staying db ancestor).map fun entry =>
      .put ((poolSearchEntities casing entry.1 entry.2).filter fun entity =>
        (entity.kind, entity.id) ∈ affected.dedup)) key cell =
      if key ∈ affected then
        (catalogueWrites casing).through ((staying db ancestor).map (poolPut casing)) key cell
      else cell := by
    intro cell
    have own : ∀ entry : PoolId × PoolRow, ownItems casing key
        ((poolSearchEntities casing entry.1 entry.2).filter fun entity =>
          (entity.kind, entity.id) ∈ affected.dedup) =
        if key ∈ affected then ownItems casing key (poolSearchEntities casing entry.1 entry.2)
        else [] := by
      intro entry
      rw [ownItems_plain casing key _ fun entity member =>
        pool_plain casing entry.1 entry.2 entity (List.mem_filter.mp member).1,
        pool_own, List.filter_filter]
      split
      · rename_i touched
        apply List.filter_congr
        intro entity _
        by_cases here : (entity.kind, entity.id) = key
        · simp [here, touched]
        · simp [here]
      · rename_i untouched
        apply List.filter_eq_nil_iff.mpr
        intro entity _
        by_cases here : (entity.kind, entity.id) = key
        · simp [here, untouched]
        · simp [here]
    split
    · rename_i touched
      apply through_congr
      intro entry _ cell
      exact congrArg (writeCell casing key · cell) ((own entry).trans (if_pos touched))
    · rename_i untouched
      apply through_quiet
      intro change member
      obtain ⟨entry, -, rfl⟩ := List.mem_map.mp member
      exact quiet_put casing key _ ((own entry).trans (if_neg untouched))
  have bases : ∀ cell, (catalogueWrites casing).through ((BASE_PROTOCOLS.filter fun base =>
      (SearchKind.protocol, protocolText base.1) ∈ affected.dedup).map
        fun base => .put [baseEntity base]) key cell =
      if key ∈ affected then (catalogueWrites casing).through basePuts key cell else cell := by
    intro cell
    split
    · rename_i touched
      refine (through_filter (catalogueWrites casing) (fun base => .put [baseEntity base]) _ _ key
        cell fun base _ out => base_quiet casing base key ?_).symm
      rintro rfl
      exact of_decide_eq_false out ((dropped affected).mp touched)
    · rename_i untouched
      apply through_quiet
      intro change member
      obtain ⟨base, chosen, rfl⟩ := List.mem_map.mp member
      apply base_quiet casing base key
      rintro rfl
      exact untouched ((dropped affected).mpr (of_decide_eq_true (List.mem_filter.mp chosen).2))
  by_cases some_ : affected.dedup.isEmpty
  · have missing : key ∉ affected := fun member => by
      have listed := (dropped affected).mp member
      rw [List.isEmpty_iff.mp some_] at listed
      cases listed
    rw [if_pos some_, if_neg missing]
    rfl
  · rw [if_neg some_, through_append, bases]
    have deleted : (catalogueWrites casing).effect (.delete affected.dedup) key cell =
        if key ∈ affected.dedup then .empty else cell := delete_effect casing _ key cell
    show (if key ∈ affected then (catalogueWrites casing).through basePuts key
      ((catalogueWrites casing).through _ key
        ((catalogueWrites casing).effect (.delete affected.dedup) key cell))
      else (catalogueWrites casing).through _ key
        ((catalogueWrites casing).effect (.delete affected.dedup) key cell)) = _
    rw [deleted, puts]
    simp only [← dropped affected, through_append]
    split <;> rfl

theorem writeCell_loose (key : Key) (items : List Entity) (last : Entity) (cell : Cell)
    (loose : stable key = false) (ends : items.getLast? = some last) :
    writeCell casing key items cell =
      { entry := some last.entry
        weights := fun term => (cell.weights term).or
          (if term ∈ items.flatMap (Entity.tokens casing) then some (weight term key)
          else none) } := by
  rw [writeCell, ends]
  simp [loose]

theorem writeCell_commute (key : Key) (first second : List Entity) (entry : Entry)
    (loose : stable key = false) (left : ∀ entity ∈ first, entity.entry = entry)
    (right : ∀ entity ∈ second, entity.entry = entry) (cell : Cell) :
    writeCell casing key first (writeCell casing key second cell) =
      writeCell casing key second (writeCell casing key first cell) := by
  cases one : first.getLast? with
  | none =>
    rw [List.getLast?_eq_none_iff.mp one]
    rfl
  | some oneLast =>
    cases other : second.getLast? with
    | none =>
      rw [List.getLast?_eq_none_iff.mp other]
      rfl
    | some otherLast =>
      simp only [writeCell_loose casing key first oneLast _ loose one,
        writeCell_loose casing key second otherLast _ loose other,
        left oneLast (List.mem_of_getLast? one), right otherLast (List.mem_of_getLast? other),
        Cell.mk.injEq, true_and]
      funext term
      cases cell.weights term with
      | some held => rfl
      | none =>
        by_cases here : term ∈ first.flatMap (Entity.tokens casing) <;>
          by_cases there : term ∈ second.flatMap (Entity.tokens casing) <;>
            simp only [here, there, if_true, if_false, Option.none_or, Option.some_or,
              Option.or_none]

theorem pool_base (base : Protocol × String) (entry : PoolId × PoolRow) (entity : Entity)
    (known : base ∈ BASE_PROTOCOLS) (member : entity ∈ poolSearchEntities casing entry.1 entry.2)
    (same : (entity.kind, entity.id) = (SearchKind.protocol, protocolText base.1)) :
    entity.entry = (baseEntity base).entry := by
  obtain ⟨id, pool⟩ := entry
  simp only [poolSearchEntities, List.mem_cons, List.not_mem_nil, or_false] at member
  obtain ⟨kind, named⟩ := Prod.mk.inj same
  rcases member with rfl | rfl | rfl | rfl
  · cases kind
  · cases kind
  · cases kind
  · have called :
        venueId casing (venueName pool.protocol pool.factory) = protocolText base.1 := named
    have apart : protocolText base.1 ∉ VENUE_IDS := by
      cases base.1 <;> decide
    obtain ⟨old, shown, spelled⟩ :=
      (venueId_cases casing pool.protocol pool.factory).resolve_left (called ▸ apart)
    have protocol : protocolText pool.protocol = protocolText base.1 := spelled.symm.trans called
    simp only [BASE_PROTOCOLS, List.mem_cons, List.not_mem_nil, or_false] at known
    simp only [venueEntity, Entity.entry, shown, protocol]
    rcases known with rfl | rfl | rfl
    · decide
    · decide
    · exfalso
      cases kept : pool.protocol with
      | v4 => exact old kept
      | _ => simp [kept, protocolText] at protocol

theorem base_swap (pools : List (PoolId × PoolRow)) (key : Key) (cell : Cell) :
    (catalogueWrites casing).through (pools.map (poolPut casing) ++ basePuts) key cell =
      (catalogueWrites casing).through (basePuts ++ pools.map (poolPut casing)) key cell := by
  apply through_swap
  intro change inPools other inBases cell
  obtain ⟨entry, -, rfl⟩ := List.mem_map.mp inPools
  obtain ⟨base, known, rfl⟩ := List.mem_map.mp inBases
  by_cases here : (SearchKind.protocol, protocolText base.1) = key
  · subst here
    apply writeCell_commute casing _ _ _ (baseEntity base).entry rfl
    · intro entity own
      rw [pool_own, List.mem_filter, decide_eq_true_eq] at own
      exact pool_base casing base entry entity known own.1 own.2
    · intro entity own
      rw [List.mem_singleton.mp (List.mem_filter.mp own).1]
  · have quiet := base_quiet casing base key here
    rw [quiet, quiet]

theorem goneKeys_out (db : Db Lp) (ancestor : Int) (key : Key)
    (untouched : key ∉ goneKeys casing db ancestor) (cell : Cell) :
    (catalogueWrites casing).through (db.pools.entries.map (poolPut casing)) key cell =
      (catalogueWrites casing).through ((staying db ancestor).map (poolPut casing)) key cell := by
  apply through_filter
  intro entry member gone
  apply pool_quiet
  intro listed
  refine untouched (List.mem_flatMap.mpr ⟨entry, List.mem_filter.mpr ⟨member, ?_⟩, listed⟩)
  simpa using gone

end RhPools.SearchCells
