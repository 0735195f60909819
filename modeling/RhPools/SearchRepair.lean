import RhPools.SearchCells
import RhPools.StoreRows

/-! The search catalogue after a reorganisation. The repair deletes the ids of orphaned events
and pools and puts back what stays; it is compared with the rebuild, one key at a time. -/

namespace RhPools.SearchRepair
open OrderedTables OffsetPaging MarketTables LocalWrites SearchCatalogue SearchCells

variable {Lp : Type} (casing : Casing)

theorem lower_blank : casing.lower "" = "" := casing.ascii "" (by decide)

theorem event_entity (row : SearchRow) (entity : Entity)
    (member : entity ∈ eventSearchEntities casing row) :
    (casing.lower (row.owner.getD "") ≠ "" ∧
        entity = ownerEntity (casing.lower (row.owner.getD ""))) ∨
      (casing.lower (row.custody.getD "") ≠ "" ∧
        entity = custodyEntity (casing.lower (row.custody.getD ""))) ∨
      (casing.lower (row.positionKey.getD "") ≠ "" ∧
        entity = positionEntity (casing.lower (row.positionKey.getD "")) row) := by
  have one : ∀ (blank : Prop) [Decidable blank] (only : Entity),
      entity ∈ (if blank then [] else [only]) → ¬blank ∧ entity = only := by
    intro blank _ only inside
    split at inside
    · cases inside
    · rename_i named
      exact ⟨named, List.mem_singleton.mp inside⟩
  rw [eventSearchEntities, List.mem_append, List.mem_append] at member
  rcases member with (owner | custody) | position
  · exact .inl (one _ _ owner)
  · exact .inr (.inl (one _ _ custody))
  · exact .inr (.inr (one _ _ position))

def listed (kind : SearchKind) : Bool := kind = .owner || kind = .custody || kind = .position

section
variable (kind : SearchKind) (events : List (Place × Terms)) (identity : String)

theorem group_entity (entity : Entity)
    (member : entity ∈ eventSearchEntities casing (groupRow kind events identity)) :
    listed kind = true ∧ entity.kind = kind ∧ entity.id = casing.lower identity := by
  rcases event_entity casing _ entity member with ⟨named, rfl⟩ | ⟨named, rfl⟩ | ⟨named, rfl⟩
  · cases kind with
    | owner => exact ⟨rfl, rfl, rfl⟩
    | _ => exact absurd (lower_blank casing) named
  · cases kind with
    | custody => exact ⟨rfl, rfl, rfl⟩
    | _ => exact absurd (lower_blank casing) named
  · cases kind with
    | position => exact ⟨rfl, rfl, rfl⟩
    | _ => exact absurd (lower_blank casing) named

theorem identityRows_group (lower : casing.lower identity = identity) :
    identityRows casing (groupRow kind events identity) =
      if listed kind && identity ≠ "" then [((kind, identity), groupRow kind events identity)]
      else [] := by
  cases kind <;>
    simp only [groupRow, identityRows, SearchRow.blank, Option.getD_none, Option.getD_some,
      lower_blank, lower, if_true, List.nil_append, List.append_nil, listed]
  all_goals
    by_cases blank : identity = "" <;> simp [blank]

theorem entries_at {Row Value : Type} [DecidableEq Row] (table : OrderedTable Row Value)
    (key : Row) : table.entries.filter (fun entry => entry.1 = key) =
      ((table.get key).map fun value => (key, value)).toList := by
  obtain ⟨entries, distinct⟩ := table
  simp only [OrderedTable.get]
  induction entries with
  | nil => rfl
  | cons entry rest ih =>
    obtain ⟨fresh, distinct⟩ := List.nodup_cons.mp distinct
    by_cases here : entry.1 = key
    · subst here
      have others : rest.filter (fun other => other.1 = entry.1) = [] := by
        apply List.filter_eq_nil_iff.mpr
        intro other member same
        exact fresh (of_decide_eq_true same ▸ List.mem_map_of_mem (f := Prod.fst) member)
      rw [List.filter_cons_of_pos (by simp), others, List.find?_cons_of_pos (by simp)]
      rfl
    · simp only [List.find?_cons, here, decide_false, Bool.false_eq_true, not_false_eq_true,
        List.filter_cons_of_neg]
      exact ih distinct

theorem flatMap_chosen {Item Other : Type} (items : List Item) (chosen : Item → Bool)
    (make : Item → List Other) (others : ∀ item ∈ items, chosen item = false → make item = []) :
    items.flatMap make = (items.filter chosen).flatMap make := by
  induction items with
  | nil => rfl
  | cons item rest ih =>
    have later := ih fun other member => others other (List.mem_cons_of_mem item member)
    cases taken : chosen item with
    | true => rw [List.filter_cons_of_pos taken, List.flatMap_cons, List.flatMap_cons, later]
    | false =>
      rw [List.filter_cons_of_neg (by simp [taken]), List.flatMap_cons,
        others item List.mem_cons_self taken, List.nil_append, later]

variable (ancestor : Int) (key : Key)

/-- A group has an entity of a key only if it is the group of that key, spelled otherwise or
not. -/
theorem group_own
    (apart : ¬(listed kind = true ∧ key.1 = kind ∧ key.2 ≠ "" ∧
      searchId casing (casing.lower identity) = key.2)) :
    ownItems casing key (eventSearchEntities casing (groupRow kind events identity)) = [] := by
  apply List.filter_eq_nil_iff.mpr
  intro entity member own
  obtain ⟨shown, same, named⟩ := group_entity casing kind events identity entity member
  simp only [OwnItem, Bool.and_eq_true, decide_eq_true_eq] at own
  obtain ⟨nonblank, rfl⟩ := own
  exact apart ⟨shown, same, nonblank, by rw [← named]; rfl⟩

theorem batch_own (identities : List String)
    (plain : ∀ identity ∈ identities, Plain casing identity) (key : Key) :
    ownItems casing key (batchEntities casing (identities.map (groupRow kind events))) =
      if key.1 = kind ∧ key.2 ∈ identities then
        ownItems casing key (eventSearchEntities casing (groupRow kind events key.2))
      else [] := by
  have collected : ∀ pair, pair ∈ (identities.map (groupRow kind events)).flatMap
      (identityRows casing) ↔ ∃ identity ∈ identities, (listed kind = true ∧ identity ≠ "") ∧
        pair = ((kind, identity), groupRow kind events identity) := by
    intro pair
    rw [List.flatMap_map, List.mem_flatMap]
    apply exists_congr
    intro identity
    refine and_congr_right fun member => ?_
    rw [identityRows_group casing kind events identity (plain identity member).1]
    by_cases shown : listed kind && identity ≠ ""
    · rw [if_pos shown, List.mem_singleton]
      simp only [Bool.and_eq_true, decide_eq_true_eq] at shown
      simp [shown]
    · rw [if_neg shown]
      simp only [Bool.and_eq_true, decide_eq_true_eq] at shown
      simp [shown]
  rw [batchEntities]
  generalize (identities.map (groupRow kind events)).flatMap (identityRows casing) = pairs
    at collected ⊢
  have held : (OrderedTable.empty.insertAll pairs).get key =
      if key.1 = kind ∧ key.2 ∈ identities ∧ listed kind = true ∧ key.2 ≠ "" then
        some (groupRow kind events key.2) else none := by
    refine (get_insertAll_same .empty pairs key (groupRow kind events key.2) _ ?_ ?_).trans
      (Option.none_or)
    · rw [List.mem_map]
      constructor
      · rintro ⟨pair, member, rfl⟩
        obtain ⟨identity, inside, shown, rfl⟩ := (collected pair).mp member
        exact ⟨rfl, inside, shown⟩
      · rintro ⟨rfl, inside, shown⟩
        exact ⟨_, (collected _).mpr ⟨key.2, inside, shown, rfl⟩, rfl⟩
    · rintro pair member rfl
      obtain ⟨identity, -, -, rfl⟩ := (collected pair).mp member
      rfl
  have entry_of : ∀ entry ∈ (OrderedTable.empty.insertAll pairs).entries,
      ∃ identity ∈ identities, entry = ((kind, identity), groupRow kind events identity) := by
    intro entry member
    rcases get_insertAll .empty pairs entry.1 entry.2 ((get_some _ _ _).mpr member) with
      old | ⟨-, new⟩
    · cases old
    · obtain ⟨identity, inside, -, same⟩ := (collected _).mp new
      exact ⟨identity, inside, same⟩
  rw [ownItems, List.filter_flatMap]
  rw [flatMap_chosen _ (fun entry => entry.1 = key), filter_sorted, entries_at, held]
  · by_cases here : key.1 = kind ∧ key.2 ∈ identities
    · rw [if_pos here]
      by_cases shown : listed kind = true ∧ key.2 ≠ ""
      · rw [if_pos ⟨here.1, here.2, shown⟩]
        exact List.append_nil _
      · rw [if_neg fun all => shown all.2.2]
        refine (group_own casing kind events key.2 key ?_).symm
        exact fun all => shown ⟨all.1, all.2.2.1⟩
    · rw [if_neg here, if_neg fun all => here ⟨all.1, all.2.1⟩]
      rfl
  · intro one _ other _ first second
    rw [of_decide_eq_true first, of_decide_eq_true second]
  · intro entry member apart
    obtain ⟨identity, inside, rfl⟩ := entry_of entry ((List.mem_insertionSort _).mp member)
    apply group_own casing kind events identity key
    rintro ⟨-, same, -, spelled⟩
    have plainly := plain identity inside
    rw [plainly.1, plainly.searchId] at spelled
    exact of_decide_eq_false apart (Prod.ext same.symm spelled)

def surviving (events : List (Place × Terms)) (ancestor : Int) : List (Place × Terms) :=
  events.filter fun row => !above ancestor row

def groupItems (kind : SearchKind) (events : List (Place × Terms)) (key : Key) : List Entity :=
  if key.1 = kind ∧ key.2 ∈ groupKeys kind events then
    ownItems casing key (eventSearchEntities casing (groupRow kind events key.2))
  else []

theorem repairBatch_through (kind : SearchKind) (batch : List String)
    (plain : ∀ identity ∈ batch, Plain casing identity) (key : Key) (cell : Cell) :
    (catalogueWrites casing).through (repairBatch casing events ancestor kind batch) key cell =
      if key.1 = kind ∧ key.2 ∈ batch then
        writeCell casing key (groupItems casing kind (surviving events ancestor) key) .empty
      else cell := by
  have own := batch_own casing kind (surviving events ancestor)
    ((groupKeys kind (surviving events ancestor)).filter (· ∈ batch))
    (fun identity member => plain identity (of_decide_eq_true (List.mem_filter.mp member).2)) key
  have deleted : key ∈ batch.map (fun identity => (kind, identity)) ↔
      key.1 = kind ∧ key.2 ∈ batch := by
    rw [List.mem_map]
    constructor
    · rintro ⟨identity, member, rfl⟩
      exact ⟨rfl, member⟩
    · rintro ⟨rfl, member⟩
      exact ⟨key.2, member, rfl⟩
  show writeCell casing key (ownItems casing key (batchEntities casing
      (((groupKeys kind (surviving events ancestor)).filter (· ∈ batch)).map
        (groupRow kind (surviving events ancestor)))))
      (writeEffect casing (.delete (batch.map fun identity => (kind, identity))) key cell) = _
  rw [own, delete_effect]
  simp only [deleted, List.mem_filter, decide_eq_true_eq, groupItems]
  by_cases here : key.1 = kind ∧ key.2 ∈ batch
  · simp only [here, and_true, and_self, if_true, true_and]
  · rw [if_neg here, if_neg here, if_neg fun all => here ⟨all.1, all.2.2⟩]
    rfl

theorem eventRepairs_through (kind : SearchKind)
    (plain : ∀ identity ∈ orphaned events ancestor kind, Plain casing identity) (key : Key)
    (cell : Cell) :
    (catalogueWrites casing).through (eventRepairs casing events ancestor kind) key cell =
      if key.1 = kind ∧ key.2 ∈ orphaned events ancestor kind then
        writeCell casing key (groupItems casing kind (surviving events ancestor) key) .empty
      else cell := by
  -- a batch that names the key clears it first, so how often it is named does not matter
  have each : ∀ (batches : List (List String)) (cell : Cell),
      (∀ identity ∈ batches.flatten, Plain casing identity) →
      (catalogueWrites casing).through
        (batches.flatMap (repairBatch casing events ancestor kind)) key cell =
        if key.1 = kind ∧ key.2 ∈ batches.flatten then
          writeCell casing key (groupItems casing kind (surviving events ancestor) key) .empty
        else cell := by
    intro batches
    induction batches with
    | nil => intro cell _; simp [Local.through]
    | cons batch rest ih =>
      intro cell plain
      rw [List.flatMap_cons, through_append, repairBatch_through casing events ancestor kind batch
        (fun identity member => plain identity (List.mem_append_left _ member)) key cell,
        ih _ fun identity member => plain identity (List.mem_append_right _ member)]
      simp only [List.flatten_cons, List.mem_append]
      by_cases later : key.1 = kind ∧ key.2 ∈ rest.flatten
      · rw [if_pos later, if_pos ⟨later.1, .inr later.2⟩]
      · rw [if_neg later]
        apply if_congr _ rfl rfl
        constructor
        · exact fun now => ⟨now.1, .inl now.2⟩
        · exact fun all => ⟨all.1, all.2.resolve_right fun member => later ⟨all.1, member⟩⟩
  have whole := LogQueries.chunks_flatten 500 (by decide) (orphaned events ancestor kind)
  have all := each (LogQueries.chunks 500 (orphaned events ancestor kind)) cell (by rwa [whole])
  rwa [whole] at all

theorem groupKeys_distinct :
    (groupKeys kind events).Nodup :=
  (List.perm_insertionSort _ _).nodup_iff.mpr (List.nodup_dedup _)

theorem mem_groupKeys :
    identity ∈ groupKeys kind events ↔ ∃ row ∈ events, column kind row = some identity := by
  rw [groupKeys, List.mem_insertionSort, List.mem_dedup, List.mem_filterMap]

theorem mem_orphaned (kind : SearchKind) (identity : String) :
    identity ∈ orphaned events ancestor kind ↔
      ∃ row ∈ events, above ancestor row = true ∧ column kind row = some identity := by
  simp only [orphaned, List.mem_dedup, List.mem_filterMap, List.mem_filter, and_assoc]

theorem eventPuts_through (kind : SearchKind) (key : Key) (cell : Cell)
    (only : ∀ identity ∈ groupKeys kind events,
      searchId casing (casing.lower identity) = key.2 → identity = key.2) :
    (catalogueWrites casing).through (eventPuts casing events kind) key cell =
      writeCell casing key (groupItems casing kind events key) cell := by
  rw [eventPuts, through_only (catalogueWrites casing) _ _ (groupKeys_distinct kind events) key.2,
    groupItems]
  · by_cases member : key.2 ∈ groupKeys kind events
    · rw [if_pos member]
      by_cases here : key.1 = kind
      · rw [if_pos ⟨here, member⟩]
        rfl
      · rw [if_neg fun all => here all.1]
        exact quiet_put casing key _
          (group_own casing kind events key.2 key fun all => here all.2.1) cell
    · rw [if_neg member, if_neg fun all => member all.2]
      rfl
  · intro identity member apart
    apply quiet_put
    apply group_own casing kind events identity key
    exact fun all => apart (only identity member all.2.2.2)

theorem groupRow_stays (kind : SearchKind) (identity : String)
    (stays : identity ∉ orphaned events ancestor kind) :
    groupRow kind events identity = groupRow kind (surviving events ancestor) identity := by
  have members : events.filter (fun row => column kind row = some identity) =
      (surviving events ancestor).filter fun row => column kind row = some identity := by
    rw [surviving, List.filter_filter]
    apply List.filter_congr
    intro row member
    by_cases here : column kind row = some identity
    · have below : above ancestor row = false := by
        by_contra high
        exact stays ((mem_orphaned events ancestor kind identity).mpr
          ⟨row, member, Bool.not_eq_false _ ▸ high, here⟩)
      simp [here, below]
    · simp [here]
  simp only [groupRow, members]

theorem eventPuts_stays (kind : SearchKind) (key : Key) (cell : Cell)
    (stays : ∀ identity ∈ groupKeys kind events,
      searchId casing (casing.lower identity) = key.2 → identity ∉ orphaned events ancestor kind) :
    (catalogueWrites casing).through (eventPuts casing events kind) key cell =
      (catalogueWrites casing).through
        (eventPuts casing (surviving events ancestor) kind) key cell := by
  have quiet : ∀ rows identity, decide (searchId casing (casing.lower identity) = key.2) = false →
      (catalogueWrites casing).Quiet key
        (.put (eventSearchEntities casing (groupRow kind rows identity))) := by
    intro rows identity apart
    exact quiet_put casing key _ (group_own casing kind rows identity key fun all =>
      of_decide_eq_false apart all.2.2.2)
  have kept : ∀ identity ∈ groupKeys kind events,
      searchId casing (casing.lower identity) = key.2 →
      identity ∈ groupKeys kind (surviving events ancestor) := by
    intro identity member same
    obtain ⟨row, inside, named⟩ := (mem_groupKeys kind events identity).mp member
    refine (mem_groupKeys kind _ identity).mpr ⟨row, List.mem_filter.mpr ⟨inside, ?_⟩, named⟩
    by_contra high
    exact stays identity member same ((mem_orphaned events ancestor kind identity).mpr
      ⟨row, inside, by simpa using high, named⟩)
  rw [eventPuts, eventPuts, through_filter (catalogueWrites casing) _
      (fun identity => searchId casing (casing.lower identity) = key.2) _ key cell
      fun identity _ => quiet events identity,
    through_filter (catalogueWrites casing) _
      (fun identity => searchId casing (casing.lower identity) = key.2) (groupKeys kind
        (surviving events ancestor)) key cell fun identity _ => quiet _ identity]
  have same : (groupKeys kind events).filter
      (fun identity => searchId casing (casing.lower identity) = key.2) =
      (groupKeys kind (surviving events ancestor)).filter
        fun identity => searchId casing (casing.lower identity) = key.2 := by
    apply List.Perm.eq_of_pairwise fun one other _ _ => @le_antisymm String _ one other
    · exact (List.pairwise_insertionSort (· ≤ ·) _).filter _
    · exact (List.pairwise_insertionSort (· ≤ ·) _).filter _
    · rw [List.perm_ext_iff_of_nodup ((groupKeys_distinct kind events).filter _)
        ((groupKeys_distinct kind _).filter _)]
      intro identity
      simp only [List.mem_filter, decide_eq_true_eq]
      constructor
      · exact fun all => ⟨kept identity all.1 all.2, all.2⟩
      · rintro ⟨member, spelled⟩
        obtain ⟨row, inside, named⟩ := (mem_groupKeys kind _ identity).mp member
        exact ⟨(mem_groupKeys kind events identity).mpr
          ⟨row, (List.mem_filter.mp inside).1, named⟩, spelled⟩
  rw [same]
  apply through_congr
  intro identity member cell
  obtain ⟨inside, spelled⟩ := List.mem_filter.mp (same ▸ member)
  rw [groupRow_stays events ancestor kind identity
    (stays identity inside (of_decide_eq_true spelled))]

/-- The identities listed under the id of an orphaned one are spelled as they are listed. -/
def Spelled (events : List (Place × Terms)) (ancestor : Int) (kind : SearchKind) : Prop :=
  ∀ orphan ∈ orphaned events ancestor kind, ∀ row ∈ events, ∀ identity,
    column kind row = some identity →
    searchId casing (casing.lower identity) = searchId casing (casing.lower orphan) →
    Plain casing identity

theorem addressText_plain (address : TxChain.Address) : Plain casing (addressText address) :=
  hexText_plain casing 40 _ (by decide)

theorem spelled_all (positions : Spelled casing events ancestor .position) (kind : SearchKind) :
    Spelled casing events ancestor kind := by
  cases kind with
  | position => exact positions
  | transaction =>
    rintro orphan - row - identity named -
    obtain rfl := Option.some.inj named
    exact hexText_plain casing 64 _ (by decide)
  | owner =>
    rintro orphan - row - identity named -
    obtain ⟨address, -, rfl⟩ := Option.map_eq_some_iff.mp named
    exact addressText_plain casing address
  | custody =>
    rintro orphan - row - identity named -
    obtain ⟨address, -, rfl⟩ := Option.map_eq_some_iff.mp named
    exact addressText_plain casing address
  | pool => rintro orphan - row - identity named -; cases named
  | token => rintro orphan - row - identity named -; cases named
  | protocol => rintro orphan - row - identity named -; cases named

theorem orphan_plain (kind : SearchKind) (spelled : Spelled casing events ancestor kind)
    (orphan : String) (member : orphan ∈ orphaned events ancestor kind) : Plain casing orphan := by
  obtain ⟨row, inside, -, named⟩ := (mem_orphaned events ancestor kind orphan).mp member
  exact spelled orphan member row inside orphan named rfl

def rollbackWrites (db : Db Lp) (ancestor : Int) : List SearchWrite :=
  EVENT_KINDS.flatMap (eventRepairs casing (eventRows db) ancestor) ++
    poolRepairs casing db ancestor

theorem repairs_through (positions : Spelled casing events ancestor .position) (key : Key)
    (cell : Cell) :
    (catalogueWrites casing).through
        (EVENT_KINDS.flatMap (eventRepairs casing events ancestor)) key cell =
      if key.1 ∈ EVENT_KINDS ∧ key.2 ∈ orphaned events ancestor key.1 then
        writeCell casing key (groupItems casing key.1 (surviving events ancestor) key) .empty
      else cell := by
  have spelled := spelled_all casing events ancestor positions
  have single := fun kind => eventRepairs_through casing events ancestor kind
    (orphan_plain casing events ancestor kind (spelled kind)) key
  rw [through_group (catalogueWrites casing) _ EVENT_KINDS (by decide) key.1 key cell]
  · by_cases inside : key.1 ∈ EVENT_KINDS
    · rw [if_pos inside, single]
      simp only [inside, true_and]
    · rw [if_neg inside, if_neg fun all => inside all.1]
  · intro kind apart cell
    rw [single, if_neg fun all => apart all.1.symm]

theorem puts_through (cell : Cell) :
    (catalogueWrites casing).through (EVENT_KINDS.flatMap (eventPuts casing events)) key cell =
      if key.1 ∈ EVENT_KINDS then
        (catalogueWrites casing).through (eventPuts casing events key.1) key cell
      else cell := by
  apply through_group (catalogueWrites casing) _ EVENT_KINDS (by decide) key.1 key cell
  intro kind apart cell
  apply through_quiet
  intro change member
  obtain ⟨identity, -, rfl⟩ := List.mem_map.mp member
  exact quiet_put casing key _
    (group_own casing kind events identity key fun all => apart all.2.1.symm)

theorem event_kind_apart (entry : PoolId × PoolRow) (key : Key) (inside : key.1 ∈ EVENT_KINDS) :
    key ∉ poolIdentities casing entry := by
  intro member
  obtain ⟨entity, listed, rfl⟩ := List.mem_map.mp member
  simp only [poolSearchEntities, List.mem_cons, List.not_mem_nil, or_false] at listed
  rcases listed with rfl | rfl | rfl | rfl <;>
    simp [EVENT_KINDS, poolEntity, tokenEntity, venueEntity] at inside

theorem pools_through (pools : List (PoolId × PoolRow)) (key : Key) (cell : Cell)
    (inside : key.1 ∈ EVENT_KINDS) :
    (catalogueWrites casing).through (basePuts ++ pools.map (poolPut casing)) key cell = cell := by
  rw [through_append]
  rw [through_quiet (catalogueWrites casing) basePuts, through_quiet]
  · intro change member
    obtain ⟨entry, -, rfl⟩ := List.mem_map.mp member
    exact pool_quiet casing entry key (event_kind_apart casing entry key inside)
  · intro change member
    obtain ⟨base, -, rfl⟩ := List.mem_map.mp member
    apply base_quiet casing base key
    rintro rfl
    simp [EVENT_KINDS] at inside

theorem repair_cell (db : Db Lp) (ancestor : Int)
    (positions : Spelled casing (eventRows db) ancestor .position) (key : Key) :
    let table := catalogueWrites casing
    let new := rebuildWrites casing (surviving (eventRows db) ancestor) (staying db ancestor)
    (∀ cell, table.through (rollbackWrites casing db ancestor) key cell =
        table.through new key .empty) ∨
      (∀ cell, table.through (rollbackWrites casing db ancestor) key cell = cell) ∧
        table.through (rebuildWrites casing (eventRows db) db.pools.entries) key .empty =
          table.through new key .empty := by
  intro table new
  have whole : ∀ events pools cell, table.through (rebuildWrites casing events pools) key cell =
      table.through (EVENT_KINDS.flatMap (eventPuts casing events)) key
        (table.through (basePuts ++ pools.map (poolPut casing)) key cell) :=
    fun events pools cell => through_append _ _ _ _ _
  have repair : ∀ cell, table.through (rollbackWrites casing db ancestor) key cell =
      if key ∈ goneKeys casing db ancestor then
        table.through ((staying db ancestor).map (poolPut casing) ++ basePuts) key .empty
      else if key.1 ∈ EVENT_KINDS ∧ key.2 ∈ orphaned (eventRows db) ancestor key.1 then
        writeCell casing key
          (groupItems casing key.1 (surviving (eventRows db) ancestor) key) .empty
      else cell := by
    intro cell
    rw [rollbackWrites, through_append, poolRepairs_through,
      repairs_through casing _ _ positions]
  have spelled := spelled_all casing (eventRows db) ancestor positions key.1
  by_cases inside : key.1 ∈ EVENT_KINDS
  · have still : key ∉ goneKeys casing db ancestor := by
      intro member
      obtain ⟨entry, -, listed⟩ := List.mem_flatMap.mp member
      exact event_kind_apart casing entry key inside listed
    have rebuilt : ∀ events pools, table.through (rebuildWrites casing events pools) key .empty =
        table.through (eventPuts casing events key.1) key .empty := by
      intro events pools
      rw [whole, pools_through casing pools key _ inside, puts_through, if_pos inside]
    by_cases orphan : key.2 ∈ orphaned (eventRows db) ancestor key.1
    · left
      intro cell
      rw [repair, if_neg still, if_pos ⟨inside, orphan⟩, rebuilt]
      refine (eventPuts_through casing _ key.1 key .empty ?_).symm
      intro identity member same
      obtain ⟨row, kept, named⟩ := (mem_groupKeys _ _ identity).mp member
      rw [← (spelled key.2 orphan row (List.mem_filter.mp kept).1 identity named (by
        rw [same, (orphan_plain casing _ ancestor _ spelled key.2 orphan).listed])).listed, same]
    · right
      refine ⟨fun cell => by rw [repair, if_neg still, if_neg fun all => orphan all.2], ?_⟩
      rw [rebuilt, rebuilt]
      apply eventPuts_stays
      intro identity _ same member
      rw [(orphan_plain casing _ ancestor _ spelled identity member).listed] at same
      exact orphan (same ▸ member)
  · have quiet : ∀ events cell, table.through
        (EVENT_KINDS.flatMap (eventPuts casing events)) key cell = cell := by
      intro events cell
      rw [puts_through, if_neg inside]
    by_cases gone : key ∈ goneKeys casing db ancestor
    · left
      intro cell
      rw [repair, if_pos gone, whole, quiet]
      exact base_swap casing (staying db ancestor) key .empty
    · right
      refine ⟨fun cell => by rw [repair, if_neg gone, if_neg fun all => inside all.1], ?_⟩
      rw [whole, whole, quiet, quiet, through_append, through_append]
      exact goneKeys_out casing db ancestor key gone _

structure Indexed (Lp : Type) where
  db : Db Lp
  catalogue : Catalogue

/-- `MarketStore.rollback` with the repair of the catalogue in its place, before the rows go. -/
def rollback (projection : MarketStore.PriceProjection Lp) (store : Indexed Lp) (ancestor : Int)
    (header : Option Header) : Write (Indexed Lp) :=
  if ancestor < 0 then .error (.value "ancestor must be nonnegative")
  else if header.any fun header => header.number ≠ ancestor then
    .error (.value "rollback header does not match ancestor")
  else do
    let db ← projection.rollback store.db ancestor
    let (db, _) ← MarketStore.storeHeaders db header.toList
    let catalogue := rollbackSearchIndex casing store.catalogue db ancestor
    return { db := ← MarketStore.cut db ancestor, catalogue := catalogue }

theorem eventRows_modify (db : Db Lp) (unwound : MarketStore.Unwinding Lp) :
    eventRows { db with events := db.events.modify unwound.value, lp := unwound.tables } =
      eventRows db := by
  rw [eventRows, eventRows, OrderedTable.modify, List.map_map]
  apply List.map_congr_left
  intro entry _
  simp only [Function.comp_apply, MarketStore.Unwinding.value]
  cases unwound.valuation entry.1 <;> rfl

theorem eventRows_remove (db : Db Lp) (ancestor : Int) (events : OrderedTable EventId EventRow)
    (cuts : events = db.events.remove fun _ row => ancestor < row.place.blockNumber) :
    events.entries.map (fun entry => (entry.2.place, entry.2.terms)) =
      surviving (eventRows db) ancestor := by
  rw [cuts, surviving, eventRows, List.filter_map]
  rfl

theorem restored_put (db : Db Lp) (ancestor : Int) (entry : PoolId × PoolRow) :
    poolPut casing (entry.1, MarketStore.restoreBalance db ancestor entry.1 entry.2) =
      poolPut casing entry := by
  unfold MarketStore.restoreBalance
  split
  · rfl
  · dsimp only
    split <;> rfl

theorem rewindCursor_pools (db : Db Lp) (ancestor : Int) (lane : String) :
    (MarketStore.rewindCursor db ancestor lane).pools = db.pools := by
  unfold MarketStore.rewindCursor
  split
  · split <;> rfl
  · rfl

theorem cut_pools (db : Db Lp) (ancestor : Int) :
    CheckedSteps.Meets CheckedSteps.anyhow (fun after => ∃ kept : Db Lp, after.pools =
        (db.pools.remove (MarketStore.removable db ancestor)).modify
          (MarketStore.restoreBalance kept ancestor))
      (MarketStore.cut db ancestor) := by
  apply CheckedSteps.meets_bind fun unpublished : Db Lp =>
    (unpublished.pools, unpublished.provenance) = (db.pools, db.provenance)
  · exact StoreLedger.bump_keeps (fun db => (db.pools, db.provenance)) (fun _ _ => rfl) _ _ _
  · intro unpublished same
    obtain ⟨pools, provenance⟩ := Prod.mk.inj same
    have condemned : MarketStore.removable unpublished ancestor =
        MarketStore.removable db ancestor := by
      funext id pool
      rw [MarketStore.removable, MarketStore.removable, provenance]
    dsimp only
    split
    · trivial
    · apply CheckedSteps.meets_bind _
        (StoreLedger.lowerCounters_keeps Db.pools (fun _ _ => rfl) _ _ _)
      intro lowered kept
      rw [rewindCursor_pools, rewindCursor_pools] at kept
      refine ⟨MarketStore.cutOrphans (MarketStore.cutRows unpublished ancestor), kept.trans ?_⟩
      show (unpublished.pools.remove (MarketStore.removable unpublished ancestor)).modify _ = _
      rw [condemned, pools]

def Agree (one other : Catalogue) : Prop := ∀ key, cell one key = cell other key

theorem cut_rebuild (db : Db Lp) (ancestor : Int) (after : Db Lp)
    (done : MarketStore.cut db ancestor = .ok after) :
    rebuildWrites casing (eventRows after) after.pools.entries =
      rebuildWrites casing (surviving (eventRows db) ancestor) (staying db ancestor) := by
  have events : eventRows after = surviving (eventRows db) ancestor :=
    eventRows_remove db ancestor after.events
      (congrArg StoreRows.Sheet.events ((StoreRows.cut_sheet db ancestor).value done))
  obtain ⟨kept, pools⟩ := (cut_pools db ancestor).value done
  have puts : after.pools.entries.map (poolPut casing) =
      (staying db ancestor).map (poolPut casing) := by
    rw [pools]
    show ((staying db ancestor).map fun entry =>
      (entry.1, MarketStore.restoreBalance kept ancestor entry.1 entry.2)).map _ = _
    rw [List.map_map]
    exact List.map_congr_left fun entry _ => restored_put casing kept ancestor entry
  rw [rebuildWrites, rebuildWrites, events, puts]

theorem rollback_steps (projection : MarketStore.PriceProjection Lp) (store after : Indexed Lp)
    (ancestor : Int) (header : Option Header)
    (done : rollback casing projection store ancestor header = .ok after) :
    ∃ db : Db Lp, eventRows db = eventRows store.db ∧ db.pools = store.db.pools ∧
      MarketStore.cut db ancestor = .ok after.db ∧
      after.catalogue = rollbackSearchIndex casing store.catalogue db ancestor := by
  unfold rollback at done
  split at done
  · cases done
  · split at done
    · cases done
    · obtain ⟨unwound, values, done⟩ := (EventWords.bind_ok _ _ _).mp done
      obtain ⟨⟨headed, normalized⟩, stored, done⟩ := (EventWords.bind_ok _ _ _).mp done
      obtain ⟨cut, cuts, done⟩ := (EventWords.bind_ok _ _ _).mp done
      obtain rfl := Except.ok.inj done
      have only := ((StoreLedger.storeHeaders_meets unwound header.toList).value stored).1
      dsimp only at only cuts ⊢
      have valued : eventRows unwound = eventRows store.db ∧ unwound.pools = store.db.pools := by
        unfold MarketStore.PriceProjection.rollback at values
        split at values
        · cases values
        · obtain rfl := Except.ok.inj values
          exact ⟨eventRows_modify store.db _, rfl⟩
      refine ⟨headed, ?_, ?_, cuts, rfl⟩
      · rw [only]
        exact valued.1
      · rw [only]
        exact valued.2

/-- A catalogue that is as rebuilt is so after a rollback, if each position key that shares
its id with one of an orphaned event is in lower case, bare of white space and short. -/
theorem rollback_rebuilds (projection : MarketStore.PriceProjection Lp) (store after : Indexed Lp)
    (ancestor : Int) (header : Option Header)
    (built : Agree store.catalogue (rebuildSearchIndex casing store.db))
    (spelled : Spelled casing (eventRows store.db) ancestor .position)
    (done : rollback casing projection store ancestor header = .ok after) :
    Agree after.catalogue (rebuildSearchIndex casing after.db) := by
  obtain ⟨db, events, pools, cuts, repaired⟩ :=
    rollback_steps casing projection store after ancestor header done
  intro key
  have held : cell store.catalogue key = (catalogueWrites casing).through
      (rebuildWrites casing (eventRows db) db.pools.entries) key .empty := by
    rw [events, pools]
    exact (built key).trans (run_view (catalogueWrites casing) _ .empty key)
  rw [repaired, rebuildSearchIndex, cut_rebuild casing db ancestor after.db cuts]
  exact repair_exact (catalogueWrites casing) .empty store.catalogue
    (rebuildWrites casing (eventRows db) db.pools.entries)
    (rebuildWrites casing (surviving (eventRows db) ancestor) (staying db ancestor))
    (rollbackWrites casing db ancestor) key held
    (repair_cell casing db ancestor (events ▸ spelled) key)

theorem identityRow_kind (pair : Key × SearchRow)
    (member : pair ∈ identityRows casing (groupRow kind events identity)) (entity : Entity)
    (given : entity ∈ eventSearchEntities casing pair.2) :
    entity.kind = kind ∧ entity.id = casing.lower identity := by
  have one : ∀ (blank : Prop) [Decidable blank] (only : Key × SearchRow),
      pair ∈ (if blank then [] else [only]) → ¬blank ∧ pair = only := by
    intro blank _ only inside
    split at inside
    · cases inside
    · rename_i named
      exact ⟨named, List.mem_singleton.mp inside⟩
  have blank : ¬casing.lower "" ≠ "" := not_not.mpr (lower_blank casing)
  rw [identityRows, List.mem_append, List.mem_append] at member
  rcases member with (owner | custody) | position
  · obtain ⟨named, rfl⟩ := one _ _ owner
    cases kind with
    | owner =>
      rcases event_entity casing _ entity given with ⟨-, rfl⟩ | ⟨named, -⟩ | ⟨named, -⟩
      · exact ⟨rfl, casing.again identity⟩
      · exact absurd named blank
      · exact absurd named blank
    | _ => exact absurd named blank
  · obtain ⟨named, rfl⟩ := one _ _ custody
    cases kind with
    | custody =>
      rcases event_entity casing _ entity given with ⟨named, -⟩ | ⟨-, rfl⟩ | ⟨named, -⟩
      · exact absurd named blank
      · exact ⟨rfl, casing.again identity⟩
      · exact absurd named blank
    | _ => exact absurd named blank
  · obtain ⟨named, rfl⟩ := one _ _ position
    cases kind with
    | position =>
      rcases event_entity casing _ entity given with ⟨named, -⟩ | ⟨named, -⟩ | ⟨-, rfl⟩
      · exact absurd named blank
      · exact absurd named blank
      · exact ⟨rfl, casing.again identity⟩
    | _ => exact absurd named blank

theorem batch_none (identities : List String) (key : Key)
    (apart : key.1 = kind → ∀ identity ∈ identities,
      searchId casing (casing.lower identity) ≠ key.2) :
    ownItems casing key (batchEntities casing (identities.map (groupRow kind events))) = [] := by
  apply ownItems_none
  rintro entity member rfl
  obtain ⟨entry, sorted, given⟩ := List.mem_flatMap.mp member
  have inside : entry ∈ (identities.map (groupRow kind events)).flatMap (identityRows casing) := by
    rcases get_insertAll .empty _ entry.1 entry.2
      ((get_some _ _ _).mpr ((List.mem_insertionSort _).mp sorted)) with old | ⟨-, new⟩
    · cases old
    · exact new
  rw [List.flatMap_map] at inside
  obtain ⟨identity, listed, collected⟩ := List.mem_flatMap.mp inside
  obtain ⟨same, named⟩ := identityRow_kind casing kind events identity entry collected entity given
  exact apart same identity listed (by rw [← named]; rfl)

theorem writeCell_keeps (items : List Entity) (cell : Cell)
    (held : cell.entry.isSome = true ∨ items ≠ []) :
    (writeCell casing key items cell).entry.isSome = true := by
  unfold writeCell
  split
  · rename_i ends
    exact held.resolve_right (not_not.mpr (List.getLast?_eq_none_iff.mp ends))
  · rename_i last ends
    split
    · rename_i kept
      simp only [Bool.and_eq_true, decide_eq_true_eq] at kept
      rw [kept.2]
      rfl
    · rfl

theorem repairs_miss (kept : key.2 ∉ orphaned events ancestor key.1)
    (apart : ∀ identity ∈ groupKeys key.1 (surviving events ancestor),
      searchId casing (casing.lower identity) ≠ key.2) (cell : Cell) :
    (catalogueWrites casing).through
      (EVENT_KINDS.flatMap (eventRepairs casing events ancestor)) key cell = cell := by
  apply through_quiet
  intro change member
  obtain ⟨kind, -, repaired⟩ := List.mem_flatMap.mp member
  obtain ⟨batch, chunk, made⟩ := List.mem_flatMap.mp repaired
  rcases List.mem_pair.mp made with rfl | rfl
  · intro cell
    refine (delete_effect casing _ key cell).trans (if_neg ?_)
    intro named
    obtain ⟨identity, inside, rfl⟩ := List.mem_map.mp named
    apply kept
    rw [← LogQueries.chunks_flatten 500 (by decide) (orphaned events ancestor kind)]
    exact List.mem_flatten.mpr ⟨batch, chunk, inside⟩
  · apply quiet_put
    apply batch_none
    rintro rfl identity inside
    exact apart identity (List.mem_filter.mp inside).1

theorem puts_hold (writes : List SearchWrite) (key : Key) (cell : Cell)
    (onlyPuts : ∀ change ∈ writes, ∃ entities, change = .put entities)
    (given : cell.entry.isSome = true ∨
      ∃ entities, .put entities ∈ writes ∧ ownItems casing key entities ≠ []) :
    ((catalogueWrites casing).through writes key cell).entry.isSome = true := by
  induction writes generalizing cell with
  | nil => exact given.resolve_right fun ⟨_, member, _⟩ => List.not_mem_nil member
  | cons change rest ih =>
    obtain ⟨entities, rfl⟩ := onlyPuts change List.mem_cons_self
    apply ih (writeCell casing key (ownItems casing key entities) cell)
      fun other member => onlyPuts other (List.mem_cons_of_mem _ member)
    rcases given with held | ⟨others, member, some_⟩
    · exact .inl (writeCell_keeps casing key _ cell (.inl held))
    · rcases List.mem_cons.mp member with same | later
      · cases same
        exact .inl (writeCell_keeps casing key _ cell (.inr some_))
      · exact .inr ⟨others, later, some_⟩

theorem position_own (nonblank : searchId casing (casing.lower identity) ≠ "") :
    ownItems casing (.position, searchId casing (casing.lower identity))
      (eventSearchEntities casing (groupRow .position events identity)) ≠ [] := by
  have named : casing.lower identity ≠ "" := by
    intro blank
    rw [blank, SearchCatalogue.searchId] at nonblank
    exact nonblank (by rw [show strip "" = "" from rfl, lower_blank]; rfl)
  have entity : positionEntity (casing.lower identity) (groupRow .position events identity) ∈
      eventSearchEntities casing (groupRow .position events identity) := by
    apply List.mem_append_right
    rw [if_neg (show ¬casing.lower ((groupRow .position events identity).positionKey.getD "") = ""
      from named)]
    exact List.mem_singleton_self _
  apply List.ne_nil_of_mem (List.mem_filter.mpr ⟨entity, ?_⟩)
  simp only [OwnItem, Bool.and_eq_true, decide_eq_true_eq]
  exact ⟨nonblank, rfl⟩

/-- An orphaned key that is listed under an id that is no orphaned key itself stays listed,
also where no event has the id any more. -/
theorem stale_key (projection : MarketStore.PriceProjection Lp) (store after : Indexed Lp)
    (ancestor : Int) (header : Option Header)
    (built : Agree store.catalogue (rebuildSearchIndex casing store.db))
    (done : rollback casing projection store ancestor header = .ok after) (orphan : String)
    (member : orphan ∈ orphaned (eventRows store.db) ancestor .position)
    (nonblank : searchId casing (casing.lower orphan) ≠ "")
    (elsewhere : searchId casing (casing.lower orphan) ∉
      orphaned (eventRows store.db) ancestor .position)
    (vanished : ∀ identity ∈ groupKeys .position (surviving (eventRows store.db) ancestor),
      searchId casing (casing.lower identity) ≠ searchId casing (casing.lower orphan)) :
    ¬Agree after.catalogue (rebuildSearchIndex casing after.db) := by
  obtain ⟨db, events, pools, cuts, repaired⟩ :=
    rollback_steps casing projection store after ancestor header done
  rw [← events] at member elsewhere vanished
  intro agree
  generalize named : searchId casing (casing.lower orphan) = id at nonblank elsewhere vanished
  have inside : (SearchKind.position, id).1 ∈ EVENT_KINDS := by
    show SearchKind.position ∈ EVENT_KINDS
    decide
  have still : (SearchKind.position, id) ∉ goneKeys casing db ancestor := by
    intro gone
    obtain ⟨entry, -, listed⟩ := List.mem_flatMap.mp gone
    exact event_kind_apart casing entry _ inside listed
  have kept : cell after.catalogue (.position, id) = cell store.catalogue (.position, id) := by
    rw [repaired]
    refine (run_view (catalogueWrites casing) (rollbackWrites casing db ancestor) _ _).trans ?_
    rw [rollbackWrites, through_append, poolRepairs_through, if_neg still]
    exact repairs_miss casing _ ancestor _ elsewhere vanished _
  have whole : ∀ events pools, (catalogueWrites casing).through (rebuildWrites casing events pools)
      (.position, id) .empty = (catalogueWrites casing).through
        (eventPuts casing events .position) (.position, id) .empty := by
    intro events pools
    rw [rebuildWrites, through_append]
    exact (congrArg _ (pools_through casing pools _ _ inside)).trans
      ((puts_through casing events _ _).trans (if_pos inside))
  have before : (cell store.catalogue (.position, id)).entry.isSome = true := by
    have start : cell store.catalogue (.position, id) = (catalogueWrites casing).through
        (rebuildWrites casing (eventRows db) db.pools.entries) (.position, id) .empty := by
      rw [events, pools]
      exact (built _).trans (run_view (catalogueWrites casing) _ .empty _)
    rw [start, whole]
    apply puts_hold
    · intro change listed
      obtain ⟨identity, -, rfl⟩ := List.mem_map.mp listed
      exact ⟨_, rfl⟩
    · right
      obtain ⟨row, there, -, key⟩ := (mem_orphaned _ _ _ orphan).mp member
      have group := (mem_groupKeys .position (eventRows db) orphan).mpr ⟨row, there, key⟩
      refine ⟨_, List.mem_map.mpr ⟨orphan, group, rfl⟩, ?_⟩
      rw [← named] at nonblank ⊢
      exact position_own casing _ orphan nonblank
  have none_ : cell (rebuildSearchIndex casing after.db) (.position, id) = .empty := by
    refine (run_view (catalogueWrites casing) _ .empty _).trans ?_
    rw [cut_rebuild casing db ancestor after.db cuts]
    refine (whole _ _).trans (through_quiet (catalogueWrites casing) _ _ _ ?_)
    intro change listed
    obtain ⟨identity, there, rfl⟩ := List.mem_map.mp listed
    exact quiet_put casing _ _ (group_own casing .position _ identity _ fun all =>
      vanished identity there all.2.2.2)
  rw [← kept, agree, none_] at before
  cases before

end

/-- The repair gives the rebuilt catalogue where each position key that shares its id with an
orphaned one is in lower case, bare of white space and short. It does not where the id of an
orphaned key is no orphaned key itself, and no event has it any more. -/
theorem search_repaired (projection : MarketStore.PriceProjection Lp) (store after : Indexed Lp)
    (ancestor : Int) (header : Option Header)
    (built : Agree store.catalogue (rebuildSearchIndex casing store.db))
    (done : rollback casing projection store ancestor header = .ok after) :
    (Spelled casing (eventRows store.db) ancestor .position →
        Agree after.catalogue (rebuildSearchIndex casing after.db)) ∧
      ∀ orphan ∈ orphaned (eventRows store.db) ancestor .position,
        searchId casing (casing.lower orphan) ≠ "" →
        searchId casing (casing.lower orphan) ∉
          orphaned (eventRows store.db) ancestor .position →
        (∀ identity ∈ groupKeys .position (surviving (eventRows store.db) ancestor),
          searchId casing (casing.lower identity) ≠ searchId casing (casing.lower orphan)) →
        ¬Agree after.catalogue (rebuildSearchIndex casing after.db) :=
  ⟨fun spelled =>
      rollback_rebuilds casing projection store after ancestor header built spelled done,
    fun orphan => stale_key casing projection store after ancestor header built done orphan⟩

/-! A position that was touched in block 1 and, with another one, in block 2. -/

instance (text : String) : Decidable (Plain asciiCasing text) := by
  unfold Plain
  infer_instance

def sampleEvent (block : Int) (position : String) : EventRow :=
  { place := { blockNumber := block, blockHash := BitVec.ofInt 256 block
               txHash := BitVec.ofInt 256 block, txIndex := 0, logIndex := 0, timestamp := block }
    terms := { poolId := some (.contract 0xaa#160), protocol := .v3, kind := .add
               quantity := fun _ => none, party := fun _ => some 0xcc#160
               label := fun
                 | .positionKey => some position
                 | .tokenId => some "7"
                 | _ => none
               data := fun _ => none, pool := none }
    valuation := ⟨fun _ => none, none, fun _ => none⟩
    revision := 0 }

def samplePool (created : Int) (token : TxChain.Address) : PoolRow :=
  { protocol := .v3, address := 0xaa#160, token0 := 0xdd#160, token1 := token, symbol0 := none
    symbol1 := some "WETH", decimals0 := some 6, decimals1 := some 18, feePpm := some 3000
    tickSpacing := some 60, hook := none, factory := none, createdBlock := some created
    source := none, metadata := none }

def sampleStore (positions : List (Int × String)) : Indexed Unit :=
  let events := positions.zipIdx.map fun position =>
    (position.2 + 1, sampleEvent position.1.1 position.1.2)
  let rows : Db Unit :=
    { Db.fresh () with
      events := OrderedTable.empty.putAll events
      pools := (OrderedTable.empty.put (.contract 0xaa#160) (samplePool 1 0xbb#160)).put
        (.contract 0xab#160) (samplePool 2 0xbe#160) }
  let db := { rows with counter := fun key => rows.rows key }
  ⟨db, rebuildSearchIndex asciiCasing db⟩

def samplePrices : MarketStore.PriceProjection Unit where
  reprice _ _ := .error "no prices"
  unwind _ _ := .ok ⟨fun _ => none, ()⟩
  rollUp _ _ := ()

def samplePositions : List (Int × String) :=
  [(1, "v3:0xaa:0x01"), (2, "v3:0xaa:0x01"), (2, "v3:0xaa:0x02")]

theorem search_repaired_sample : ∃ after, rollback asciiCasing samplePrices
      (sampleStore samplePositions) 1 none = .ok after ∧
    Agree after.catalogue (rebuildSearchIndex asciiCasing after.db) := by
  cases done : rollback asciiCasing samplePrices (sampleStore samplePositions) 1 none with
  | error failure =>
    have returns : (rollback asciiCasing samplePrices
        (sampleStore samplePositions) 1 none).isOk = true := by
      decide +kernel
    rw [done] at returns
    cases returns
  | ok after =>
    refine ⟨after, rfl, (search_repaired asciiCasing samplePrices _ after 1 none (fun _ => rfl)
      done).1 ?_⟩
    intro orphan _ row inside identity named _
    have plain : ∀ row ∈ eventRows (sampleStore samplePositions).db,
        ∀ identity ∈ column .position row, Plain asciiCasing identity := by
      decide +kernel
    exact plain row inside identity named

/-- A key with capitals is listed in lower case, where the deletion does not look for it. -/
theorem mixed_key_stays : Agree (sampleStore [(1, " Mixed-Position ")]).catalogue
      (rebuildSearchIndex asciiCasing (sampleStore [(1, " Mixed-Position ")]).db) ∧
    ∃ after, rollback asciiCasing samplePrices (sampleStore [(1, " Mixed-Position ")]) 0 none =
        .ok after ∧
      ¬Agree after.catalogue (rebuildSearchIndex asciiCasing after.db) := by
  have built : Agree (sampleStore [(1, " Mixed-Position ")]).catalogue
      (rebuildSearchIndex asciiCasing (sampleStore [(1, " Mixed-Position ")]).db) := fun _ => rfl
  refine ⟨built, ?_⟩
  cases done : rollback asciiCasing samplePrices (sampleStore [(1, " Mixed-Position ")]) 0 none with
  | error failure =>
    have returns : (rollback asciiCasing samplePrices
        (sampleStore [(1, " Mixed-Position ")]) 0 none).isOk = true := by
      decide +kernel
    rw [done] at returns
    cases returns
  | ok after =>
    refine ⟨after, rfl, stale_key asciiCasing samplePrices _ after 0 none built done
      " Mixed-Position " ?_ ?_ ?_ ?_⟩ <;> decide +kernel

end RhPools.SearchRepair
