import Mathlib.Algebra.Field.Rat
import RhPools.EpisodeRuns

/-! The wallet page of an owner and the leaderboard. One adds up the costs of the transactions
of the owner's episodes, the other the gas of these episodes, and the costs of the transactions
of those whose gas is not known. Over settled tables both find the same gas, except that the
sum of no costs is nothing on the wallet page and unknown on the leaderboard. -/

namespace RhPools.OwnerSummaries
open OrderedTables EpisodeCosts EpisodeRuns

structure Summary where
  closedEpisodes : Nat
  winRate : Option ℚ
  feesUsd : Option ℚ
  observedCollectedFeesUsd : Option ℚ
  gasUsd : Option ℚ
  deriving DecidableEq

def currentRow (db : Db) (current : EpisodeId → Option (Option ℚ)) (id : EpisodeId)
    (row : EpisodeRow) : EpisodeRow :=
  if row.episode.closedAt = none ∧ db.active.get id.positionKey = some id then
    { row with grossPnlUsd := (current id).getD row.grossPnlUsd }
  else row

/-- `_episode_rows` of an identity. -/
def episodeRows (db : Db) (current : EpisodeId → Option (Option ℚ)) (identity : Address) :
    List (EpisodeId × EpisodeRow) :=
  (db.episodes.entries.filter fun entry =>
    entry.2.episode.owner = some identity ∨ entry.2.episode.custody = some identity).map
    fun entry => (entry.1, currentRow db current entry.1 entry.2)

def costValue (db : Db) (owner : Address) (tx : TxHash) : Option ℚ :=
  (db.txCosts.get tx).bind fun cost => if cost.owner = some owner then cost.gasUsd else none

def ownerTxs (db : Db) (owner : Address) (chosen : EpisodeId → EpisodeRow → Bool) :
    List TxHash :=
  (((db.effects.entries.map Prod.snd).filter fun effect => effect.episodeId.any fun id =>
    (db.episodes.get id).any fun row =>
      chosen id row && row.episode.owner = some owner).map Effect.txHash).dedup

/-- `_owner_cost_values` of one owner. -/
def ownerCostValues (db : Db) (ids : List EpisodeId) (owner : Address) : List (Option ℚ) :=
  (ownerTxs db owner fun id _ => id ∈ ids).map (costValue db owner)

/-- `_nullable_sum`. -/
def nullableSum (values : List (Option ℚ)) : Option ℚ :=
  if values = [] then some 0
  else if none ∈ values then none
  else some (values.filterMap id).sum

def feesObserved (row : EpisodeRow) : Option ℚ :=
  if row.episode.feesComplete && row.episode.pricingComplete then row.episode.feesUsd else none

def feesWhole (row : EpisodeRow) : Bool :=
  row.episode.historyComplete && row.episode.feesComplete && row.episode.pricingComplete &&
    row.episode.feesUsd.isSome

def complete (row : EpisodeRow) : Bool := row.episode.status = "complete"

/-- The summary of `owner`. -/
def owner (db : Db) (current : EpisodeId → Option (Option ℚ)) (identity : Address) : Summary :=
  let episodes := episodeRows db current identity
  let gasValues := ownerCostValues db (episodes.map Prod.fst) identity
  let beneficial := (episodes.map Prod.snd).filter fun row => row.episode.owner = some identity
  let observedFeeValues := beneficial.filterMap feesObserved
  let observedFees := if observedFeeValues = [] then none else some observedFeeValues.sum
  let completed := beneficial.filter complete
  let wins := completed.map EpisodeRow.grossPnlUsd
  { closedEpisodes := completed.length
    winRate :=
      if wins ≠ [] ∧ none ∉ wins then
        some (100 * (wins.countP fun win => win.any (0 < ·)) / wins.length)
      else none
    feesUsd :=
      if beneficial ≠ [] ∧ beneficial.countP feesWhole = beneficial.length then observedFees
      else none
    observedCollectedFeesUsd := observedFees
    gasUsd := if beneficial = [] then none else nullableSum gasValues }

/-- SQL `SUM`: of no values there is none. -/
def sqlSum (values : List (Option ℚ)) : Option ℚ :=
  if values.filterMap id = [] then none else some (values.filterMap id).sum

/-- `_owner_gas_values` of one owner, for whom there may be no row. -/
def ownerGasValues (db : Db) (owner : Address) : Option (Option ℚ) :=
  let values := (ownerTxs db owner fun _ row => row.gasUsd.isNone).map (costValue db owner)
  if values = [] then none
  else if values.countP Option.isSome ≠ values.length then some none
  else some (sqlSum values)

/-- The gas of `_finish_owner_rows`; to convert NULL raises. -/
def finishGas (missing : Nat) (observed : Option ℚ) (unresolved : Option (Option ℚ)) :
    Option (Option ℚ) :=
  if missing ≠ 0 ∧ unresolved = some none then some none
  else match unresolved with
    | none => some observed
    | some total => total.map fun gas => some (observed.getD 0 + gas)

def group (db : Db) (owner : Address) : List (EpisodeId × EpisodeRow) :=
  db.episodes.entries.filter fun entry => entry.2.episode.owner = some owner

/-- The row of an owner in `owner_candidates`, if there is one. -/
def ownerCandidate (db : Db) (owner : Address) : Option Summary :=
  let rows := (group db owner).map Prod.snd
  let closed := rows.countP complete
  if rows = [] then none
  else (finishGas (rows.countP fun row => row.gasUsd.isNone) (sqlSum (rows.map EpisodeRow.gasUsd))
    (ownerGasValues db owner)).map fun gas =>
    { closedEpisodes := closed
      winRate :=
        if closed > 0 ∧ (rows.countP fun row => complete row && row.grossPnlUsd.isNone) = 0 then
          some (100 * (rows.countP fun row => complete row && row.grossPnlUsd.any (0 < ·)) / closed)
        else none
      feesUsd :=
        if (rows.all fun row => row.episode.historyComplete && row.episode.feesComplete &&
            row.episode.pricingComplete) ∧
            (rows.countP fun row => row.episode.feesUsd.isSome) = rows.length then
          sqlSum (rows.map fun row => row.episode.feesUsd)
        else none
      observedCollectedFeesUsd := sqlSum (rows.map feesObserved)
      gasUsd := gas }

section
variable (db : Db) (current : EpisodeId → Option (Option ℚ)) (identity : Address)

theorem currentRow_episode (id : EpisodeId) (row : EpisodeRow) :
    (currentRow db current id row).episode = row.episode := by
  unfold currentRow
  split <;> rfl

theorem currentRow_complete (id : EpisodeId) (row : EpisodeRow) (done : complete row = true) :
    currentRow db current id row = row := by
  unfold currentRow
  rw [if_neg]
  rintro ⟨unclosed, -⟩
  have closed := row.episode.ended (of_decide_eq_true done)
  rw [unclosed] at closed
  cases closed

def beneficialRows : List EpisodeRow :=
  (group db identity).map fun entry => currentRow db current entry.1 entry.2

theorem beneficial_eq :
    (((episodeRows db current identity).map Prod.snd).filter fun row =>
      row.episode.owner = some identity) = beneficialRows db current identity := by
  simp only [episodeRows, beneficialRows, group, List.map_map, List.filter_map, List.filter_filter,
    Function.comp_def, currentRow_episode]
  congr 1
  refine List.filter_congr fun entry _ => ?_
  by_cases owned : entry.2.episode.owner = some identity <;> simp [owned]

theorem complete_current (id : EpisodeId) (row : EpisodeRow) :
    complete (currentRow db current id row) = complete row := by
  rw [complete, complete, currentRow_episode]

theorem completed_eq : (beneficialRows db current identity).filter complete =
    ((group db identity).map Prod.snd).filter complete := by
  simp only [beneficialRows, List.filter_map, Function.comp_def, complete_current]
  refine List.map_congr_left fun entry member => ?_
  exact currentRow_complete db current entry.1 entry.2 (List.mem_filter.mp member).2

theorem map_current {Item : Type} (read : EpisodeRow → Item)
    (same : ∀ id row, read (currentRow db current id row) = read row) :
    (beneficialRows db current identity).map read =
      ((group db identity).map Prod.snd).map read := by
  rw [beneficialRows, List.map_map, List.map_map]
  exact List.map_congr_left fun entry _ => same entry.1 entry.2

end

section
variable (rows : List EpisodeRow)

theorem filterMap_feesObserved :
    rows.filterMap feesObserved = (rows.map feesObserved).filterMap id := by
  rw [List.filterMap_map, Function.id_comp]

theorem winRate_same :
    (if rows.countP complete > 0 ∧
        (rows.countP fun row => complete row && row.grossPnlUsd.isNone) = 0 then
      some (100 * ((rows.countP fun row => complete row && row.grossPnlUsd.any (0 < ·) : ℕ) : ℚ) /
        (rows.countP complete : ℕ))
    else none) =
    if (rows.filter complete).map EpisodeRow.grossPnlUsd ≠ [] ∧
        none ∉ (rows.filter complete).map EpisodeRow.grossPnlUsd then
      some (100 * ((((rows.filter complete).map EpisodeRow.grossPnlUsd).countP
        fun win => win.any (0 < ·) : ℕ) : ℚ) /
          (((rows.filter complete).map EpisodeRow.grossPnlUsd).length : ℕ))
    else none := by
  have won : (rows.countP fun row => complete row && row.grossPnlUsd.any (0 < ·)) =
      ((rows.filter complete).map EpisodeRow.grossPnlUsd).countP fun win => win.any (0 < ·) := by
    rw [List.countP_map, List.countP_filter]
    exact List.countP_congr fun row _ => by simp [and_comm]
  have unknown : (rows.countP fun row => complete row && row.grossPnlUsd.isNone) = 0 ↔
      none ∉ (rows.filter complete).map EpisodeRow.grossPnlUsd := by
    rw [List.countP_eq_zero]
    constructor
    · intro known member
      obtain ⟨row, inside, lacks⟩ := List.mem_map.mp member
      obtain ⟨there, done⟩ := List.mem_filter.mp inside
      exact known row there (by simp [done, lacks])
    · intro known row there lacks
      rw [Bool.and_eq_true, Option.isNone_iff_eq_none] at lacks
      exact known (List.mem_map.mpr ⟨row, List.mem_filter.mpr ⟨there, lacks.1⟩, lacks.2⟩)
  have closed : rows.countP complete > 0 ↔
      (rows.filter complete).map EpisodeRow.grossPnlUsd ≠ [] := by
    rw [List.countP_eq_length_filter, ne_eq, List.map_eq_nil_iff, gt_iff_lt, List.length_pos_iff]
  rw [won, List.length_map, ← List.countP_eq_length_filter]
  exact if_congr (and_congr closed unknown) rfl rfl

theorem fees_same (present : rows ≠ []) :
    (if (rows.all fun row => row.episode.historyComplete && row.episode.feesComplete &&
        row.episode.pricingComplete) = true ∧
        (rows.countP fun row => row.episode.feesUsd.isSome) = rows.length then
      sqlSum (rows.map fun row => row.episode.feesUsd)
    else none) =
    if rows ≠ [] ∧ rows.countP feesWhole = rows.length then sqlSum (rows.map feesObserved)
    else none := by
  have whole : ((rows.all fun row => row.episode.historyComplete && row.episode.feesComplete &&
      row.episode.pricingComplete) = true ∧
      (rows.countP fun row => row.episode.feesUsd.isSome) = rows.length) ↔
      (rows ≠ [] ∧ rows.countP feesWhole = rows.length) := by
    rw [List.countP_eq_length, List.countP_eq_length, List.all_eq_true]
    constructor
    · rintro ⟨flags, known⟩
      refine ⟨present, fun row member => ?_⟩
      rw [feesWhole, flags row member, known row member]
      rfl
    · rintro ⟨-, all⟩
      have parts := fun row member => Bool.and_eq_true_iff.mp (all row member)
      exact ⟨fun row member => (parts row member).1, fun row member => (parts row member).2⟩
  by_cases holds : rows ≠ [] ∧ rows.countP feesWhole = rows.length
  · rw [if_pos holds, if_pos (whole.mpr holds)]
    congr 1
    refine List.map_congr_left fun row member => ?_
    have flags := List.all_eq_true.mp (whole.mpr holds).1 row member
    simp only [Bool.and_eq_true] at flags
    rw [feesObserved, flags.1.2, flags.2]
    rfl
  · rw [if_neg holds, if_neg fun left => holds (whole.mp left)]

end

theorem ownerCandidate_finished (db : Db) (current : EpisodeId → Option (Option ℚ))
    (identity : Address) (present : (group db identity).map Prod.snd ≠ []) (gas : Option ℚ)
    (finished : finishGas (((group db identity).map Prod.snd).countP fun row => row.gasUsd.isNone)
      (sqlSum (((group db identity).map Prod.snd).map EpisodeRow.gasUsd))
      (ownerGasValues db identity) = some gas) :
    ownerCandidate db identity = some { owner db current identity with gasUsd := gas } := by
  have fees := map_current db current identity feesObserved fun id row => by
    rw [feesObserved, feesObserved, currentRow_episode]
  have wholes := map_current db current identity feesWhole fun id row => by
    rw [feesWhole, feesWhole, currentRow_episode]
  have counted : (beneficialRows db current identity).countP feesWhole =
      ((group db identity).map Prod.snd).countP feesWhole := by
    have counts := congrArg (List.countP (· = true)) wholes
    simpa only [List.countP_map, Function.comp_def, Bool.decide_eq_true] using counts
  have lengths : (beneficialRows db current identity).length =
      ((group db identity).map Prod.snd).length := by
    rw [beneficialRows, List.length_map, List.length_map]
  have shown : beneficialRows db current identity ≠ [] ↔
      (group db identity).map Prod.snd ≠ [] := by
    rw [← List.length_pos_iff, ← List.length_pos_iff, lengths]
  rw [ownerCandidate, if_neg present, finished, Option.map_some, owner, beneficial_eq, completed_eq,
    filterMap_feesObserved, fees, Option.some.injEq, Summary.mk.injEq]
  refine ⟨List.countP_eq_length_filter, winRate_same _, ?_, rfl, rfl⟩
  rw [fees_same _ present, counted, lengths]
  exact if_congr (and_congr_left' shown.symm) rfl rfl

section
variable (db : Db) (address : Address)

theorem mem_ownerTxs (chosen : EpisodeId → EpisodeRow → Bool) (tx : TxHash) :
    tx ∈ ownerTxs db address chosen ↔ ∃ id row, tx ∈ txsOf db id ∧
      db.episodes.get id = some row ∧ chosen id row = true ∧ row.episode.owner = some address := by
  simp only [ownerTxs, List.mem_dedup, List.mem_map (f := Effect.txHash), List.mem_filter,
    mem_effects, mem_txsOf, Option.any_eq_true, Bool.and_eq_true, decide_eq_true_eq]
  constructor
  · rintro ⟨effect, ⟨has, id, belongs, row, found, picked, owned⟩, here⟩
    exact ⟨id, row, ⟨effect, has, belongs, here⟩, found, picked, owned⟩
  · rintro ⟨id, row, ⟨effect, has, belongs, here⟩, found, picked, owned⟩
    exact ⟨effect, ⟨has, id, belongs, row, found, picked, owned⟩, here⟩

def allTxs : List TxHash := ownerTxs db address fun _ _ => true

def openTxs : List TxHash := ownerTxs db address fun _ row => row.gasUsd.isNone

theorem ownerTxs_shown (current : EpisodeId → Option (Option ℚ)) :
    (ownerTxs db address fun id _ => id ∈ (episodeRows db current address).map Prod.fst) =
      allTxs db address := by
  unfold allTxs ownerTxs
  congr 2
  refine List.filter_congr fun effect _ => ?_
  congr 1
  funext id
  cases found : db.episodes.get id with
  | none => rfl
  | some row =>
    by_cases owned : row.episode.owner = some address
    · have shown : id ∈ (episodeRows db current address).map Prod.fst := by
        rw [episodeRows, List.map_map]
        refine List.mem_map.mpr ⟨(id, row), List.mem_filter.mpr
          ⟨(get_some _ _ _).mp found, ?_⟩, rfl⟩
        exact decide_eq_true (.inl owned)
      simp [shown]
    · simp [owned]

theorem mem_group (id : EpisodeId) (row : EpisodeRow) : (id, row) ∈ group db address ↔
    db.episodes.get id = some row ∧ row.episode.owner = some address := by
  rw [group, List.mem_filter, decide_eq_true_eq, get_some]

theorem nullableSum_known (values : List (Option ℚ)) (present : values ≠ [])
    (known : ∀ value ∈ values, value.isSome = true) :
    nullableSum values = some (values.filterMap id).sum := by
  rw [nullableSum, if_neg present, if_neg]
  intro lacks
  cases known none lacks

theorem sqlSum_getD (values : List (Option ℚ)) :
    (sqlSum values).getD 0 = (values.filterMap id).sum := by
  unfold sqlSum
  split_ifs with empty
  · rw [empty]
    rfl
  · rfl

theorem sqlSum_known (values : List (Option ℚ)) (present : values ≠ [])
    (known : ∀ value ∈ values, value.isSome = true) :
    sqlSum values = some (values.filterMap id).sum := by
  rw [sqlSum, if_neg]
  intro empty
  obtain ⟨value, member⟩ := List.exists_mem_of_ne_nil values present
  obtain ⟨gas, rfl⟩ := Option.isSome_iff_exists.mp (known value member)
  cases List.filterMap_eq_nil_iff.mp empty (some gas) member

theorem costs_sum (txs : List TxHash) (distinct : txs.Nodup)
    (known : ∀ tx ∈ txs, (costValue db address tx).isSome = true) :
    ((txs.map (costValue db address)).filterMap id).sum =
      ∑ tx ∈ txs.toFinset, (costValue db address tx).getD 0 := by
  rw [List.sum_toFinset _ distinct, List.filterMap_map, Function.id_comp]
  congr 1
  induction txs with
  | nil => rfl
  | cons tx rest ih =>
    obtain ⟨cost, found⟩ := Option.isSome_iff_exists.mp (known tx List.mem_cons_self)
    rw [List.filterMap_cons_some found, List.map_cons, found,
      ih (List.nodup_cons.mp distinct).2 fun other member =>
        known other (List.mem_cons_of_mem _ member)]
    rfl

theorem filterMap_gas (entries : List (EpisodeId × EpisodeRow)) (sum : EpisodeId → ℚ)
    (known : ∀ entry ∈ entries, ∀ gas, entry.2.gasUsd = some gas → sum entry.1 = gas) :
    entries.filterMap (fun entry => entry.2.gasUsd) =
      ((entries.filter fun entry => entry.2.gasUsd.isSome).map Prod.fst).map sum := by
  induction entries with
  | nil => rfl
  | cons entry rest ih =>
    have tail := ih fun other member => known other (List.mem_cons_of_mem _ member)
    cases gas : entry.2.gasUsd with
    | none =>
      rw [List.filter_cons_of_neg (by simp [gas]), ← tail, List.filterMap_cons]
      simp only [gas]
    | some value =>
      rw [List.filter_cons_of_pos (by simp [gas]), List.map_cons, List.map_cons,
        known entry List.mem_cons_self value gas, ← tail, List.filterMap_cons]
      simp only [gas]

def knownIds : List EpisodeId :=
  ((group db address).filter fun entry => entry.2.gasUsd.isSome).map Prod.fst

theorem mem_knownIds (id : EpisodeId) : id ∈ knownIds db address ↔
    ∃ row gas, db.episodes.get id = some row ∧ row.episode.owner = some address ∧
      row.gasUsd = some gas := by
  rw [knownIds, List.mem_map]
  constructor
  · rintro ⟨⟨id, row⟩, inside, rfl⟩
    obtain ⟨member, known⟩ := List.mem_filter.mp inside
    obtain ⟨gas, same⟩ := Option.isSome_iff_exists.mp known
    obtain ⟨found, owned⟩ := (mem_group db address id row).mp member
    exact ⟨row, gas, found, owned, same⟩
  · rintro ⟨row, gas, found, owned, same⟩
    exact ⟨(id, row), List.mem_filter.mpr ⟨(mem_group db address id row).mpr ⟨found, owned⟩,
      Option.isSome_iff_exists.mpr ⟨gas, same⟩⟩, rfl⟩

variable {db address}

/-- A transaction of an episode whose gas is known cost the owner what the episode counts, and
is of no other episode. -/
theorem known_cost (settled : Settled db) (id : EpisodeId) (row : EpisodeRow) (gas : ℚ)
    (found : db.episodes.get id = some row) (owned : row.episode.owner = some address)
    (known : row.gasUsd = some gas) (tx : TxHash) (member : tx ∈ txsOf db id) :
    costValue db address tx = some (gasAt db tx) ∧ ∀ other, tx ∈ txsOf db other → other = id := by
  obtain ⟨-, own, -⟩ := (episodeGas_some db id gas).mp (settled.gas id row gas found known)
  obtain ⟨cost, there, sure, named, value, priced⟩ := isOwn_exact db id tx (own tx member)
  obtain ⟨sole, payer, same, paid, all⟩ := settled.costs tx cost there sure
  obtain rfl := Option.some.inj (named.symm.trans same)
  constructor
  · obtain ⟨effect, has, belongs, here⟩ := (mem_txsOf db id tx).mp member
    obtain ⟨-, held, now, payerOwns⟩ := (all effect has here).2 id belongs
    obtain rfl := Option.some.inj (found.symm.trans now)
    rw [costValue, gasAt, there, Option.bind_some, Option.bind_some, paid, ← payerOwns, owned,
      if_pos rfl, priced, Option.getD_some]
  · intro other shared
    obtain ⟨effect, has, belongs, here⟩ := (mem_txsOf db other tx).mp shared
    exact ((all effect has here).2 other belongs).1

theorem observed_sum (settled : Settled db) :
    (((((group db address).map Prod.snd).map EpisodeRow.gasUsd).filterMap id).sum : ℚ) =
      ∑ tx ∈ (knownIds db address).toFinset.biUnion (txsOf db),
        (costValue db address tx).getD 0 := by
  have distinct : (knownIds db address).Nodup := by
    refine List.Nodup.sublist ?_ db.episodes.distinct
    exact List.Sublist.map _ (List.filter_sublist.trans List.filter_sublist)
  rw [List.map_map, List.filterMap_map, Function.id_comp]
  show ((group db address).filterMap fun entry => entry.2.gasUsd).sum = _
  rw [filterMap_gas (group db address) fun id => ∑ tx ∈ txsOf db id, gasAt db tx]
  · show ((knownIds db address).map _).sum = _
    rw [← List.sum_toFinset _ distinct, Finset.sum_biUnion]
    · refine Finset.sum_congr rfl fun id member => Finset.sum_congr rfl fun tx inside => ?_
      obtain ⟨row, gas, found, owned, known⟩ :=
        (mem_knownIds db address id).mp (List.mem_toFinset.mp member)
      rw [(known_cost settled id row gas found owned known tx inside).1, Option.getD_some]
    · intro id member other _ apart
      obtain ⟨row, gas, found, owned, known⟩ :=
        (mem_knownIds db address id).mp (List.mem_toFinset.mp member)
      refine Finset.disjoint_left.mpr fun tx inside shared => apart ?_
      exact ((known_cost settled id row gas found owned known tx inside).2 other shared).symm
  · rintro ⟨id, row⟩ member gas known
    obtain ⟨found, -⟩ := (mem_group db address id row).mp member
    exact ((episodeGas_some db id gas).mp (settled.gas id row gas found known)).2.2

theorem allTxs_split : (allTxs db address).toFinset =
    (knownIds db address).toFinset.biUnion (txsOf db) ∪ (openTxs db address).toFinset := by
  ext tx
  rw [Finset.mem_union, Finset.mem_biUnion, List.mem_toFinset, List.mem_toFinset, allTxs, openTxs,
    mem_ownerTxs, mem_ownerTxs]
  constructor
  · rintro ⟨id, row, member, found, -, owned⟩
    cases known : row.gasUsd with
    | none => exact .inr ⟨id, row, member, found, by rw [known]; rfl, owned⟩
    | some gas => exact .inl ⟨id, List.mem_toFinset.mpr
        ((mem_knownIds db address id).mpr ⟨row, gas, found, owned, known⟩), member⟩
  · rintro (⟨id, listed, member⟩ | ⟨id, row, member, found, -, owned⟩)
    · obtain ⟨row, gas, found, owned, -⟩ :=
        (mem_knownIds db address id).mp (List.mem_toFinset.mp listed)
      exact ⟨id, row, member, found, rfl, owned⟩
    · exact ⟨id, row, member, found, rfl, owned⟩

theorem known_open_disjoint (settled : Settled db) :
    Disjoint ((knownIds db address).toFinset.biUnion (txsOf db))
      (openTxs db address).toFinset := by
  refine Finset.disjoint_left.mpr fun tx inside shared => ?_
  obtain ⟨id, listed, member⟩ := Finset.mem_biUnion.mp inside
  obtain ⟨row, gas, found, owned, known⟩ :=
    (mem_knownIds db address id).mp (List.mem_toFinset.mp listed)
  obtain ⟨other, held, also, there, lacks, -⟩ :=
    (mem_ownerTxs db address _ tx).mp (List.mem_toFinset.mp shared)
  obtain rfl := (known_cost settled id row gas found owned known tx member).2 other also
  obtain rfl := Option.some.inj (found.symm.trans there)
  rw [known] at lacks
  cases lacks

theorem known_txs (settled : Settled db) (id : EpisodeId) (member : id ∈ knownIds db address) :
    ∃ tx, tx ∈ allTxs db address := by
  obtain ⟨row, gas, found, owned, known⟩ := (mem_knownIds db address id).mp member
  obtain ⟨⟨tx, inside⟩, -⟩ := (episodeGas_some db id gas).mp (settled.gas id row gas found known)
  exact ⟨tx, (mem_ownerTxs db address _ tx).mpr ⟨id, row, inside, found, rfl, owned⟩⟩

theorem observed_empty : (((group db address).map Prod.snd).map EpisodeRow.gasUsd).filterMap id = [] ↔
    knownIds db address = [] := by
  rw [List.map_map, List.filterMap_map, Function.id_comp, List.filterMap_eq_nil_iff, knownIds,
    List.map_eq_nil_iff, List.filter_eq_nil_iff]
  refine forall₂_congr fun entry _ => ?_
  rw [Function.comp_apply, Option.not_isSome_iff_eq_none]

theorem mem_allTxs (tx : TxHash) : tx ∈ allTxs db address ↔
    (∃ id ∈ knownIds db address, tx ∈ txsOf db id) ∨ tx ∈ openTxs db address := by
  rw [← List.mem_toFinset, allTxs_split, Finset.mem_union, Finset.mem_biUnion, List.mem_toFinset]
  simp only [List.mem_toFinset]

theorem costs_known (txs : List TxHash)
    (known : ∀ tx ∈ txs, (costValue db address tx).isSome = true) :
    ∀ value ∈ txs.map (costValue db address), value.isSome = true := by
  intro value member
  obtain ⟨tx, inside, rfl⟩ := List.mem_map.mp member
  exact known tx inside

theorem gas_resolved (settled : Settled db)
    (resolved : ∀ tx ∈ openTxs db address, (costValue db address tx).isSome = true)
    (missing : Nat) : ∃ gas,
    finishGas missing (sqlSum (((group db address).map Prod.snd).map EpisodeRow.gasUsd))
      (ownerGasValues db address) = some gas ∧
    (gas = nullableSum ((allTxs db address).map (costValue db address)) ↔
      ∃ tx, tx ∈ allTxs db address) := by
  have all : ∀ tx ∈ allTxs db address, (costValue db address tx).isSome = true := by
    intro tx member
    rcases (mem_allTxs tx).mp member with ⟨id, listed, inside⟩ | still
    · obtain ⟨row, gas, found, owned, known⟩ := (mem_knownIds db address id).mp listed
      rw [(known_cost settled id row gas found owned known tx inside).1]
      rfl
    · exact resolved tx still
  have total : ((((allTxs db address).map (costValue db address)).filterMap id).sum : ℚ) =
      (((((group db address).map Prod.snd).map EpisodeRow.gasUsd).filterMap id).sum : ℚ) +
        (((openTxs db address).map (costValue db address)).filterMap id).sum := by
    rw [costs_sum db address (allTxs db address) (List.nodup_dedup _) all, observed_sum settled,
      costs_sum db address (openTxs db address) (List.nodup_dedup _) resolved, allTxs_split,
      Finset.sum_union (known_open_disjoint settled)]
  show ∃ gas, finishGas missing _ (if (openTxs db address).map (costValue db address) = [] then none
    else if ((openTxs db address).map (costValue db address)).countP Option.isSome ≠
      ((openTxs db address).map (costValue db address)).length then some none
    else some (sqlSum ((openTxs db address).map (costValue db address)))) = some gas ∧ _
  by_cases rest : openTxs db address = []
  · rw [rest, List.map_nil, if_pos rfl]
    refine ⟨_, if_neg (fun both => nomatch both.2), ?_⟩
    by_cases present : knownIds db address = []
    · -- No transaction at all: nothing is added up.
      have absent : allTxs db address = [] := by
        refine List.eq_nil_iff_forall_not_mem.mpr fun tx member => ?_
        rcases (mem_allTxs tx).mp member with ⟨id, listed, -⟩ | still
        · rw [present] at listed
          cases listed
        · rw [rest] at still
          cases still
      rw [sqlSum, if_pos (observed_empty.mpr present), absent]
      simp [nullableSum]
    · obtain ⟨id, listed⟩ := List.exists_mem_of_ne_nil _ present
      obtain ⟨tx, member⟩ := known_txs settled id listed
      have full : (allTxs db address).map (costValue db address) ≠ [] :=
        List.ne_nil_of_mem (List.mem_map_of_mem member)
      rw [nullableSum_known _ full (costs_known _ all), total, rest, sqlSum,
        if_neg (present ∘ observed_empty.mp)]
      simp only [List.map_nil, List.filterMap_nil, List.sum_nil, add_zero, true_iff]
      exact ⟨tx, member⟩
  · obtain ⟨tx, still⟩ := List.exists_mem_of_ne_nil _ rest
    have member := (mem_allTxs tx).mpr (.inr still)
    have full : (allTxs db address).map (costValue db address) ≠ [] :=
      List.ne_nil_of_mem (List.mem_map_of_mem member)
    have left : (openTxs db address).map (costValue db address) ≠ [] :=
      List.ne_nil_of_mem (List.mem_map_of_mem still)
    have counted : ((openTxs db address).map (costValue db address)).countP Option.isSome =
        ((openTxs db address).map (costValue db address)).length :=
      List.countP_eq_length.mpr (costs_known _ resolved)
    rw [if_neg left, if_neg (not_not_intro counted), sqlSum_known _ left (costs_known _ resolved)]
    refine ⟨_, if_neg (fun both => nomatch both.2), ?_⟩
    rw [sqlSum_getD, nullableSum_known _ full (costs_known _ all), total]
    simp only [true_iff]
    exact ⟨tx, member⟩

/-- Over settled tables the leaderboard can finish every owner, with the gas of the wallet page
unless the owner has no transaction. -/
theorem gas_finished (settled : Settled db) : ∃ gas,
    finishGas (((group db address).map Prod.snd).countP fun row => row.gasUsd.isNone)
      (sqlSum (((group db address).map Prod.snd).map EpisodeRow.gasUsd))
      (ownerGasValues db address) = some gas ∧
    (gas = nullableSum ((allTxs db address).map (costValue db address)) ↔
      ∃ tx, tx ∈ allTxs db address) := by
  by_cases resolved : ∀ tx ∈ openTxs db address, (costValue db address tx).isSome = true
  · exact gas_resolved settled resolved _
  · simp only [not_forall, Bool.not_eq_true, Option.isSome_eq_false_iff,
      Option.isNone_iff_eq_none] at resolved
    obtain ⟨tx, still, lacks⟩ := resolved
    have member := (mem_allTxs tx).mpr (.inr still)
    have left : none ∈ (openTxs db address).map (costValue db address) :=
      List.mem_map.mpr ⟨tx, still, lacks⟩
    have uncounted : ((openTxs db address).map (costValue db address)).countP Option.isSome ≠
        ((openTxs db address).map (costValue db address)).length :=
      fun counted => nomatch List.countP_eq_length.mp counted none left
    have unresolved : ownerGasValues db address = some none :=
      (if_neg (List.ne_nil_of_mem left)).trans (if_pos uncounted)
    -- The transaction is of an episode whose gas is not known.
    obtain ⟨id, row, -, found, unknown, owned⟩ := (mem_ownerTxs db address _ tx).mp still
    have missing : (((group db address).map Prod.snd).countP fun row => row.gasUsd.isNone) ≠ 0 := by
      rw [ne_eq, List.countP_eq_zero]
      exact fun known => known row (List.mem_map.mpr
        ⟨(id, row), (mem_group db address id row).mpr ⟨found, owned⟩, rfl⟩) unknown
    refine ⟨none, by rw [unresolved, finishGas, if_pos ⟨missing, rfl⟩], ?_⟩
    have all : none ∈ (allTxs db address).map (costValue db address) :=
      List.mem_map.mpr ⟨tx, member, lacks⟩
    rw [nullableSum, if_neg (List.ne_nil_of_mem all), if_pos all]
    exact iff_of_true rfl ⟨tx, member⟩

end

/-- The leaderboard's row of an address is the wallet page's summary exactly if some effect is
in one of the address's episodes. -/
theorem owner_candidates_agree (db : Db) (reached : ledger.Reaches UpToDateStep db)
    (address : Address) (current : EpisodeId → Option (Option ℚ))
    (owns : ∃ id row, db.episodes.get id = some row ∧ row.episode.owner = some address) :
    ownerCandidate db address = some (owner db current address) ↔
      ∃ effect id row, db.Has effect ∧ effect.episodeId = some id ∧
        db.episodes.get id = some row ∧ row.episode.owner = some address := by
  have settled := reached_settled db reached
  obtain ⟨id, row, found, owned⟩ := owns
  have present : (group db address).map Prod.snd ≠ [] :=
    List.ne_nil_of_mem (List.mem_map_of_mem ((mem_group db address id row).mpr ⟨found, owned⟩))
  obtain ⟨gas, finished, same⟩ : ∃ gas, finishGas _ _ (ownerGasValues db address) = some gas ∧ _ :=
    gas_finished settled
  have shown : (owner db current address).gasUsd =
      nullableSum ((allTxs db address).map (costValue db address)) := by
    have rows : beneficialRows db current address ≠ [] := by
      rw [beneficialRows, ne_eq, List.map_eq_nil_iff]
      exact fun empty => present (by rw [empty]; rfl)
    show (if ((episodeRows db current address).map Prod.snd).filter (fun row =>
      row.episode.owner = some address) = [] then none else _) = _
    rw [beneficial_eq, if_neg rows, ownerCostValues, ownerTxs_shown]
  have page : owner db current address =
      { owner db current address with gasUsd := (owner db current address).gasUsd } := rfl
  rw [ownerCandidate_finished db current address present gas finished, Option.some.injEq]
  constructor
  · intro equal
    have equal := congrArg Summary.gasUsd equal
    obtain ⟨tx, member⟩ := same.mp (equal.trans shown)
    obtain ⟨id, row, inside, found, -, owned⟩ := (mem_ownerTxs db address _ tx).mp member
    obtain ⟨effect, has, belongs, -⟩ := (mem_txsOf db id tx).mp inside
    exact ⟨effect, id, row, has, belongs, found, owned⟩
  · rintro ⟨effect, id, row, has, belongs, found, owned⟩
    have known := same.mpr ⟨effect.txHash, (mem_ownerTxs db address _ _).mpr
      ⟨id, row, (mem_txsOf db id _).mpr ⟨effect, has, belongs, rfl⟩, found, rfl, owned⟩⟩
    rw [page, known, ← shown]

/-! A position is opened by one owner and transferred to another, whose episode then has no
effect: the transfer is in no episode. -/

def emptyDb : Db := ⟨.empty, .empty, .empty, .empty, .empty, .empty⟩

def episodeOf (owner : Address) (closedAt : Option Int) (status : String)
    (ended : status = "complete" → closedAt.isSome = true) : Episode where
  owner := some owner
  custody := none
  closedAt := closedAt
  status := status
  historyComplete := true
  pricingComplete := true
  feesComplete := true
  feesUsd := some 0
  accountingBasis := "canonical_events"
  details := ""
  ended := ended

def transferred : EpisodeReplays.Writes where
  positionKey := "k"
  appendOnly := false
  episodes := ⟨[(⟨"k", 1⟩, episodeOf 1 (some 20) "transferred_out" (by decide)),
    (⟨"k", 2⟩, episodeOf 2 none "open" (by decide))], by decide⟩
  effects := ⟨[(1, ⟨"k", some 1, some 1, 10, 1, "add"⟩), (2, ⟨"k", none, some 2, 20, 2, "transfer"⟩)],
    by decide⟩
  active := some ⟨"k", 2⟩
  named := by decide
  owned := by decide
  known := by decide

def publishTransferred : Action :=
  .publish [⟨emptyDb, some transferred, []⟩] [] fun _ => none

theorem transferred_reached : ledger.Reaches UpToDateStep (next emptyDb publishTransferred) := by
  refine .step emptyDb _ publishTransferred (.start _ ⟨rfl, rfl, rfl⟩) ⟨⟨?_, trivial⟩, ?_⟩ rfl
  · intro writes _
    exact EpisodeReplays.Current.refl emptyDb writes
  · intro publication member writes _ id episode gas _ known
    rw [List.mem_singleton.mp member] at known
    cases known

theorem owner_candidates_agree_first :
    ownerCandidate (next emptyDb publishTransferred) 1 =
      some (owner (next emptyDb publishTransferred) (fun _ => none) 1) :=
  (owner_candidates_agree (next emptyDb publishTransferred) transferred_reached 1 (fun _ => none)
    ⟨⟨"k", 1⟩, ⟨episodeOf 1 (some 20) "transferred_out" (by decide), none, none⟩,
      by decide +kernel, rfl⟩).mpr
    ⟨⟨"k", some 1, some 1, 10, 1, "add"⟩, ⟨"k", 1⟩,
      ⟨episodeOf 1 (some 20) "transferred_out" (by decide), none, none⟩,
      ⟨1, by decide +kernel⟩, rfl, by decide +kernel, rfl⟩

/-- The second owner's gas is nothing on the wallet page and unknown on the leaderboard. -/
theorem transferred_owner_differs :
    ledger.Reaches UpToDateStep (next emptyDb publishTransferred) ∧
    (∃ id row, (next emptyDb publishTransferred).episodes.get id = some row ∧
      row.episode.owner = some 2) ∧
    (owner (next emptyDb publishTransferred) (fun _ => none) 2).gasUsd = some 0 ∧
    (ownerCandidate (next emptyDb publishTransferred) 2).map Summary.gasUsd = some none :=
  ⟨transferred_reached, ⟨⟨"k", 2⟩, ⟨episodeOf 2 none "open" (by decide), none, none⟩,
    by decide +kernel, rfl⟩, by decide +kernel, by decide +kernel⟩

end RhPools.OwnerSummaries
