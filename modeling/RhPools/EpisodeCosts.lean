import Mathlib.Algebra.BigOperators.Ring.Finset
import Mathlib.Algebra.Ring.Rat
import RhPools.SqlTables

/-! What the ledger keeps of gas: the effects of events on positions and their episodes, the
cost of each transaction with whom it is attributed to, and the gas of an episode, which is
known when every transaction of its effects is its own. Replays of positions and other
changes of the tables are followed by a rebuild of the costs they touch and a refresh of the
episodes that read them.

The tables are settled when an exact cost is of one episode, whose owner paid it, and the gas
of an episode is what its transactions cost now. Changes that cover what they touch, and then
derive it again, leave them settled. -/

namespace RhPools.EpisodeCosts
open OrderedTables

abbrev Address := BitVec 160
abbrev TxHash := BitVec 256

/-- The text `position_key:ordinal`. -/
structure EpisodeId where
  positionKey : String
  ordinal : Nat
  deriving DecidableEq

structure Episode where
  owner : Option Address
  custody : Option Address
  closedAt : Option Int
  status : String
  historyComplete : Bool
  pricingComplete : Bool
  feesComplete : Bool
  feesUsd : Option ℚ
  accountingBasis : String
  /-- The other columns. -/
  details : String
  ended : status = "complete" → closedAt.isSome = true
  deriving DecidableEq

/-- A row of `lp_accounting_episodes`, with the columns that are derived later. -/
structure EpisodeRow where
  episode : Episode
  grossPnlUsd : Option ℚ
  gasUsd : Option ℚ
  deriving DecidableEq

structure Effect where
  positionKey : String
  ordinal : Option Nat
  owner : Option Address
  txHash : TxHash
  blockNumber : Int
  details : String
  deriving DecidableEq

def Effect.episodeId (effect : Effect) : Option EpisodeId :=
  effect.ordinal.map fun ordinal => ⟨effect.positionKey, ordinal⟩

inductive Attribution where
  | missingTransaction
  | unknownPayer
  | payerOrIdentityMismatch
  | unpriced
  | sharedOrUnmappedPosition
  | ownerOnly
  | sharedPosition
  | exact
  deriving DecidableEq

/-- A row of `lp_accounting_tx_costs`. -/
structure Cost where
  payer : Option Address
  owner : Option Address
  positionKey : Option String
  episodeId : Option EpisodeId
  gasUsd : Option ℚ
  attribution : Attribution
  blockNumber : Int
  deriving DecidableEq

structure Transaction where
  blockNumber : Int
  payer : Option Address
  gasUsd : Option ℚ

structure RawEvent where
  txHash : TxHash
  kind : String

structure Db where
  episodes : OrderedTable EpisodeId EpisodeRow
  /-- `active_episode_id` of the published positions. -/
  active : OrderedTable String EpisodeId
  effects : OrderedTable Int Effect
  txCosts : OrderedTable TxHash Cost
  transactions : OrderedTable TxHash Transaction
  events : OrderedTable Int RawEvent

def effectsAt (db : Db) (tx : TxHash) : List Effect :=
  (db.effects.entries.map Prod.snd).filter fun effect => effect.txHash = tx

def single {Item : Type} : List Item → Option Item
  | [item] => some item
  | _ => none

def unmapped (db : Db) (tx : TxHash) : Bool :=
  db.events.entries.any fun entry => entry.2.txHash = tx &&
    entry.2.kind ∈ ["add", "remove", "collect", "checkpoint", "transfer"] &&
    (db.effects.get entry.1).isNone

/-- The row that `_rebuild_tx_cost_batch` makes for a transaction; without effects there is none. -/
def costRow (db : Db) (tx : TxHash) : Option Cost :=
  match effectsAt db tx with
  | [] => none
  | first :: rest =>
    let effects := first :: rest
    let transaction := db.transactions.get tx
    let episodes := (effects.filterMap Effect.episodeId).dedup
    let positions := (effects.map Effect.positionKey).dedup
    let payer := transaction.bind Transaction.payer
    let owner := payer.filter fun address => address ∈ effects.filterMap Effect.owner
    let gas := transaction.bind Transaction.gasUsd
    let episodeOwner := (single episodes).bind fun id =>
      (db.episodes.get id).bind fun row => row.episode.owner
    let row (positionKey : Option String) (episodeId : Option EpisodeId)
        (attribution : Attribution) : Option Cost :=
      some ⟨payer, owner, positionKey, episodeId, gas, attribution,
        (transaction.map Transaction.blockNumber).getD first.blockNumber⟩
    if transaction.isNone then row (single positions) (single episodes) .missingTransaction
    else if payer.isNone then row (single positions) (single episodes) .unknownPayer
    else if owner.isNone then row (single positions) (single episodes) .payerOrIdentityMismatch
    else if gas.isNone then row (single positions) (single episodes) .unpriced
    else if unmapped db tx then row none none .sharedOrUnmappedPosition
    else if episodes = [] then row (single positions) none .ownerOnly
    else if episodes.length ≠ 1 ∨ positions.length ≠ 1 then row none none .sharedPosition
    else if episodeOwner ≠ owner then row (single positions) none .ownerOnly
    else row (single positions) (single episodes) .exact

def changedCosts (db : Db) (values : List TxHash) : List TxHash :=
  values.filter fun tx => costRow db tx ≠ db.txCosts.get tx

/-- `_rebuild_tx_costs`. -/
def rebuildTxCosts (db : Db) (values : List TxHash) : Db :=
  { db with txCosts := (changedCosts db values).foldl (fun costs tx =>
      match costRow db tx with
      | none => costs.erase tx
      | some row => costs.put tx row) db.txCosts }

def episodeTxs (db : Db) (id : EpisodeId) : List TxHash :=
  (((db.effects.entries.map Prod.snd).filter fun effect => effect.episodeId = some id).map
    Effect.txHash).dedup

def txsOf (db : Db) (id : EpisodeId) : Finset TxHash := (episodeTxs db id).toFinset

def isOwn (db : Db) (id : EpisodeId) (tx : TxHash) : Bool :=
  match db.txCosts.get tx with
  | none => false
  | some cost => cost.attribution = .exact && cost.episodeId = some id && cost.gasUsd.isSome

def gasAt (db : Db) (tx : TxHash) : ℚ := ((db.txCosts.get tx).bind Cost.gasUsd).getD 0

/-- The gas that `_refresh_episode_cost_batch` finds. -/
def episodeGas (db : Db) (id : EpisodeId) : Option ℚ :=
  if episodeTxs db id ≠ [] ∧ (episodeTxs db id).all (isOwn db id) = true then
    some ((episodeTxs db id).map (gasAt db)).sum
  else none

/-- `_refresh_episode_value`: the values follow, and a row whose pool is in doubt has no gas. -/
def revalueRow (gross : EpisodeId → Option ℚ) (id : EpisodeId) (row : EpisodeRow) : EpisodeRow :=
  if row.episode.accountingBasis = "unqualified_pool_scope" then { row with gasUsd := none }
  else { row with grossPnlUsd := gross id }

def revalue (db : Db) (ids : List EpisodeId) (gross : EpisodeId → Option ℚ) : Db :=
  { db with episodes := db.episodes.modify fun id row =>
      if id ∈ ids then revalueRow gross id row else row }

def episodesAt (db : Db) (txs : List TxHash) : List EpisodeId :=
  ((db.effects.entries.map Prod.snd).filter fun effect => effect.txHash ∈ txs).filterMap
    Effect.episodeId

/-- `_refresh_episode_costs`. -/
def refreshEpisodeCosts (db : Db) (txs : List TxHash) (ids : List EpisodeId)
    (gross : EpisodeId → Option ℚ) : Db :=
  let affected := episodesAt db txs ++ ids
  { db with episodes := db.episodes.modify fun id row =>
      if id ∈ affected then revalueRow gross id { row with gasUsd := episodeGas db id } else row }


def Db.Has (db : Db) (effect : Effect) : Prop := ∃ event, db.effects.get event = some effect

variable (gross : EpisodeId → Option ℚ) (db : Db)

theorem mem_effects (effect : Effect) :
    effect ∈ db.effects.entries.map Prod.snd ↔ db.Has effect := by
  rw [List.mem_map]
  constructor
  · rintro ⟨⟨event, found⟩, member, rfl⟩
    exact ⟨event, (get_some _ _ _).mpr member⟩
  · rintro ⟨event, there⟩
    exact ⟨(event, effect), (get_some _ _ _).mp there, rfl⟩

variable (txs : List TxHash) (ids : List EpisodeId) (id : EpisodeId) (tx : TxHash)

theorem mem_effectsAt (effect : Effect) :
    effect ∈ effectsAt db tx ↔ db.Has effect ∧ effect.txHash = tx := by
  rw [effectsAt, List.mem_filter, mem_effects, decide_eq_true_eq]

theorem mem_txsOf :
    tx ∈ txsOf db id ↔
      ∃ effect, db.Has effect ∧ effect.episodeId = some id ∧ effect.txHash = tx := by
  simp only [txsOf, episodeTxs, List.mem_toFinset, List.mem_dedup, List.mem_map, List.mem_filter,
    decide_eq_true_eq]
  simp only [← mem_effects, List.mem_map, and_assoc]

theorem mem_episodesAt :
    id ∈ episodesAt db txs ↔
      ∃ effect, db.Has effect ∧ effect.txHash ∈ txs ∧ effect.episodeId = some id := by
  simp only [episodesAt, List.mem_filterMap, List.mem_filter, decide_eq_true_eq]
  simp only [mem_effects, and_assoc]

theorem Effect.key_of_episode {effect : Effect} {id : EpisodeId}
    (belongs : effect.episodeId = some id) : id.positionKey = effect.positionKey := by
  obtain ⟨ordinal, -, rfl⟩ := Option.map_eq_some_iff.mp belongs
  rfl

theorem single_some {Item : Type} (items : List Item) (item : Item)
    (one : single items = some item) : items = [item] := by
  match items, one with
  | [_], one => rw [Option.some.inj one]

theorem single_of_length {Item : Type} (items : List Item) (one : items.length = 1) :
    ∃ item, single items = some item := by
  obtain ⟨item, rfl⟩ := List.length_eq_one_iff.mp one
  exact ⟨item, rfl⟩

/-- What an exact cost means: all effects of the transaction are on one position and in one
episode, and its owner paid. -/
def Attributed (db : Db) (tx : TxHash) (cost : Cost) : Prop :=
  ∃ id address, cost.episodeId = some id ∧ cost.owner = some address ∧
    ∀ effect, db.Has effect → effect.txHash = tx → effect.positionKey = id.positionKey ∧
      ∀ other, effect.episodeId = some other → other = id ∧
        ∃ row, db.episodes.get id = some row ∧ row.episode.owner = some address

theorem costRow_exact (cost : Cost) (made : costRow db tx = some cost)
    (sure : cost.attribution = .exact) : Attributed db tx cost := by
  unfold costRow at made
  have listed := mem_effectsAt db tx
  split at made
  · cases made
  · rename_i first rest same
    rw [same] at listed
    dsimp only at made
    -- Only the last branch is exact.
    split_ifs at made with a b c d e f g h <;> obtain rfl := Option.some.inj made <;>
      cases sure
    rw [not_or, not_not, not_not] at g
    rw [not_not] at h
    obtain ⟨id, one⟩ := single_of_length _ g.1
    obtain ⟨address, paid⟩ := Option.ne_none_iff_exists'.mp (Option.isNone_iff_eq_none.not.mp c)
    obtain ⟨key, only⟩ := List.length_eq_one_iff.mp g.2
    rw [paid, one] at h
    rw [Option.bind_some, Option.bind_eq_some_iff] at h
    have ids := single_some _ _ one
    refine ⟨id, address, one, paid, fun effect has here => ?_⟩
    have inside := (listed effect).mpr ⟨has, here⟩
    have sole : ∀ other, other ∈ first :: rest → other.positionKey = key := by
      intro other member
      have named : other.positionKey ∈ ((first :: rest).map Effect.positionKey).dedup :=
        List.mem_dedup.mpr (List.mem_map_of_mem member)
      rw [only] at named
      exact List.mem_singleton.mp named
    have own : ∀ other, other ∈ first :: rest → ∀ found, other.episodeId = some found →
        found = id := by
      intro other member found belongs
      have named : found ∈ ((first :: rest).filterMap Effect.episodeId).dedup :=
        List.mem_dedup.mpr (List.mem_filterMap.mpr ⟨other, member, belongs⟩)
      rw [ids] at named
      exact List.mem_singleton.mp named
    have held : id ∈ ((first :: rest).filterMap Effect.episodeId).dedup := by
      rw [ids]
      exact List.mem_singleton_self id
    obtain ⟨member, there, belongs⟩ := List.mem_filterMap.mp (List.mem_dedup.mp held)
    refine ⟨?_, fun other belongs => ⟨own effect inside other belongs, h⟩⟩
    rw [Effect.key_of_episode belongs, sole effect inside, sole member there]

theorem mem_changedCosts (values : List TxHash) (tx : TxHash) :
    tx ∈ changedCosts db values ↔ tx ∈ values ∧ costRow db tx ≠ db.txCosts.get tx := by
  rw [changedCosts, List.mem_filter, decide_eq_true_eq]

theorem get_rebuilt (values : List TxHash) (tx : TxHash) :
    (rebuildTxCosts db values).txCosts.get tx =
      if tx ∈ values then costRow db tx else db.txCosts.get tx := by
  have written : ∀ (todo : List TxHash) (costs : OrderedTable TxHash Cost),
      (todo.foldl (fun costs tx =>
        match costRow db tx with
        | none => costs.erase tx
        | some row => costs.put tx row) costs).get tx =
      if tx ∈ todo then costRow db tx else costs.get tx := by
    intro todo
    induction todo with
    | nil => intro costs; rfl
    | cons head rest ih =>
      intro costs
      rw [List.foldl_cons, ih]
      by_cases later : tx ∈ rest
      · rw [if_pos later, if_pos (List.mem_cons_of_mem _ later)]
      · rw [if_neg later]
        by_cases here : tx = head
        · subst here
          rw [if_pos List.mem_cons_self]
          split
          · rename_i absent
            rw [get_erase, if_pos rfl, absent]
          · rename_i row made
            rw [get_put, if_pos rfl, made]
        · rw [if_neg (by simp [here, later])]
          split
          · rw [get_erase, if_neg here]
          · rw [get_put, if_neg here]
  show ((changedCosts db values).foldl _ db.txCosts).get tx = _
  rw [written]
  by_cases asked : tx ∈ values
  · rw [if_pos asked]
    split_ifs with changed
    · rfl
    · rw [mem_changedCosts, not_and, not_not] at changed
      exact (changed asked).symm
  · rw [if_neg asked, if_neg fun changed => asked ((mem_changedCosts db values tx).mp changed).1]

theorem episodeGas_some (gas : ℚ) :
    episodeGas db id = some gas ↔ (txsOf db id).Nonempty ∧
      (∀ tx ∈ txsOf db id, isOwn db id tx = true) ∧ ∑ tx ∈ txsOf db id, gasAt db tx = gas := by
  have held : (txsOf db id).Nonempty ↔ episodeTxs db id ≠ [] := List.toFinset_nonempty_iff _
  have own : (∀ tx ∈ txsOf db id, isOwn db id tx = true) ↔
      (episodeTxs db id).all (isOwn db id) = true := by
    rw [List.all_eq_true]
    exact forall_congr' fun tx => by rw [txsOf, List.mem_toFinset]
  have sum : ∑ tx ∈ txsOf db id, gasAt db tx = ((episodeTxs db id).map (gasAt db)).sum :=
    List.sum_toFinset _ (List.nodup_dedup _)
  rw [held, own, sum, episodeGas]
  split_ifs with known
  · rw [Option.some.injEq]
    exact ⟨fun same => ⟨known.1, known.2, same⟩, fun facts => facts.2.2⟩
  · exact ⟨nofun, fun facts => absurd ⟨facts.1, facts.2.1⟩ known⟩

theorem isOwn_exact (own : isOwn db id tx = true) :
    ∃ cost, db.txCosts.get tx = some cost ∧ cost.attribution = .exact ∧
      cost.episodeId = some id ∧ ∃ gas, cost.gasUsd = some gas := by
  unfold isOwn at own
  split at own
  · cases own
  · rename_i cost there
    rw [Bool.and_eq_true, Bool.and_eq_true, decide_eq_true_eq, decide_eq_true_eq] at own
    exact ⟨cost, there, own.1.1, own.1.2, Option.isSome_iff_exists.mp own.2⟩

theorem episodeGas_congr (db other : Db) (id : EpisodeId) (same : txsOf other id = txsOf db id)
    (costs : ∀ tx ∈ txsOf db id, other.txCosts.get tx = db.txCosts.get tx) :
    episodeGas other id = episodeGas db id := by
  have own : ∀ tx ∈ txsOf db id, isOwn other id tx = isOwn db id tx := by
    intro tx member
    rw [isOwn, isOwn, costs tx member]
  have sum : ∑ tx ∈ txsOf db id, gasAt other tx = ∑ tx ∈ txsOf db id, gasAt db tx :=
    Finset.sum_congr rfl fun tx member => by rw [gasAt, gasAt, costs tx member]
  have apart : (∀ tx ∈ txsOf db id, isOwn other id tx = true) ↔
      ∀ tx ∈ txsOf db id, isOwn db id tx = true :=
    forall₂_congr fun tx member => by rw [own tx member]
  apply Option.ext
  intro gas
  rw [episodeGas_some, episodeGas_some, same, sum, apart]

structure Settled (db : Db) : Prop where
  costs : ∀ tx cost, db.txCosts.get tx = some cost → cost.attribution = .exact →
    Attributed db tx cost
  gas : ∀ id row gas, db.episodes.get id = some row → row.gasUsd = some gas →
    episodeGas db id = some gas

/-- What is left to derive when settled tables have changed: costs of some transactions, and
gas of some episodes. -/
structure Cover (txs : List TxHash) (exempt : EpisodeId → Prop) (db later : Db) : Prop where
  costs : later.txCosts = db.txCosts
  effects : ∀ effect, later.Has effect → effect.txHash ∉ txs → db.Has effect
  owners : ∀ effect, later.Has effect → effect.txHash ∉ txs → ∀ id,
    effect.episodeId = some id → ∀ row address, db.episodes.get id = some row →
      row.episode.owner = some address →
      ∃ next, later.episodes.get id = some next ∧ next.episode.owner = some address
  pairs : ∀ id, ¬exempt id → txsOf later id = txsOf db id
  gas : ∀ id, ¬exempt id → ∀ row gas, later.episodes.get id = some row → row.gasUsd = some gas →
    (∃ old, db.episodes.get id = some old ∧ old.gasUsd = some gas) ∨ episodeGas db id = some gas

namespace Cover
variable {txs more : List TxHash} {exempt : EpisodeId → Prop} {db middle later : Db}

theorem refl (db : Db) : Cover txs exempt db db where
  costs := rfl
  effects := fun _ has _ => has
  owners := fun _ _ _ _ _ row _ there owned => ⟨row, there, owned⟩
  pairs := fun _ _ => rfl
  gas := fun _ _ row _ there known => .inl ⟨row, there, known⟩

theorem widen (cover : Cover txs exempt db later) (subset : txs ⊆ more) :
    Cover more exempt db later where
  costs := cover.costs
  effects := fun effect has apart => cover.effects effect has fun here => apart (subset here)
  owners := fun effect has apart => cover.owners effect has fun here => apart (subset here)
  pairs := cover.pairs
  gas := cover.gas

theorem episodeGas_same (cover : Cover txs exempt db later) (id : EpisodeId)
    (bound : ¬exempt id) : episodeGas later id = episodeGas db id :=
  episodeGas_congr db later id (cover.pairs id bound) fun tx _ => by rw [cover.costs]

theorem trans (first : Cover txs exempt db middle) (second : Cover txs exempt middle later) :
    Cover txs exempt db later where
  costs := second.costs.trans first.costs
  effects := fun effect has apart => first.effects effect (second.effects effect has apart) apart
  owners := by
    intro effect has apart id belongs row address there owned
    obtain ⟨next, found, kept⟩ := first.owners effect (second.effects effect has apart) apart id
      belongs row address there owned
    exact second.owners effect has apart id belongs next address found kept
  pairs := fun id bound => (second.pairs id bound).trans (first.pairs id bound)
  gas := by
    intro id bound row gas there known
    rcases second.gas id bound row gas there known with ⟨old, found, same⟩ | now
    · exact first.gas id bound old gas found same
    · exact .inr (first.episodeGas_same id bound ▸ now)

end Cover

structure Revalued (db later : Db) : Prop where
  effects : later.effects = db.effects
  costs : later.txCosts = db.txCosts
  rows : ∀ id row, later.episodes.get id = some row →
    ∃ old, db.episodes.get id = some old ∧ row.episode.owner = old.episode.owner ∧
      ∀ gas, row.gasUsd = some gas → old.gasUsd = some gas
  owners : ∀ id old, db.episodes.get id = some old →
    ∃ row, later.episodes.get id = some row ∧ row.episode.owner = old.episode.owner

namespace Revalued
variable {db later : Db}

theorem has (same : Revalued db later) (effect : Effect) : later.Has effect ↔ db.Has effect := by
  rw [Db.Has, Db.Has, same.effects]

theorem txsOf_same (same : Revalued db later) (id : EpisodeId) : txsOf later id = txsOf db id := by
  rw [txsOf, txsOf, episodeTxs, episodeTxs, same.effects]

theorem cover (same : Revalued db later) (txs : List TxHash) (exempt : EpisodeId → Prop) :
    Cover txs exempt db later where
  costs := same.costs
  effects := fun effect has _ => (same.has effect).mp has
  owners := by
    intro _ _ _ id _ old address there owned
    obtain ⟨row, found, kept⟩ := same.owners id old there
    exact ⟨row, found, kept.trans owned⟩
  pairs := fun id _ => same.txsOf_same id
  gas := by
    intro id _ row gas there known
    obtain ⟨old, found, -, kept⟩ := same.rows id row there
    exact .inl ⟨old, found, kept gas known⟩

theorem settled (same : Revalued db later) (before : Settled db) : Settled later where
  costs := by
    intro tx cost there sure
    obtain ⟨id, address, named, paid, sole⟩ := before.costs tx cost (same.costs ▸ there) sure
    refine ⟨id, address, named, paid, fun effect has here => ?_⟩
    obtain ⟨key, own⟩ := sole effect ((same.has effect).mp has) here
    refine ⟨key, fun other belongs => ?_⟩
    obtain ⟨rfl, old, found, owned⟩ := own other belongs
    obtain ⟨row, now, kept⟩ := same.owners other old found
    exact ⟨rfl, row, now, kept.trans owned⟩
  gas := by
    intro id row gas there known
    obtain ⟨old, found, -, kept⟩ := same.rows id row there
    rw [episodeGas_congr db later id (same.txsOf_same id) fun tx _ => by rw [same.costs]]
    exact before.gas id old gas found (kept gas known)

end Revalued

theorem revalueRow_episode (row : EpisodeRow) :
    (revalueRow gross id row).episode = row.episode := by
  unfold revalueRow
  split <;> rfl

theorem revalueRow_gas (row : EpisodeRow) (gas : ℚ)
    (known : (revalueRow gross id row).gasUsd = some gas) : row.gasUsd = some gas := by
  unfold revalueRow at known
  split at known
  · cases known
  · exact known

theorem modify_revalued (change : EpisodeId → EpisodeRow → EpisodeRow)
    (owner : ∀ id row, (change id row).episode.owner = row.episode.owner)
    (gas : ∀ id row value, (change id row).gasUsd = some value → row.gasUsd = some value) :
    Revalued db { db with episodes := db.episodes.modify change } where
  effects := rfl
  costs := rfl
  rows := by
    intro id row there
    obtain ⟨old, found, rfl⟩ := Option.map_eq_some_iff.mp ((get_modify _ _ _).symm.trans there)
    exact ⟨old, found, owner id old, gas id old⟩
  owners := by
    intro id old found
    refine ⟨change id old, ?_, owner id old⟩
    rw [get_modify, found]
    rfl

theorem revalue_revalued (gross : EpisodeId → Option ℚ) :
    Revalued db (revalue db ids gross) := by
  refine modify_revalued db _ (fun id row => ?_) fun id row gas known => ?_
  · split
    · rw [revalueRow_episode]
    · rfl
  · split at known
    · exact revalueRow_gas gross id row gas known
    · exact known

theorem refreshEpisodeCosts_row (gross : EpisodeId → Option ℚ) (id : EpisodeId) (row : EpisodeRow)
    (there : (refreshEpisodeCosts db txs ids gross).episodes.get id = some row) :
    ∃ old, db.episodes.get id = some old ∧ row.episode = old.episode ∧
      ∀ gas, row.gasUsd = some gas →
        (id ∈ episodesAt db txs ++ ids ∧ episodeGas db id = some gas) ∨
        (id ∉ episodesAt db txs ++ ids ∧ old.gasUsd = some gas) := by
  obtain ⟨old, found, rfl⟩ := Option.map_eq_some_iff.mp ((get_modify _ _ _).symm.trans there)
  refine ⟨old, found, ?_, fun gas known => ?_⟩
  · split
    · rw [revalueRow_episode]
    · rfl
  · split at known
    · rename_i affected
      exact .inl ⟨affected, revalueRow_gas gross id _ gas known⟩
    · rename_i apart
      exact .inr ⟨apart, known⟩

theorem refreshEpisodeCosts_owner (gross : EpisodeId → Option ℚ) (id : EpisodeId) (old : EpisodeRow)
    (found : db.episodes.get id = some old) :
    ∃ row, (refreshEpisodeCosts db txs ids gross).episodes.get id = some row ∧
      row.episode = old.episode := by
  refine ⟨_, (get_modify _ _ _).trans (congrArg _ found), ?_⟩
  dsimp only
  split
  · rw [revalueRow_episode]
  · rfl

theorem Attributed.refreshed {db : Db} {tx : TxHash} {cost : Cost} (txs : List TxHash)
    (ids : List EpisodeId) (gross : EpisodeId → Option ℚ) (attributed : Attributed db tx cost) :
    Attributed (refreshEpisodeCosts db txs ids gross) tx cost := by
  obtain ⟨id, address, named, paid, sole⟩ := attributed
  refine ⟨id, address, named, paid, fun effect has here => ?_⟩
  obtain ⟨key, own⟩ := sole effect has here
  refine ⟨key, fun other belongs => ?_⟩
  obtain ⟨rfl, old, found, owned⟩ := own other belongs
  obtain ⟨row, now, same⟩ := refreshEpisodeCosts_owner db txs ids gross other old found
  exact ⟨rfl, row, now, by rw [same, owned]⟩

/-- Where a change is covered, the costs it names are rebuilt, and the episodes it names or
whose costs moved are refreshed, the tables are settled again. -/
theorem Cover.settle {txs : List TxHash} {exempt : EpisodeId → Prop} {db later : Db}
    (cover : Cover txs exempt db later) (settled : Settled db) (moved : List TxHash)
    (ids : List EpisodeId) (gross : EpisodeId → Option ℚ)
    (named : ∀ tx ∈ changedCosts later txs, tx ∈ moved)
    (derived : ∀ id, exempt id → ∀ row gas, later.episodes.get id = some row →
      row.gasUsd = some gas → id ∈ episodesAt later moved ++ ids) :
    Settled (refreshEpisodeCosts (rebuildTxCosts later txs) moved ids gross) where
  costs := by
    intro tx cost there sure
    suffices kept : Attributed (rebuildTxCosts later txs) tx cost from kept.refreshed moved ids gross
    have there : (rebuildTxCosts later txs).txCosts.get tx = some cost := there
    rw [get_rebuilt] at there
    split at there
    · exact costRow_exact later tx cost there sure
    · rename_i apart
      obtain ⟨id, address, known, paid, sole⟩ := settled.costs tx cost (cover.costs ▸ there) sure
      refine ⟨id, address, known, paid, fun effect has here => ?_⟩
      have outside : effect.txHash ∉ txs := here.symm ▸ apart
      obtain ⟨key, own⟩ := sole effect (cover.effects effect has outside) here
      refine ⟨key, fun other belongs => ?_⟩
      obtain ⟨rfl, old, found, owned⟩ := own other belongs
      exact ⟨rfl, cover.owners effect has outside other belongs old address found owned⟩
  gas := by
    intro id row gas there known
    obtain ⟨old, found, -, either⟩ := refreshEpisodeCosts_row _ _ _ _ id row there
    rcases either gas known with ⟨-, now⟩ | ⟨apart, kept⟩
    · exact now
    · -- Not refreshed: the episode has the transactions it had, and none of their costs moved.
      have bound : ¬exempt id := fun free => apart (derived id free old gas found kept)
      have before : episodeGas db id = some gas := by
        rcases cover.gas id bound old gas found kept with ⟨row, held, same⟩ | now
        · exact settled.gas id row gas held same
        · exact now
      rw [← before]
      refine episodeGas_congr db _ id (cover.pairs id bound) fun tx member => ?_
      show (rebuildTxCosts later txs).txCosts.get tx = _
      rw [get_rebuilt, ← cover.costs]
      split
      · rename_i asked
        by_contra changed
        refine apart (List.mem_append_left _ ((mem_episodesAt later moved id).mpr ?_))
        obtain ⟨effect, has, belongs, rfl⟩ := (mem_txsOf later id tx).mp
          (cover.pairs id bound ▸ member)
        exact ⟨effect, has, named _ ((mem_changedCosts later txs _).mpr ⟨asked, changed⟩), belongs⟩
      · rfl

end RhPools.EpisodeCosts
