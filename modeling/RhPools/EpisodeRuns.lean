import RhPools.EpisodeReplays
import RhPools.GuardedRuns

/-! Changes of the ledger's tables: publications of queued replays, replays at once, rollbacks,
receipts recovered later, new values, and installation. From empty tables, each leaves them
settled, if replays are published onto the rows that they were prepared from, and write back
gas that is up to date, and if a rollback that replays at once leaves no episode that has gas
without an effect. -/

namespace RhPools.EpisodeRuns
open OrderedTables EpisodeCosts EpisodeReplays

structure Publication where
  seen : Db
  writes : Option Writes
  txHashes : List TxHash

structure Gathered where
  db : Db
  txs : List TxHash
  revalued : List EpisodeId
  gasChanged : List EpisodeId

/-- `_publish_pending`. -/
def publishNext (gathered : Gathered) (publication : Publication) : Gathered :=
  match publication.writes with
  | none => { gathered with txs := gathered.txs ++ publication.txHashes }
  | some writes =>
    let prepared := prepare publication.seen writes
    { db := flush gathered.db publication.seen writes
      txs := gathered.txs ++ (prepared.affectedTxs ++ publication.txHashes)
      revalued := gathered.revalued ++ prepared.revalued
      gasChanged := gathered.gasChanged ++ prepared.gasChanged }

def gather (db : Db) (batch : List Publication) : Gathered :=
  batch.foldl publishNext ⟨db, [], [], []⟩

/-- The tables of a transaction of `project_pending` once costs are rebuilt, and the
transactions whose cost changed. -/
def attributed (gathered : Gathered) (valued : List EpisodeId) (gross : EpisodeId → Option ℚ) :
    Db × List TxHash :=
  let current := revalue gathered.db valued gross
  (rebuildTxCosts current gathered.txs, changedCosts current gathered.txs)

def refreshed (db : Db) (batch : List Publication) (valued : List EpisodeId)
    (gross : EpisodeId → Option ℚ) : List EpisodeId :=
  let gathered := gather db batch
  let (rebuilt, changed) := attributed gathered valued gross
  episodesAt rebuilt changed ++ gathered.gasChanged

/-- One transaction of `project_pending`. -/
def publish (db : Db) (batch : List Publication) (valued : List EpisodeId)
    (gross : EpisodeId → Option ℚ) : Db :=
  let gathered := gather db batch
  let (rebuilt, changed) := attributed gathered valued gross
  revalue (refreshEpisodeCosts rebuilt changed gathered.gasChanged gross)
    (gathered.revalued.filter fun id => id ∉ refreshed db batch valued gross) gross

def Onto (gathered : Gathered) : List Publication → Prop
  | [] => True
  | publication :: rest =>
    (∀ writes ∈ publication.writes, Current gathered.db publication.seen writes) ∧
      Onto (publishNext gathered publication) rest

/-- The gas of an episode that is written back is what its transactions cost, or is derived
again. -/
def UpToDate (db : Db) (batch : List Publication) (valued : List EpisodeId)
    (gross : EpisodeId → Option ℚ) : Prop :=
  ∀ publication ∈ batch, ∀ writes ∈ publication.writes, ∀ id episode gas,
    (changedEpisodes publication.seen writes).get id = some episode →
    (publication.seen.episodes.get id).bind EpisodeRow.gasUsd = some gas →
    id ∈ refreshed db batch valued gross ∨ episodeGas db id = some gas

variable (db : Db) (batch : List Publication) (gathered : Gathered)

theorem gasChanged_kept :
    gathered.gasChanged ⊆ (batch.foldl publishNext gathered).gasChanged := by
  induction batch generalizing gathered with
  | nil => exact List.Subset.refl _
  | cons publication rest ih =>
    refine List.Subset.trans ?_ (ih (publishNext gathered publication))
    unfold publishNext
    split
    · exact List.Subset.refl _
    · exact List.subset_append_left _ _

theorem gathered_cover (exempt : EpisodeId → Prop) (onto : Onto gathered batch)
    (named : ∀ id ∈ (batch.foldl publishNext gathered).gasChanged, exempt id)
    (back : ∀ publication ∈ batch, ∀ writes ∈ publication.writes, ∀ id episode gas,
      (changedEpisodes publication.seen writes).get id = some episode →
      (publication.seen.episodes.get id).bind EpisodeRow.gasUsd = some gas →
      exempt id ∨ episodeGas db id = some gas) (cover : Cover gathered.txs exempt db gathered.db) :
    Cover (batch.foldl publishNext gathered).txs exempt db
      (batch.foldl publishNext gathered).db := by
  induction batch generalizing gathered with
  | nil => exact cover
  | cons publication rest ih =>
    refine ih (publishNext gathered publication) onto.2 named
      (fun other member => back other (List.mem_cons_of_mem _ member)) ?_
    have kept := gasChanged_kept rest (publishNext gathered publication)
    have back := back publication List.mem_cons_self
    have current := onto.1
    unfold publishNext at kept ⊢
    cases written : publication.writes with
    | none => exact cover.widen (List.subset_append_left _ _)
    | some writes =>
      rw [written] at kept
      have next := (current writes written).flush_cover exempt
        (fun id member => named id (by
          rw [List.foldl_cons, publishNext, written]
          exact kept (List.mem_append_right _ member)))
        (fun id episode gas changed known => by
          rcases back writes written id episode gas changed known with free | now
          · exact .inl free
          · by_cases free : exempt id
            · exact .inl free
            · exact .inr ((cover.episodeGas_same id free).trans now))
      refine (cover.widen (List.subset_append_left _ _)).trans (next.widen ?_)
      exact fun tx member => List.mem_append_right _ (List.mem_append_left _ member)

theorem publish_settled (valued : List EpisodeId) (gross : EpisodeId → Option ℚ)
    (settled : Settled db) (onto : Onto ⟨db, [], [], []⟩ batch)
    (upToDate : UpToDate db batch valued gross) :
    Settled (publish db batch valued gross) := by
  have cover := gathered_cover db batch ⟨db, [], [], []⟩ (· ∈ refreshed db batch valued gross) onto
    (fun id member => List.mem_append_right _ member) upToDate (Cover.refl db)
  refine (revalue_revalued _ _ gross).settled ?_
  refine (cover.trans ((revalue_revalued _ valued gross).cover _ _)).settle settled _ _ gross
    (fun tx changed => changed) fun id free _ _ _ _ => free

/-- The episodes' part of `_invalidate_legacy_core_values`. -/
def invalidateLegacy (db : Db) (keys : List String) : Db :=
  { db with episodes := db.episodes.modify fun id row =>
      if id.positionKey ∈ keys then
        { episode := { row.episode with
            historyComplete := false, feesComplete := false, feesUsd := none
            accountingBasis := "unqualified_pool_scope" }
          grossPnlUsd := none
          gasUsd := none }
      else row }

/-- In a book that does not queue: appended events, written as they come, or a replay of the
whole position. -/
inductive Replay where
  | direct (writes : Writes)
  | whole (writes : Writes)

def replayNext (gathered : Gathered) (replay : Replay) : Gathered :=
  match replay with
  | .direct writes =>
    { gathered with
      db := writeDirect gathered.db writes
      txs := gathered.txs ++ wantedTxs writes }
  | .whole writes =>
    let prepared := prepare gathered.db writes
    { gathered with
      db := flush gathered.db gathered.db writes
      txs := gathered.txs ++ prepared.affectedTxs
      revalued := gathered.revalued ++ prepared.revalued }

/-- `_apply` of a book that replays at once; `txs` are those of the events. -/
def applyNow (db : Db) (legacy : List String) (txs : List TxHash) (replays : List Replay)
    (valued : List EpisodeId) (gross : EpisodeId → Option ℚ) : Db :=
  let gathered := replays.foldl replayNext ⟨invalidateLegacy db legacy, txs, [], []⟩
  refreshEpisodeCosts (rebuildTxCosts (revalue gathered.db valued gross) gathered.txs)
    gathered.txs gathered.revalued gross

theorem invalidateLegacy_revalued (keys : List String) :
    Revalued db (invalidateLegacy db keys) := by
  refine modify_revalued db _ (fun id row => ?_) fun id row gas known => ?_
  · split <;> rfl
  · split at known
    · cases known
    · exact known

def Touched (gathered : Gathered) (id : EpisodeId) : Prop :=
  id ∈ gathered.revalued ∨ ∃ effect, gathered.db.Has effect ∧ effect.episodeId = some id ∧
    effect.txHash ∈ gathered.txs

theorem touched_next (replay : Replay) (id : EpisodeId) (touched : Touched gathered id) :
    Touched (replayNext gathered replay) id := by
  cases replay with
  | direct writes =>
    rcases touched with named | ⟨effect, ⟨event, there⟩, belongs, affected⟩
    · exact .inl named
    · exact .inr ⟨effect, ⟨event, get_insertAll_some _ _ event effect there⟩, belongs,
        List.mem_append_left _ affected⟩
  | whole writes =>
    rcases touched with named | ⟨effect, ⟨event, there⟩, belongs, affected⟩
    · exact .inl (List.mem_append_left _ named)
    · rcases flush_keeps gathered.db writes event effect id there belongs with
        named | ⟨later, written, still, rfl | moved⟩
      · exact .inl (List.mem_append_right _ named)
      · exact .inr ⟨later, ⟨event, written⟩, still, List.mem_append_left _ affected⟩
      · exact .inr ⟨later, ⟨event, written⟩, still, List.mem_append_right _ moved⟩

theorem touched_replays (replays : List Replay) (gathered : Gathered) (id : EpisodeId)
    (touched : Touched gathered id) : Touched (replays.foldl replayNext gathered) id := by
  induction replays generalizing gathered with
  | nil => exact touched
  | cons replay rest ih => exact ih _ (touched_next gathered replay id touched)

theorem replayed_cover (replays : List Replay) (gathered : Gathered) (exempt : EpisodeId → Prop)
    (named : ∀ id, Touched (replays.foldl replayNext gathered) id → exempt id)
    (cover : Cover gathered.txs exempt db gathered.db) :
    Cover (replays.foldl replayNext gathered).txs exempt db
      (replays.foldl replayNext gathered).db := by
  induction replays generalizing gathered with
  | nil => exact cover
  | cons replay rest ih =>
    refine ih (replayNext gathered replay) named ?_
    have later : ∀ id, Touched (replayNext gathered replay) id → exempt id :=
      fun id touched => named id (touched_replays rest _ id touched)
    cases replay with
    | direct writes =>
      refine (cover.widen (List.subset_append_left _ _)).trans
        ((writeDirect_cover gathered.db writes exempt ?_).widen (List.subset_append_right _ _))
      intro effect id has belongs wanted
      exact later id (.inr ⟨effect, has, belongs, List.mem_append_right _ wanted⟩)
    | whole writes =>
      refine (cover.widen (List.subset_append_left _ _)).trans
        (((Current.refl gathered.db writes).flush_cover exempt ?_ ?_).widen
          (List.subset_append_right _ _))
      · intro id member
        rcases gasChanged_touched gathered.db writes id member with
          revalued | ⟨effect, has, belongs, affected⟩
        · exact later id (.inl (List.mem_append_right _ revalued))
        · exact later id (.inr ⟨effect, has, belongs, List.mem_append_right _ affected⟩)
      · intro id episode gas changed known
        -- The replay was prepared on the tables themselves.
        exact .inl (later id (.inl (List.mem_append_right _ (List.mem_append_left _
          (List.mem_append_left _ (List.mem_map_of_mem (f := Prod.fst)
            ((get_some _ _ _).mp changed)))))))

theorem applyNow_settled (legacy : List String) (txs : List TxHash) (replays : List Replay)
    (valued : List EpisodeId) (gross : EpisodeId → Option ℚ) (settled : Settled db) :
    Settled (applyNow db legacy txs replays valued gross) := by
  have cover := replayed_cover db replays ⟨invalidateLegacy db legacy, txs, [], []⟩
    (Touched (replays.foldl replayNext ⟨invalidateLegacy db legacy, txs, [], []⟩))
    (fun _ touched => touched) ((invalidateLegacy_revalued db legacy).cover _ _)
  have same := revalue_revalued (replays.foldl replayNext
    ⟨invalidateLegacy db legacy, txs, [], []⟩).db valued gross
  refine (cover.trans (same.cover _ _)).settle settled _ _ gross (fun tx changed =>
    ((mem_changedCosts _ _ tx).mp changed).1) ?_
  rintro id (named | ⟨effect, has, belongs, affected⟩) _ _ _ _
  · exact List.mem_append_right _ named
  · exact List.mem_append_left _ ((mem_episodesAt _ _ id).mpr
      ⟨effect, (same.has effect).mpr has, affected, belongs⟩)

/-- The episodes' part of `_invalidate_claims_after_rollback`. -/
def invalidateClaims (db : Db) (keys : List String) : Db :=
  { db with episodes := db.episodes.modify fun id row =>
      if id ∈ keys.filterMap db.active.get then { row with grossPnlUsd := none } else row }

theorem invalidateClaims_revalued (keys : List String) :
    Revalued db (invalidateClaims db keys) := by
  refine modify_revalued db _ (fun id row => ?_) fun id row gas known => ?_
  · split <;> rfl
  · split at known <;> exact known

/-- An event is mapped to one position, and in a book that replays at once its effect is that
position's: a replay after a rollback takes none from another. -/
def within (db : Db) (writes : Writes) : Writes :=
  { writes with
    effects := writes.effects.remove fun event _ =>
      (db.effects.get event).any fun effect => effect.positionKey ≠ writes.positionKey
    owned := fun entry member => writes.owned entry (List.mem_of_mem_filter member)
    known := fun whole entry member => writes.known whole entry (List.mem_of_mem_filter member) }

/-- One `_rebuild_position` of a rollback, with the transactions before and after it. -/
def rollbackNext (gathered : Db × List TxHash) (writes : Writes) : Db × List TxHash :=
  let after := flush gathered.1 gathered.1 (within gathered.1 writes)
  (after, gathered.2 ++ ((mine gathered.1 writes.positionKey).map fun entry => entry.2.txHash) ++
    (mine after writes.positionKey).map fun entry => entry.2.txHash)

/-- `_rollback` of a book that replays at once. -/
def rollbackNow (db : Db) (replays : List Writes) (valued : List EpisodeId)
    (claimed : List String) (gross : EpisodeId → Option ℚ) : Db :=
  let (after, txs) := replays.foldl rollbackNext (db, [])
  invalidateClaims (refreshEpisodeCosts (rebuildTxCosts (revalue after valued gross) txs) txs []
    gross) claimed

def KeepsEffects (db : Db) (replays : List Writes) : Prop :=
  ∀ id row gas, (replays.foldl rollbackNext (db, [])).1.episodes.get id = some row →
    row.gasUsd = some gas → (txsOf (replays.foldl rollbackNext (db, [])).1 id).Nonempty

/-- `_rollback_deferred`. -/
def rollbackDeferred (db : Db) (keys claimed : List String) : Db :=
  let txs := ((db.effects.entries.map Prod.snd).filter fun effect =>
    effect.positionKey ∈ keys).map Effect.txHash
  invalidateClaims
    { db with
      effects := db.effects.remove fun _ effect => effect.positionKey ∈ keys
      episodes := db.episodes.remove fun id _ => id.positionKey ∈ keys
      active := db.active.remove fun key _ => key ∈ keys
      txCosts := db.txCosts.remove fun tx _ => txs.contains tx } claimed

section
variable (db : Db) (writes : Writes)

theorem flush_within_others (event : Int) (effect : Effect)
    (other : effect.positionKey ≠ writes.positionKey) :
    (flush db db (within db writes)).effects.get event = some effect ↔
      db.effects.get event = some effect := by
  rw [(Current.refl db (within db writes)).get_flush]
  constructor
  · rintro (asked | ⟨-, there, -⟩)
    · exact absurd ((within db writes).owned _ ((get_some _ _ _).mp asked)) other
    · exact there
  · intro there
    refine .inr ⟨?_, there, fun own => absurd own other⟩
    show (writes.effects.remove _).get event = none
    rw [get_remove, there]
    simp [other]

theorem flush_within_episodes (id : EpisodeId) (other : id.positionKey ≠ writes.positionKey) :
    (flush db db (within db writes)).episodes.get id = db.episodes.get id := by
  have same : (changedEpisodes db (within db writes)).get id = none := by
    rw [Option.eq_none_iff_forall_ne_some]
    exact fun episode changed => other (named_of_changed db (within db writes) id episode changed)
  have fresh : id ∉ staleEpisodes db (within db writes) := fun stale =>
    other (mem_staleEpisodes db (within db writes) id stale).2.1
  rw [get_flush_episodes, same, Option.elim_none]
  cases db.episodes.get id <;> simp [fresh]

theorem rollbackNext_cover (gathered : Db × List TxHash) (exempt : EpisodeId → Prop)
    (named : ∀ id, id.positionKey = writes.positionKey → exempt id) :
    Cover (rollbackNext gathered writes).2 exempt gathered.1 (rollbackNext gathered writes).1 := by
  -- Own effects have all their transactions named.
  have others : ∀ effect, (rollbackNext gathered writes).1.Has effect →
      effect.txHash ∉ (rollbackNext gathered writes).2 →
      effect.positionKey ≠ writes.positionKey := by
    rintro effect ⟨event, there⟩ apart own
    refine apart (List.mem_append_right _ ?_)
    exact List.mem_map_of_mem (f := fun entry => entry.2.txHash)
      ((mem_mine _ _ (event, effect)).mpr ⟨there, own⟩)
  refine ⟨rfl, ?_, ?_, ?_, ?_⟩
  · rintro effect ⟨event, there⟩ apart
    exact ⟨event, (flush_within_others gathered.1 writes event effect
      (others effect ⟨event, there⟩ apart)).mp there⟩
  · intro effect has apart id belongs row address there owned
    have other := others effect has apart
    rw [← Effect.key_of_episode belongs] at other
    exact ⟨row, (flush_within_episodes gathered.1 writes id other).trans there, owned⟩
  · intro id bound
    have other : id.positionKey ≠ writes.positionKey := fun own => bound (named id own)
    ext tx
    rw [mem_txsOf, mem_txsOf]
    refine exists_congr fun effect => and_congr_left fun facts => exists_congr fun event => ?_
    exact flush_within_others gathered.1 writes event effect
      (Effect.key_of_episode facts.1 ▸ other)
  · intro id bound row gas there known
    rw [rollbackNext] at there
    rw [flush_within_episodes gathered.1 writes id fun own => bound (named id own)] at there
    exact .inl ⟨row, there, known⟩

end

variable (replays : List Writes)

theorem rolled_cover (gathered : Db × List TxHash) (exempt : EpisodeId → Prop)
    (named : ∀ writes ∈ replays, ∀ id, id.positionKey = writes.positionKey → exempt id)
    (cover : Cover gathered.2 exempt db gathered.1) :
    Cover (replays.foldl rollbackNext gathered).2 exempt db
      (replays.foldl rollbackNext gathered).1 := by
  induction replays generalizing gathered with
  | nil => exact cover
  | cons writes rest ih =>
    refine ih _ (fun other member => named other (List.mem_cons_of_mem _ member)) ?_
    refine (cover.widen ?_).trans
      (rollbackNext_cover writes gathered exempt (named writes List.mem_cons_self))
    exact fun tx member => List.mem_append_left _ (List.mem_append_left _ member)

theorem rolled_named (gathered : Db × List TxHash) (key : String)
    (named : ∀ effect, gathered.1.Has effect → effect.positionKey = key →
      key ∈ replays.map Writes.positionKey ∨ effect.txHash ∈ gathered.2) (effect : Effect)
    (has : (replays.foldl rollbackNext gathered).1.Has effect) (own : effect.positionKey = key) :
    effect.txHash ∈ (replays.foldl rollbackNext gathered).2 := by
  induction replays generalizing gathered with
  | nil => exact (named effect has own).resolve_left List.not_mem_nil
  | cons writes rest ih =>
    refine ih (rollbackNext gathered writes) ?_ has
    rintro old ⟨event, there⟩ same
    by_cases here : old.positionKey = writes.positionKey
    · refine .inr (List.mem_append_right _ ?_)
      exact List.mem_map_of_mem (f := fun entry => entry.2.txHash)
        ((mem_mine _ _ (event, old)).mpr ⟨there, here⟩)
    · have before := (flush_within_others gathered.1 writes event old here).mp there
      rcases named old ⟨event, before⟩ same with replayed | listed
      · rw [List.map_cons, List.mem_cons] at replayed
        exact .inl (replayed.resolve_left fun equal => here (same.trans equal))
      · exact .inr (List.mem_append_left _ (List.mem_append_left _ listed))

theorem rollbackNow_settled (valued : List EpisodeId) (claimed : List String)
    (gross : EpisodeId → Option ℚ) (settled : Settled db) (keeps : KeepsEffects db replays) :
    Settled (rollbackNow db replays valued claimed gross) := by
  have cover := rolled_cover db replays (db, [])
    (fun id => id.positionKey ∈ replays.map Writes.positionKey)
    (fun writes member id own => own ▸ List.mem_map_of_mem member) (Cover.refl db)
  have same := revalue_revalued (replays.foldl rollbackNext (db, [])).1 valued gross
  refine (invalidateClaims_revalued _ claimed).settled ?_
  refine (cover.trans (same.cover _ _)).settle settled _ _ gross
    (fun tx changed => ((mem_changedCosts _ _ tx).mp changed).1) ?_
  intro id replayed row gas there known
  obtain ⟨old, found, -, kept⟩ := same.rows id row there
  obtain ⟨tx, member⟩ := keeps id old gas found (kept gas known)
  obtain ⟨effect, has, belongs, -⟩ := (mem_txsOf _ _ _).mp member
  refine List.mem_append_left _ ((mem_episodesAt _ _ id).mpr
    ⟨effect, (same.has effect).mpr has, ?_, belongs⟩)
  exact rolled_named replays (db, []) id.positionKey (fun _ _ _ => .inl replayed) effect has
    (Effect.key_of_episode belongs).symm

theorem rollbackDeferred_settled (keys claimed : List String) (settled : Settled db) :
    Settled (rollbackDeferred db keys claimed) := by
  refine (invalidateClaims_revalued _ claimed).settled ?_
  set txs := ((db.effects.entries.map Prod.snd).filter fun effect =>
    effect.positionKey ∈ keys).map Effect.txHash with listed
  set after : Db := { db with
    effects := db.effects.remove fun _ effect => effect.positionKey ∈ keys
    episodes := db.episodes.remove fun id _ => id.positionKey ∈ keys
    active := db.active.remove fun key _ => key ∈ keys
    txCosts := db.txCosts.remove fun tx _ => txs.contains tx } with made
  have effects : ∀ effect, after.Has effect ↔ db.Has effect ∧ effect.positionKey ∉ keys := by
    intro effect
    rw [Db.Has, Db.Has, ← exists_and_right]
    refine exists_congr fun event => ?_
    rw [made, get_remove, Option.filter_eq_some_iff]
    simp
  have rows : ∀ id row, after.episodes.get id = some row ↔
      db.episodes.get id = some row ∧ id.positionKey ∉ keys := by
    intro id row
    rw [made, get_remove, Option.filter_eq_some_iff]
    simp
  have costs : ∀ tx, after.txCosts.get tx = if tx ∈ txs then none else db.txCosts.get tx := by
    intro tx
    rw [made, get_remove]
    by_cases gone : tx ∈ txs <;> cases db.txCosts.get tx <;> simp [gone]
  constructor
  · intro tx cost there sure
    rw [costs] at there
    split at there
    · cases there
    · obtain ⟨id, address, named, paid, sole⟩ := settled.costs tx cost there sure
      refine ⟨id, address, named, paid, fun effect has here => ?_⟩
      obtain ⟨before, kept⟩ := (effects effect).mp has
      obtain ⟨key, own⟩ := sole effect before here
      refine ⟨key, fun other belongs => ?_⟩
      obtain ⟨rfl, row, found, owned⟩ := own other belongs
      exact ⟨rfl, row, (rows other row).mpr ⟨found, key ▸ kept⟩, owned⟩
  · intro id row gas there known
    obtain ⟨before, kept⟩ := (rows id row).mp there
    have was := settled.gas id row gas before known
    rw [← was]
    refine episodeGas_congr db after id ?_ ?_
    · ext tx
      rw [mem_txsOf, mem_txsOf]
      refine exists_congr fun effect => and_congr_left fun facts => ?_
      rw [effects, Effect.key_of_episode facts.1] at *
      exact and_iff_left kept
    · intro tx member
      obtain ⟨-, own, -⟩ := (episodeGas_some db id gas).mp was
      obtain ⟨cost, found, sure, named, -⟩ := isOwn_exact db id tx (own tx member)
      obtain ⟨other, address, same, -, sole⟩ := settled.costs tx cost found sure
      obtain rfl := Option.some.inj (named.symm.trans same)
      rw [costs, if_neg]
      intro gone
      obtain ⟨effect, inside, here⟩ := List.mem_map.mp (listed ▸ gone)
      obtain ⟨has, cleared⟩ := List.mem_filter.mp inside
      have key := (sole effect ((mem_effects db effect).mp has) here).1
      exact kept (key ▸ of_decide_eq_true cleared)

/-- `recover_receipt_costs`. -/
def recoverReceiptCosts (db : Db) (selected : List TxHash) (gross : EpisodeId → Option ℚ) : Db :=
  let stale := selected.filter fun tx => (db.transactions.get tx).any fun transaction =>
    (db.txCosts.get tx).all fun cost =>
      cost.payer ≠ transaction.payer ∨ cost.gasUsd ≠ transaction.gasUsd
  let previous := stale.filterMap fun tx => (db.txCosts.get tx).bind Cost.episodeId
  refreshEpisodeCosts (rebuildTxCosts db stale) stale previous gross

theorem recoverReceiptCosts_settled (selected : List TxHash) (gross : EpisodeId → Option ℚ)
    (settled : Settled db) :
    Settled (recoverReceiptCosts db selected gross) :=
  (Cover.refl db : Cover _ (fun _ => False) db db).settle settled _ _ gross
    (fun tx changed => ((mem_changedCosts db _ tx).mp changed).1) fun _ free => free.elim

/-- `_rebuild_tx_costs` of all transactions. -/
def rebuildAllCosts (db : Db) : Db :=
  rebuildTxCosts { db with txCosts := .empty } (db.effects.entries.map fun entry => entry.2.txHash)

def install (db : Db) (replays : List Writes) (gross : EpisodeId → Option ℚ) : Db :=
  let after := replays.foldl (fun db writes => flush db db writes) db
  refreshEpisodeCosts (rebuildAllCosts after) [] (after.episodes.entries.map Prod.fst) gross

theorem install_settled (gross : EpisodeId → Option ℚ) :
    Settled (install db replays gross) := by
  set after := replays.foldl (fun db writes => flush db db writes) db with made
  constructor
  · intro tx cost there sure
    suffices kept : Attributed (rebuildAllCosts after) tx cost from kept.refreshed _ _ gross
    have there : (rebuildAllCosts after).txCosts.get tx = some cost := there
    rw [rebuildAllCosts, get_rebuilt] at there
    split at there
    · exact costRow_exact _ tx cost there sure
    · rw [get_empty] at there
      cases there
  · intro id row gas there known
    obtain ⟨old, found, -, either⟩ := refreshEpisodeCosts_row _ _ _ _ id row there
    rcases either gas known with ⟨-, now⟩ | ⟨apart, -⟩
    · exact now
    · refine absurd (List.mem_append_right _ ?_) apart
      exact List.mem_map_of_mem (f := Prod.fst) ((get_some _ _ _).mp found)

inductive Action where
  | publish (batch : List Publication) (valued : List EpisodeId) (gross : EpisodeId → Option ℚ)
  | queue (legacy : List String)
  | applyNow (legacy : List String) (txs : List TxHash) (replays : List Replay)
      (valued : List EpisodeId) (gross : EpisodeId → Option ℚ)
  | rollbackDeferred (keys claimed : List String)
  | rollbackNow (replays : List Writes) (valued : List EpisodeId) (claimed : List String)
      (gross : EpisodeId → Option ℚ)
  | recover (selected : List TxHash) (gross : EpisodeId → Option ℚ)
  | value (ids : List EpisodeId) (gross : EpisodeId → Option ℚ)
  | install (replays : List Writes) (gross : EpisodeId → Option ℚ)
  /-- What the store writes besides. -/
  | store (transactions : OrderedTable TxHash Transaction) (events : OrderedTable Int RawEvent)

def next (db : Db) : Action → Db
  | .publish batch valued gross => publish db batch valued gross
  | .queue legacy => invalidateLegacy db legacy
  | .applyNow legacy txs replays valued gross => applyNow db legacy txs replays valued gross
  | .rollbackDeferred keys claimed => rollbackDeferred db keys claimed
  | .rollbackNow replays valued claimed gross => rollbackNow db replays valued claimed gross
  | .recover selected gross => recoverReceiptCosts db selected gross
  | .value ids gross => revalue db ids gross
  | .install replays gross => install db replays gross
  | .store transactions events => { db with transactions := transactions, events := events }

def ledger : GuardedRuns.System Db Action where
  start db := db.episodes = .empty ∧ db.effects = .empty ∧ db.txCosts = .empty
  step db action := some (next db action)

def UpToDateStep (db : Db) : Action → Prop
  | .publish batch valued gross => Onto ⟨db, [], [], []⟩ batch ∧ UpToDate db batch valued gross
  | .rollbackNow replays _ _ _ => KeepsEffects db replays
  | _ => True

theorem next_settled (action : Action) (settled : Settled db) (met : UpToDateStep db action) :
    Settled (next db action) := by
  cases action with
  | publish batch valued gross => exact publish_settled db batch valued gross settled met.1 met.2
  | queue legacy => exact (invalidateLegacy_revalued db legacy).settled settled
  | applyNow legacy txs replays valued gross =>
    exact applyNow_settled db legacy txs replays valued gross settled
  | rollbackDeferred keys claimed => exact rollbackDeferred_settled db keys claimed settled
  | rollbackNow replays valued claimed gross =>
    exact rollbackNow_settled db replays valued claimed gross settled met
  | recover selected gross => exact recoverReceiptCosts_settled db selected gross settled
  | value ids gross => exact (revalue_revalued db ids gross).settled settled
  | install replays gross => exact install_settled db replays gross
  | store transactions events =>
    have same : Revalued db { db with transactions := transactions, events := events } :=
      ⟨rfl, rfl, fun _ row there => ⟨row, there, rfl, fun _ known => known⟩,
        fun _ row there => ⟨row, there, rfl⟩⟩
    exact same.settled settled

theorem reached_settled (reached : ledger.Reaches UpToDateStep db) : Settled db := by
  refine reached.invariant Settled ?_ ?_
  · rintro start ⟨episodes, -, costs⟩
    constructor
    · intro tx cost there
      rw [costs, get_empty] at there
      cases there
    · intro id row gas there
      rw [episodes, get_empty] at there
      cases there
  · rintro state action _ settled met taken
    obtain rfl := Option.some.inj taken
    exact next_settled state action settled met

end RhPools.EpisodeRuns
