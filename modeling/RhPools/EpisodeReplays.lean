import RhPools.EpisodeCosts

/-! Replays of positions onto the ledger's tables. A replay is compared with the rows it finds
when it is prepared, and what differs is written when it is published. What it then has to
derive again covers what it wrote, if the rows it was compared with are still there. -/

namespace RhPools.EpisodeReplays
open OrderedTables EpisodeCosts

/-- `_ReplayWrites`: the rows of a replay of one position, or of the events appended to it. -/
structure Writes where
  positionKey : String
  appendOnly : Bool
  episodes : OrderedTable EpisodeId Episode
  effects : OrderedTable Int Effect
  active : Option EpisodeId
  named : ∀ entry ∈ episodes.entries, entry.1.positionKey = positionKey
  owned : ∀ entry ∈ effects.entries, entry.2.positionKey = positionKey
  /-- A whole replay writes the episodes that its effects belong to. -/
  known : appendOnly = false → ∀ entry ∈ effects.entries, ∀ id ∈ entry.2.episodeId,
    (episodes.get id).isSome = true

def mine (db : Db) (key : String) : List (Int × Effect) :=
  db.effects.entries.filter fun entry => entry.2.positionKey = key

def staleEffects (seen : Db) (writes : Writes) : List Int :=
  if writes.appendOnly then [] else
    ((mine seen writes.positionKey).filter fun entry =>
      (writes.effects.get entry.1).isNone).map Prod.fst

def changedEffects (seen : Db) (writes : Writes) : OrderedTable Int Effect :=
  writes.effects.remove fun event effect => seen.effects.get event = some effect

def staleEpisodes (seen : Db) (writes : Writes) : List EpisodeId :=
  if writes.appendOnly then [] else
    (seen.episodes.entries.map Prod.fst).filter fun id =>
      id.positionKey = writes.positionKey ∧ (writes.episodes.get id).isNone

def changedEpisodes (seen : Db) (writes : Writes) : OrderedTable EpisodeId Episode :=
  writes.episodes.remove fun id episode =>
    (seen.episodes.get id).map EpisodeRow.episode = some episode

def pairOf (effect : Effect) : Option (EpisodeId × TxHash) :=
  effect.episodeId.map fun id => (id, effect.txHash)

def desiredPairs (writes : Writes) : List (EpisodeId × TxHash) :=
  (writes.effects.entries.map Prod.snd).filterMap pairOf

def existingPairs (seen : Db) (writes : Writes) : List (EpisodeId × TxHash) :=
  ((writes.effects.entries.map Prod.fst).filterMap seen.effects.get).filterMap pairOf ++
    if writes.appendOnly then
      (desiredPairs writes).filter fun pair =>
        pair ∈ (seen.effects.entries.map Prod.snd).filterMap pairOf
    else ((mine seen writes.positionKey).map Prod.snd).filterMap pairOf

def ownerChanged (seen : Db) (writes : Writes) : List EpisodeId :=
  ((changedEpisodes seen writes).entries.filter fun entry =>
    (seen.episodes.get entry.1).all fun row => row.episode.owner ≠ entry.2.owner).map Prod.fst

def overtaken (seen : Db) (writes : Writes) : List TxHash :=
  if writes.appendOnly ∨ writes.effects.entries = [] then [] else
    ((mine seen writes.positionKey).map fun entry => entry.2.txHash).filter fun tx =>
      (seen.txCosts.get tx).all fun cost => (seen.transactions.get tx).any fun transaction =>
        cost.payer ≠ transaction.payer ∨ cost.gasUsd ≠ transaction.gasUsd

structure Prepared where
  affectedTxs : List TxHash
  revalued : List EpisodeId
  gasChanged : List EpisodeId

/-- `prepare`. -/
def prepare (seen : Db) (writes : Writes) : Prepared where
  affectedTxs :=
    ((staleEffects seen writes ++ (changedEffects seen writes).entries.map Prod.fst).filterMap
        seen.effects.get).map Effect.txHash ++
      ((changedEffects seen writes).entries.map Prod.snd).map Effect.txHash ++
      overtaken seen writes ++
      ((seen.effects.entries.map Prod.snd).filter fun effect =>
        effect.episodeId.any fun id => id ∈ ownerChanged seen writes).map Effect.txHash
  revalued := (changedEpisodes seen writes).entries.map Prod.fst ++
    (staleEffects seen writes).filterMap (fun event =>
      (seen.effects.get event).bind Effect.episodeId) ++
    (changedEffects seen writes).entries.filterMap fun entry =>
      ((seen.effects.get entry.1).bind Effect.episodeId).filter fun id =>
        entry.2.episodeId ≠ some id
  gasChanged :=
    (((existingPairs seen writes).filter fun pair => pair ∉ desiredPairs writes) ++
      (desiredPairs writes).filter fun pair => pair ∉ existingPairs seen writes).map Prod.fst

def preparedRow (seen : Db) (id : EpisodeId) (episode : Episode) : EpisodeRow where
  episode := episode
  grossPnlUsd := (seen.episodes.get id).bind EpisodeRow.grossPnlUsd
  gasUsd := (seen.episodes.get id).bind EpisodeRow.gasUsd

def saveActive (db : Db) (writes : Writes) : OrderedTable String EpisodeId :=
  match writes.active with
  | none => db.active.erase writes.positionKey
  | some id => db.active.put writes.positionKey id

/-- `flush` of a replay prepared on the tables that it has seen. -/
def flush (db seen : Db) (writes : Writes) : Db :=
  { db with
    effects := (changedEffects seen writes).entries.foldl
      (fun effects entry => effects.put entry.1 entry.2)
      (db.effects.remove fun event effect =>
        event ∈ staleEffects seen writes ∧ effect.positionKey = writes.positionKey)
    episodes := (changedEpisodes seen writes).entries.foldl
      (fun episodes entry => episodes.put entry.1 (preparedRow seen entry.1 entry.2))
      (db.episodes.remove fun id _ => id ∈ staleEpisodes seen writes)
    active := saveActive db writes }

def savedEpisode (db : Db) (id : EpisodeId) (episode : Episode) : EpisodeRow where
  episode := { episode with
    owner := ((db.episodes.get id).bind fun row => row.episode.owner).or episode.owner }
  grossPnlUsd := none
  gasUsd := none

def writeDirect (db : Db) (writes : Writes) : Db :=
  { db with
    effects := db.effects.insertAll writes.effects.entries
    episodes := writes.episodes.entries.foldl
      (fun episodes entry => episodes.put entry.1 (savedEpisode db entry.1 entry.2)) db.episodes
    active := saveActive db writes }

section
variable (db seen : Db) (writes : Writes)

theorem mem_mine (key : String) (entry : Int × Effect) :
    entry ∈ mine db key ↔ db.effects.get entry.1 = some entry.2 ∧ entry.2.positionKey = key := by
  rw [mine, List.mem_filter, decide_eq_true_eq, get_some]

variable (event : Int)

theorem mem_staleEffects :
    event ∈ staleEffects seen writes ↔ writes.appendOnly = false ∧
      writes.effects.get event = none ∧
      ∃ effect, seen.effects.get event = some effect ∧
        effect.positionKey = writes.positionKey := by
  unfold staleEffects
  split
  · rename_i appended
    simp [appended]
  · rename_i whole
    rw [Bool.not_eq_true] at whole
    rw [List.mem_map]
    constructor
    · rintro ⟨⟨event, effect⟩, member, rfl⟩
      obtain ⟨own, absent⟩ := List.mem_filter.mp member
      exact ⟨whole, Option.isNone_iff_eq_none.mp absent, effect, (mem_mine _ _ _).mp own⟩
    · rintro ⟨-, absent, effect, own⟩
      exact ⟨(event, effect), List.mem_filter.mpr
        ⟨(mem_mine _ _ _).mpr own, Option.isNone_iff_eq_none.mpr absent⟩, rfl⟩

variable (effect : Effect)

theorem get_changedEffects :
    (changedEffects seen writes).get event = some effect ↔
      writes.effects.get event = some effect ∧ seen.effects.get event ≠ some effect := by
  rw [changedEffects, get_remove, Option.filter_eq_some_iff]
  simp

variable (pair : EpisodeId × TxHash) (id : EpisodeId) (episode : Episode)

theorem get_changedEpisodes :
    (changedEpisodes seen writes).get id = some episode ↔
      writes.episodes.get id = some episode ∧
        (seen.episodes.get id).map EpisodeRow.episode ≠ some episode := by
  rw [changedEpisodes, get_remove, Option.filter_eq_some_iff]
  simp

theorem get_saved {Key Change Row : Type} [DecidableEq Key] (row : Key → Change → Row)
    (changes : OrderedTable Key Change) (table : OrderedTable Key Row) (key : Key) :
    (changes.entries.foldl (fun table entry => table.put entry.1 (row entry.1 entry.2))
      table).get key = (changes.get key).elim (table.get key) fun change => some (row key change) :=
  get_foldl (fun table entry => table.put entry.1 (row entry.1 entry.2))
    (fun key _ change => some (row key change)) (fun table _ other => get_put table _ other _)
    changes table key

theorem get_flush_effects :
    (flush db seen writes).effects.get event =
      ((changedEffects seen writes).get event).elim
        ((db.effects.get event).filter fun effect =>
          !decide (event ∈ staleEffects seen writes ∧ effect.positionKey = writes.positionKey))
        some :=
  (get_saved (fun _ effect => effect) _ _ event).trans (by rw [get_remove])

theorem get_flush_episodes :
    (flush db seen writes).episodes.get id =
      ((changedEpisodes seen writes).get id).elim
        ((db.episodes.get id).filter fun _ => !decide (id ∈ staleEpisodes seen writes))
        fun episode => some (preparedRow seen id episode) :=
  (get_saved (preparedRow seen) _ _ id).trans (by rw [get_remove])

theorem pairOf_some (tx : TxHash) :
    pairOf effect = some (id, tx) ↔ effect.episodeId = some id ∧ effect.txHash = tx := by
  rw [pairOf, Option.map_eq_some_iff]
  constructor
  · rintro ⟨found, belongs, same⟩
    obtain ⟨rfl, rfl⟩ := Prod.mk.inj same
    exact ⟨belongs, rfl⟩
  · rintro ⟨belongs, rfl⟩
    exact ⟨id, belongs, rfl⟩

theorem mem_desiredPairs :
    pair ∈ desiredPairs writes ↔
      ∃ event effect, writes.effects.get event = some effect ∧ pairOf effect = some pair := by
  simp only [desiredPairs, List.mem_filterMap, List.mem_map, Prod.exists, exists_eq_right, get_some]
  exact ⟨fun ⟨effect, ⟨event, member⟩, same⟩ => ⟨event, effect, member, same⟩,
    fun ⟨event, effect, member, same⟩ => ⟨effect, ⟨event, member⟩, same⟩⟩

/-- A pair that was there is one of an effect that the replay has an event for, or of one of
the position's own; a replay that appends looks for its own pairs only. -/
theorem existing_of_event (wanted effect : Effect) (pair : EpisodeId × TxHash)
    (asked : writes.effects.get event = some wanted) (there : seen.effects.get event = some effect)
    (same : pairOf effect = some pair) : pair ∈ existingPairs seen writes := by
  refine List.mem_append_left _ (List.mem_filterMap.mpr ⟨effect, ?_, same⟩)
  refine List.mem_filterMap.mpr ⟨event, ?_, there⟩
  exact List.mem_map_of_mem (f := Prod.fst) ((get_some _ _ _).mp asked)

theorem existing_of_own (whole : writes.appendOnly = false)
    (there : seen.effects.get event = some effect) (own : effect.positionKey = writes.positionKey)
    (same : pairOf effect = some pair) :
    pair ∈ existingPairs seen writes := by
  refine List.mem_append_right _ ?_
  rw [whole, if_neg Bool.false_ne_true]
  refine List.mem_filterMap.mpr ⟨effect, ?_, same⟩
  exact List.mem_map_of_mem (f := Prod.snd) ((mem_mine seen _ (event, effect)).mpr ⟨there, own⟩)

theorem existing_cases (member : pair ∈ existingPairs seen writes) :
    (∃ event wanted effect, writes.effects.get event = some wanted ∧
      seen.effects.get event = some effect ∧ pairOf effect = some pair) ∨
    (∃ effect, seen.Has effect ∧ effect.positionKey = writes.positionKey ∧
      pairOf effect = some pair ∧ (writes.appendOnly = true → pair ∈ desiredPairs writes)) := by
  rcases List.mem_append.mp member with asked | own
  · obtain ⟨effect, found, same⟩ := List.mem_filterMap.mp asked
    obtain ⟨event, named, there⟩ := List.mem_filterMap.mp found
    obtain ⟨⟨event, wanted⟩, member, rfl⟩ := List.mem_map.mp named
    exact .inl ⟨event, wanted, effect, (get_some _ _ _).mpr member, there, same⟩
  · right
    split at own
    · obtain ⟨desired, found⟩ := List.mem_filter.mp own
      obtain ⟨effect, inside, same⟩ := List.mem_filterMap.mp (decide_eq_true_eq.mp found)
      obtain ⟨event, wanted, asked, alike⟩ := (mem_desiredPairs writes pair).mp desired
      refine ⟨effect, (mem_effects seen effect).mp inside, ?_, same, fun _ => desired⟩
      obtain ⟨id, tx⟩ := pair
      rw [← Effect.key_of_episode ((pairOf_some _ _ _).mp same).1,
        Effect.key_of_episode ((pairOf_some _ _ _).mp alike).1]
      exact writes.owned _ ((get_some _ _ _).mp asked)
    · rename_i whole
      obtain ⟨effect, found, same⟩ := List.mem_filterMap.mp own
      obtain ⟨⟨event, effect⟩, member, rfl⟩ := List.mem_map.mp found
      obtain ⟨there, key⟩ := (mem_mine seen _ _).mp member
      exact ⟨effect, ⟨event, there⟩, key, same, fun appended => absurd appended whole⟩

theorem gasChanged_absent (absent : id ∉ (prepare seen writes).gasChanged) (tx : TxHash) :
    (id, tx) ∈ existingPairs seen writes ↔ (id, tx) ∈ desiredPairs writes := by
  have outside : ∀ pair, pair.1 = id → pair ∉
      ((existingPairs seen writes).filter fun pair => pair ∉ desiredPairs writes) ++
        (desiredPairs writes).filter fun pair => pair ∉ existingPairs seen writes := by
    rintro pair rfl member
    exact absent (List.mem_map_of_mem (f := Prod.fst) member)
  have apart := outside (id, tx) rfl
  simp only [List.mem_append, List.mem_filter, decide_eq_true_eq, not_or, not_and, not_not] at apart
  exact ⟨apart.1, apart.2⟩

theorem affected_of_changed (changed : (changedEffects seen writes).get event = some effect) :
    effect.txHash ∈ (prepare seen writes).affectedTxs := by
  refine List.mem_append_left _ (List.mem_append_left _ (List.mem_append_right _ ?_))
  exact List.mem_map_of_mem (List.mem_map_of_mem (f := Prod.snd) ((get_some _ _ _).mp changed))

theorem revalued_of_stale (stale : event ∈ staleEffects seen writes)
    (there : seen.effects.get event = some effect) (belongs : effect.episodeId = some id) :
    id ∈ (prepare seen writes).revalued := by
  refine List.mem_append_left _ (List.mem_append_right _ (List.mem_filterMap.mpr ⟨event, stale, ?_⟩))
  rw [there, Option.bind_some, belongs]

theorem revalued_of_changed (wanted effect : Effect) (id : EpisodeId)
    (changed : (changedEffects seen writes).get event = some wanted)
    (there : seen.effects.get event = some effect) (belongs : effect.episodeId = some id)
    (moved : wanted.episodeId ≠ some id) : id ∈ (prepare seen writes).revalued := by
  refine List.mem_append_right _ (List.mem_filterMap.mpr
    ⟨(event, wanted), (get_some _ _ _).mp changed, ?_⟩)
  rw [there, Option.bind_some, belongs, Option.filter_eq_some_iff]
  exact ⟨rfl, decide_eq_true moved⟩

theorem affected_of_owner (has : seen.Has effect) (belongs : effect.episodeId = some id)
    (changed : (changedEpisodes seen writes).get id = some episode)
    (owner : ∀ row, seen.episodes.get id = some row → row.episode.owner ≠ episode.owner) :
    effect.txHash ∈ (prepare seen writes).affectedTxs := by
  refine List.mem_append_right _ (List.mem_map_of_mem (List.mem_filter.mpr
    ⟨(mem_effects seen effect).mpr has, ?_⟩))
  rw [belongs, Option.any_some, decide_eq_true_eq]
  refine List.mem_map.mpr ⟨(id, episode), List.mem_filter.mpr ⟨(get_some _ _ _).mp changed, ?_⟩, rfl⟩
  rw [Option.all_eq_true]
  exact fun row there => decide_eq_true (owner row there)

theorem named_of_changed (changed : (changedEpisodes seen writes).get id = some episode) :
    id.positionKey = writes.positionKey :=
  writes.named (id, episode)
    ((get_some _ _ _).mp ((get_changedEpisodes seen writes id episode).mp changed).1)

theorem mem_staleEpisodes (stale : id ∈ staleEpisodes seen writes) :
    writes.appendOnly = false ∧ id.positionKey = writes.positionKey ∧
      writes.episodes.get id = none := by
  unfold staleEpisodes at stale
  split at stale
  · cases stale
  · rename_i whole
    obtain ⟨key, absent⟩ := decide_eq_true_eq.mp (List.mem_filter.mp stale).2
    exact ⟨Bool.eq_false_of_not_eq_true whole, key, Option.isNone_iff_eq_none.mp absent⟩

end

/-- The rows that a replay was compared with are still there: the effects of its events and of
its position, and who owned its episodes. -/
structure Current (db seen : Db) (writes : Writes) : Prop where
  events : ∀ event wanted, writes.effects.get event = some wanted →
    db.effects.get event = seen.effects.get event
  own : ∀ event effect, effect.positionKey = writes.positionKey →
    (db.effects.get event = some effect ↔ seen.effects.get event = some effect)
  owners : ∀ id, id.positionKey = writes.positionKey →
    (db.episodes.get id).bind (fun row => row.episode.owner) =
      (seen.episodes.get id).bind fun row => row.episode.owner

theorem Current.refl (db : Db) (writes : Writes) : Current db db writes :=
  ⟨fun _ _ _ => rfl, fun _ _ _ => Iff.rfl, fun _ _ => rfl⟩

section
variable {db seen : Db} {writes : Writes}

theorem Current.get_flush (current : Current db seen writes) (event : Int) (effect : Effect) :
    (flush db seen writes).effects.get event = some effect ↔
      writes.effects.get event = some effect ∨
      (writes.effects.get event = none ∧ db.effects.get event = some effect ∧
        (effect.positionKey = writes.positionKey → writes.appendOnly = true)) := by
  rw [get_flush_effects]
  cases changed : (changedEffects seen writes).get event with
  | some wanted =>
    obtain ⟨asked, -⟩ := (get_changedEffects seen writes event wanted).mp changed
    rw [asked]
    simp
  | none =>
    rw [Option.elim_none, Option.filter_eq_some_iff]
    cases asked : writes.effects.get event with
    | some wanted =>
      have seenSame : seen.effects.get event = some wanted := by
        by_contra apart
        have there := (get_changedEffects seen writes event wanted).mpr ⟨asked, apart⟩
        rw [changed] at there
        cases there
      have fresh : event ∉ staleEffects seen writes := by
        rw [mem_staleEffects, asked]
        exact fun stale => nomatch stale.2.1
      rw [current.events event wanted asked, seenSame]
      simp [fresh]
    | none =>
      simp only [true_and, Bool.not_eq_true', decide_eq_false_iff_not, reduceCtorEq, false_or]
      refine and_congr_right fun there => ?_
      constructor
      · intro kept own
        by_contra whole
        exact kept ⟨(mem_staleEffects seen writes event).mpr
          ⟨Bool.eq_false_of_not_eq_true whole, asked, effect,
            (current.own event effect own).mp there, own⟩, own⟩
      · rintro kept ⟨stale, own⟩
        obtain ⟨whole, -, -⟩ := (mem_staleEffects seen writes event).mp stale
        rw [kept own] at whole
        cases whole

theorem Current.txsOf_flush (current : Current db seen writes) (id : EpisodeId)
    (absent : id ∉ (prepare seen writes).gasChanged) :
    txsOf (flush db seen writes) id = txsOf db id := by
  have same := gasChanged_absent seen writes id absent
  ext tx
  rw [mem_txsOf, mem_txsOf]
  constructor
  · rintro ⟨effect, ⟨event, there⟩, belongs, rfl⟩
    rcases (current.get_flush event effect).mp there with asked | ⟨-, kept, -⟩
    · have wanted := (same effect.txHash).mpr ((mem_desiredPairs writes _).mpr
        ⟨event, effect, asked, (pairOf_some _ _ _).mpr ⟨belongs, rfl⟩⟩)
      rcases existing_cases seen writes _ wanted with
        ⟨other, old, prior, asked, found, pair⟩ | ⟨prior, ⟨other, found⟩, key, pair, -⟩
      · rw [← current.events other old asked] at found
        exact ⟨prior, ⟨other, found⟩, (pairOf_some _ _ _).mp pair⟩
      · exact ⟨prior, ⟨other, (current.own other prior key).mpr found⟩, (pairOf_some _ _ _).mp pair⟩
    · exact ⟨effect, ⟨event, kept⟩, belongs, rfl⟩
  · rintro ⟨effect, ⟨event, there⟩, belongs, rfl⟩
    have pair := (pairOf_some _ _ _).mpr ⟨belongs, rfl⟩
    -- An effect that goes had its pair, which the replay then has too.
    have replaced : (id, effect.txHash) ∈ existingPairs seen writes →
        ∃ other, (flush db seen writes).Has other ∧ other.episodeId = some id ∧
          other.txHash = effect.txHash := by
      intro existing
      obtain ⟨place, wanted, asked, alike⟩ := (mem_desiredPairs writes _).mp
        ((same effect.txHash).mp existing)
      exact ⟨wanted, ⟨place, (current.get_flush place wanted).mpr (.inl asked)⟩,
        (pairOf_some _ _ _).mp alike⟩
    cases asked : writes.effects.get event with
    | some wanted =>
      rw [current.events event wanted asked] at there
      exact replaced (existing_of_event seen writes event wanted effect _ asked there pair)
    | none =>
      by_cases gone : effect.positionKey = writes.positionKey ∧ writes.appendOnly = false
      · have found := (current.own event effect gone.1).mp there
        exact replaced (existing_of_own seen writes event effect _ gone.2 found gone.1 pair)
      · refine ⟨effect, ⟨event, (current.get_flush event effect).mpr (.inr
          ⟨asked, there, fun own => ?_⟩)⟩, belongs, rfl⟩
        exact Bool.eq_true_of_not_eq_false fun whole => gone ⟨own, whole⟩

/-- A replay published onto the rows that it was compared with covers what it leaves to derive,
if the gas that it writes back is what the transactions cost. -/
theorem Current.flush_cover (current : Current db seen writes) (exempt : EpisodeId → Prop)
    (named : ∀ id ∈ (prepare seen writes).gasChanged, exempt id)
    (back : ∀ id episode gas, (changedEpisodes seen writes).get id = some episode →
      (seen.episodes.get id).bind EpisodeRow.gasUsd = some gas →
      exempt id ∨ episodeGas db id = some gas) :
    Cover (prepare seen writes).affectedTxs exempt db (flush db seen writes) := by
  have effects : ∀ event effect, (flush db seen writes).effects.get event = some effect →
      effect.txHash ∉ (prepare seen writes).affectedTxs → db.effects.get event = some effect := by
    intro event effect there apart
    rcases (current.get_flush event effect).mp there with asked | ⟨-, kept, -⟩
    · rw [current.events event effect asked]
      by_contra changed
      exact apart (affected_of_changed seen writes event effect
        ((get_changedEffects seen writes event effect).mpr ⟨asked, changed⟩))
    · exact kept
  refine ⟨rfl, ?_, ?_, ?_, ?_⟩
  · rintro effect ⟨event, there⟩ apart
    exact ⟨event, effects event effect there apart⟩
  · rintro effect ⟨event, there⟩ apart id belongs row address found owned
    have before := effects event effect there apart
    have fresh : id ∉ staleEpisodes seen writes := by
      intro stale
      obtain ⟨whole, key, absent⟩ := mem_staleEpisodes seen writes id stale
      rcases (current.get_flush event effect).mp there with asked | ⟨-, -, appended⟩
      · have written := writes.known whole _ ((get_some _ _ _).mp asked) id belongs
        rw [absent] at written
        cases written
      · rw [appended ((Effect.key_of_episode belongs).symm.trans key)] at whole
        cases whole
    rw [get_flush_episodes]
    cases changed : (changedEpisodes seen writes).get id with
    | none =>
      refine ⟨row, ?_, owned⟩
      rw [Option.elim_none, found]
      simp [fresh]
    | some episode =>
      refine ⟨preparedRow seen id episode, rfl, ?_⟩
      show episode.owner = some address
      have key := named_of_changed seen writes id episode changed
      have own := (Effect.key_of_episode belongs).symm.trans key
      have was := current.owners id key
      rw [found, Option.bind_some, owned] at was
      obtain ⟨old, held, same⟩ := Option.bind_eq_some_iff.mp was.symm
      by_contra differs
      refine apart (affected_of_owner seen writes effect id episode
        ⟨event, (current.own event effect own).mp before⟩ belongs changed fun other known => ?_)
      rw [held] at known
      obtain rfl := Option.some.inj known
      rw [same]
      exact fun equal => differs equal.symm
  · intro id bound
    exact current.txsOf_flush id fun member => bound (named id member)
  · intro id bound row gas there known
    rw [get_flush_episodes] at there
    cases changed : (changedEpisodes seen writes).get id with
    | none =>
      rw [changed, Option.elim_none, Option.filter_eq_some_iff] at there
      exact .inl ⟨row, there.1, known⟩
    | some episode =>
      rw [changed, Option.elim_some, Option.some.injEq] at there
      subst there
      exact .inr ((back id episode gas changed known).resolve_left bound)

end

section
variable (db : Db) (writes : Writes)

theorem flush_keeps (event : Int) (effect : Effect) (id : EpisodeId)
    (there : db.effects.get event = some effect) (belongs : effect.episodeId = some id) :
    id ∈ (prepare db writes).revalued ∨
      ∃ later, (flush db db writes).effects.get event = some later ∧ later.episodeId = some id ∧
        (later = effect ∨ later.txHash ∈ (prepare db writes).affectedTxs) := by
  have current := Current.refl db writes
  cases asked : writes.effects.get event with
  | some wanted =>
    have written := (current.get_flush event wanted).mpr (.inl asked)
    by_cases same : db.effects.get event = some wanted
    · rw [there, Option.some.injEq] at same
      subst same
      exact .inr ⟨effect, written, belongs, .inl rfl⟩
    · have changed := (get_changedEffects db writes event wanted).mpr ⟨asked, same⟩
      by_cases still : wanted.episodeId = some id
      · exact .inr ⟨wanted, written, still, .inr (affected_of_changed db writes event wanted changed)⟩
      · exact .inl (revalued_of_changed db writes event wanted effect id changed there belongs still)
  | none =>
    by_cases gone : effect.positionKey = writes.positionKey ∧ writes.appendOnly = false
    · exact .inl (revalued_of_stale db writes event effect id
        ((mem_staleEffects db writes event).mpr ⟨gone.2, asked, effect, there, gone.1⟩) there belongs)
    · refine .inr ⟨effect, (current.get_flush event effect).mpr (.inr ⟨asked, there, fun own => ?_⟩),
        belongs, .inl rfl⟩
      exact Bool.eq_true_of_not_eq_false fun whole => gone ⟨own, whole⟩

theorem gasChanged_touched (id : EpisodeId) (member : id ∈ (prepare db writes).gasChanged) :
    id ∈ (prepare db writes).revalued ∨
      ∃ effect, (flush db db writes).Has effect ∧ effect.episodeId = some id ∧
        effect.txHash ∈ (prepare db writes).affectedTxs := by
  have current := Current.refl db writes
  obtain ⟨⟨id, tx⟩, moved, rfl⟩ := List.mem_map.mp member
  rcases List.mem_append.mp moved with lost | gained
  · obtain ⟨existing, absent⟩ := List.mem_filter.mp lost
    have absent := of_decide_eq_true absent
    -- The effect that had the pair is not there as it was.
    have left : ∀ event effect, db.effects.get event = some effect →
        pairOf effect = some (id, tx) → (writes.effects.get event = none →
          effect.positionKey = writes.positionKey ∧ writes.appendOnly = false) →
        id ∈ (prepare db writes).revalued ∨ ∃ effect, (flush db db writes).Has effect ∧
          effect.episodeId = some id ∧ effect.txHash ∈ (prepare db writes).affectedTxs := by
      intro event effect there pair gone
      rcases flush_keeps db writes event effect id there ((pairOf_some _ _ _).mp pair).1 with
        named | ⟨later, written, belongs, rfl | affected⟩
      · exact .inl named
      · rcases (current.get_flush event later).mp written with asked | ⟨unasked, -, appended⟩
        · exact absurd ((mem_desiredPairs writes _).mpr ⟨event, later, asked, pair⟩) absent
        · obtain ⟨own, whole⟩ := gone unasked
          rw [appended own] at whole
          cases whole
      · exact .inr ⟨later, ⟨event, written⟩, belongs, affected⟩
    rcases existing_cases db writes _ existing with
      ⟨event, wanted, effect, asked, there, pair⟩ | ⟨effect, ⟨event, there⟩, own, pair, desired⟩
    · exact left event effect there pair fun unasked => nomatch asked.symm.trans unasked
    · refine left event effect there pair fun _ => ⟨own, ?_⟩
      exact Bool.eq_false_of_not_eq_true fun appended => absent (desired appended)
  · obtain ⟨desired, absent⟩ := List.mem_filter.mp gained
    have absent := of_decide_eq_true absent
    obtain ⟨event, wanted, asked, pair⟩ := (mem_desiredPairs writes _).mp desired
    have changed := (get_changedEffects db writes event wanted).mpr ⟨asked, fun there =>
      absent (existing_of_event db writes event wanted wanted _ asked there pair)⟩
    exact .inr ⟨wanted, ⟨event, (current.get_flush event wanted).mpr (.inl asked)⟩,
      ((pairOf_some _ _ _).mp pair).1, affected_of_changed db writes event wanted changed⟩

def wantedTxs : List TxHash := writes.effects.entries.map fun entry => entry.2.txHash

theorem get_writeDirect (event : Int) (effect : Effect)
    (there : (writeDirect db writes).effects.get event = some effect) :
    db.effects.get event = some effect ∨ effect.txHash ∈ wantedTxs writes := by
  rcases get_insertAll db.effects _ event effect there with old | ⟨-, fresh⟩
  · exact .inl old
  · exact .inr (List.mem_map_of_mem (f := fun entry => entry.2.txHash) fresh)

/-- Rows written as they come leave the costs of their transactions to derive, and the gas of
the episodes in these. -/
theorem writeDirect_cover (exempt : EpisodeId → Prop)
    (named : ∀ effect id, (writeDirect db writes).Has effect → effect.episodeId = some id →
      effect.txHash ∈ wantedTxs writes → exempt id) :
    Cover (wantedTxs writes) exempt db (writeDirect db writes) := by
  have written : ∀ id, (writeDirect db writes).episodes.get id =
      (writes.episodes.get id).elim (db.episodes.get id) fun episode =>
        some (savedEpisode db id episode) :=
    get_saved (savedEpisode db) writes.episodes db.episodes
  refine ⟨rfl, ?_, ?_, ?_, ?_⟩
  · rintro effect ⟨event, there⟩ apart
    exact ⟨event, (get_writeDirect db writes event effect there).resolve_right apart⟩
  · intro effect _ _ id _ row address found owned
    rw [written]
    cases writes.episodes.get id with
    | none => exact ⟨row, found, owned⟩
    | some episode =>
      refine ⟨savedEpisode db id episode, rfl, ?_⟩
      show ((db.episodes.get id).bind fun row => row.episode.owner).or _ = _
      rw [found, Option.bind_some, owned]
      rfl
  · intro id bound
    ext tx
    rw [mem_txsOf, mem_txsOf]
    constructor
    · rintro ⟨effect, ⟨event, there⟩, belongs, rfl⟩
      refine ⟨effect, ⟨event, ?_⟩, belongs, rfl⟩
      exact (get_writeDirect db writes event effect there).resolve_right fun wanted =>
        bound (named effect id ⟨event, there⟩ belongs wanted)
    · rintro ⟨effect, ⟨event, there⟩, belongs, rfl⟩
      exact ⟨effect, ⟨event, get_insertAll_some _ _ event effect there⟩, belongs, rfl⟩
  · intro id _ row gas there known
    rw [written] at there
    cases saved : writes.episodes.get id with
    | none =>
      rw [saved] at there
      exact .inl ⟨row, there, known⟩
    | some episode =>
      rw [saved] at there
      obtain rfl := Option.some.inj there
      cases known

end

end RhPools.EpisodeReplays
