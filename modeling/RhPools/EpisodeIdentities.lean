import RhPools.EpisodeOpenings
import RhPools.GuardedRuns

/-! The episodes of one position in the ledger while its events are applied, replayed and rolled
back. A rollback takes the rows of the position at once and leaves their identities for the next
replay, however many rollbacks come before it; a replay finds the identities in the rows or among
those that were left. -/

namespace RhPools.EpisodeIdentities
open OrderedTables ChangeLogs MarketTables PositionEvents PositionReplay EpisodeOpenings

instance (event : Event) : Decidable (Decoded event) :=
  inferInstanceAs (Decidable (_ ∧ _))

/-- The store has one row for a log, and a block has one log in a place. -/
def WellFormed (events : List Event) : Prop :=
  (events.map Event.id).Nodup ∧ (events.map Event.spot).Nodup ∧ ∀ event ∈ events, Decoded event

instance (events : List Event) : Decidable (WellFormed events) :=
  inferInstanceAs (Decidable (_ ∧ _ ∧ _))

structure Mapped where
  events : List Event
  wellFormed : WellFormed events

def Mapped.empty : Mapped := ⟨[], by decide⟩

/-- A batch of `_apply`: events that are mapped to the position now, new ones or changed ones,
and events that no longer are. -/
def Mapped.apply (mapped : Mapped) (batch : List Event) (unmapped : List EventId) :
    Option Mapped :=
  let events := (mapped.events.filter fun event =>
    event.id ∉ unmapped ∧ event.id ∉ batch.map Event.id) ++ batch
  if formed : WellFormed events then some ⟨events, formed⟩ else none

theorem WellFormed.filter {events : List Event} (formed : WellFormed events)
    (kept : Event → Bool) : WellFormed (events.filter kept) := by
  refine ⟨?_, ?_, ?_⟩
  · exact formed.1.sublist ((List.filter_sublist).map Event.id)
  · exact formed.2.1.sublist ((List.filter_sublist).map Event.spot)
  · exact fun event member => formed.2.2 event (List.mem_of_mem_filter member)

def Mapped.upTo (mapped : Mapped) (ancestor : Int) : Mapped :=
  ⟨mapped.events.filter fun event => event.spot.block ≤ ancestor, mapped.wellFormed.filter _⟩

structure Published where
  state : Position
  rows : OrderedTable RowKey Row

/-- A row of `lp_accounting_replay_identities`. -/
structure SavedIdentities where
  ordinal : Int
  episodes : List Tag

/-- What a replay that was prepared will delete and write; there is no state where the position
has no events. -/
structure Prepared where
  epoch : Nat
  state : Option Position
  stale : List RowKey
  changed : OrderedTable RowKey Row

structure Db where
  events : Mapped
  published : Option Published
  saved : Option SavedIdentities
  epoch : Nat
  prepared : Option Prepared

def rowsOf (published : Option Published) : OrderedTable RowKey Row :=
  published.elim .empty Published.rows

def episodeOf : Row → Option EpisodeRow
  | .episode row => some row
  | _ => none

/-- The rows of `lp_accounting_episodes`. -/
def episodesOf (published : Option Published) : List EpisodeRow :=
  (rowsOf published).entries.filterMap fun entry => episodeOf entry.2

def known (published : Option Published) (saved : Option SavedIdentities) : List Tag :=
  saved.elim [] SavedIdentities.episodes ++ (episodesOf published).map rowTag

def lookup (tags : List Tag) (spot : Spot) : Option (String × Int) :=
  (tags.reverse.find? fun tag => tag.spot = spot).map fun tag => (tag.id, tag.ordinal)

/-- `restore_episode_identity`. -/
def restoreIdentities (published : Option Published) (saved : Option SavedIdentities) :
    Identities where
  ids := lookup (known published saved)
  ordinal := ((episodesOf published).map EpisodeRow.ordinal).foldl max
    (max (published.elim 0 fun position => position.state.episodeOrdinal)
      (saved.elim 0 SavedIdentities.ordinal))

def save (table : OrderedTable RowKey Row) (saved : Saved) : OrderedTable RowKey Row :=
  (written saved).image.elim table (table.put (written saved).key)

def desiredRows (saved : List Saved) : OrderedTable RowKey Row := saved.foldl save .empty

/-- Mapped events without an effect; `elsewhere` tells of the effects of other positions. -/
def unprojected (mapped : Mapped) (published : Published) (elsewhere : EventId → Bool) :
    List Event :=
  mapped.events.filter fun event =>
    !elsewhere event.id && (published.rows.get (.effect event.id)).isNone

/-- `_append_position`, up to what it writes. -/
def appended (mapped : Mapped) (published : Published) (elsewhere : EventId → Bool)
    (pools : PoolId → Decimals) : Option (Position × List Saved) :=
  let events := unprojected mapped published elsewhere
  if events = [] ∨ events.any (fun event => meets published.state.lastSpot event.spot) then none
  else some (derive Identities.none.ids pools published.state (ordered events))

def rebuilt (key : String) (mapped : Mapped) (published : Option Published)
    (saved : Option SavedIdentities) (pools : PoolId → Decimals) :
    Option (Position × List Saved) :=
  match ordered mapped.events with
  | [] => none
  | first :: rest =>
    let identities := restoreIdentities published saved
    some (derive identities.ids pools (restored identities (newState key first)) (first :: rest))

def staleRows (appendOnly : Bool) (existing desired : OrderedTable RowKey Row) : List RowKey :=
  if appendOnly then []
  else (existing.entries.map Prod.fst).filter fun key => (desired.get key).isNone

def changedRows (existing desired : OrderedTable RowKey Row) : OrderedTable RowKey Row :=
  desired.remove fun key row => existing.get key = some row

/-- `_prepare_pending`; `append` is the flag of the position's place in the queue. -/
def prepare (key : String) (mapped : Mapped) (published : Option Published)
    (saved : Option SavedIdentities) (epoch : Nat) (append : Bool)
    (elsewhere : EventId → Bool) (pools : PoolId → Decimals) : Prepared :=
  let existing := rowsOf published
  match (if append then published else none).bind fun position =>
      appended mapped position elsewhere pools with
  | some (state, more) => ⟨epoch, some state, staleRows true existing (desiredRows more),
      changedRows existing (desiredRows more)⟩
  | none => match rebuilt key mapped published saved pools with
      | some (state, all) => ⟨epoch, some state, staleRows false existing (desiredRows all),
          changedRows existing (desiredRows all)⟩
      | none => ⟨epoch, none, staleRows false existing .empty, .empty⟩

/-- `flush`. -/
def flushRows (rows : OrderedTable RowKey Row) (stale : List RowKey)
    (changed : OrderedTable RowKey Row) : OrderedTable RowKey Row :=
  changed.entries.foldl (fun rows entry => rows.put entry.1 entry.2)
    (rows.remove fun key _ => key ∈ stale)

/-- `_publish_pending` of the replay that was prepared. -/
def publish (db : Db) (prepared : Prepared) : Db :=
  if prepared.epoch ≠ db.epoch then { db with prepared := none }
  else { db with
    published := prepared.state.map fun state =>
      Published.mk state (flushRows (rowsOf db.published) prepared.stale prepared.changed)
    saved := none
    prepared := none }

def lateEffect (ancestor : Int) : Row → Bool
  | .effect row => row.spot.block > ancestor
  | _ => false

def affected (db : Db) (ancestor : Int) : Bool :=
  db.events.events.any (fun event => event.spot.block > ancestor) ||
    (rowsOf db.published).entries.any (fun entry => lateEffect ancestor entry.2) ||
    db.published.any fun position => position.state.lastSpot.block > ancestor

/-- The identities that a rollback leaves; where there is no row for the position, those that an
earlier one has left. -/
def leave (db : Db) : Option SavedIdentities :=
  match db.published with
  | some position =>
    some ⟨position.state.episodeOrdinal, (episodesOf (some position)).map rowTag⟩
  | none => db.saved

/-- `_rollback_deferred`, and the store's rollback around it. -/
def rollback (db : Db) (ancestor : Int) : Db :=
  let cleared := if affected db ancestor then { db with published := none, saved := leave db }
    else db
  { cleared with events := db.events.upTo ancestor, epoch := db.epoch + 1 }

inductive Action where
  | apply (batch : List Event) (unmapped : List EventId)
  | prepare (append : Bool) (elsewhere : EventId → Bool) (pools : PoolId → Decimals)
  | publish
  | rollback (ancestor : Int)

/-- A position of the ledger. Publications of a position come one at a time: each is of the
replay that was prepared last. -/
def ledger (key : String) : GuardedRuns.System Db Action where
  start db := db.published = none ∧ db.saved = none ∧ db.prepared = none
  step db
    | .apply batch unmapped => (db.events.apply batch unmapped).map fun events =>
      { db with events := events }
    | .prepare append elsewhere pools =>
      let prepared := prepare key db.events db.published db.saved db.epoch append elsewhere pools
      some { db with prepared := some prepared }
    | .publish => db.prepared.map fun prepared => publish db prepared
    | .rollback ancestor => some (rollback db ancestor)

theorem get_save (table : OrderedTable RowKey Row) (saved : Saved) :
    (save table saved).get = apply table.get (written saved) := by
  funext key
  unfold save apply
  obtain ⟨row, found⟩ := Option.isSome_iff_exists.mp (written_some saved)
  rw [found, Option.elim_some, get_put, Function.update_apply]

theorem get_saves (saved : List Saved) (table : OrderedTable RowKey Row) :
    (saved.foldl save table).get = replay table.get (saved.map written) := by
  induction saved generalizing table with
  | nil => rfl
  | cons row rest ih =>
    rw [List.foldl_cons, ih, get_save]
    rfl

theorem get_desiredRows (saved : List Saved) : (desiredRows saved).get = desired saved :=
  get_saves saved .empty

theorem get_flushRows (existing wanted : OrderedTable RowKey Row) (appendOnly : Bool) :
    (flushRows existing (staleRows appendOnly existing wanted) (changedRows existing wanted)).get =
      flush appendOnly existing.get wanted.get := by
  funext key
  have rows := get_foldl (fun (rows : OrderedTable RowKey Row) entry => rows.put entry.1 entry.2)
    (fun _ _ row => some row) (fun table entry other => get_put table entry.1 other entry.2)
    (changedRows existing wanted)
    (existing.remove fun key _ => key ∈ staleRows appendOnly existing wanted) key
  unfold flushRows flush
  rw [rows, changedRows, get_remove, get_remove]
  cases found : wanted.get key with
  | some row =>
    have kept : key ∉ staleRows appendOnly existing wanted := by
      intro stale
      unfold staleRows at stale
      split at stale
      · cases stale
      · have absent := (List.mem_filter.mp stale).2
        rw [found] at absent
        cases absent
    by_cases same : existing.get key = some row
    · simp [same, kept, Option.filter_some]
    · simp [same, Option.filter_some]
  | none =>
    cases there : existing.get key with
    | none => simp
    | some row =>
      have member := List.mem_map_of_mem (f := Prod.fst) ((get_some existing key row).mp there)
      cases appendOnly with
      | true => simp [staleRows, Option.filter_some]
      | false =>
        have stale : key ∈ staleRows false existing wanted :=
          List.mem_filter.mpr ⟨member, by rw [found]; rfl⟩
        simp [stale, Option.filter_some]

theorem replay_source (state : Rows) (log : List (Change RowKey Row)) (key : RowKey) (row : Row)
    (found : replay state log key = some row) :
    state key = some row ∨ ⟨key, some row⟩ ∈ log := by
  induction log generalizing state with
  | nil => exact Or.inl found
  | cons change rest ih =>
    rcases ih (apply state change) found with early | late
    · unfold apply at early
      rw [Function.update_apply] at early
      split at early
      · next here =>
          right
          rw [here, ← early]
          exact List.mem_cons_self
      · exact Or.inl early
    · exact Or.inr (List.mem_cons_of_mem change late)

theorem mem_episodesOf (position : Published) (row : EpisodeRow) :
    row ∈ episodesOf (some position) ↔ ∃ key, position.rows.get key = some (.episode row) := by
  unfold episodesOf
  rw [List.mem_filterMap]
  constructor
  · rintro ⟨⟨key, found⟩, member, same⟩
    refine ⟨key, (get_some _ _ _).mpr ?_⟩
    cases found with
    | episode other =>
      cases same
      exact member
    | ownership interval => cases same
    | effect effect => cases same
  · rintro ⟨key, there⟩
    exact ⟨(key, .episode row), (get_some _ _ _).mp there, rfl⟩

structure Coherent (key : String) (top : Int) (tags : List Tag) : Prop where
  named : ∀ tag ∈ tags, tag.id = nameOf key tag.ordinal
  bound : ∀ tag ∈ tags, tag.ordinal ≤ top
  place : ∀ tag ∈ tags, ∀ other ∈ tags, tag.spot = other.spot → tag = other
  number : ∀ tag ∈ tags, ∀ other ∈ tags, tag.ordinal = other.ordinal → tag = other

variable {key : String}

theorem Coherent.mono {low high : Int} {tags more : List Tag} (coherent : Coherent key low more)
    (rises : low ≤ high) (within : ∀ tag ∈ tags, tag ∈ more) : Coherent key high tags where
  named tag member := coherent.named tag (within tag member)
  bound tag member := le_trans (coherent.bound tag (within tag member)) rises
  place tag member other among := coherent.place tag (within tag member) other (within other among)
  number tag member other among :=
    coherent.number tag (within tag member) other (within other among)

theorem lookup_some (tags : List Tag) (spot : Spot) (id : String) (ordinal : Int)
    (found : lookup tags spot = some (id, ordinal)) : ⟨id, ordinal, spot⟩ ∈ tags := by
  obtain ⟨tag, first, same⟩ := Option.map_eq_some_iff.mp found
  have here := List.find?_some first
  have member := List.mem_reverse.mp (List.mem_of_find?_eq_some first)
  rw [decide_eq_true_eq] at here
  cases same
  rw [← here]
  exact member

theorem lookup_none (tags : List Tag) (tag : Tag) (member : tag ∈ tags) :
    lookup tags tag.spot ≠ none := by
  intro absent
  rw [lookup, Option.map_eq_none_iff, List.find?_eq_none] at absent
  exact absent tag (List.mem_reverse.mpr member) (by simp)

/-- Identities that are given out beside those that are known: an old place is given the one
that is known for it. -/
theorem Coherent.issued {ids : Ids} {spots : List Spot} {low high : Int} {tags issued : List Tag}
    (coherent : Coherent key low tags) (issues : Issues ids key spots low high issued)
    (kept : ∀ spot id ordinal, ids spot = some (id, ordinal) → ⟨id, ordinal, spot⟩ ∈ tags)
    (again : ∀ tag ∈ issued, ids tag.spot = none → ∀ old ∈ tags, tag.spot ≠ old.spot) :
    Coherent key high (tags ++ issued) := by
  have old : ∀ tag ∈ issued, tag ∈ tags ∨ (ids tag.spot = none ∧
      tag.id = nameOf key tag.ordinal ∧ low < tag.ordinal ∧ tag.ordinal ≤ high) := by
    intro tag member
    rcases issues.origin tag member with found | fresh
    · exact Or.inl (kept _ _ _ found)
    · exact Or.inr fresh
  have either : ∀ tag ∈ tags ++ issued, tag ∈ tags ∨ (tag ∈ issued ∧ ids tag.spot = none ∧
      tag.id = nameOf key tag.ordinal ∧ low < tag.ordinal ∧ tag.ordinal ≤ high) := by
    intro tag member
    rcases List.mem_append.mp member with before | new
    · exact Or.inl before
    · rcases old tag new with before | fresh
      · exact Or.inl before
      · exact Or.inr ⟨new, fresh⟩
  constructor
  · intro tag member
    rcases either tag member with before | ⟨-, -, named, -, -⟩
    · exact coherent.named tag before
    · exact named
  · intro tag member
    rcases either tag member with before | ⟨-, -, -, -, under⟩
    · exact le_trans (coherent.bound tag before) issues.rises
    · exact under
  · intro tag member other among same
    rcases either tag member with before | ⟨new, fresh, -⟩
    · rcases either other among with before' | ⟨new', fresh', -⟩
      · exact coherent.place tag before other before' same
      · exact absurd same.symm (again other new' fresh' tag before)
    · rcases either other among with before' | ⟨new', -, -⟩
      · exact absurd same (again tag new fresh other before')
      · exact issues.place tag new other new' same
  · intro tag member other among same
    rcases either tag member with before | ⟨new, fresh, -, above, -⟩
    · rcases either other among with before' | ⟨-, -, -, above', -⟩
      · exact coherent.number tag before other before' same
      · exact absurd (coherent.bound tag before) (not_le.mpr (same ▸ above'))
    · rcases either other among with before' | ⟨new', fresh', -, -, -⟩
      · exact absurd (coherent.bound other before') (not_le.mpr (same ▸ above))
      · exact issues.number tag new other new' fresh fresh' same

structure Whole (key : String) (position : Published) : Prop where
  named : position.state.key = key
  keyed : ∀ rowKey row, position.rows.get rowKey = some (.episode row) → rowKey = .episode row.id
  coherent : Coherent key position.state.episodeOrdinal ((episodesOf (some position)).map rowTag)
  active : ∀ episode ∈ position.state.activeEpisode,
    tagOf episode ∈ (episodesOf (some position)).map rowTag
  placed : ∀ row ∈ episodesOf (some position),
    row.openedSpot.block ≤ position.state.lastSpot.block

structure Settled (key : String) (published : Option Published) (saved : Option SavedIdentities) :
    Prop where
  exclusive : published = none ∨ saved = none
  whole : ∀ position ∈ published, Whole key position
  left : ∀ identities ∈ saved, Coherent key identities.ordinal identities.episodes

theorem episodesOf_none : episodesOf none = [] := rfl

theorem foldl_max_base (ordinals : List Int) (base : Int) : base ≤ ordinals.foldl max base := by
  induction ordinals generalizing base with
  | nil => exact le_refl base
  | cons ordinal rest ih => exact le_trans (le_max_left base ordinal) (ih _)

theorem restore_known {published : Option Published} {saved : Option SavedIdentities}
    (settled : Settled key published saved) :
    Coherent key (restoreIdentities published saved).ordinal (known published saved) := by
  have above := foldl_max_base ((episodesOf published).map EpisodeRow.ordinal)
    (max (published.elim 0 fun position => position.state.episodeOrdinal)
      (saved.elim 0 SavedIdentities.ordinal))
  rcases settled.exclusive with absent | absent
  · subst absent
    cases saved with
    | none => exact ⟨by simp [known, episodesOf_none], by simp [known, episodesOf_none],
        by simp [known, episodesOf_none], by simp [known, episodesOf_none]⟩
    | some identities =>
      apply (settled.left identities rfl).mono
      · exact le_trans (le_max_right _ _) above
      · intro tag member
        simpa [known, episodesOf_none] using member
  · subst absent
    cases published with
    | none => exact ⟨by simp [known, episodesOf_none], by simp [known, episodesOf_none],
        by simp [known, episodesOf_none], by simp [known, episodesOf_none]⟩
    | some position =>
      apply (settled.whole position rfl).coherent.mono
      · exact le_trans (le_max_left _ _) above
      · intro tag member
        exact member

theorem written_whole (base : Rows) (tags : List Tag) (state : Position) (saved : List Saved)
    (rows : OrderedTable RowKey Row) (same : rows.get = replay base (saved.map written))
    (named : state.key = key) (coherent : Coherent key state.episodeOrdinal tags)
    (old : ∀ rowKey row, base rowKey = some (.episode row) → rowKey = .episode row.id ∧
      rowTag row ∈ tags ∧ row.openedSpot.block ≤ state.lastSpot.block)
    (new : ∀ episode, Saved.episode episode ∈ saved → tagOf episode ∈ tags ∧
      episode.openedSpot.block ≤ state.lastSpot.block)
    (last : ∀ episode ∈ state.activeEpisode, ∃ early, saved = early ++ [.episode episode]) :
    Whole key ⟨state, rows⟩ ∧ ∀ row ∈ episodesOf (some ⟨state, rows⟩), rowTag row ∈ tags := by
  have found : ∀ rowKey row, rows.get rowKey = some (.episode row) → rowKey = .episode row.id ∧
      rowTag row ∈ tags ∧ row.openedSpot.block ≤ state.lastSpot.block := by
    intro rowKey row there
    rw [same] at there
    rcases replay_source base _ rowKey _ there with before | change
    · exact old rowKey row before
    · obtain ⟨one, member, here⟩ := List.mem_map.mp change
      cases one with
      | episode episode =>
        cases here
        exact ⟨rfl, new episode member⟩
      | ownership interval => cases here
      | effect effect => cases here
  have listed : ∀ row ∈ episodesOf (some ⟨state, rows⟩),
      rowTag row ∈ tags ∧ row.openedSpot.block ≤ state.lastSpot.block := by
    intro row member
    obtain ⟨rowKey, there⟩ := (mem_episodesOf ⟨state, rows⟩ row).mp member
    exact (found rowKey row there).2
  refine ⟨⟨named, fun rowKey row there => (found rowKey row there).1, ?_, ?_, ?_⟩, ?_⟩
  · apply coherent.mono (le_refl _)
    intro tag member
    obtain ⟨row, inside, rfl⟩ := List.mem_map.mp member
    exact (listed row inside).1
  · intro episode active
    obtain ⟨early, split⟩ := last episode active
    refine List.mem_map.mpr ⟨episodeRow episode, ?_, rfl⟩
    refine (mem_episodesOf ⟨state, rows⟩ _).mpr ⟨.episode episode.id, ?_⟩
    rw [same, split, List.map_append, replay_append]
    exact Function.update_self _ _ _
  · exact fun row member => (listed row member).2
  · exact fun row member => (listed row member).1

theorem derive_last (ids : Ids) (pools : PoolId → Decimals) (state : Position)
    (events : List Event) (episode : Episode)
    (active : episode ∈ (derive ids pools state events).1.activeEpisode) :
    ∃ early, (derive ids pools state events).2 = early ++ [.episode episode] := by
  refine ⟨(processEvents ids pools state (preparedEvents [] events)).2, ?_⟩
  have final : (processEvents ids pools state (preparedEvents [] events)).1.activeEpisode =
      some episode := active
  change (processEvents ids pools state (preparedEvents [] events)).2 ++
    (processEvents ids pools state (preparedEvents [] events)).1.activeEpisode.toList.map
      Saved.episode = _
  rw [final]
  rfl

theorem derive_whole (ids : Ids) (pools : PoolId → Decimals) (begun : Position)
    (events : List Event) (tags : List Tag) (base : Rows) (rows : OrderedTable RowKey Row)
    (present : events ≠ [])
    (formed : WellFormed events) (sorted : ordered events = events)
    (named : begun.key = key) (coherent : Coherent key begun.episodeOrdinal tags)
    (kept : ∀ spot id ordinal, ids spot = some (id, ordinal) → ⟨id, ordinal, spot⟩ ∈ tags)
    (again : ∀ event ∈ events, ids event.spot = none → ∀ old ∈ tags, event.spot ≠ old.spot)
    (past : Int) (early : ∀ last ∈ events.getLast?, past ≤ last.spot.block)
    (had : ∀ episode ∈ begun.activeEpisode, tagOf episode ∈ tags ∧
      episode.openedSpot.block ≤ past)
    (old : ∀ rowKey row, base rowKey = some (.episode row) → rowKey = .episode row.id ∧
      rowTag row ∈ tags ∧ row.openedSpot.block ≤ past)
    (same : rows.get = replay base ((derive ids pools begun events).2.map written)) :
    Whole key ⟨(derive ids pools begun events).1, rows⟩ ∧
      ∀ row ∈ episodesOf (some ⟨(derive ids pools begun events).1, rows⟩), ∀ tag ∈ tags,
        tag.spot = row.openedSpot → rowTag row = tag := by
  obtain ⟨key_same, issued, issues, shown⟩ :=
    derive_issues ids pools begun events formed.2.2 formed.2.1
  rw [named] at issues
  have all := coherent.issued issues kept (by
    intro tag member fresh before among
    obtain ⟨event, inside, here⟩ := List.mem_map.mp (issues.placed tag member)
    rw [← here] at fresh ⊢
    exact again event inside fresh before among)
  obtain ⟨last, here⟩ := Option.isSome_iff_exists.mp (List.getLast?_isSome.mpr present)
  have final := derive_lastSpot ids pools begun events last here
  have under : ∀ event ∈ events, event.spot.block ≤ last.spot.block := by
    intro event member
    apply blocks_le_last events
    · exact (ordered_mem events event).mpr member
    · rw [sorted]
      exact here
  have reached : past ≤ last.spot.block := early last here
  obtain ⟨whole, inside⟩ := written_whole base (tags ++ issued) (derive ids pools begun events).1
    (derive ids pools begun events).2 rows same (key_same.trans named) all
    (fun rowKey row there => by
      obtain ⟨keyed, tag, block⟩ := old rowKey row there
      rw [final]
      exact ⟨keyed, List.mem_append_left _ tag, le_trans block reached⟩)
    (fun episode saved => by
      rw [final]
      rcases shown episode (Or.inr saved) with ⟨before, active, alike⟩ | new
      · obtain ⟨tag, block⟩ := had before active
        rw [alike] at tag
        have spot : before.openedSpot = episode.openedSpot := congrArg Tag.spot alike
        rw [spot] at block
        exact ⟨List.mem_append_left _ tag, le_trans block reached⟩
      · obtain ⟨event, member, spot⟩ := List.mem_map.mp (issues.placed _ new)
        refine ⟨List.mem_append_right _ new, ?_⟩
        have opened : event.spot = episode.openedSpot := spot
        rw [← opened]
        exact under event member)
    (derive_last ids pools begun events)
  refine ⟨whole, ?_⟩
  intro row member tag among spot
  exact all.place _ (inside row member) tag (List.mem_append_left _ among) spot.symm

theorem ordered_formed {events : List Event} (formed : WellFormed events) :
    WellFormed (ordered events) := by
  have perm : (ordered events).Perm events := List.perm_insertionSort _ events
  refine ⟨?_, ?_, ?_⟩
  · exact (perm.map Event.id).nodup_iff.mpr formed.1
  · exact (perm.map Event.spot).nodup_iff.mpr formed.2.1
  · exact fun event member => formed.2.2 event (perm.mem_iff.mp member)

theorem ordered_ordered (events : List Event) : ordered (ordered events) = ordered events :=
  (List.pairwise_insertionSort _ events).insertionSort_eq

variable {published : Option Published} {saved : Option SavedIdentities}

def Follows (before : List Tag) (after : Published) : Prop :=
  ∀ row ∈ episodesOf (some after), ∀ tag ∈ before, tag.spot = row.openedSpot → rowTag row = tag

theorem rebuilt_whole (settled : Settled key published saved) (mapped : Mapped)
    (pools : PoolId → Decimals) (state : Position) (all : List Saved)
    (made : rebuilt key mapped published saved pools = some (state, all))
    (rows : OrderedTable RowKey Row)
    (same : rows.get = replay (fun _ => none) (all.map written)) :
    Whole key ⟨state, rows⟩ ∧ Follows (known published saved) ⟨state, rows⟩ := by
  have formed := ordered_formed mapped.wellFormed
  have sorted := ordered_ordered mapped.events
  unfold rebuilt at made
  cases split : ordered mapped.events with
  | nil =>
    rw [split] at made
    cases made
  | cons first rest =>
    rw [split] at made formed sorted
    dsimp only at made
    have derived := Option.some.inj made
    rw [Prod.ext_iff] at derived
    obtain ⟨rfl, rfl⟩ := derived
    refine derive_whole (lookup (known published saved)) pools _ (first :: rest)
      (known published saved) (fun _ => none) rows (List.cons_ne_nil _ _) formed sorted rfl
      ((restore_known settled).mono (le_max_right _ _) fun _ member => member)
      (lookup_some _) ?_ (((first :: rest).getLast (List.cons_ne_nil _ _)).spot.block) ?_ ?_ ?_
      same
    · intro event _ fresh old among spot
      rw [spot] at fresh
      exact lookup_none _ old among fresh
    · intro last here
      rw [List.getLast?_eq_some_getLast (List.cons_ne_nil _ _)] at here
      cases here
      exact le_refl _
    · intro episode active
      cases active
    · intro rowKey row there
      cases there

theorem appended_whole {position : Published} (whole : Whole key position) (mapped : Mapped)
    (elsewhere : EventId → Bool) (pools : PoolId → Decimals) (state : Position)
    (more : List Saved) (made : appended mapped position elsewhere pools = some (state, more))
    (rows : OrderedTable RowKey Row)
    (same : rows.get = replay position.rows.get (more.map written)) :
    Whole key ⟨state, rows⟩ ∧ Follows (known (some position) none) ⟨state, rows⟩ := by
  unfold appended at made
  dsimp only at made
  split at made
  · cases made
  · next guard =>
      rw [not_or, Bool.not_eq_true, List.any_eq_false] at guard
      obtain ⟨present, apart⟩ := guard
      have derived := Option.some.inj made
      rw [Prod.ext_iff] at derived
      obtain ⟨rfl, rfl⟩ := derived
      have later : ∀ event ∈ ordered (unprojected mapped position elsewhere),
          position.state.lastSpot.block < event.spot.block := by
        intro event member
        apply meets_false
        rw [← Bool.not_eq_true]
        exact apart event ((ordered_mem _ event).mp member)
      have below : ∀ tag ∈ (episodesOf (some position)).map rowTag,
          tag.spot.block ≤ position.state.lastSpot.block := by
        intro tag member
        obtain ⟨row, inside, rfl⟩ := List.mem_map.mp member
        exact whole.placed row inside
      refine derive_whole Identities.none.ids pools position.state _
        (known (some position) none) position.rows.get rows ?_
        (ordered_formed (mapped.wellFormed.filter _)) (ordered_ordered _) whole.named
        whole.coherent ?_ ?_ position.state.lastSpot.block ?_ ?_ ?_ same
      · intro empty
        obtain ⟨event, member⟩ := List.exists_mem_of_ne_nil _ present
        rw [← ordered_mem, empty] at member
        cases member
      · intro spot id ordinal found
        cases found
      · intro event member _ old among spot
        have block := below old among
        rw [← spot] at block
        exact absurd (later event member) (not_lt.mpr block)
      · intro last here
        exact le_of_lt (later last (List.mem_of_getLast? here))
      · intro episode active
        have tag := whole.active episode active
        exact ⟨tag, below _ tag⟩
      · intro rowKey row there
        have inside := (mem_episodesOf position row).mpr ⟨rowKey, there⟩
        exact ⟨whole.keyed rowKey row there, List.mem_map_of_mem (f := rowTag) inside,
          whole.placed row inside⟩

theorem prepared_whole (settled : Settled key published saved) (mapped : Mapped) (epoch : Nat)
    (append : Bool) (elsewhere : EventId → Bool) (pools : PoolId → Decimals) (prepared : Prepared)
    (made : prepared = prepare key mapped published saved epoch append elsewhere pools)
    (state : Position) (known_state : prepared.state = some state) :
    Whole key ⟨state, flushRows (rowsOf published) prepared.stale prepared.changed⟩ ∧
      Follows (known published saved)
        ⟨state, flushRows (rowsOf published) prepared.stale prepared.changed⟩ := by
  subst made
  unfold prepare at known_state ⊢
  dsimp only at known_state ⊢
  split at known_state
  · next last more appends =>
      cases known_state
      obtain ⟨position, asked, made⟩ := Option.bind_eq_some_iff.mp appends
      split at asked
      · subst asked
        have whole := settled.whole position rfl
        have unsaved : saved = none := settled.exclusive.resolve_left (Option.some_ne_none position)
        subst unsaved
        apply appended_whole whole mapped elsewhere pools _ more made
        dsimp only
        rw [get_flushRows, get_desiredRows]
        exact flush_append position.rows.get more
      · cases asked
  · split at known_state
    · next last all made =>
        cases known_state
        apply rebuilt_whole settled mapped pools _ all made
        dsimp only
        rw [get_flushRows, flush_full, get_desiredRows]
        rfl
    · cases known_state

/-- Identities that agree, and a replay that is waiting was prepared on these tables or in an
earlier epoch. -/
structure Sound (key : String) (db : Db) : Prop where
  settled : Settled key db.published db.saved
  ahead : ∀ prepared ∈ db.prepared, prepared.epoch ≤ db.epoch
  current : ∀ prepared ∈ db.prepared, prepared.epoch = db.epoch →
    ∃ mapped append elsewhere pools, prepared =
      prepare key mapped db.published db.saved db.epoch append elsewhere pools

theorem prepare_epoch (mapped : Mapped) (epoch : Nat) (append : Bool)
    (elsewhere : EventId → Bool) (pools : PoolId → Decimals) :
    (prepare key mapped published saved epoch append elsewhere pools).epoch = epoch := by
  unfold prepare
  dsimp only
  split
  · rfl
  · split
    · rfl
    · rfl

theorem publish_settled (db : Db) (sound : Sound key db) (prepared : Prepared)
    (waiting : db.prepared = some prepared) (current : prepared.epoch = db.epoch) :
    Settled key (publish db prepared).published (publish db prepared).saved := by
  obtain ⟨mapped, append, elsewhere, pools, made⟩ := sound.current prepared waiting current
  unfold publish
  rw [if_neg (not_not.mpr current)]
  dsimp only
  refine ⟨Or.inr rfl, ?_, ?_⟩
  · intro position here
    obtain ⟨state, there, rfl⟩ := Option.map_eq_some_iff.mp here
    exact (prepared_whole sound.settled mapped db.epoch append elsewhere pools prepared made state
      there).1
  · intro identities here
    cases here

theorem rollback_known (db : Db) (ancestor : Int) (settled : Settled key db.published db.saved) :
    known (rollback db ancestor).published (rollback db ancestor).saved =
      known db.published db.saved := by
  unfold rollback
  dsimp only
  split
  · dsimp only
    unfold leave
    cases published : db.published with
    | none => rfl
    | some position =>
      have unsaved : db.saved = none := by
        rcases settled.exclusive with absent | absent
        · rw [published] at absent
          cases absent
        · exact absent
      rw [unsaved]
      exact List.append_nil _
  · rfl

theorem rollback_settled (db : Db) (ancestor : Int) (settled : Settled key db.published db.saved) :
    Settled key (rollback db ancestor).published (rollback db ancestor).saved := by
  unfold rollback
  dsimp only
  split
  · refine ⟨Or.inl rfl, ?_, ?_⟩
    · intro position here
      cases here
    · intro identities here
      dsimp only at here
      unfold leave at here
      split at here
      · next position published =>
          cases here
          exact (settled.whole position published).coherent
      · exact settled.left identities here
  · exact settled

theorem step_sound (db next : Db) (action : Action) (sound : Sound key db)
    (taken : (ledger key).step db action = some next) : Sound key next := by
  cases action with
  | apply batch unmapped =>
    obtain ⟨events, -, rfl⟩ := Option.map_eq_some_iff.mp taken
    exact ⟨sound.settled, sound.ahead, sound.current⟩
  | prepare append elsewhere pools =>
    cases taken
    refine ⟨sound.settled, ?_, ?_⟩
    · intro prepared here
      cases here
      exact le_of_eq (prepare_epoch _ _ _ _ _)
    · intro prepared here _
      cases here
      exact ⟨db.events, append, elsewhere, pools, rfl⟩
  | publish =>
    obtain ⟨prepared, waiting, rfl⟩ := Option.map_eq_some_iff.mp taken
    by_cases current : prepared.epoch = db.epoch
    · refine ⟨publish_settled db sound prepared waiting current, ?_, ?_⟩
      · unfold publish
        rw [if_neg (not_not.mpr current)]
        intro other here
        cases here
      · unfold publish
        rw [if_neg (not_not.mpr current)]
        intro other here
        cases here
    · unfold publish
      rw [if_pos current]
      refine ⟨sound.settled, ?_, ?_⟩
      · intro other here
        cases here
      · intro other here
        cases here
  | rollback ancestor =>
    cases taken
    have kept : (rollback db ancestor).prepared = db.prepared ∧
        (rollback db ancestor).epoch = db.epoch + 1 := by
      unfold rollback
      dsimp only
      split
      · exact ⟨rfl, rfl⟩
      · exact ⟨rfl, rfl⟩
    refine ⟨rollback_settled db ancestor sound.settled, ?_, ?_⟩
    · intro prepared here
      rw [kept.1] at here
      rw [kept.2]
      exact le_trans (sound.ahead prepared here) (Nat.le_succ _)
    · intro prepared here current
      rw [kept.1] at here
      rw [kept.2] at current
      exact absurd (sound.ahead prepared here) (by omega)

def Drops (spot : Spot) (db : Db) (action : Action) : Prop :=
  action = .publish ∧ ∃ prepared, db.prepared = some prepared ∧ prepared.epoch = db.epoch ∧
    ∀ row ∈ episodesOf (publish db prepared).published, row.openedSpot ≠ spot

theorem step_retains (db next : Db) (action : Action) (sound : Sound key db)
    (taken : (ledger key).step db action = some next) (tag : Tag)
    (retained : tag ∈ known db.published db.saved) :
    tag ∈ known next.published next.saved ∨ Drops tag.spot db action := by
  cases action with
  | apply batch unmapped =>
    obtain ⟨events, -, rfl⟩ := Option.map_eq_some_iff.mp taken
    exact Or.inl retained
  | prepare append elsewhere pools =>
    cases taken
    exact Or.inl retained
  | publish =>
    obtain ⟨prepared, waiting, rfl⟩ := Option.map_eq_some_iff.mp taken
    by_cases current : prepared.epoch = db.epoch
    · by_cases opens : ∀ row ∈ episodesOf (publish db prepared).published,
          row.openedSpot ≠ tag.spot
      · exact Or.inr ⟨rfl, prepared, waiting, current, opens⟩
      · left
        push Not at opens
        obtain ⟨row, member, spot⟩ := opens
        obtain ⟨mapped, append, elsewhere, pools, made⟩ := sound.current prepared waiting current
        unfold publish at member ⊢
        rw [if_neg (not_not.mpr current)] at member ⊢
        dsimp only at member ⊢
        cases there : prepared.state with
        | none =>
          rw [there] at member
          cases member
        | some state =>
          rw [there, Option.map_some] at member
          have follows := (prepared_whole sound.settled mapped db.epoch append elsewhere pools
            prepared made state there).2 row member tag retained spot.symm
          rw [← follows, Option.map_some]
          exact List.mem_append_right _ (List.mem_map_of_mem (f := rowTag) member)
    · left
      unfold publish
      rw [if_pos current]
      exact retained
  | rollback ancestor =>
    cases taken
    left
    rw [rollback_known db ancestor sound.settled]
    exact retained

theorem reached_sound (db : Db) (reached : (ledger key).Reaches GuardedRuns.always db) :
    Sound key db := by
  refine reached.invariant (Sound key) ?_ ?_
  · rintro db ⟨unpublished, unsaved, unprepared⟩
    refine ⟨⟨Or.inl unpublished, ?_, ?_⟩, ?_, ?_⟩
    · intro position here
      rw [unpublished] at here
      cases here
    · intro identities here
      rw [unsaved] at here
      cases here
    · intro prepared here
      rw [unprepared] at here
      cases here
    · intro prepared here
      rw [unprepared] at here
      cases here
  · exact fun db action next sound _ taken => step_sound db next action sound taken

theorem known_row (row : EpisodeRow) (member : row ∈ episodesOf published) :
    rowTag row ∈ known published saved :=
  List.mem_append_right _ (List.mem_map_of_mem (f := rowTag) member)

theorem episodes_distinct (position : Published) (whole : Whole key position) :
    (episodesOf (some position)).Pairwise fun row other =>
      row.id ≠ other.id ∧ row.ordinal ≠ other.ordinal := by
  have apart : position.rows.entries.Pairwise fun entry other => entry.1 ≠ other.1 :=
    List.pairwise_map.mp position.rows.distinct
  unfold episodesOf
  rw [List.pairwise_filterMap]
  apply List.Pairwise.imp_of_mem _ apart
  intro entry other member among apart row here second there
  have listed (entry : RowKey × Row) (row : EpisodeRow) (member : entry ∈ position.rows.entries)
      (here : episodeOf entry.2 = some row) : position.rows.get entry.1 = some (.episode row) := by
    obtain ⟨rowKey, found⟩ := entry
    cases found with
    | episode same =>
      cases here
      exact (get_some _ _ _).mpr member
    | ownership interval => cases here
    | effect effect => cases here
  have first := listed entry row member here
  have later := listed other second among there
  have ids : row.id ≠ second.id := by
    intro same
    apply apart
    rw [whole.keyed _ row first, whole.keyed _ second later, same]
  refine ⟨ids, ?_⟩
  intro same
  have tags := whole.coherent.number (rowTag row)
    (List.mem_map_of_mem ((mem_episodesOf position row).mpr ⟨_, first⟩)) (rowTag second)
    (List.mem_map_of_mem ((mem_episodesOf position second).mpr ⟨_, later⟩)) same
  exact ids (congrArg Tag.id tags)

/-- Episodes have different ids and ordinals, and an episode keeps its id from its first
publication on, over any run in which every replay that is published opens an episode there. -/
theorem episodes_keep_identities (key : String) (db : Db)
    (reached : (ledger key).Reaches GuardedRuns.always db) :
    ((episodesOf db.published).Pairwise fun row other =>
      row.id ≠ other.id ∧ row.ordinal ≠ other.ordinal) ∧
    ∀ row ∈ episodesOf db.published, ∀ actions last, (ledger key).run db actions = some last →
      (∀ later ∈ episodesOf last.published, later.openedSpot = row.openedSpot →
        later.id = row.id) ∨
      ∃ front action rest middle, actions = front ++ action :: rest ∧
        (ledger key).run db front = some middle ∧ Drops row.openedSpot middle action := by
  have sound := reached_sound db reached
  constructor
  · cases published : db.published with
    | none => exact List.Pairwise.nil
    | some position => exact episodes_distinct position (sound.settled.whole position published)
  · intro row member actions last ran
    have until_lost := (ledger key).keepsUntil
      (fun db => Sound key db ∧ rowTag row ∈ known db.published db.saved) (Drops row.openedSpot)
      (fun db action next taken held => by
        rcases step_retains db next action held.1 taken (rowTag row) held.2 with kept | lost
        · exact Or.inl ⟨step_sound db next action held.1 taken, kept⟩
        · exact Or.inr lost)
      db actions last ran ⟨sound, known_row row member⟩
    rcases until_lost with ⟨settled, kept⟩ | lost
    · left
      intro later among spot
      have same := (restore_known settled.settled).place (rowTag later)
        (known_row later among) (rowTag row) kept spot
      exact congrArg Tag.id same
    · exact Or.inr lost

def sampleSnapshot : Snapshot :=
  ⟨fun name => if name = "liquidity" then some (some 0) else none, some true⟩

def sampleBackfill : List Event :=
  [{ plainEvent .add 2 9 6 6 with
      id := 1, data := { plainData with positionBefore := some sampleSnapshot } },
    { plainEvent .remove 3 9 6 6 with id := 2 }, { plainEvent .collect 7 0 1 1 with id := 3 }]

/-- A deposit is replayed, an earlier one and its withdrawal are found, and the position is rolled
back twice before it is replayed again. -/
def sampleActions : List Action :=
  [.apply [plainEvent .add 5 7 5 5] [], .prepare true (fun _ => false) samplePools, .publish,
    .apply sampleBackfill [], .rollback 6, .rollback 5,
    .prepare false (fun _ => false) samplePools, .publish]

def sampleStart : Db := ⟨.empty, none, none, 0, none⟩

theorem sample_runs : ((ledger "position").run sampleStart sampleActions).isSome := by
  decide

def sampleDb : Db := ((ledger "position").run sampleStart sampleActions).get sample_runs

theorem sample_reached : (ledger "position").Reaches GuardedRuns.always sampleDb :=
  .run sampleStart sampleDb sampleActions (.start sampleStart ⟨rfl, rfl, rfl⟩)
    (GuardedRuns.System.runMeets_always sampleStart sampleActions)
    (Option.some_get sample_runs).symm

example : ((episodesOf sampleDb.published).map fun row => (row.id, row.openedSpot.block)) =
    [("position:2", 2), ("position:1", 5)] := by
  decide

theorem episodes_keep_identities_sample :
    ((episodesOf sampleDb.published).Pairwise fun row other =>
      row.id ≠ other.id ∧ row.ordinal ≠ other.ordinal) ∧
    ∀ row ∈ episodesOf sampleDb.published, ∀ actions last,
      (ledger "position").run sampleDb actions = some last →
      (∀ later ∈ episodesOf last.published, later.openedSpot = row.openedSpot →
        later.id = row.id) ∨
      ∃ front action rest middle, actions = front ++ action :: rest ∧
        (ledger "position").run sampleDb front = some middle ∧
        Drops row.openedSpot middle action :=
  episodes_keep_identities "position" sampleDb sample_reached

end RhPools.EpisodeIdentities
