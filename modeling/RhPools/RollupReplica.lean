import Mathlib.Data.List.Sort
import RhPools.GuardedRuns
import RhPools.RollupJournal

/-! The replica an owner rollup is built from. It copies three tables a page at a time, each
page from a snapshot of its own, and then replays the journal from before the first page up to
a last snapshot. Only a journal page that is empty is taken as pruned. -/

namespace RhPools.RollupReplica
open OrderedTables ChangeLogs GuardedRuns RollupJournal

variable {Summary : Type}

def PAGE_ROWS : ℕ := 512

def LOWEST_ROWID : Int := -2 ^ 63

abbrev Tables := TableId → OrderedTable Value (List Value)

/-- `RollupReplica`. -/
structure Replica (Summary : Type) where
  tables : Tables
  bounds : Option (TableId → Int)
  table : ℕ
  cursor : Int
  through : ℕ
  indexed : Bool
  summary : Option Summary

def Replica.empty : Replica Summary where
  tables _ := .empty
  bounds := none
  table := 0
  cursor := LOWEST_ROWID
  through := 0
  indexed := false
  summary := none

inductive Fault where
  | behind | pruned
  deriving DecidableEq, Repr

/-- Where `synchronize` is; `taken` is the source in the snapshot that `target`, the epoch and
the financial state were read from. -/
inductive Phase (Summary : Type) where
  | idle
  | copying
  | replaying (taken : Source Summary)
  | returned (taken : Source Summary)
  | raised (fault : Fault)

structure State (Summary : Type) where
  source : Source Summary
  replica : Replica Summary
  phase : Phase Summary

def page (source : Source Summary) (table : TableId) (cursor bound : Int) :
    List (Int × SqlRow) :=
  (((source.tables table).rows.entries.filter fun entry : Int × SqlRow =>
    cursor ≤ entry.1 ∧ entry.1 ≤ bound).insertionSort fun entry later =>
      entry.1 ≤ later.1).take PAGE_ROWS

/-- `INSERT OR REPLACE`; the first column is the primary key. -/
def insertRow (tables : Tables) (table : TableId) (columns : List Value) : Tables :=
  Function.update tables table ((tables table).put (columns.headD .null) columns)

def insertPage (tables : Tables) (table : TableId) (rows : List (Int × SqlRow)) : Tables :=
  rows.foldl (fun tables entry => insertRow tables table (table.project entry.2)) tables

/-- Where an interruption falls inside a step: before the cursor, before the table or between
the table and the cursor of the next one. -/
inductive Cut where
  | written | moved | advanced
  deriving DecidableEq, Repr

def advance (state : State Summary) (replica : Replica Summary) (cut : Option Cut) :
    State Summary :=
  if cut = some .advanced then
    { state with replica := { replica with table := replica.table + 1 }, phase := .idle }
  else { state with replica := { replica with
    table := replica.table + 1, cursor := LOWEST_ROWID } }

def copyPage (state : State Summary) (table : TableId) (bound : Int) (cut : Option Cut) :
    State Summary :=
  let rows := page state.source table state.replica.cursor bound
  match rows.getLast? with
  | none => advance state state.replica cut
  | some last =>
    let copied := { state.replica with tables := insertPage state.replica.tables table rows }
    let moved := { copied with cursor := last.1 + 1 }
    if cut = some .written then { state with replica := copied, phase := .idle }
    else if cut = some .moved then { state with replica := moved, phase := .idle }
    else if last.1 + 1 > bound then advance state moved cut
    else { state with replica := moved }

def replayRow (tables : Tables) (row : JournalRow) : Tables :=
  match row.entry with
  | .deleted key => Function.update tables row.table ((tables row.table).erase key)
  | .written columns => insertRow tables row.table columns

def journalPage (state : State Summary) (target : ℕ) : List JournalRow :=
  (state.source.journal.between state.replica.through target).take PAGE_ROWS

def replayPage (state : State Summary) (target : ℕ) (interrupted : Bool) : State Summary :=
  let rows := journalPage state target
  match rows.getLast? with
  | none => { state with phase := .raised .pruned }
  | some last =>
    let replayed := { state.replica with tables := rows.foldl replayRow state.replica.tables }
    if interrupted then { state with replica := replayed, phase := .idle }
    else { state with replica := { replayed with through := last.sequence } }

/-! The system: transactions of the source between the reads of the replica. -/

inductive Action (Summary : Type) where
  | commit (writes : List (Write Summary))
  | acknowledge (through : Int)
  | release
  | prune (limit : ℕ)
  | call
  | interrupt
  | readBounds (interrupted : Bool)
  | copy (cut : Option Cut)
  | index
  | readTarget
  | replay (interrupted : Bool)
  | finish

def Phase.running : Phase Summary → Bool
  | .copying => true
  | .replaying _ => true
  | _ => false

def step (state : State Summary) : Action Summary → Option (State Summary)
  | .commit writes => (state.source.commit writes).map fun source => { state with source := source }
  | .acknowledge through =>
    some { state with source := { state.source with acknowledged := some through } }
  | .release => some { state with source := state.source.release }
  | .prune limit => some { state with source := state.source.prune limit }
  | .call => if state.phase.running then none else some { state with phase := .copying }
  | .interrupt => if state.phase.running then some { state with phase := .idle } else none
  | .readBounds interrupted =>
    match state.phase, state.replica.bounds with
    | .copying, none =>
      let replica := { state.replica with through := state.source.journal.sequence }
      if interrupted then some { state with replica := replica, phase := .idle }
      else some { state with
        replica := { replica with bounds := some (state.source.bounds) } }
    | _, _ => none
  | .copy cut =>
    match state.phase, state.replica.bounds, TABLES[state.replica.table]? with
    | .copying, some bounds, some table => some (copyPage state table (bounds table) cut)
    | _, _, _ => none
  | .index =>
    match state.phase, state.replica.bounds, TABLES[state.replica.table]? with
    | .copying, some _, none =>
      some { state with replica := { state.replica with indexed := true } }
    | _, _, _ => none
  | .readTarget =>
    match state.phase, state.replica.bounds, TABLES[state.replica.table]? with
    | .copying, some _, none =>
      if !state.replica.indexed then none
      else if state.source.journal.sequence < state.replica.through then
        some { state with phase := .raised .behind }
      else some { state with phase := .replaying state.source }
    | _, _, _ => none
  | .replay interrupted =>
    match state.phase with
    | .replaying taken =>
      if state.replica.through < taken.journal.sequence then
        some (replayPage state taken.journal.sequence interrupted)
      else none
    | _ => none
  | .finish =>
    match state.phase with
    | .replaying taken =>
      if state.replica.through < taken.journal.sequence then none
      else some { state with
        replica := { state.replica with summary := some taken.summary }
        phase := .returned taken }
    | _ => none

def synchronization : System (State Summary) (Action Summary) where
  start state := state.replica = .empty ∧ state.phase = .idle
  step := step

def image (tables : Tables) (place : Place) : Option (List Value) :=
  (tables place.1).get place.2

def Copied (replica : Replica Summary) (table : TableId) (rowid : Int) : Prop :=
  table.index < replica.table ∨ table.index = replica.table ∧ rowid < replica.cursor

def Pending (source : Source Summary) (replica : Replica Summary) (bounds : TableId → Int)
    (place : Place) : Prop :=
  ∃ rowid columns, source.image place = some (rowid, columns) ∧ rowid ≤ bounds place.1 ∧
    ¬Copied replica place.1 rowid

/-- While nothing it needs was pruned, the replica with the journal replayed has what the
source has, but for the rows it has not copied. -/
def Chases (source : Source Summary) (replica : Replica Summary) : Prop :=
  ∀ bounds, replica.bounds = some bounds → replica.through ≤ source.journal.sequence ∧
    (source.journal.floor ≤ replica.through →
      Follows (image replica.tables) (source.changes replica.through source.journal.sequence)
        source.projection (Pending source replica bounds))

theorem commit_chases (before after : Source Summary) (added : List JournalRow)
    (replica : Replica Summary) (advances : Advances before after added)
    (chases : Chases before replica) : Chases after replica := by
  intro bounds known
  obtain ⟨past, follows⟩ := chases bounds known
  have number := advances.sequence
  refine ⟨by omega, ?_⟩
  intro intact
  rw [advances_floor before after added advances] at intact
  have grown : after.changes replica.through after.journal.sequence =
      before.changes replica.through before.journal.sequence ++
        added.map JournalRow.change := by
    unfold Source.changes
    rw [between_appended before.journal after.journal added advances.rows advances.sequence
      replica.through past, List.map_append]
  rw [grown, advances.replayed]
  apply (follows intact).advance
  intro place untouched pending
  unfold Pending at pending ⊢
  rw [advances.still place untouched]
  exact pending

variable (source : Source Summary) (tables : Tables) (state : State Summary)
  (replica : Replica Summary)

theorem prune_chases (limit : ℕ) (chases : Chases source replica) :
    Chases (source.prune limit) replica := by
  unfold Source.prune
  split
  · exact chases
  · rename_i acknowledged _
    intro bounds known
    obtain ⟨past, follows⟩ := chases bounds known
    refine ⟨past, ?_⟩
    intro intact
    have before := follows ((prune_floor source.journal acknowledged limit).trans intact)
    unfold Source.changes at before ⊢
    rw [between_prune source.journal acknowledged limit _ _ intact]
    exact before

variable (table : TableId) (cursor bound : Int)

theorem mem_page (entry : Int × SqlRow) (member : entry ∈ page source table cursor bound) :
    entry ∈ (source.tables table).rows.entries ∧ cursor ≤ entry.1 ∧ entry.1 ≤ bound := by
  have inside := (List.mem_insertionSort _).mp (List.mem_of_mem_take member)
  rw [List.mem_filter, decide_eq_true_eq] at inside
  exact inside

theorem page_none (none : (page source table cursor bound).getLast? = none) (entry : Int × SqlRow)
    (member : entry ∈ (source.tables table).rows.entries) (from_ : cursor ≤ entry.1)
    (upTo : entry.1 ≤ bound) : False := by
  have empty := List.getLast?_eq_none_iff.mp none
  unfold page at empty
  have sorted := (List.take_eq_nil_iff.mp empty).resolve_left (by decide)
  have inside : entry ∈ (source.tables table).rows.entries.filter fun entry : Int × SqlRow =>
      cursor ≤ entry.1 ∧ entry.1 ≤ bound :=
    List.mem_filter.mpr ⟨member, decide_eq_true ⟨from_, upTo⟩⟩
  have listed := (List.mem_insertionSort fun entry later : Int × SqlRow =>
    entry.1 ≤ later.1).mpr inside
  rw [sorted] at listed
  exact List.not_mem_nil listed

theorem page_some (last : Int × SqlRow)
    (found : (page source table cursor bound).getLast? = some last) (entry : Int × SqlRow)
    (member : entry ∈ (source.tables table).rows.entries) (from_ : cursor ≤ entry.1)
    (upTo : entry.1 ≤ last.1) :
    entry ∈ page source table cursor bound := by
  have lastIn := mem_page source table cursor bound last (List.mem_of_getLast? found)
  have inside : entry ∈ (source.tables table).rows.entries.filter fun entry : Int × SqlRow =>
      cursor ≤ entry.1 ∧ entry.1 ≤ bound :=
    List.mem_filter.mpr ⟨member, decide_eq_true ⟨from_, upTo.trans lastIn.2.2⟩⟩
  have listed := (List.mem_insertionSort fun entry later : Int × SqlRow =>
    entry.1 ≤ later.1).mpr inside
  have sorted : (((source.tables table).rows.entries.filter fun entry : Int × SqlRow =>
      cursor ≤ entry.1 ∧ entry.1 ≤ bound).insertionSort fun entry later =>
        entry.1 ≤ later.1).Pairwise fun entry later => entry.1 ≤ later.1 := by
    have total : Std.Total fun entry later : Int × SqlRow => entry.1 ≤ later.1 :=
      ⟨fun entry later => Int.le_total entry.1 later.1⟩
    have transitive : IsTrans (Int × SqlRow) fun entry later => entry.1 ≤ later.1 :=
      ⟨fun _ _ _ first second => Int.le_trans first second⟩
    exact List.pairwise_insertionSort _ _
  unfold page at found ⊢
  rw [← List.take_append_drop PAGE_ROWS (List.insertionSort _ _)] at listed sorted
  rcases List.mem_append.mp listed with early | late
  · exact early
  · have beyond := (List.pairwise_append.mp sorted).2.2 last (List.mem_of_getLast? found)
      entry late
    have same : entry = last := by
      apply rows_inj (source.tables table) entry last member lastIn.1
      omega
    rw [same]
    exact List.mem_of_getLast? found

theorem image_insertRow (columns : List Value) :
    image (insertRow tables table columns) =
      apply (image tables) ⟨(table, columns.headD .null), some columns⟩ := by
  funext place
  obtain ⟨other, key⟩ := place
  unfold image insertRow apply
  dsimp only
  by_cases here : other = table
  · subst here
    rw [Function.update_self, get_put]
    by_cases same : key = columns.headD .null
    · rw [if_pos same, same, Function.update_self]
    · rw [if_neg same, Function.update_of_ne fun place => same (congrArg Prod.snd place)]
  · rw [Function.update_of_ne here,
      Function.update_of_ne fun same => here (congrArg Prod.fst same)]

theorem image_insertPage (rows : List (Int × SqlRow)) :
    image (insertPage tables table rows) = replay (image tables) (rows.map fun entry =>
      ⟨(table, table.key entry.2), some (table.project entry.2)⟩) := by
  unfold insertPage
  induction rows generalizing tables with
  | nil => rfl
  | cons entry rest ih =>
    rw [List.foldl_cons, ih, image_insertRow, project_head]
    rfl

theorem insertPage_follows (log : List (Change Place (List Value))) (rows : List (Int × SqlRow))
    (pending : Place → Prop) (current : ∀ entry ∈ rows, entry ∈ (source.tables table).rows.entries)
    (follows : Follows (image tables) log source.projection pending) :
    Follows (image (insertPage tables table rows)) log source.projection
      fun place => pending place ∧ ∀ entry ∈ rows, place ≠ (table, table.key entry.2) := by
  rw [image_insertPage]
  apply (follows.copied _ _).mono
  · rintro place ⟨waits, untouched⟩
    refine ⟨waits, ?_⟩
    rintro entry member rfl
    exact untouched ⟨_, List.mem_map_of_mem member, rfl⟩
  · intro change member
    obtain ⟨entry, listed, rfl⟩ := List.mem_map.mp member
    unfold Source.projection
    rw [(image_some source table _ entry.1 _).mpr ⟨entry.2, current entry listed, rfl, rfl⟩]
    rfl

theorem nextTable_chases (here : TABLES[replica.table]? = some table)
    (done : ∀ bounds, replica.bounds = some bounds →
      ∀ entry ∈ (source.tables table).rows.entries, entry.1 ≤ bounds table →
        entry.1 < replica.cursor) (chases : Chases source replica) :
    Chases source { replica with table := replica.table + 1, cursor := LOWEST_ROWID } := by
  intro bounds known
  obtain ⟨past, follows⟩ := chases bounds known
  refine ⟨past, ?_⟩
  intro intact
  apply (follows intact).mono
  rintro ⟨other, key⟩ ⟨rowid, columns, found, low, waits⟩
  refine ⟨rowid, columns, found, low, ?_⟩
  obtain ⟨row, member, -, -⟩ := (image_some source other key rowid columns).mp found
  have index := (tables_at replica.table table).mp here
  unfold Copied at waits ⊢
  dsimp only at waits low ⊢
  intro copied
  rcases copied with before | ⟨-, lower⟩
  · rcases Nat.lt_or_ge other.index replica.table with earlier | same
    · exact waits (Or.inl earlier)
    · have this : other = table := TableId.index_inj other table (by omega)
      subst this
      exact waits (Or.inr ⟨index, done bounds known (rowid, row) member low⟩)
  · have sits := ((source.tables other).sits (rowid, row) member).2.2.1
    unfold LOWEST_ROWID at lower
    dsimp only at sits
    omega

variable (bounds : TableId → Int) (cut : Option Cut)

theorem copyPage_chases (steady : cut ≠ some .advanced) (known : state.replica.bounds = some bounds)
    (here : TABLES[state.replica.table]? = some table) (chases : Chases state.source state.replica)
    :
    Chases state.source (copyPage state table (bounds table) cut).replica := by
  unfold copyPage
  dsimp only
  split
  · rename_i none
    unfold advance
    rw [if_neg steady]
    apply nextTable_chases state.source state.replica table here _ chases
    intro bounds' known' entry member low
    rw [known, Option.some.injEq] at known'
    subst known'
    rcases Int.lt_or_le entry.1 state.replica.cursor with less | more
    · exact less
    · exact (page_none state.source table _ _ none entry member more low).elim
  · rename_i last found
    have index := (tables_at _ _).mp here
    have rows := fun entry member =>
      (mem_page state.source table state.replica.cursor (bounds table) entry member).1
    -- what is pending once the page is in
    have beyond : ∀ place, Pending state.source state.replica bounds place →
        (∀ entry ∈ page state.source table state.replica.cursor (bounds table),
          place ≠ (table, table.key entry.2)) →
        ∃ rowid columns, state.source.image place = some (rowid, columns) ∧
          rowid ≤ bounds place.1 ∧ ¬Copied state.replica place.1 rowid ∧
          (place.1 = table → last.1 < rowid) := by
      rintro ⟨other, key⟩ ⟨rowid, columns, image, low, waits⟩ apart
      refine ⟨rowid, columns, image, low, waits, ?_⟩
      rintro rfl
      dsimp only at waits
      obtain ⟨row, member, keyed, -⟩ := (image_some state.source _ key rowid columns).mp image
      rcases Int.lt_or_le last.1 rowid with more | less
      · exact more
      · have after : state.replica.cursor ≤ rowid := by
          rcases Int.lt_or_le rowid state.replica.cursor with early | late
          · exact absurd (Or.inr ⟨index, early⟩) waits
          · exact late
        have inside := page_some state.source _ _ _ last found (rowid, row) member after less
        exact absurd (by rw [← keyed]) (apart _ inside)
    have copied : Chases state.source { state.replica with
        tables := insertPage state.replica.tables table
          (page state.source table state.replica.cursor (bounds table)) } := by
      intro bounds' known'
      have same := known.symm.trans known'
      rw [Option.some.injEq] at same
      subst same
      obtain ⟨past, follows⟩ := chases bounds known
      refine ⟨past, ?_⟩
      intro intact
      apply (insertPage_follows state.source state.replica.tables table _ _ _ rows
        (follows intact)).mono
      rintro place ⟨waits, -⟩
      exact waits
    have moved : Chases state.source { state.replica with
        tables := insertPage state.replica.tables table
          (page state.source table state.replica.cursor (bounds table))
        cursor := last.1 + 1 } := by
      intro bounds' known'
      have same := known.symm.trans known'
      rw [Option.some.injEq] at same
      subst same
      obtain ⟨past, follows⟩ := chases bounds known
      refine ⟨past, ?_⟩
      intro intact
      apply (insertPage_follows state.source state.replica.tables table _ _ _ rows
        (follows intact)).mono
      rintro place ⟨waits, apart⟩
      obtain ⟨rowid, columns, image, low, before, past⟩ := beyond place waits apart
      refine ⟨rowid, columns, image, low, ?_⟩
      rintro (earlier | ⟨same, lower⟩)
      · exact before (Or.inl earlier)
      · have this : place.1 = table :=
          TableId.index_inj place.1 table (same.trans index.symm)
        have higher := past this
        dsimp only at lower
        omega
    split
    · exact copied
    · split
      · exact moved
      · split
        · rename_i beyond
          unfold advance
          rw [if_neg steady]
          refine nextTable_chases state.source _ table ?_ ?_ moved
          · exact here
          · intro bounds' known' entry _ low
            have same := known.symm.trans known'
            rw [Option.some.injEq] at same
            subst same
            dsimp only
            omega
        · exact moved

theorem image_replayRow (row : JournalRow) :
    image (replayRow tables row) = apply (image tables) row.change := by
  unfold replayRow JournalRow.change
  cases row.entry with
  | written columns => exact image_insertRow tables row.table columns
  | deleted key =>
    funext place
    obtain ⟨other, here⟩ := place
    unfold image apply Entry.key Entry.image
    dsimp only
    by_cases same : other = row.table
    · rw [same, Function.update_self, get_erase]
      by_cases gone : here = key
      · rw [if_pos gone, gone, Function.update_self]
      · rw [if_neg gone, Function.update_of_ne fun place => gone (congrArg Prod.snd place)]
    · rw [Function.update_of_ne same,
        Function.update_of_ne fun place => same (congrArg Prod.fst place)]

theorem image_replayRows (rows : List JournalRow) :
    image (rows.foldl replayRow tables) = replay (image tables) (rows.map JournalRow.change) := by
  induction rows generalizing tables with
  | nil => rfl
  | cons row rest ih =>
    rw [List.foldl_cons, ih, image_replayRow]
    rfl

theorem changes_split (low middle high : ℕ) (first : low ≤ middle) (second : middle ≤ high) :
    source.changes low high = source.changes low middle ++ source.changes middle high := by
  unfold Source.changes
  rw [between_split source.journal low middle high first second, List.map_append]

structure Aims (source : Source Summary) (replica : Replica Summary) (taken : Source Summary) :
    Prop where
  began : replica.bounds ≠ none
  past : taken.journal.sequence ≤ source.journal.sequence
  before : replica.through ≤ taken.journal.sequence
  follows : min source.journal.floor taken.journal.sequence ≤ replica.through →
    Follows (image replica.tables) (source.changes replica.through taken.journal.sequence)
      taken.projection fun _ => False

structure Sound (state : State Summary) : Prop where
  blank : state.replica.bounds = none → (∀ place, image state.replica.tables place = none) ∧
    state.replica.table = 0 ∧ state.replica.cursor = LOWEST_ROWID
  chases : Chases state.source state.replica
  replaying : ∀ taken, state.phase = .replaying taken → Aims state.source state.replica taken
  returned : ∀ taken, state.phase = .returned taken →
    image state.replica.tables = taken.projection

theorem commit_sound (after : Source Summary) (added : List JournalRow)
    (advances : Advances state.source after added) (sound : Sound state) :
    Sound { state with source := after } where
  blank := sound.blank
  chases := commit_chases state.source after added state.replica advances sound.chases
  returned := sound.returned
  replaying := by
    intro taken here
    have aims := sound.replaying taken here
    have number := advances.sequence
    refine ⟨aims.began, aims.past.trans (by dsimp only; omega), aims.before, ?_⟩
    intro intact
    rw [advances_floor state.source after added advances] at intact
    have before := aims.follows intact
    unfold Source.changes at before ⊢
    dsimp only
    rw [between_append state.source.journal after.journal added advances.rows advances.sequence
      _ _ aims.past]
    exact before

theorem prune_sound (limit : ℕ) (sound : Sound state) :
    Sound { state with source := state.source.prune limit } where
  blank := sound.blank
  chases := prune_chases state.source state.replica limit sound.chases
  returned := sound.returned
  replaying := by
    intro taken here
    have aims := sound.replaying taken here
    dsimp only
    unfold Source.prune
    split
    · exact aims
    · rename_i acknowledged _
      refine ⟨aims.began, aims.past, aims.before, ?_⟩
      intro intact
      have lower := prune_floor state.source.journal acknowledged limit
      dsimp only at intact
      have before := aims.follows (by omega)
      rcases Nat.lt_or_ge state.replica.through taken.journal.sequence with short | done
      · unfold Source.changes at before ⊢
        dsimp only
        rw [between_prune state.source.journal acknowledged limit _ _ (by omega)]
        exact before
      · have same : state.replica.through = taken.journal.sequence :=
          Nat.le_antisymm aims.before done
        rw [same, changes_none] at before ⊢
        exact before

theorem phase_sound (phase : Phase Summary) (sound : Sound state)
    (free : phase = .idle ∨ phase = .copying ∨ ∃ fault, phase = .raised fault) :
    Sound { state with phase := phase } := by
  refine ⟨sound.blank, sound.chases, ?_, ?_⟩
  · rintro taken here
    dsimp only at here
    rcases free with rfl | rfl | ⟨fault, rfl⟩ <;> cases here
  · rintro taken here
    dsimp only at here
    rcases free with rfl | rfl | ⟨fault, rfl⟩ <;> cases here

theorem acknowledge_sound (acknowledged : Option Int) (sound : Sound state) :
    Sound { state with source := { state.source with acknowledged := acknowledged } } := by
  refine ⟨sound.blank, sound.chases, ?_, sound.returned⟩
  intro taken here
  have aims := sound.replaying taken here
  exact ⟨aims.began, aims.past, aims.before, aims.follows⟩

theorem max_rowid (rowids : List Int) (rowid : Int) (member : rowid ∈ rowids) :
    rowid ≤ maxRowid rowids := by
  unfold maxRowid
  cases largest : rowids.max? with
  | none => exact absurd (List.max?_eq_none_iff.mp largest ▸ member) List.not_mem_nil
  | some most => exact (List.max?_eq_some_iff.mp largest).2 rowid member

theorem bounds_chases (empty : ∀ place, image replica.tables place = none)
    (first : replica.table = 0) (lowest : replica.cursor = LOWEST_ROWID) :
    Chases source { replica with
      through := source.journal.sequence, bounds := some source.bounds } := by
  rintro bounds ⟨⟩
  refine ⟨le_rfl, ?_⟩
  intro _
  dsimp only
  rw [changes_none, show image replica.tables = fun _ => none from funext empty]
  apply (follows_empty source.projection).mono
  rintro ⟨table, key⟩ present
  unfold Source.projection at present
  have there : source.image (table, key) ≠ none := fun none => present (by rw [none]; rfl)
  obtain ⟨⟨rowid, columns⟩, found⟩ := Option.ne_none_iff_exists'.mp there
  obtain ⟨row, member, -, -⟩ := (image_some source table key rowid columns).mp found
  refine ⟨rowid, columns, found, ?_, ?_⟩
  · exact max_rowid _ rowid (List.mem_map_of_mem member)
  · have sits := ((source.tables table).sits (rowid, row) member).2.2.1
    rintro (earlier | ⟨-, lower⟩)
    · dsimp only at earlier
      omega
    · dsimp only at lower sits
      unfold LOWEST_ROWID at lowest
      omega

/-- What a run must keep to: a journal page starts right after what was replayed, unless it is
empty, and no interruption falls between a table and the cursor of the next. -/
def Steady (state : State Summary) : Action Summary → Prop
  | .replay _ =>
    match state.phase with
    | .replaying taken => ∀ first ∈ (journalPage state taken.journal.sequence).head?,
        first.sequence = state.replica.through + 1
    | _ => True
  | .copy cut => cut ≠ some .advanced
  | _ => True

instance (state : State Summary) : (action : Action Summary) → Decidable (Steady state action)
  | .replay _ =>
    match here : state.phase with
    | .replaying taken => decidable_of_iff (∀ first ∈
        (journalPage state taken.journal.sequence).head?,
          first.sequence = state.replica.through + 1) (by unfold Steady; rw [here])
    | .idle => .isTrue (by unfold Steady; rw [here]; trivial)
    | .copying => .isTrue (by unfold Steady; rw [here]; trivial)
    | .returned _ => .isTrue (by unfold Steady; rw [here]; trivial)
    | .raised _ => .isTrue (by unfold Steady; rw [here]; trivial)
  | .copy cut => inferInstanceAs (Decidable (cut ≠ some .advanced))
  | .commit _ => .isTrue trivial
  | .acknowledge _ => .isTrue trivial
  | .release => .isTrue trivial
  | .prune _ => .isTrue trivial
  | .call => .isTrue trivial
  | .interrupt => .isTrue trivial
  | .readBounds _ => .isTrue trivial
  | .index => .isTrue trivial
  | .readTarget => .isTrue trivial
  | .finish => .isTrue trivial

theorem steady_intact (target : ℕ) (last : JournalRow)
    (found : (journalPage state target).getLast? = some last)
    (starts : ∀ first ∈ (journalPage state target).head?,
      first.sequence = state.replica.through + 1) :
    state.source.journal.floor ≤ state.replica.through := by
  cases rows : journalPage state target with
  | nil =>
    rw [rows] at found
    cases found
  | cons first rest =>
    have number := starts first (by rw [rows]; rfl)
    have member : first ∈ journalPage state target := rows ▸ List.mem_cons_self
    have listed := (state.source.journal.mem_between _ _ first).mp
      (List.mem_of_mem_take member)
    have bounds := state.source.journal.number_bounds first listed.1
    omega

theorem replayPage_sound (taken : Source Summary) (interrupted : Bool) (sound : Sound state)
    (here : state.phase = .replaying taken)
    (starts : ∀ first ∈ (journalPage state taken.journal.sequence).head?,
      first.sequence = state.replica.through + 1) :
    Sound (replayPage state taken.journal.sequence interrupted) := by
  have aims := sound.replaying taken here
  unfold replayPage
  dsimp only
  split
  · exact phase_sound state _ sound (Or.inr (Or.inr ⟨_, rfl⟩))
  · rename_i last found
    have intact := steady_intact state _ last found starts
    obtain ⟨page, above, below⟩ := between_take state.source.journal _ _ PAGE_ROWS last found
    have replayed : image ((journalPage state taken.journal.sequence).foldl replayRow
        state.replica.tables) = replay (image state.replica.tables)
          (state.source.changes state.replica.through last.sequence) := by
      rw [image_replayRows]
      unfold journalPage
      rw [page]
      rfl
    have blank : state.replica.bounds = none → False := fun none => aims.began none
    split
    · constructor
      · intro none
        exact (blank none).elim
      · intro bounds known
        obtain ⟨past, follows⟩ := sound.chases bounds known
        refine ⟨past, ?_⟩
        intro _
        have before := follows intact
        dsimp only
        rw [replayed]
        rw [changes_split state.source _ last.sequence _ (Nat.le_of_lt above)
          (below.trans aims.past)] at before ⊢
        exact before.repeat
      · intro _ contrary
        cases contrary
      · intro _ contrary
        cases contrary
    · constructor
      · intro none
        exact (blank none).elim
      · intro bounds known
        obtain ⟨past, follows⟩ := sound.chases bounds known
        refine ⟨below.trans aims.past, ?_⟩
        intro _
        have before := follows intact
        dsimp only
        rw [replayed]
        rw [changes_split state.source _ last.sequence _ (Nat.le_of_lt above)
          (below.trans aims.past)] at before
        exact before.consume
      · intro other same
        have this : other = taken := by
          dsimp only at same
          rw [here] at same
          cases same
          rfl
        subst this
        refine ⟨aims.began, aims.past, below, ?_⟩
        intro _
        have before := aims.follows (by omega)
        dsimp only
        rw [replayed]
        rw [changes_split state.source _ last.sequence _ (Nat.le_of_lt above) below] at before
        exact before.consume
      · intro other same
        dsimp only at same
        rw [here] at same
        cases same

theorem advance_keeps :
    (advance state replica cut).source = state.source ∧
      (advance state replica cut).replica.bounds = replica.bounds ∧
      ((advance state replica cut).phase = state.phase ∨
        (advance state replica cut).phase = .idle) := by
  unfold advance
  split
  · exact ⟨rfl, rfl, Or.inr rfl⟩
  · exact ⟨rfl, rfl, Or.inl rfl⟩

theorem copyPage_keeps (bound : Int) (cut : Option Cut) :
    (copyPage state table bound cut).source = state.source ∧
      (copyPage state table bound cut).replica.bounds = state.replica.bounds ∧
      ((copyPage state table bound cut).phase = state.phase ∨
        (copyPage state table bound cut).phase = .idle) := by
  unfold copyPage
  dsimp only
  split
  · exact advance_keeps state state.replica cut
  · split
    · exact ⟨rfl, rfl, Or.inr rfl⟩
    · split
      · exact ⟨rfl, rfl, Or.inr rfl⟩
      · split
        · exact advance_keeps state _ cut
        · exact ⟨rfl, rfl, Or.inl rfl⟩

theorem copyPage_sound (steady : cut ≠ some .advanced) (copying : state.phase = .copying)
    (known : state.replica.bounds = some bounds) (here : TABLES[state.replica.table]? = some table)
    (sound : Sound state) :
    Sound (copyPage state table (bounds table) cut) := by
  obtain ⟨source, same, phase⟩ := copyPage_keeps state table (bounds table) cut
  rw [copying] at phase
  refine ⟨?_, ?_, ?_, ?_⟩
  · intro none
    rw [same, known] at none
    cases none
  · rw [source]
    exact copyPage_chases state table bounds cut steady known here sound.chases
  · intro _ contrary
    rcases phase with copying | idle
    · rw [copying] at contrary
      cases contrary
    · rw [idle] at contrary
      cases contrary
  · intro _ contrary
    rcases phase with copying | idle
    · rw [copying] at contrary
      cases contrary
    · rw [idle] at contrary
      cases contrary

theorem target_aims (known : replica.bounds = some bounds) (done : TABLES[replica.table]? = none)
    (chases : Chases source replica) :
    Aims source replica source := by
  obtain ⟨past, follows⟩ := chases bounds known
  refine ⟨by rw [known]; exact Option.some_ne_none bounds, le_rfl, past, ?_⟩
  intro intact
  have lower : source.journal.floor ≤ source.journal.sequence := Nat.sub_le _ _
  apply (follows (by omega)).mono
  rintro place ⟨rowid, columns, -, -, waits⟩
  exact waits (Or.inl (tables_end _ place.1 done))

theorem finish_settled (taken : Source Summary) (sound : Sound state)
    (here : state.phase = .replaying taken) (done : ¬state.replica.through < taken.journal.sequence)
    :
    image state.replica.tables = taken.projection := by
  have aims := sound.replaying taken here
  have same : state.replica.through = taken.journal.sequence :=
    Nat.le_antisymm aims.before (Nat.not_lt.mp done)
  have follows := aims.follows (by omega)
  rw [same, changes_none] at follows
  exact follows.settled

theorem step_sound (state next : State Summary) (action : Action Summary) (sound : Sound state)
    (steady : Steady state action) (stepped : step state action = some next) : Sound next := by
  cases action with
  | commit writes =>
    obtain ⟨after, committed, rfl⟩ := Option.map_eq_some_iff.mp stepped
    obtain ⟨added, advances⟩ := commit_advances state.source after writes committed
    exact commit_sound state after added advances sound
  | acknowledge through =>
    cases stepped
    exact acknowledge_sound state (some through) sound
  | release =>
    cases stepped
    unfold Source.release
    split <;> exact acknowledge_sound state _ sound
  | prune limit =>
    cases stepped
    exact prune_sound state limit sound
  | call =>
    simp only [step] at stepped
    split at stepped
    · cases stepped
    · cases stepped
      exact phase_sound state .copying sound (Or.inr (Or.inl rfl))
  | interrupt =>
    simp only [step] at stepped
    split at stepped
    · cases stepped
      exact phase_sound state .idle sound (Or.inl rfl)
    · cases stepped
  | readBounds interrupted =>
    simp only [step] at stepped
    split at stepped
    · rename_i copying none
      obtain ⟨empty, first, lowest⟩ := sound.blank none
      split at stepped
      · cases stepped
        refine ⟨fun _ => ⟨empty, first, lowest⟩, ?_, ?_, ?_⟩
        · intro bounds known
          dsimp only at known
          rw [none] at known
          cases known
        · intro _ contrary
          cases contrary
        · intro _ contrary
          cases contrary
      · cases stepped
        refine ⟨?_, bounds_chases state.source state.replica empty first lowest, ?_, ?_⟩
        · intro contrary
          cases contrary
        · intro _ contrary
          dsimp only at contrary
          rw [copying] at contrary
          cases contrary
        · intro _ contrary
          dsimp only at contrary
          rw [copying] at contrary
          cases contrary
    · cases stepped
  | copy cut =>
    simp only [step] at stepped
    split at stepped
    · rename_i bounds table copying known here
      cases stepped
      exact copyPage_sound state table bounds cut steady copying known here sound
    · cases stepped
  | index =>
    simp only [step] at stepped
    split at stepped
    · rename_i copying _ _
      cases stepped
      refine ⟨sound.blank, sound.chases, ?_, sound.returned⟩
      intro _ contrary
      dsimp only at contrary
      rw [copying] at contrary
      cases contrary
    · cases stepped
  | readTarget =>
    simp only [step] at stepped
    split at stepped
    · rename_i bounds copying known done
      split at stepped
      · cases stepped
      · split at stepped
        · cases stepped
          exact phase_sound state _ sound (Or.inr (Or.inr ⟨_, rfl⟩))
        · cases stepped
          refine ⟨sound.blank, sound.chases, ?_, ?_⟩
          · rintro _ ⟨⟩
            exact target_aims state.source state.replica bounds known done sound.chases
          · intro _ contrary
            cases contrary
    · cases stepped
  | replay interrupted =>
    simp only [step] at stepped
    split at stepped
    · rename_i taken here
      split at stepped
      · cases stepped
        unfold Steady at steady
        rw [here] at steady
        exact replayPage_sound state taken interrupted sound here steady
      · cases stepped
    · cases stepped
  | finish =>
    simp only [step] at stepped
    split at stepped
    · rename_i taken here
      split at stepped
      · cases stepped
      · rename_i done
        cases stepped
        refine ⟨sound.blank, sound.chases, ?_, ?_⟩
        · intro _ contrary
          cases contrary
        · rintro _ ⟨⟩
          exact finish_settled state taken sound here done
    · cases stepped

theorem run_sound (reached : (@synchronization Summary).Reaches Steady state) : Sound state := by
  apply System.Reaches.invariant Sound _ _ state reached
  · rintro state ⟨blank, idle⟩
    refine ⟨?_, ?_, ?_, ?_⟩
    · intro _
      rw [blank]
      exact ⟨fun _ => rfl, rfl, rfl⟩
    · intro bounds known
      rw [blank] at known
      cases known
    · intro _ contrary
      rw [idle] at contrary
      cases contrary
    · intro _ contrary
      rw [idle] at contrary
      cases contrary
  · intro state action next sound steady stepped
    exact step_sound state next action sound steady stepped

def Lost (state : State Summary) (taken : Source Summary) : Prop :=
  ∃ number, state.replica.through < number ∧ number ≤ taken.journal.sequence ∧
    ∀ row ∈ state.source.journal.rows, row.sequence ≠ number

/-- In a steady run, a replica whose `synchronize` returned is what its source was when the
target was read, and one that needs a pruned row raises. -/
theorem replica_converges (state : State Summary)
    (reached : (@synchronization Summary).Reaches Steady state) :
    (∀ taken, state.phase = .returned taken → ∀ table key,
      (state.replica.tables table).get key = taken.projection (table, key)) ∧
    ∀ taken interrupted next, state.phase = .replaying taken → Lost state taken →
      Steady state (.replay interrupted) → step state (.replay interrupted) = some next →
        next.phase = .raised .pruned := by
  have sound := run_sound state reached
  constructor
  · intro taken here table key
    exact congrFun (sound.returned taken here) (table, key)
  · intro taken interrupted next here lost steady stepped
    have aims := sound.replaying taken here
    unfold Steady at steady
    rw [here] at steady
    simp only [step, here] at stepped
    split at stepped
    · cases stepped
      unfold replayPage
      dsimp only
      split
      · rfl
      · rename_i last found
        obtain ⟨number, after, upTo, missing⟩ := lost
        have intact := steady_intact state _ last found steady
        obtain ⟨row, member, same⟩ := state.source.journal.has_number number (by omega)
          (upTo.trans aims.past)
        exact absurd same (missing row member)
    · cases stepped

/-! Two costs that are written while a replica of an empty source is built. -/

def Phase.taken : Phase Summary → Option (Source Summary)
  | .returned taken => some taken
  | _ => none

def emptyTable (table : TableId) : SourceTable table where
  rows := .empty
  keyed := by
    intro _ member
    cases member
  sits := by
    intro _ member
    cases member

def emptyJournal : Journal where
  rows := []
  sequence := 0
  counted := le_rfl
  numbered := by
    intro _ _ found
    cases found

def sampleStart : State Unit where
  source :=
    { tables := emptyTable
      journal := emptyJournal
      acknowledged := none
      summary := () }
  replica := .empty
  phase := .idle

def sampleCost (hash : String) : SqlRow := fun name =>
  if name = "tx_hash" then .text hash else .null

def sampleCopy : List (Action Unit) :=
  [.call, .readBounds false, .copy none, .copy none, .copy none, .index,
    .commit [.insert .txCosts 1 (sampleCost "first"), .insert .txCosts 2 (sampleCost "second")]]

theorem sample_copies : (synchronization.run sampleStart
    (sampleCopy ++ [.readTarget, .replay false, .finish])).isSome := by
  decide

def sampleState : State Unit :=
  (synchronization.run sampleStart
    (sampleCopy ++ [.readTarget, .replay false, .finish])).get sample_copies

theorem sample_steady : synchronization.Reaches Steady sampleState := by
  apply System.Reaches.run sampleStart sampleState (sampleCopy ++ [.readTarget, .replay false,
    .finish])
  · exact .start _ ⟨rfl, rfl⟩
  · decide
  · exact (Option.some_get sample_copies).symm

/-- With its journal whole, the replica has both costs. -/
theorem replica_converges_sample :
    (∀ taken, sampleState.phase = .returned taken → ∀ table key,
      (sampleState.replica.tables table).get key = taken.projection (table, key)) ∧
    ∀ taken interrupted next, sampleState.phase = .replaying taken → Lost sampleState taken →
      Steady sampleState (.replay interrupted) →
        step sampleState (.replay interrupted) = some next → next.phase = .raised .pruned :=
  replica_converges sampleState sample_steady

theorem sample_prunes : (synchronization.run sampleStart (sampleCopy ++
    [.acknowledge 1, .prune 4096, .readTarget, .replay false, .finish])).isSome := by
  decide

def prunedState : State Unit :=
  (synchronization.run sampleStart (sampleCopy ++
    [.acknowledge 1, .prune 4096, .readTarget, .replay false, .finish])).get sample_prunes

/-- With the first of two rows pruned, `synchronize` returns without the first cost. -/
theorem partial_prune_diverges : ¬∀ state : State Unit, synchronization.Reaches always state →
    ∀ taken, state.phase = .returned taken → ∀ table key,
      (state.replica.tables table).get key = taken.projection (table, key) := by
  intro claim
  have reached : synchronization.Reaches always prunedState := by
    apply System.Reaches.run sampleStart prunedState (sampleCopy ++
      [.acknowledge 1, .prune 4096, .readTarget, .replay false, .finish])
    · exact .start _ ⟨rfl, rfl⟩
    · exact System.runMeets_always _ _
    · exact (Option.some_get sample_prunes).symm
  have differs : prunedState.phase.taken.any fun taken =>
      (prunedState.replica.tables .txCosts).get (.text "first") ≠
        taken.projection (.txCosts, .text "first") := by
    decide +kernel
  obtain ⟨taken, here, apart⟩ := (Option.any_eq_true _ _).mp differs
  have returned : prunedState.phase = .returned taken := by
    cases phase : prunedState.phase with
    | returned other =>
      rw [phase] at here
      cases here
      rfl
    | idle =>
      rw [phase] at here
      cases here
    | copying =>
      rw [phase] at here
      cases here
    | replaying other =>
      rw [phase] at here
      cases here
    | raised fault =>
      rw [phase] at here
      cases here
  exact of_decide_eq_true apart (claim prunedState reached taken returned .txCosts (.text "first"))

end RhPools.RollupReplica
