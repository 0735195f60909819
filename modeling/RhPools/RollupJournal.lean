import Mathlib.Algebra.Group.Int.Defs
import Mathlib.Data.Rat.Defs
import RhPools.ChangeLogs
import RhPools.SqlTables

/-! The tables an owner rollup copies, and the journal their triggers keep. A change of a row
is logged with its key and its new image, a row that moved to another key as two changes; the
journal is cut from its old end. -/

namespace RhPools.RollupJournal
open OrderedTables ChangeLogs

inductive Value where
  | null
  | integer (value : Int)
  | real (value : ℚ)
  | text (value : String)
  deriving DecidableEq, Repr

abbrev SqlRow := String → Value

inductive TableId where
  | episodes | effects | txCosts
  deriving DecidableEq, Repr

/-- `_TABLES`. -/
def TableId.fields : TableId → List String
  | .episodes => ["id", "last_timestamp", "owner", "custody", "protocol", "pool_id",
      "position_key", "closed_at", "status", "gross_pnl_usd", "gas_usd", "history_complete",
      "fees_complete", "pricing_complete", "fees_usd", "deposit_usd", "proceeds_usd"]
  | .effects => ["event_id", "episode_id", "tx_hash"]
  | .txCosts => ["tx_hash", "owner", "gas_usd"]

def TABLES : List TableId := [.episodes, .effects, .txCosts]

def TableId.key (table : TableId) (row : SqlRow) : Value := row (table.fields.headD "")

def TableId.project (table : TableId) (row : SqlRow) : List Value := table.fields.map row

def TableId.index : TableId → ℕ
  | .episodes => 0
  | .effects => 1
  | .txCosts => 2

theorem tables_at (index : ℕ) (table : TableId) :
    TABLES[index]? = some table ↔ table.index = index := by
  unfold TABLES
  match index with
  | 0 => cases table <;> simp [TableId.index]
  | 1 => cases table <;> simp [TableId.index]
  | 2 => cases table <;> simp [TableId.index]
  | index + 3 => cases table <;> simp [TableId.index]

theorem tables_end (index : ℕ) (table : TableId) (last : TABLES[index]? = none) :
    table.index < index := by
  have short := List.getElem?_eq_none_iff.mp last
  have few : table.index < TABLES.length := by cases table <;> decide
  omega

theorem TableId.index_inj (table other : TableId) (same : table.index = other.index) :
    table = other := by
  cases table <;> cases other <;> first | rfl | cases same

theorem project_head (table : TableId) (row : SqlRow) :
    (table.project row).headD .null = table.key row := by
  cases table <;> rfl

/-- An integer primary key is the rowid; another one leaves it as it is. -/
def Value.place (rowid : Int) : Value → Int
  | .integer id => id
  | _ => rowid

def Sits (key : Value) (rowid : Int) : Prop :=
  key ≠ .null ∧ key.place rowid = rowid ∧ -2 ^ 63 ≤ rowid ∧ rowid < 2 ^ 63

instance (key : Value) (rowid : Int) : Decidable (Sits key rowid) :=
  inferInstanceAs (Decidable (key ≠ .null ∧ key.place rowid = rowid ∧ -2 ^ 63 ≤ rowid ∧
    rowid < 2 ^ 63))

structure SourceTable (table : TableId) where
  rows : OrderedTable Int SqlRow
  keyed : ∀ entry ∈ rows.entries, ∀ other ∈ rows.entries,
    table.key entry.2 = table.key other.2 → entry = other
  sits : ∀ entry ∈ rows.entries, Sits (table.key entry.2) entry.1

variable {table : TableId}

def SourceTable.locate (source : SourceTable table) (key : Value) : Option (Int × SqlRow) :=
  source.rows.entries.find? fun entry => table.key entry.2 = key

theorem locate_some (source : SourceTable table) (key : Value) (entry : Int × SqlRow) :
    source.locate key = some entry ↔ entry ∈ source.rows.entries ∧ table.key entry.2 = key := by
  constructor
  · intro found
    have same := List.find?_some found
    exact ⟨List.mem_of_find?_eq_some found, of_decide_eq_true same⟩
  · rintro ⟨member, same⟩
    cases found : source.locate key with
    | none =>
      have absent := List.find?_eq_none.mp found entry member
      exact absurd (decide_eq_true same) absent
    | some other =>
      have here := List.find?_some found
      rw [source.keyed other (List.mem_of_find?_eq_some found) entry member
        ((of_decide_eq_true here).trans same.symm)]

theorem rows_inj (source : SourceTable table) (entry other : Int × SqlRow)
    (member : entry ∈ source.rows.entries) (there : other ∈ source.rows.entries)
    (same : entry.1 = other.1) : entry = other := by
  have found := (get_some source.rows entry.1 entry.2).mpr member
  rw [same, (get_some source.rows other.1 other.2).mpr there, Option.some.injEq] at found
  exact Prod.ext same found.symm

def SourceTable.remove (source : SourceTable table) (rowid : Int) : SourceTable table where
  rows := source.rows.erase rowid
  keyed := by
    intro entry member other there
    exact source.keyed entry ((mem_erase _ _ _).mp member).1 other ((mem_erase _ _ _).mp there).1
  sits := by
    intro entry member
    exact source.sits entry ((mem_erase _ _ _).mp member).1

theorem locate_remove (source : SourceTable table) (rowid : Int) (key : Value) :
    (source.remove rowid).locate key = (source.locate key).filter fun entry => entry.1 ≠ rowid := by
  apply Option.ext
  intro entry
  rw [locate_some, Option.filter_eq_some_iff, locate_some, decide_eq_true_eq]
  have erased := mem_erase source.rows rowid entry
  exact ⟨fun ⟨member, same⟩ => ⟨⟨(erased.mp member).1, same⟩, (erased.mp member).2⟩,
    fun ⟨⟨member, same⟩, apart⟩ => ⟨erased.mpr ⟨member, apart⟩, same⟩⟩

def SourceTable.add (source : SourceTable table) (rowid : Int) (row : SqlRow) :
    Option (SourceTable table) :=
  if fits : Sits (table.key row) rowid ∧ source.rows.get rowid = none ∧
      source.locate (table.key row) = none then
    some {
      rows := source.rows.put rowid row
      keyed := by
        have fresh : ∀ entry ∈ source.rows.entries, table.key entry.2 ≠ table.key row := by
          intro entry member
          have absent := List.find?_eq_none.mp fits.2.2 entry member
          exact of_decide_eq_false (Bool.eq_false_iff.mpr absent)
        intro entry member other there same
        rcases (mem_put _ _ _ _).mp member with ⟨old, -⟩ | rfl <;>
          rcases (mem_put _ _ _ _).mp there with ⟨old', -⟩ | rfl
        · exact source.keyed entry old other old' same
        · exact absurd same (fresh entry old)
        · exact absurd same.symm (fresh other old')
        · rfl
      sits := by
        intro entry member
        rcases (mem_put _ _ _ _).mp member with ⟨old, -⟩ | rfl
        · exact source.sits entry old
        · exact fits.1 }
  else none

theorem locate_add (source after : SourceTable table) (rowid : Int) (row : SqlRow)
    (added : source.add rowid row = some after) (key : Value) :
    after.locate key =
      if key = table.key row then some (rowid, row) else source.locate key := by
  unfold SourceTable.add at added
  split at added
  · rename_i fits
    cases added
    apply Option.ext
    intro entry
    rw [locate_some]
    dsimp only
    rw [mem_put]
    have absent : ∀ other ∈ source.rows.entries, other.1 ≠ rowid :=
      (get_none _ _).mp fits.2.1
    by_cases here : key = table.key row
    · subst here
      rw [if_pos rfl, Option.some.injEq]
      constructor
      · rintro ⟨⟨old, -⟩ | rfl, same⟩
        · have missing := List.find?_eq_none.mp fits.2.2 entry old
          exact absurd (decide_eq_true same) missing
        · rfl
      · rintro rfl
        exact ⟨Or.inr rfl, rfl⟩
    · rw [if_neg here, locate_some]
      constructor
      · rintro ⟨⟨old, -⟩ | rfl, same⟩
        · exact ⟨old, same⟩
        · exact absurd same.symm here
      · rintro ⟨member, same⟩
        exact ⟨Or.inl ⟨member, absent entry member⟩, same⟩
  · cases added

/-- What a trigger logs: the key of a row that is gone, or the columns of one that was
written. The first column is the key. -/
inductive Entry where
  | deleted (key : Value)
  | written (columns : List Value)
  deriving DecidableEq, Repr

def Entry.key : Entry → Value
  | .deleted key => key
  | .written columns => columns.headD .null

def Entry.image : Entry → Option (List Value)
  | .deleted _ => none
  | .written columns => some columns

structure JournalRow where
  sequence : ℕ
  table : TableId
  entry : Entry
  deriving DecidableEq, Repr

structure Journal where
  rows : List JournalRow
  sequence : ℕ
  counted : rows.length ≤ sequence
  numbered : ∀ index row, rows[index]? = some row →
    row.sequence + rows.length = sequence + index + 1

def Journal.append (journal : Journal) (table : TableId) (entry : Entry) : Journal where
  rows := journal.rows ++ [⟨journal.sequence + 1, table, entry⟩]
  sequence := journal.sequence + 1
  counted := by
    rw [List.length_append, List.length_singleton]
    exact Nat.succ_le_succ journal.counted
  numbered := by
    intro index row found
    rw [List.length_append, List.length_singleton]
    rcases Nat.lt_or_ge index journal.rows.length with old | new
    · rw [List.getElem?_append_left old] at found
      have number := journal.numbered index row found
      omega
    · rw [List.getElem?_append_right new, List.getElem?_singleton] at found
      split at found
      · cases found
        dsimp only
        omega
      · cases found

def Journal.pruned (journal : Journal) (acknowledged : Int) (limit : ℕ) : ℕ :=
  ((journal.rows.takeWhile fun row => (row.sequence : Int) ≤ acknowledged).take limit).length

theorem pruned_le (journal : Journal) (acknowledged : Int) (limit : ℕ) :
    journal.pruned acknowledged limit ≤ journal.rows.length := by
  unfold Journal.pruned
  rw [List.length_take]
  exact (Nat.min_le_right _ _).trans (List.takeWhile_sublist _).length_le

/-- The first rows up to the acknowledged one, at most `limit`. -/
def Journal.prune (journal : Journal) (acknowledged : Int) (limit : ℕ) : Journal where
  rows := journal.rows.drop (journal.pruned acknowledged limit)
  sequence := journal.sequence
  counted := (List.drop_sublist _ _).length_le.trans journal.counted
  numbered := by
    intro index row found
    have short := pruned_le journal acknowledged limit
    rw [List.getElem?_drop] at found
    have number := journal.numbered _ row found
    have inside := (List.getElem?_eq_some_iff.mp found).1
    rw [List.length_drop]
    omega

def Journal.floor (journal : Journal) : ℕ := journal.sequence - journal.rows.length

theorem prune_floor (journal : Journal) (acknowledged : Int) (limit : ℕ) :
    journal.floor ≤ (journal.prune acknowledged limit).floor := by
  have short := pruned_le journal acknowledged limit
  have length : (journal.prune acknowledged limit).rows.length =
      journal.rows.length - journal.pruned acknowledged limit := List.length_drop
  have same : (journal.prune acknowledged limit).sequence = journal.sequence := rfl
  unfold Journal.floor
  omega

def Journal.between (journal : Journal) (low high : ℕ) : List JournalRow :=
  journal.rows.filter fun row => low < row.sequence ∧ row.sequence ≤ high

section Numbers

variable (journal : Journal)

theorem Journal.number_at (index : ℕ) (row : JournalRow)
    (found : journal.rows[index]? = some row) :
    row.sequence = journal.floor + index + 1 ∧ row.sequence ≤ journal.sequence := by
  have number := journal.numbered index row found
  have inside := (List.getElem?_eq_some_iff.mp found).1
  have counted := journal.counted
  unfold Journal.floor
  omega

theorem Journal.number_bounds (row : JournalRow) (member : row ∈ journal.rows) :
    journal.floor < row.sequence ∧ row.sequence ≤ journal.sequence := by
  obtain ⟨index, found⟩ := List.mem_iff_getElem?.mp member
  have number := journal.number_at index row found
  omega

theorem Journal.has_number (number : ℕ) (after : journal.floor < number)
    (last : number ≤ journal.sequence) : ∃ row ∈ journal.rows, row.sequence = number := by
  have counted := journal.counted
  unfold Journal.floor at after
  have inside : number - journal.floor - 1 < journal.rows.length := by
    unfold Journal.floor
    omega
  have found := List.getElem?_eq_getElem inside
  refine ⟨_, List.mem_of_getElem? found, ?_⟩
  have here := (journal.number_at _ _ found).1
  unfold Journal.floor at here
  unfold Journal.floor
  omega

theorem Journal.ordered :
    journal.rows.Pairwise fun row later => row.sequence < later.sequence := by
  apply List.pairwise_iff_getElem.mpr
  intro index later inside inside' before
  have first := (journal.number_at index _ (List.getElem?_eq_getElem inside)).1
  have second := (journal.number_at later _ (List.getElem?_eq_getElem inside')).1
  omega

theorem Journal.mem_between (low high : ℕ) (row : JournalRow) :
    row ∈ journal.between low high ↔
      row ∈ journal.rows ∧ low < row.sequence ∧ row.sequence ≤ high := by
  unfold Journal.between
  rw [List.mem_filter, decide_eq_true_eq]

theorem between_ordered (low high : ℕ) :
    (journal.between low high).Pairwise fun row later => row.sequence < later.sequence :=
  journal.ordered.sublist List.filter_sublist

theorem between_split (low middle high : ℕ) (first : low ≤ middle) (second : middle ≤ high) :
    journal.between low high = journal.between low middle ++ journal.between middle high := by
  have ordered := journal.ordered
  unfold Journal.between
  generalize journal.rows = rows at ordered ⊢
  induction rows with
  | nil => rfl
  | cons row rest ih =>
    obtain ⟨later, ordered⟩ := List.pairwise_cons.mp ordered
    rcases Nat.lt_or_ge middle row.sequence with above | below
    · have none : (row :: rest).filter (fun row => low < row.sequence ∧ row.sequence ≤ middle) =
          [] := by
        apply List.filter_eq_nil_iff.mpr
        intro other member
        rw [decide_eq_true_eq]
        rcases List.mem_cons.mp member with rfl | tail
        · omega
        · have more := later other tail
          omega
      rw [none, List.nil_append]
      apply List.filter_congr
      intro other member
      rcases List.mem_cons.mp member with rfl | tail
      · exact decide_eq_decide.mpr (by omega)
      · have more := later other tail
        exact decide_eq_decide.mpr (by omega)
    · have skipped : decide (middle < row.sequence ∧ row.sequence ≤ high) = false :=
        decide_eq_false (by omega)
      have same : decide (low < row.sequence ∧ row.sequence ≤ high) =
          decide (low < row.sequence ∧ row.sequence ≤ middle) := decide_eq_decide.mpr (by omega)
      simp only [List.filter_cons, ih ordered, skipped, same, Bool.false_eq_true, if_false]
      split
      · rw [List.cons_append]
      · rfl

theorem between_take (low high count : ℕ) (last : JournalRow)
    (found : ((journal.between low high).take count).getLast? = some last) :
    (journal.between low high).take count = journal.between low last.sequence ∧
      low < last.sequence ∧ last.sequence ≤ high := by
  have member := List.mem_of_mem_take (List.mem_of_getLast? found)
  obtain ⟨-, above, below⟩ := (journal.mem_between low high last).mp member
  refine ⟨?_, above, below⟩
  obtain ⟨front, split⟩ := List.getLast?_eq_some_iff.mp found
  have parts := List.take_append_drop count (journal.between low high)
  have ordered := between_ordered journal low high
  rw [← parts] at ordered
  obtain ⟨taken, -, crossing⟩ := List.pairwise_append.mp ordered
  rw [split] at taken
  have upTo : ∀ row ∈ (journal.between low high).take count,
      row.sequence ≤ last.sequence := by
    intro row inside
    rw [split] at inside
    rcases List.mem_append.mp inside with early | here
    · exact Nat.le_of_lt ((List.pairwise_append.mp taken).2.2 row early last
        (List.mem_singleton_self last))
    · rw [List.mem_singleton.mp here]
  have beyond : ∀ row ∈ (journal.between low high).drop count,
      last.sequence < row.sequence := by
    intro row inside
    exact crossing last (List.mem_of_getLast? found) row inside
  have same := between_split journal low last.sequence high (Nat.le_of_lt above) below
  have kept : (journal.between low high).filter (fun row => row.sequence ≤ last.sequence) =
      (journal.between low high).take count := by
    conv_lhs => rw [← parts]
    rw [List.filter_append, List.filter_eq_self.mpr fun row inside =>
      decide_eq_true (upTo row inside), List.filter_eq_nil_iff.mpr fun row inside =>
        by rw [decide_eq_true_eq]; exact Nat.not_le.mpr (beyond row inside), List.append_nil]
  rw [← kept]
  unfold Journal.between
  rw [List.filter_filter]
  apply List.filter_congr
  intro row _
  rw [← Bool.decide_and]
  exact decide_eq_decide.mpr (by omega)

end Numbers

theorem appended_number (before after : Journal) (added : List JournalRow)
    (rows : after.rows = before.rows ++ added)
    (sequence : after.sequence = before.sequence + added.length) (index : ℕ) (row : JournalRow)
    (found : added[index]? = some row) : row.sequence = before.sequence + index + 1 := by
  have there : after.rows[before.rows.length + index]? = some row := by
    rw [rows, List.getElem?_append_right (Nat.le_add_right _ _), Nat.add_sub_cancel_left]
    exact found
  have number := (after.number_at _ row there).1
  have counted := before.counted
  have length : after.rows.length = before.rows.length + added.length := by
    rw [rows, List.length_append]
  unfold Journal.floor at number
  omega

theorem between_append (before after : Journal) (added : List JournalRow)
    (rows : after.rows = before.rows ++ added)
    (sequence : after.sequence = before.sequence + added.length) (low high : ℕ)
    (past : high ≤ before.sequence) : after.between low high = before.between low high := by
  unfold Journal.between
  rw [rows, List.filter_append]
  suffices none : added.filter (fun row => low < row.sequence ∧ row.sequence ≤ high) = [] by
    rw [none, List.append_nil]
  apply List.filter_eq_nil_iff.mpr
  intro row member
  rw [decide_eq_true_eq]
  obtain ⟨index, found⟩ := List.mem_iff_getElem?.mp member
  have number := appended_number before after added rows sequence index row found
  omega

theorem between_appended (before after : Journal) (added : List JournalRow)
    (rows : after.rows = before.rows ++ added)
    (sequence : after.sequence = before.sequence + added.length) (low : ℕ)
    (past : low ≤ before.sequence) :
    after.between low after.sequence = before.between low before.sequence ++ added := by
  rw [between_split after low before.sequence after.sequence past (by omega),
    between_append before after added rows sequence low before.sequence le_rfl]
  congr 1
  have bounds : ∀ row ∈ added, before.sequence < row.sequence ∧ row.sequence ≤ after.sequence := by
    intro row member
    obtain ⟨index, found⟩ := List.mem_iff_getElem?.mp member
    have number := appended_number before after added rows sequence index row found
    have inside := (List.getElem?_eq_some_iff.mp found).1
    omega
  unfold Journal.between
  rw [rows, List.filter_append, List.filter_eq_self.mpr fun row member =>
    decide_eq_true (bounds row member), List.filter_eq_nil_iff.mpr, List.nil_append]
  intro row member
  have number := (before.number_bounds row member).2
  rw [decide_eq_true_eq]
  omega

theorem between_prune (journal : Journal) (acknowledged : Int) (limit low high : ℕ)
    (above : (journal.prune acknowledged limit).floor ≤ low) :
    (journal.prune acknowledged limit).between low high = journal.between low high := by
  have short := pruned_le journal acknowledged limit
  have counted := journal.counted
  unfold Journal.between
  conv_rhs => rw [← List.take_append_drop (journal.pruned acknowledged limit) journal.rows,
    List.filter_append]
  suffices none : (journal.rows.take (journal.pruned acknowledged limit)).filter
      (fun row => low < row.sequence ∧ row.sequence ≤ high) = [] by
    rw [none, List.nil_append]
    rfl
  apply List.filter_eq_nil_iff.mpr
  intro row member
  rw [decide_eq_true_eq]
  obtain ⟨index, found⟩ := List.mem_iff_getElem?.mp member
  have inside := (List.getElem?_eq_some_iff.mp found).1
  rw [List.length_take] at inside
  rw [List.getElem?_take_of_lt (by omega)] at found
  have number := (journal.number_at index row found).1
  have length : (journal.prune acknowledged limit).rows.length =
      journal.rows.length - journal.pruned acknowledged limit := List.length_drop
  have kept : (journal.prune acknowledged limit).sequence = journal.sequence := rfl
  unfold Journal.floor at above number
  omega

/-- `summary` is what else a replica reads: the epoch and the financial state. -/
structure Source (Summary : Type) where
  tables : (table : TableId) → SourceTable table
  journal : Journal
  acknowledged : Option Int
  summary : Summary

variable {Summary : Type}

/-- `SELECT COALESCE(MAX(rowid),0)`. -/
def maxRowid (rowids : List Int) : Int := rowids.max?.getD 0

def Source.bounds (source : Source Summary) (table : TableId) : Int :=
  maxRowid ((source.tables table).rows.entries.map Prod.fst)

def Source.delete (source : Source Summary) (table : TableId) (rowid : Int) : Source Summary :=
  match (source.tables table).rows.get rowid with
  | none => source
  | some row => { source with
      tables := Function.update source.tables table ((source.tables table).remove rowid)
      journal := source.journal.append table (.deleted (table.key row)) }

def Source.insert (source : Source Summary) (table : TableId) (rowid : Int) (row : SqlRow) :
    Option (Source Summary) :=
  ((source.tables table).add ((table.key row).place rowid) row).map fun added => { source with
    tables := Function.update source.tables table added
    journal := source.journal.append table (.written (table.project row)) }

def Journal.update (journal : Journal) (table : TableId) (old row : SqlRow) : Journal :=
  if table.project old = table.project row then journal
  else if table.key old = table.key row then journal.append table (.written (table.project row))
  else (journal.append table (.deleted (table.key old))).append table
    (.written (table.project row))

def Source.update (source : Source Summary) (table : TableId) (rowid : Int) (row : SqlRow) :
    Option (Source Summary) :=
  match (source.tables table).rows.get rowid with
  | none => some source
  | some old =>
    (((source.tables table).remove rowid).add ((table.key row).place rowid) row).map
      fun updated => { source with
        tables := Function.update source.tables table updated
        journal := source.journal.update table old row }

/-- `INSERT OR REPLACE`; with recursive triggers a row that is replaced is a row deleted. -/
def Source.replace (source : Source Summary) (table : TableId) (rowid : Int) (row : SqlRow) :
    Option (Source Summary) :=
  let vacated := source.delete table ((table.key row).place rowid)
  let freed := match (vacated.tables table).locate (table.key row) with
    | some entry => vacated.delete table entry.1
    | none => vacated
  freed.insert table rowid row

/-- One row that a statement writes; a row that another constraint replaces is a delete. -/
inductive Write (Summary : Type) where
  | insert (table : TableId) (rowid : Int) (row : SqlRow)
  | update (table : TableId) (rowid : Int) (row : SqlRow)
  | delete (table : TableId) (rowid : Int)
  | replace (table : TableId) (rowid : Int) (row : SqlRow)
  | elsewhere (summary : Summary)

def Source.perform (source : Source Summary) : Write Summary → Option (Source Summary)
  | .insert table rowid row => source.insert table rowid row
  | .update table rowid row => source.update table rowid row
  | .delete table rowid => some (source.delete table rowid)
  | .replace table rowid row => source.replace table rowid row
  | .elsewhere summary => some { source with summary := summary }

def Source.commit (source : Source Summary) (writes : List (Write Summary)) :
    Option (Source Summary) :=
  writes.foldlM Source.perform source

/-- `prune_journal`. -/
def Source.prune (source : Source Summary) (limit : ℕ) : Source Summary :=
  match source.acknowledged with
  | none => source
  | some acknowledged => { source with journal := source.journal.prune acknowledged limit }

/-- `release_journal`. -/
def Source.release (source : Source Summary) : Source Summary :=
  match source.acknowledged with
  | none => { source with acknowledged := some (source.journal.sequence : Int) }
  | some acknowledged =>
    { source with acknowledged := some (max acknowledged source.journal.sequence) }

abbrev Place := TableId × Value

def JournalRow.change (row : JournalRow) : Change Place (List Value) :=
  ⟨(row.table, row.entry.key), row.entry.image⟩

def SourceTable.image (source : SourceTable table) (key : Value) : Option (Int × List Value) :=
  (source.locate key).map fun entry => (entry.1, table.project entry.2)

def Source.image (source : Source Summary) (place : Place) : Option (Int × List Value) :=
  (source.tables place.1).image place.2

def Source.projection (source : Source Summary) (place : Place) : Option (List Value) :=
  (source.image place).map Prod.snd

theorem image_some (source : Source Summary) (table : TableId) (key : Value) (rowid : Int)
    (columns : List Value) : source.image (table, key) = some (rowid, columns) ↔
      ∃ row, (rowid, row) ∈ (source.tables table).rows.entries ∧ table.key row = key ∧
        table.project row = columns := by
  unfold Source.image SourceTable.image
  rw [Option.map_eq_some_iff]
  constructor
  · rintro ⟨⟨here, row⟩, found, same⟩
    obtain ⟨member, keyed⟩ := (locate_some _ _ _).mp found
    cases same
    exact ⟨row, member, keyed, rfl⟩
  · rintro ⟨row, member, keyed, rfl⟩
    exact ⟨(rowid, row), (locate_some _ _ _).mpr ⟨member, keyed⟩, rfl⟩

def Source.changes (source : Source Summary) (low high : ℕ) : List (Change Place (List Value)) :=
  (source.journal.between low high).map JournalRow.change

theorem changes_none (source : Source Summary) (low : ℕ) : source.changes low low = [] := by
  unfold Source.changes
  rw [List.map_eq_nil_iff, List.eq_nil_iff_forall_not_mem]
  intro row member
  have bounds := (source.journal.mem_between low low row).mp member
  omega

structure Advances (before after : Source Summary) (added : List JournalRow) : Prop where
  rows : after.journal.rows = before.journal.rows ++ added
  sequence : after.journal.sequence = before.journal.sequence + added.length
  changed : ∀ place, Touches (added.map JournalRow.change) place →
    after.projection place = replay before.projection (added.map JournalRow.change) place
  still : ∀ place, ¬Touches (added.map JournalRow.change) place →
    after.image place = before.image place

theorem Advances.replayed {before after : Source Summary} {added : List JournalRow}
    (advances : Advances before after added) :
    after.projection = replay before.projection (added.map JournalRow.change) := by
  funext place
  by_cases touched : Touches (added.map JournalRow.change) place
  · exact advances.changed place touched
  · rw [replay_untouched _ _ _ touched]
    unfold Source.projection
    rw [advances.still place touched]

theorem Advances.trans {first second third : Source Summary} {added more : List JournalRow}
    (earlier : Advances first second added) (later : Advances second third more) :
    Advances first third (added ++ more) where
  rows := by rw [later.rows, earlier.rows, List.append_assoc]
  sequence := by rw [later.sequence, earlier.sequence, List.length_append, Nat.add_assoc]
  changed place _ := by
    rw [later.replayed, earlier.replayed, List.map_append, replay_append]
  still place untouched := by
    rw [List.map_append, touches_append, not_or] at untouched
    rw [later.still place untouched.2, earlier.still place untouched.1]

theorem Advances.write {before : Source Summary} (table : TableId) (written : SourceTable table)
    (journal : Journal) (added : List JournalRow)
    (rows : journal.rows = before.journal.rows ++ added)
    (sequence : journal.sequence = before.journal.sequence + added.length)
    (here : ∀ row ∈ added, row.table = table)
    (changed : ∀ key, Touches (added.map JournalRow.change) (table, key) →
      (written.image key).map Prod.snd =
        replay before.projection (added.map JournalRow.change) (table, key))
    (still : ∀ key, ¬Touches (added.map JournalRow.change) (table, key) →
      written.image key = (before.tables table).image key) :
    Advances before { before with
      tables := Function.update before.tables table written, journal := journal } added where
  rows := rows
  sequence := sequence
  changed := by
    rintro ⟨other, key⟩ touched
    obtain ⟨change, member, place⟩ := touched
    obtain ⟨row, logged, rfl⟩ := List.mem_map.mp member
    have same : other = table := by
      rw [← here row logged]
      exact congrArg Prod.fst place.symm
    subst same
    unfold Source.projection Source.image
    dsimp only
    rw [Function.update_self]
    exact changed key ⟨_, member, place⟩
  still := by
    rintro ⟨other, key⟩ untouched
    unfold Source.image
    dsimp only
    by_cases same : other = table
    · subst same
      rw [Function.update_self]
      exact still key untouched
    · rw [Function.update_of_ne same]

theorem advances_floor (before after : Source Summary) (added : List JournalRow)
    (advances : Advances before after added) : after.journal.floor = before.journal.floor := by
  have length : after.journal.rows.length = before.journal.rows.length + added.length := by
    rw [advances.rows, List.length_append]
  have number := advances.sequence
  unfold Journal.floor
  omega

theorem image_remove (source : SourceTable table) (rowid : Int) (row : SqlRow)
    (found : source.rows.get rowid = some row) (key : Value) :
    (source.remove rowid).image key =
      if key = table.key row then none else source.image key := by
  have member := (get_some _ _ _).mp found
  unfold SourceTable.image
  rw [locate_remove]
  by_cases here : key = table.key row
  · rw [if_pos here, (locate_some source key (rowid, row)).mpr ⟨member, here.symm⟩,
      Option.filter_some, if_neg (by simp)]
    rfl
  · rw [if_neg here]
    congr 1
    cases other : source.locate key with
    | none => rfl
    | some entry =>
      obtain ⟨there, same⟩ := (locate_some source key entry).mp other
      have apart : entry.1 ≠ rowid := by
        intro rowids
        have again := (get_some source.rows rowid entry.2).mpr (by rw [← rowids]; exact there)
        rw [found, Option.some.injEq] at again
        exact here (by rw [again]; exact same.symm)
      rw [Option.filter_some, if_pos (decide_eq_true apart)]

theorem image_add (source after : SourceTable table) (rowid : Int) (row : SqlRow)
    (added : source.add rowid row = some after) (key : Value) :
    after.image key =
      if key = table.key row then some (rowid, table.project row) else source.image key := by
  unfold SourceTable.image
  rw [locate_add source after rowid row added key]
  split
  · rfl
  · rfl

theorem image_here (source : SourceTable table) (rowid : Int) (row : SqlRow)
    (found : source.rows.get rowid = some row) :
    source.image (table.key row) = some (rowid, table.project row) := by
  unfold SourceTable.image
  rw [(locate_some source _ (rowid, row)).mpr ⟨(get_some _ _ _).mp found, rfl⟩]
  rfl

theorem touches_nil (place : Place) :
    ¬Touches (([] : List JournalRow).map JournalRow.change) place := by
  rintro ⟨change, member, -⟩
  exact absurd member List.not_mem_nil

theorem Advances.same (before after : Source Summary) (tables : after.tables = before.tables)
    (journal : after.journal = before.journal) : Advances before after [] where
  rows := by rw [journal, List.append_nil]
  sequence := by rw [journal, List.length_nil, Nat.add_zero]
  changed place touched := absurd touched (touches_nil place)
  still place _ := by
    unfold Source.image
    rw [tables]

variable (state : Place → Option (List Value)) (number : ℕ)

theorem replay_one (entry : Entry) :
    replay state ([(⟨number, table, entry⟩ : JournalRow)].map JournalRow.change)
      (table, entry.key) = entry.image := by
  change Function.update state (table, entry.key) entry.image (table, entry.key) = entry.image
  rw [Function.update_self]

theorem touches_one (entry : Entry) (key : Value) :
    Touches ([(⟨number, table, entry⟩ : JournalRow)].map JournalRow.change) (table, key) ↔
      key = entry.key := by
  unfold Touches
  rw [List.map_singleton]
  constructor
  · rintro ⟨change, member, place⟩
    rw [List.mem_singleton.mp member] at place
    exact (congrArg Prod.snd place).symm
  · rintro rfl
    exact ⟨_, List.mem_singleton_self _, rfl⟩

theorem deleted_key (key : Value) : (Entry.deleted key).key = key := rfl

theorem written_key (row : SqlRow) : (Entry.written (table.project row)).key = table.key row :=
  project_head table row

theorem replay_deleted (key : Value) :
    replay state ([(⟨number, table, .deleted key⟩ : JournalRow)].map JournalRow.change)
      (table, key) = none :=
  replay_one state number (.deleted key)

theorem replay_written (row : SqlRow) :
    replay state ([(⟨number, table, .written (table.project row)⟩ : JournalRow)].map
      JournalRow.change) (table, table.key row) = some (table.project row) := by
  have written : replay state ([(⟨number, table, .written (table.project row)⟩ : JournalRow)].map
      JournalRow.change) _ = _ := replay_one state number (.written (table.project row))
  rw [written_key] at written
  exact written

theorem delete_advances (source : Source Summary) (table : TableId) (rowid : Int) :
    ∃ added, Advances source (source.delete table rowid) added := by
  unfold Source.delete
  split
  · exact ⟨[], .same _ _ rfl rfl⟩
  · rename_i row found
    refine ⟨[⟨source.journal.sequence + 1, table, .deleted (table.key row)⟩], ?_⟩
    have image := image_remove (source.tables table) rowid row found
    apply Advances.write table _ _ _ rfl rfl
    · intro logged member
      rw [List.mem_singleton.mp member]
    · intro key touched
      rw [touches_one, deleted_key] at touched
      rw [image, if_pos touched, touched, replay_deleted]
      rfl
    · intro key untouched
      rw [touches_one, deleted_key] at untouched
      rw [image, if_neg untouched]

variable (source after : Source Summary)

theorem insert_advances (table : TableId) (rowid : Int) (row : SqlRow)
    (inserted : source.insert table rowid row = some after) :
    ∃ added, Advances source after added := by
  obtain ⟨written, put, rfl⟩ := Option.map_eq_some_iff.mp inserted
  refine ⟨[⟨source.journal.sequence + 1, table, .written (table.project row)⟩], ?_⟩
  have image := image_add (source.tables table) written _ row put
  apply Advances.write table _ _ _ rfl rfl
  · intro logged member
    rw [List.mem_singleton.mp member]
  · intro key touched
    rw [touches_one, written_key] at touched
    rw [image, if_pos touched, touched, replay_written]
    rfl
  · intro key untouched
    rw [touches_one, written_key] at untouched
    rw [image, if_neg untouched]

theorem project_key (row other : SqlRow) (same : table.project row = table.project other) :
    table.key row = table.key other := by
  cases table <;> exact (List.cons.inj same).1

theorem update_advances (table : TableId) (rowid : Int) (row : SqlRow)
    (updated : source.update table rowid row = some after) :
    ∃ added, Advances source after added := by
  unfold Source.update at updated
  split at updated
  · cases updated
    exact ⟨[], .same _ _ rfl rfl⟩
  · rename_i old found
    obtain ⟨written, put, rfl⟩ := Option.map_eq_some_iff.mp updated
    have before := image_here (source.tables table) rowid old found
    have image : ∀ key, written.image key =
        if key = table.key row then some ((table.key row).place rowid, table.project row)
        else if key = table.key old then none else (source.tables table).image key := by
      intro key
      rw [image_add _ written _ row put key, image_remove _ rowid old found key]
    unfold Journal.update
    split
    · rename_i kept
      -- the columns stay, and with an integer key the rowid
      have same := project_key old row kept
      have placed := ((source.tables table).sits (rowid, old) ((get_some _ _ _).mp found)).2.1
      refine ⟨[], ?_⟩
      apply Advances.write table _ _ _ (List.append_nil _).symm rfl
      · intro logged member
        exact absurd member List.not_mem_nil
      · intro key touched
        exact absurd touched (touches_nil _)
      · intro key _
        rw [image]
        by_cases here : key = table.key row
        · rw [if_pos here, here, ← same, before, ← kept]
          exact congrArg some (Prod.ext placed rfl)
        · rw [if_neg here, if_neg (same ▸ here)]
    · split
      · rename_i same
        refine ⟨[⟨source.journal.sequence + 1, table, .written (table.project row)⟩], ?_⟩
        apply Advances.write table _ _ _ rfl rfl
        · intro logged member
          rw [List.mem_singleton.mp member]
        · intro key touched
          rw [touches_one, written_key] at touched
          rw [image, if_pos touched, touched, replay_written]
          rfl
        · intro key untouched
          rw [touches_one, written_key] at untouched
          rw [image, if_neg untouched, if_neg (same ▸ untouched)]
      · rename_i moved
        refine ⟨[⟨source.journal.sequence + 1, table, .deleted (table.key old)⟩] ++
          [⟨source.journal.sequence + 2, table, .written (table.project row)⟩], ?_⟩
        apply Advances.write table _ _ _ (List.append_assoc _ _ _) rfl
        · intro logged member
          rcases List.mem_append.mp member with first | second
          · rw [List.mem_singleton.mp first]
          · rw [List.mem_singleton.mp second]
        · intro key touched
          rw [List.map_append, touches_append, touches_one, touches_one, deleted_key,
            written_key] at touched
          rw [image, List.map_append, replay_append]
          by_cases here : key = table.key row
          · rw [if_pos here, here, replay_written]
            rfl
          · rw [if_neg here, if_pos (touched.resolve_right here),
              replay_untouched _ _ _ (by rw [touches_one, written_key]; exact here),
              touched.resolve_right here, replay_deleted]
            rfl
        · intro key untouched
          rw [List.map_append, touches_append, touches_one, touches_one, deleted_key,
            written_key, not_or] at untouched
          rw [image, if_neg untouched.2, if_neg untouched.1]

theorem replace_advances (table : TableId) (rowid : Int) (row : SqlRow)
    (replaced : source.replace table rowid row = some after) :
    ∃ added, Advances source after added := by
  unfold Source.replace at replaced
  dsimp only at replaced
  obtain ⟨first, vacated⟩ := delete_advances source table ((table.key row).place rowid)
  split at replaced
  · rename_i entry _
    obtain ⟨second, freed⟩ := delete_advances _ table entry.1
    obtain ⟨last, inserted⟩ := insert_advances _ after table rowid row replaced
    exact ⟨_, (vacated.trans freed).trans inserted⟩
  · obtain ⟨last, inserted⟩ := insert_advances _ after table rowid row replaced
    exact ⟨_, vacated.trans inserted⟩

theorem perform_advances (write : Write Summary) (performed : source.perform write = some after) :
    ∃ added, Advances source after added := by
  cases write with
  | insert table rowid row => exact insert_advances source after table rowid row performed
  | update table rowid row => exact update_advances source after table rowid row performed
  | delete table rowid =>
    cases performed
    exact delete_advances source table rowid
  | replace table rowid row => exact replace_advances source after table rowid row performed
  | elsewhere summary =>
    cases performed
    exact ⟨[], .same _ _ rfl rfl⟩

theorem commit_advances (writes : List (Write Summary))
    (committed : source.commit writes = some after) : ∃ added, Advances source after added := by
  unfold Source.commit at committed
  induction writes generalizing source with
  | nil =>
    cases committed
    exact ⟨[], .same _ _ rfl rfl⟩
  | cons write rest ih =>
    rw [List.foldlM_cons] at committed
    obtain ⟨middle, performed, remaining⟩ := Option.bind_eq_some_iff.mp committed
    obtain ⟨first, earlier⟩ := perform_advances source middle write performed
    obtain ⟨second, later⟩ := ih middle remaining
    exact ⟨first ++ second, earlier.trans later⟩

end RhPools.RollupJournal
