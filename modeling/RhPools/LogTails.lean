import Mathlib.Data.List.Infix
import Mathlib.Data.List.Pairwise

/-! A log whose rows have rising keys and times that do not fall, and which grows at its end
only. It is read behind a cursor, a limited batch at a time, and searched for the first row
at or above a key. -/

namespace RhPools.LogTails

variable {Row : Type} (key time : Row → Int)

def Ordered (log : List Row) : Prop :=
  log.Pairwise fun left right => key left < key right ∧ time left ≤ time right

def above (log : List Row) (cursor : Int) : List Row := log.filter fun row => cursor < key row

def batch (log : List Row) (cursor : Int) (limit : Nat) : List Row := (above key log cursor).take limit

def firstFrom (log : List Row) (bound : Int) : Option Row := log.find? fun row => bound ≤ key row

variable {key time}

theorem mem_above {log : List Row} {cursor : Int} {row : Row} :
    row ∈ above key log cursor ↔ row ∈ log ∧ cursor < key row := by
  simp [above]

variable {log longer : List Row}

theorem above_front (grown : log <+: longer) (cursor : Int) :
    above key log cursor <+: above key longer cursor :=
  grown.filter _

theorem batch_front (grown : log <+: longer) (cursor : Int) (limit : Nat) :
    batch key log cursor limit <+: above key longer cursor :=
  (List.take_prefix limit _).trans (above_front grown cursor)

theorem Ordered.there (ordered : Ordered key time longer) (grown : log <+: longer) {old row : Row}
    (old_in : old ∈ log) (row_in : row ∈ longer) (before : key row ≤ key old) : row ∈ log := by
  obtain ⟨added, rfl⟩ := grown
  rcases List.mem_append.mp row_in with inside | outside
  · exact inside
  · have later := (List.pairwise_append.mp ordered).2.2 old old_in row outside
    omega

theorem Ordered.time_le {log : List Row} (ordered : Ordered key time log) {first second : Row}
    (first_in : first ∈ log) (second_in : second ∈ log) (before : key first ≤ key second) :
    time first ≤ time second := by
  induction log with
  | nil => cases first_in
  | cons head rest ih =>
    obtain ⟨ahead, ordered⟩ := List.pairwise_cons.mp ordered
    rcases List.mem_cons.mp first_in with rfl | first_rest
    · rcases List.mem_cons.mp second_in with rfl | second_rest
      · exact Int.le_refl _
      · exact (ahead second second_rest).2
    · rcases List.mem_cons.mp second_in with rfl | second_rest
      · have := (ahead first first_rest).1
        omega
      · exact ih ordered first_rest second_rest

/-- Reading a batch and moving the cursor to its last row reads exactly what the cursor passed. -/
theorem Ordered.above_next {log rows : List Row} {cursor : Int} {last : Row}
    (ordered : Ordered key time log) (read : rows <+: above key log cursor)
    (ends : rows.getLast? = some last) :
    above key log cursor = rows ++ above key log (key last) := by
  obtain ⟨rest, whole⟩ := read
  obtain ⟨before, rfl⟩ := List.getLast?_eq_some_iff.mp ends
  have last_in : last ∈ above key log cursor := by simp [← whole]
  have passed : cursor < key last := (mem_above.mp last_in).2
  -- what is behind the last row is behind the cursor too
  have again : above key log (key last) =
      (above key log cursor).filter fun row => key last < key row := by
    rw [above, above, List.filter_filter]
    refine List.filter_congr fun row _ => ?_
    rw [Bool.eq_iff_iff, Bool.and_eq_true, decide_eq_true_eq, decide_eq_true_eq]
    omega
  have arranged : (before ++ [last] ++ rest).Pairwise fun left right => key left < key right := by
    rw [whole]
    exact (List.Pairwise.imp And.left ordered).sublist List.filter_sublist
  obtain ⟨taken, -, apart⟩ := List.pairwise_append.mp arranged
  have none_left : (before ++ [last]).filter (fun row => key last < key row) = [] := by
    rw [List.filter_eq_nil_iff]
    intro row member
    rw [decide_eq_true_eq]
    rcases List.mem_append.mp member with inside | here
    · have := (List.pairwise_append.mp taken).2.2 row inside last (List.mem_singleton_self last)
      omega
    · rw [List.mem_singleton.mp here]
      omega
  have all_right : rest.filter (fun row => key last < key row) = rest := by
    rw [List.filter_eq_self]
    intro row member
    rw [decide_eq_true_eq]
    exact apart last (by simp) row member
  rw [again, ← whole, List.filter_append, none_left, all_right, List.nil_append]

theorem Ordered.old_below {bound since : Int} {first : Row} (ordered : Ordered key time longer)
    (grown : log <+: longer) (found : firstFrom key log bound = some first)
    (old : time first < since) {row : Row} (row_in : row ∈ longer) (below : key row ≤ bound) :
    time row < since := by
  have first_in : first ∈ log := List.mem_of_find?_eq_some found
  have reaches : bound ≤ key first := by simpa using List.find?_some found
  have := ordered.time_le row_in (grown.mem first_in) (Int.le_trans below reaches)
  omega

theorem Ordered.new_above {bound since : Int} {first : Row} (ordered : Ordered key time longer)
    (grown : log <+: longer) (found : firstFrom key log bound = some first)
    (new : since ≤ time first) {row : Row} (row_in : row ∈ longer) (reached : bound ≤ key row) :
    since ≤ time row := by
  have first_in : first ∈ log := List.mem_of_find?_eq_some found
  have ahead : key first ≤ key row := by
    by_contra before
    -- a row before the first one would be in the log and would have been found
    have row_there := ordered.there grown first_in row_in (by omega)
    obtain ⟨-, earlier, after, whole, missed⟩ := List.find?_eq_some_iff_append.mp found
    have arranged := List.pairwise_append.mp
      (whole ▸ (ordered.sublist grown.sublist : Ordered key time log))
    rw [whole] at row_there
    rcases List.mem_append.mp row_there with inside | inside
    · have := missed row inside
      simp [reached] at this
    · rcases List.mem_cons.mp inside with rfl | inside
      · omega
      · have := ((List.pairwise_cons.mp arranged.2.1).1 row inside).1
        omega
  have := ordered.time_le (grown.mem first_in) row_in ahead
  omega

end RhPools.LogTails
