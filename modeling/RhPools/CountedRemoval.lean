import RhPools.SqlTables

/-! Taking items out of a list by how often a table counts them. A list that is made of
the counted items and of others keeps the others, whatever the order. -/

namespace RhPools.CountedRemoval
open OrderedTables

variable {Item : Type} [DecidableEq Item]

/-- `counts.get(item, 0)`. -/
def times (counts : OrderedTable Item Nat) (item : Item) : Nat := (counts.get item).getD 0

def count (counts : OrderedTable Item Nat) (item : Item) : OrderedTable Item Nat :=
  counts.assign item (times counts item + 1)

def spend (counts : OrderedTable Item Nat) (item : Item) : OrderedTable Item Nat :=
  counts.assign item (times counts item - 1)

def tally (items : List Item) : OrderedTable Item Nat := items.foldl count .empty

def unspent : OrderedTable Item Nat → List Item → List Item
  | _, [] => []
  | counts, item :: rest =>
    if 0 < times counts item then unspent (spend counts item) rest
    else item :: unspent counts rest

variable (items : List Item) (counts : OrderedTable Item Nat)

theorem times_assign (item other : Item) (number : Nat) :
    times (counts.assign item number) other =
      if other = item then number else times counts other := by
  unfold times
  rw [get_assign]
  by_cases same : other = item <;> simp [same]

theorem beq_apart {item other : Item} (apart : ¬item = other) : (other == item) = false :=
  beq_eq_false_iff_ne.mpr fun equal => apart equal.symm

theorem times_foldl (item : Item) :
    times (items.foldl count counts) item = times counts item + items.count item := by
  induction items generalizing counts with
  | nil => simp
  | cons first rest ih =>
    rw [List.foldl_cons, ih, count, times_assign, List.count_cons]
    by_cases same : item = first
    · simp only [same, if_true, beq_self_eq_true]
      omega
    · simp [same, beq_apart same]

theorem times_tally (item : Item) :
    times (tally items) item = items.count item := by
  have empty : times (.empty : OrderedTable Item Nat) item = 0 := rfl
  rw [tally, times_foldl, empty, Nat.zero_add]

theorem count_unspent (item : Item) :
    (unspent counts items).count item = items.count item - times counts item := by
  induction items generalizing counts with
  | nil => simp [unspent]
  | cons first rest ih =>
    rw [unspent, List.count_cons]
    by_cases counted : 0 < times counts first
    · rw [if_pos counted, ih, spend, times_assign]
      by_cases same : item = first
      · simp only [same, if_true, beq_self_eq_true]
        omega
      · simp [same, beq_apart same]
    · rw [if_neg counted, List.count_cons, ih]
      by_cases same : item = first
      · subst same
        simp only [beq_self_eq_true, if_true]
        omega
      · simp [beq_apart same]

/-- The scan goes by value, so it may drop other entries than the ones that were counted;
what is left has the same items. -/
theorem unspent_perm (all gone kept : List Item) (parts : all.Perm (gone ++ kept)) :
    (unspent (tally gone) all).Perm kept := by
  rw [List.perm_iff_count]
  intro item
  rw [count_unspent, times_tally, parts.count_eq, List.count_append]
  omega

theorem unspent_sublist :
    (unspent counts items).Sublist items := by
  induction items generalizing counts with
  | nil => exact List.Sublist.slnil
  | cons first rest ih =>
    rw [unspent]
    split
    · exact (ih _).cons first
    · exact (ih _).cons_cons first

theorem unspent_empty : unspent .empty items = items := by
  induction items with
  | nil => rfl
  | cons first rest ih =>
    have fresh : times (.empty : OrderedTable Item Nat) first = 0 := rfl
    rw [unspent, if_neg (by rw [fresh]; exact Nat.lt_irrefl 0), ih]

end RhPools.CountedRemoval
