import Mathlib.Algebra.BigOperators.Group.Finset.Piecewise
import Mathlib.Algebra.BigOperators.Group.Finset.Sigma
import RhPools.SqlTables

/-! Sums over the rows of a table, and over its groups of rows. -/

namespace RhPools.OrderedTables

variable {Key Value Amount : Type}

/-- `SUM`. -/
def OrderedTable.total [AddMonoid Amount] (table : OrderedTable Key Value)
    (amount : Value → Amount) : Amount :=
  (table.entries.map fun entry => amount entry.2).sum

/-- The `SUM` of one group of a `GROUP BY`; rows without a group are in none. -/
def OrderedTable.grouped {Group : Type} [DecidableEq Group] [AddMonoid Amount]
    (table : OrderedTable Key Value) (group : Value → Option Group) (amount : Value → Amount)
    (chosen : Group) : Amount :=
  table.total fun row => if group row = some chosen then amount row else 0

variable [DecidableEq Key] [AddCommMonoid Amount]

theorem entries_sum (table : OrderedTable Key Value) (amount : Value → Amount) (key : Key) :
    (table.entries.map fun entry => if entry.1 = key then amount entry.2 else 0).sum =
      (table.get key).elim 0 amount := by
  have each : (table.entries.map fun entry => if entry.1 = key then amount entry.2 else 0) =
      (table.entries.map Prod.fst).map fun other =>
        if other = key then (table.get other).elim 0 amount else 0 := by
    rw [List.map_map]
    apply List.map_congr_left
    intro entry member
    rw [Function.comp_apply, (get_some table entry.1 entry.2).mpr member, Option.elim_some]
  rw [each, ← List.sum_toFinset _ table.distinct, Finset.sum_ite_eq']
  split
  · rfl
  · rename_i absent
    rw [show (table.entries.map Prod.fst).toFinset = table.keys from rfl, mem_keys, not_not]
      at absent
    rw [absent, Option.elim_none]

end RhPools.OrderedTables
