import Mathlib.Data.List.Nodup

/-! A state seen as one cell under each key, and writes that change a cell by what stands in
it alone. What a list of writes does to a cell is the composite of its effects there, so a
repair is exact where, cell by cell, it either clears what it replays or leaves both alone. -/

namespace RhPools.LocalWrites

structure Local (State Key Cell Write : Type) where
  perform : State → Write → State
  view : State → Key → Cell
  effect : Write → Key → Cell → Cell
  apart : ∀ state write key,
    view (perform state write) key = effect write key (view state key)

variable {State Key Cell Write Item : Type} (table : Local State Key Cell Write)

def Local.run (state : State) (writes : List Write) : State := writes.foldl table.perform state

def Local.through (writes : List Write) (key : Key) (cell : Cell) : Cell :=
  writes.foldl (fun cell write => table.effect write key cell) cell

def Local.Quiet (key : Key) (write : Write) : Prop := ∀ cell, table.effect write key cell = cell

variable (writes : List Write)

theorem run_view (state : State) (key : Key) :
    table.view (table.run state writes) key = table.through writes key (table.view state key) := by
  induction writes generalizing state with
  | nil => rfl
  | cons write rest ih =>
    have after := ih (table.perform state write)
    rw [table.apart] at after
    exact after

theorem through_append (first second : List Write) (key : Key) (cell : Cell) :
    table.through (first ++ second) key cell =
      table.through second key (table.through first key cell) :=
  List.foldl_append

theorem through_quiet (key : Key) (cell : Cell) (quiet : ∀ write ∈ writes, table.Quiet key write) :
    table.through writes key cell = cell := by
  induction writes generalizing cell with
  | nil => rfl
  | cons write rest ih =>
    rw [Local.through, List.foldl_cons, quiet write List.mem_cons_self]
    exact ih cell fun other member => quiet other (List.mem_cons_of_mem write member)

theorem through_congr (writes others : Item → Write) (items : List Item) (key : Key) (cell : Cell)
    (same : ∀ item ∈ items, ∀ cell,
      table.effect (writes item) key cell = table.effect (others item) key cell) :
    table.through (items.map writes) key cell = table.through (items.map others) key cell := by
  induction items generalizing cell with
  | nil => rfl
  | cons item rest ih =>
    have later := ih (table.effect (writes item) key cell) fun other member =>
      same other (List.mem_cons_of_mem item member)
    rw [same item List.mem_cons_self] at later
    exact (congrArg (table.through (rest.map writes) key)
      (same item List.mem_cons_self cell)).trans later

theorem through_filter (writes : Item → Write) (chosen : Item → Bool) (items : List Item)
    (key : Key) (cell : Cell)
    (quiet : ∀ item ∈ items, chosen item = false → table.Quiet key (writes item)) :
    table.through (items.map writes) key cell =
      table.through ((items.filter chosen).map writes) key cell := by
  induction items generalizing cell with
  | nil => rfl
  | cons item rest ih =>
    have later := fun other member => quiet other (List.mem_cons_of_mem item member)
    cases taken : chosen item with
    | true =>
      rw [List.filter_cons_of_pos taken]
      exact ih (table.effect (writes item) key cell) later
    | false =>
      rw [List.filter_cons_of_neg (by simp [taken]), List.map_cons, Local.through,
        List.foldl_cons, quiet item List.mem_cons_self taken]
      exact ih cell later

theorem through_only [DecidableEq Item] (writes : Item → Write) (items : List Item)
    (distinct : items.Nodup) (item : Item) (key : Key) (cell : Cell)
    (quiet : ∀ other ∈ items, other ≠ item → table.Quiet key (writes other)) :
    table.through (items.map writes) key cell =
      if item ∈ items then table.effect (writes item) key cell else cell := by
  rw [through_filter table writes (· = item) items key cell fun other member apart =>
    quiet other member (of_decide_eq_false apart)]
  have left : items.filter (· = item) = if item ∈ items then [item] else [] := by
    rw [List.filter_eq]
    split
    · rename_i member
      rw [List.count_eq_one_of_mem distinct member, List.replicate_one]
    · rename_i missing
      rw [List.count_eq_zero_of_not_mem missing, List.replicate_zero]
  rw [left]
  split <;> rfl

theorem through_group [DecidableEq Item] (group : Item → List Write) (items : List Item)
    (distinct : items.Nodup) (item : Item) (key : Key) (cell : Cell)
    (quiet : ∀ other, other ≠ item → ∀ cell, table.through (group other) key cell = cell) :
    table.through (items.flatMap group) key cell =
      if item ∈ items then table.through (group item) key cell else cell := by
  induction items generalizing cell with
  | nil => rfl
  | cons first rest ih =>
    obtain ⟨fresh, distinct⟩ := List.nodup_cons.mp distinct
    rw [List.flatMap_cons, through_append, ih distinct]
    by_cases here : first = item
    · subst here
      rw [if_neg fresh, if_pos List.mem_cons_self]
    · rw [quiet first here]
      simp only [List.mem_cons, Ne.symm here, false_or]

theorem through_commute (write : Write) (key : Key) (cell : Cell)
    (commute : ∀ other ∈ writes, ∀ cell, table.effect write key (table.effect other key cell) =
      table.effect other key (table.effect write key cell)) :
    table.effect write key (table.through writes key cell) =
      table.through writes key (table.effect write key cell) := by
  induction writes generalizing cell with
  | nil => rfl
  | cons other rest ih =>
    have later := ih (table.effect other key cell) fun next member =>
      commute next (List.mem_cons_of_mem other member)
    rw [commute other List.mem_cons_self] at later
    exact later

theorem through_swap (first second : List Write) (key : Key) (cell : Cell)
    (commute : ∀ write ∈ first, ∀ other ∈ second, ∀ cell,
      table.effect write key (table.effect other key cell) =
        table.effect other key (table.effect write key cell)) :
    table.through (first ++ second) key cell = table.through (second ++ first) key cell := by
  induction first generalizing cell with
  | nil => rw [List.append_nil, List.nil_append]
  | cons write rest ih =>
    have later := ih (table.effect write key cell) fun other member =>
      commute other (List.mem_cons_of_mem write member)
    have passed := through_commute table second write key cell fun other member =>
      commute write List.mem_cons_self other member
    show table.through (rest ++ second) key (table.effect write key cell) = _
    rw [later, through_append, through_append, ← passed]
    rfl

/-- Where a repair leaves a cell alone, the old writes and the new ones must agree on it;
elsewhere it must make of any cell what the new writes make of an empty one. -/
theorem repair_exact (start state : State) (old new repair : List Write) (key : Key)
    (held : table.view state key = table.through old key (table.view start key))
    (exact_ : (∀ cell, table.through repair key cell =
        table.through new key (table.view start key)) ∨
      (∀ cell, table.through repair key cell = cell) ∧
        table.through old key (table.view start key) =
          table.through new key (table.view start key)) :
    table.view (table.run state repair) key = table.view (table.run start new) key := by
  rw [run_view, run_view]
  rcases exact_ with replayed | ⟨untouched, agree⟩
  · exact replayed _
  · rw [untouched, held, agree]

end RhPools.LocalWrites
