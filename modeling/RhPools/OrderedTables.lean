import Mathlib.Data.List.Nodup
import Mathlib.Data.List.TakeWhile

/-! A dictionary that remembers insertion order, oldest first, with one entry for each
key. Entries are assigned in place, moved to the end, dropped by key or dropped from
the old end; what every operation can do to an entry is stated once. -/

namespace RhPools.OrderedTables

structure OrderedTable (Key Value : Type) where
  entries : List (Key × Value)
  distinct : (entries.map Prod.fst).Nodup

variable {Key Value : Type}

def OrderedTable.empty : OrderedTable Key Value := ⟨[], List.nodup_nil⟩

def OrderedTable.size (table : OrderedTable Key Value) : Nat := table.entries.length

def OrderedTable.keep (table : OrderedTable Key Value) (kept : List (Key × Value))
    (part : kept.Sublist table.entries) : OrderedTable Key Value :=
  ⟨kept, table.distinct.sublist (part.map Prod.fst)⟩

/-- `popitem(last=False)`. -/
def OrderedTable.popFirst (table : OrderedTable Key Value) : OrderedTable Key Value :=
  table.keep table.entries.tail (List.tail_sublist _)

/-- Popping from the old end while there are more than `limit` entries. -/
def OrderedTable.trim (table : OrderedTable Key Value) (limit : Nat) : OrderedTable Key Value :=
  table.keep (table.entries.drop (table.size - limit)) (List.drop_sublist _ _)

/-- Popping from the old end while the oldest value satisfies `old`. -/
def OrderedTable.popWhile (table : OrderedTable Key Value) (old : Value → Bool) :
    OrderedTable Key Value :=
  table.keep (table.entries.dropWhile fun entry => old entry.2) (List.dropWhile_sublist _)

variable [DecidableEq Key]

def OrderedTable.get (table : OrderedTable Key Value) (key : Key) : Option Value :=
  (table.entries.find? fun entry => entry.1 = key).map Prod.snd

def OrderedTable.erase (table : OrderedTable Key Value) (key : Key) : OrderedTable Key Value :=
  table.keep (table.entries.filter fun entry => entry.1 ≠ key) List.filter_sublist

variable (table : OrderedTable Key Value) (old : Value → Bool) (pairs : List (Key × Value))
  (key : Key)

theorem erase_absent :
    key ∉ (table.erase key).entries.map Prod.fst := by
  simp [OrderedTable.erase, OrderedTable.keep]

/-- An assignment followed by `move_to_end`. -/
def OrderedTable.put (table : OrderedTable Key Value) (key : Key) (value : Value) :
    OrderedTable Key Value :=
  ⟨(table.erase key).entries ++ [(key, value)], by
    rw [List.map_append, List.map_singleton, ← List.concat_eq_append,
      List.nodup_concat]
    exact ⟨erase_absent table key, (table.erase key).distinct⟩⟩

def OrderedTable.assign (table : OrderedTable Key Value) (key : Key) (value : Value) :
    OrderedTable Key Value :=
  if key ∈ table.entries.map Prod.fst then
    ⟨table.entries.map fun entry => if entry.1 = key then (key, value) else entry, by
      have same : (Prod.fst ∘ fun entry : Key × Value => if entry.1 = key then (key, value)
          else entry) = Prod.fst := by
        funext entry
        by_cases here : entry.1 = key <;> simp [here]
      rw [List.map_map, same]
      exact table.distinct⟩
  else table.put key value

/-- `move_to_end` of a key that is there. -/
def OrderedTable.touch (table : OrderedTable Key Value) (key : Key) : OrderedTable Key Value :=
  match table.get key with
  | none => table
  | some value => table.put key value

variable (value : Value)

theorem get_some :
    table.get key = some value ↔ (key, value) ∈ table.entries := by
  obtain ⟨entries, distinct⟩ := table
  simp only [OrderedTable.get]
  induction entries with
  | nil => simp
  | cons entry rest ih =>
    obtain ⟨fresh, distinct⟩ := List.nodup_cons.mp distinct
    by_cases here : entry.1 = key
    · have absent : (key, value) ∉ rest := by
        intro member
        exact fresh (here ▸ List.mem_map_of_mem (f := Prod.fst) member)
      simp only [List.find?_cons, here, decide_true, Option.map_some, Option.some.injEq,
        List.mem_cons, absent, or_false]
      rw [← here]
      exact ⟨fun same => by rw [← same], fun same => by rw [← same]⟩
    · have apart : (key, value) ≠ entry := fun same => here (by rw [← same])
      simp only [List.find?_cons, here, decide_false, List.mem_cons, apart, false_or]
      exact ih distinct

theorem get_none :
    table.get key = none ↔ ∀ entry ∈ table.entries, entry.1 ≠ key := by
  simp [OrderedTable.get]

variable (entry : Key × Value)

theorem mem_erase :
    entry ∈ (table.erase key).entries ↔ entry ∈ table.entries ∧ entry.1 ≠ key := by
  simp [OrderedTable.erase, OrderedTable.keep]

theorem mem_put : entry ∈ (table.put key value).entries ↔
      (entry ∈ table.entries ∧ entry.1 ≠ key) ∨ entry = (key, value) := by
  simp [OrderedTable.put, mem_erase]

theorem entries_assign (fresh : key ∉ table.entries.map Prod.fst) :
    (table.assign key value).entries = table.entries ++ [(key, value)] := by
  have whole : (table.erase key).entries = table.entries := by
    apply List.filter_eq_self.mpr
    intro entry member
    exact decide_eq_true fun same => fresh (same ▸ List.mem_map_of_mem member)
  rw [OrderedTable.assign, if_neg fresh]
  show (table.erase key).entries ++ [(key, value)] = _
  rw [whole]

theorem mem_assign (member : entry ∈ (table.assign key value).entries) :
    entry ∈ table.entries ∨ entry = (key, value) := by
  unfold OrderedTable.assign at member
  split at member
  · obtain ⟨old, inside, rfl⟩ := List.mem_map.mp member
    split
    · exact .inr rfl
    · exact .inl inside
  · rcases (mem_put table key value entry).mp member with ⟨old, _⟩ | new
    · exact .inl old
    · exact .inr new

/-- `setdefault(key, []).append(item)`. -/
def OrderedTable.append {Item : Type} (table : OrderedTable Key (List Item)) (key : Key)
    (item : Item) : OrderedTable Key (List Item) :=
  table.assign key ((table.get key).getD [] ++ [item])

theorem append_perm {Item : Type} (table : OrderedTable Key (List Item)) (key : Key) (item : Item) :
    ((table.append key item).entries.flatMap Prod.snd).Perm
      (item :: table.entries.flatMap Prod.snd) := by
  cases found : table.get key with
  | none =>
    have fresh : key ∉ table.entries.map Prod.fst := by
      rintro member
      obtain ⟨entry, inside, rfl⟩ := List.mem_map.mp member
      exact (get_none table entry.1).mp found entry inside rfl
    rw [OrderedTable.append, found, entries_assign table key _ fresh]
    simp only [Option.getD_none, List.nil_append, List.flatMap_append, List.flatMap_singleton]
    exact List.perm_append_singleton item _
  | some old =>
    have member := (get_some table key old).mp found
    have known : key ∈ table.entries.map Prod.fst := List.mem_map_of_mem (f := Prod.fst) member
    rw [OrderedTable.append, found, OrderedTable.assign, if_pos known]
    obtain ⟨entries, distinct⟩ := table
    obtain ⟨before, after, rfl⟩ := List.append_of_mem member
    rw [List.map_append, List.map_cons, List.nodup_middle] at distinct
    have apart : ∀ entry ∈ before ++ after, entry.1 ≠ key := by
      intro entry inside same
      apply (List.nodup_cons.mp distinct).1
      have found := List.mem_map_of_mem (f := Prod.fst) inside
      rw [same, List.map_append] at found
      exact found
    have same : ∀ part : List (Key × List Item), (∀ entry ∈ part, entry.1 ≠ key) →
        (part.map fun entry => if entry.1 = key then (key, old ++ [item]) else entry) = part := by
      intro part apart
      rw [List.map_congr_left fun entry inside => if_neg (apart entry inside), List.map_id']
    simp only [Option.getD_some, List.map_append, List.map_cons, if_true, List.flatMap_append,
      List.flatMap_cons, same before fun entry inside => apart entry (List.mem_append_left _ inside),
      same after fun entry inside => apart entry (List.mem_append_right _ inside)]
    rw [List.append_assoc old, ← List.append_assoc, ← List.append_assoc (List.flatMap _ before)]
    exact List.perm_middle

theorem mem_touch :
    entry ∈ (table.touch key).entries ↔ entry ∈ table.entries := by
  unfold OrderedTable.touch
  split
  · rfl
  · rename_i value found
    have member := (get_some table key value).mp found
    rw [mem_put]
    constructor
    · rintro (⟨old, -⟩ | rfl)
      · exact old
      · exact member
    · intro old
      by_cases same : entry.1 = key
      · right
        have there : table.get key = some entry.2 := (get_some _ _ _).mpr (by rw [← same]; exact old)
        rw [found, Option.some.injEq] at there
        rw [there, ← same]
      · exact Or.inl ⟨old, same⟩

omit [DecidableEq Key] in
theorem mem_popFirst (member : entry ∈ table.popFirst.entries) : entry ∈ table.entries :=
  List.mem_of_mem_tail member

omit [DecidableEq Key] in
theorem mem_trim (limit : Nat) (entry : Key × Value) (member : entry ∈ (table.trim limit).entries) :
    entry ∈ table.entries :=
  List.mem_of_mem_drop member

omit [DecidableEq Key] in
theorem mem_popWhile (member : entry ∈ (table.popWhile old).entries) : entry ∈ table.entries :=
  (List.dropWhile_sublist _).mem member

omit [DecidableEq Key] in
theorem popWhile_keeps (member : entry ∈ table.entries) (young : old entry.2 = false) :
    entry ∈ (table.popWhile old).entries := by
  rw [← List.takeWhile_append_dropWhile (p := fun entry => old entry.2) (l := table.entries),
    List.mem_append] at member
  rcases member with gone | stays
  · have aged := List.mem_takeWhile_imp gone
    rw [young] at aged
    cases aged
  · exact stays

omit [DecidableEq Key] in
theorem size_popWhile :
    (table.popWhile old).size ≤ table.size :=
  (List.dropWhile_sublist _).length_le

theorem size_erase :
    (table.erase key).size ≤ table.size :=
  List.filter_sublist.length_le

theorem size_put :
    (table.put key value).size ≤ table.size + 1 := by
  simp only [OrderedTable.put, OrderedTable.size, List.length_append, List.length_singleton]
  exact Nat.succ_le_succ (size_erase table key)

@[simp] theorem get_empty :
    (OrderedTable.empty : OrderedTable Key Value).get key = none := rfl

def OrderedTable.putAll (table : OrderedTable Key Value) (pairs : List (Key × Value)) :
    OrderedTable Key Value :=
  pairs.foldl (fun table pair => table.put pair.1 pair.2) table

theorem mem_putAll (member : entry ∈ (table.putAll pairs).entries) :
    entry ∈ table.entries ∨ entry ∈ pairs := by
  induction pairs generalizing table with
  | nil => exact Or.inl member
  | cons pair rest ih =>
    rcases ih (table.put pair.1 pair.2) member with before | after
    · rcases (mem_put table pair.1 pair.2 entry).mp before with ⟨old, -⟩ | here
      · exact Or.inl old
      · exact Or.inr (here ▸ List.mem_cons_self)
    · exact Or.inr (List.mem_cons_of_mem pair after)

theorem putAll_covers (known : key ∈ table.entries.map Prod.fst ∨ key ∈ pairs.map Prod.fst) :
    key ∈ (table.putAll pairs).entries.map Prod.fst := by
  induction pairs generalizing table with
  | nil => exact known.resolve_right (List.not_mem_nil)
  | cons pair rest ih =>
    have placed : pair ∈ (table.put pair.1 pair.2).entries := (mem_put _ _ _ _).mpr (Or.inr rfl)
    apply ih (table.put pair.1 pair.2)
    rcases known with old | new
    · left
      obtain ⟨entry, member, rfl⟩ := List.mem_map.mp old
      by_cases same : entry.1 = pair.1
      · rw [same]
        exact List.mem_map_of_mem placed
      · exact List.mem_map_of_mem ((mem_put _ _ _ _).mpr (Or.inl ⟨member, same⟩))
    · rcases List.mem_cons.mp new with rfl | later
      · left
        exact List.mem_map_of_mem placed
      · exact Or.inr later

theorem get_putAll_empty :
    (∀ value, (OrderedTable.empty.putAll pairs).get key = some value → (key, value) ∈ pairs) ∧
      ((OrderedTable.empty.putAll pairs).get key ≠ none ↔ key ∈ pairs.map Prod.fst) := by
  have inside : ∀ value, (OrderedTable.empty.putAll pairs).get key = some value →
      (key, value) ∈ pairs := by
    intro value found
    have member := (get_some _ _ _).mp found
    exact (mem_putAll _ pairs _ member).resolve_left List.not_mem_nil
  refine ⟨inside, ?_⟩
  constructor
  · intro found
    obtain ⟨value, here⟩ := Option.ne_none_iff_exists'.mp found
    exact List.mem_map_of_mem (f := Prod.fst) (inside value here)
  · intro member missing
    obtain ⟨entry, held, same⟩ := List.mem_map.mp (putAll_covers .empty pairs key (Or.inr member))
    exact (get_none _ key).mp missing entry held same

/-! `lru_cache` around a function with a state of its own. -/

/-- A call with `maxsize=limit`: a hit becomes the youngest entry, a miss may drop the oldest. -/
def OrderedTable.cached {State : Type} (memo : OrderedTable Key Value) (limit : Nat) (key : Key)
    (compute : State → Value × State) (state : State) : Value × OrderedTable Key Value × State :=
  match memo.get key with
  | some value => (value, memo.touch key, state)
  | none =>
    let computed := compute state
    (computed.1, (memo.put key computed.1).trim limit, computed.2)

/-- What is right of every entry, and of what is computed now, is right of what a call returns
and of every entry behind it. -/
theorem cached_right {State : Type} {Right : Key → Value → Prop} (memo : OrderedTable Key Value)
    (limit : Nat) (key : Key) (compute : State → Value × State) (state : State)
    (before : ∀ entry ∈ memo.entries, Right entry.1 entry.2)
    (now : Right key (compute state).1) :
    Right key (memo.cached limit key compute state).1 ∧
      ∀ entry ∈ (memo.cached limit key compute state).2.1.entries, Right entry.1 entry.2 := by
  unfold OrderedTable.cached
  cases found : memo.get key with
  | some value =>
    constructor
    · exact before _ ((get_some memo key value).mp found)
    · intro entry member
      exact before entry ((mem_touch memo key entry).mp member)
  | none =>
    constructor
    · exact now
    · intro entry member
      rcases (mem_put memo key _ entry).mp (mem_trim _ limit entry member) with ⟨old, -⟩ | rfl
      · exact before entry old
      · exact now

theorem cached_state {State : Type} {Good : State → Prop} (memo : OrderedTable Key Value)
    (limit : Nat) (key : Key) (compute : State → Value × State) (state : State)
    (before : Good state) (after : Good (compute state).2) :
    Good (memo.cached limit key compute state).2.2 := by
  unfold OrderedTable.cached
  split
  · exact before
  · exact after

end RhPools.OrderedTables
