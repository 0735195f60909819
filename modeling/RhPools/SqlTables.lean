import Mathlib.Data.Finset.Card
import RhPools.OrderedTables

/-! Tables with a primary key, and the statements that write them. For each statement:
which row a key has afterwards, and how many rows there are. An upsert is `put`. -/

namespace RhPools.OrderedTables

variable {Key Value : Type}

/-- `DELETE .. WHERE`. -/
def OrderedTable.remove (table : OrderedTable Key Value) (gone : Key → Value → Bool) :
    OrderedTable Key Value :=
  table.keep (table.entries.filter fun entry => !gone entry.1 entry.2) List.filter_sublist

/-- `SELECT COUNT(*) .. WHERE`. -/
def OrderedTable.count (table : OrderedTable Key Value) (chosen : Key → Value → Bool) : Nat :=
  (table.entries.filter fun entry => chosen entry.1 entry.2).length

/-- `UPDATE .. SET`. -/
def OrderedTable.modify (table : OrderedTable Key Value) (change : Key → Value → Value) :
    OrderedTable Key Value :=
  ⟨table.entries.map fun entry => (entry.1, change entry.1 entry.2), by
    rw [List.map_map]
    exact table.distinct⟩

theorem size_remove_count (table : OrderedTable Key Value) (gone : Key → Value → Bool) :
    (table.remove gone).size + table.count gone = table.size := by
  simp only [OrderedTable.size, OrderedTable.remove, OrderedTable.keep, OrderedTable.count]
  induction table.entries with
  | nil => rfl
  | cons entry rest ih => cases h : gone entry.1 entry.2 <;> simp [h] <;> omega

theorem size_remove (table : OrderedTable Key Value) (gone : Key → Value → Bool) :
    (table.remove gone).size ≤ table.size :=
  Nat.le.intro (size_remove_count table gone)

@[simp] theorem size_modify (table : OrderedTable Key Value) (change : Key → Value → Value) :
    (table.modify change).size = table.size := by
  simp [OrderedTable.size, OrderedTable.modify]

variable [DecidableEq Key]

/-- `INSERT OR IGNORE`. -/
def OrderedTable.insertNew (table : OrderedTable Key Value) (key : Key) (value : Value) :
    OrderedTable Key Value :=
  match table.get key with
  | none => table.put key value
  | some _ => table

/-- `INSERT OR IGNORE` of several rows. -/
def OrderedTable.insertAll (table : OrderedTable Key Value) (pairs : List (Key × Value)) :
    OrderedTable Key Value :=
  pairs.foldl (fun table pair => table.insertNew pair.1 pair.2) table

/-- `ON CONFLICT DO UPDATE`: the new row may use the old one. -/
def OrderedTable.upsert (table : OrderedTable Key Value) (key : Key)
    (merge : Option Value → Value) : OrderedTable Key Value :=
  table.put key (merge (table.get key))

def OrderedTable.upsertAll (table : OrderedTable Key Value)
    (pairs : List (Key × (Option Value → Value))) : OrderedTable Key Value :=
  pairs.foldl (fun table pair => table.upsert pair.1 pair.2) table

variable (table : OrderedTable Key Value)

theorem get_remove (gone : Key → Value → Bool) (key : Key) :
    (table.remove gone).get key = (table.get key).filter fun value => !gone key value := by
  apply Option.ext
  intro value
  rw [get_some, Option.filter_eq_some_iff, get_some]
  exact List.mem_filter

theorem get_modify (change : Key → Value → Value) (key : Key) :
    (table.modify change).get key = (table.get key).map (change key) := by
  apply Option.ext
  intro value
  rw [get_some, Option.map_eq_some_iff]
  simp only [get_some, OrderedTable.modify, List.mem_map, Prod.exists, Prod.mk.injEq]
  constructor
  · rintro ⟨other, old, member, rfl, same⟩
    exact ⟨old, member, same⟩
  · rintro ⟨old, member, same⟩
    exact ⟨key, old, member, rfl, same⟩

theorem get_put (key other : Key) (value : Value) :
    (table.put key value).get other = if other = key then some value else table.get other := by
  apply Option.ext
  intro found
  rw [get_some, mem_put]
  by_cases same : other = key
  · subst same
    simp [eq_comm]
  · simp [same, get_some]

theorem get_erase (key other : Key) :
    (table.erase key).get other = if other = key then none else table.get other := by
  apply Option.ext
  intro found
  rw [get_some, mem_erase]
  by_cases same : other = key
  · simp [same]
  · simp [same, get_some]

theorem get_assign (key other : Key) (value : Value) :
    (table.assign key value).get other = if other = key then some value else table.get other := by
  unfold OrderedTable.assign
  split
  · rename_i there
    obtain ⟨entry, inside, named⟩ := List.mem_map.mp there
    apply Option.ext
    intro found
    rw [get_some]
    by_cases same : other = key
    · subst same
      rw [if_pos rfl, Option.some.injEq]
      constructor
      · intro member
        obtain ⟨old, -, made⟩ := List.mem_map.mp member
        split at made
        · exact (Prod.mk.inj made).2
        · rename_i apart
          exact absurd (congrArg Prod.fst made) apart
      · rintro rfl
        exact List.mem_map.mpr ⟨entry, inside, if_pos named⟩
    · rw [if_neg same, get_some]
      constructor
      · intro member
        obtain ⟨old, old_in, made⟩ := List.mem_map.mp member
        split at made
        · exact absurd (congrArg Prod.fst made).symm same
        · exact made ▸ old_in
      · intro member
        exact List.mem_map.mpr ⟨(other, found), member, if_neg same⟩
  · exact get_put table key other value

theorem get_trim (limit : Nat) (key : Key) :
    (table.trim limit).get key = none ∨ (table.trim limit).get key = table.get key := by
  cases kept : (table.trim limit).get key with
  | none => exact .inl rfl
  | some value =>
    right
    exact ((get_some _ _ _).mpr (mem_trim _ _ _ ((get_some _ _ _).mp kept))).symm

theorem get_put_trim (limit : Nat) (key : Key) (value : Value) :
    ((table.put key value).trim (limit + 1)).get key = some value := by
  rw [get_some]
  have few : (table.put key value).size - (limit + 1) ≤ (table.erase key).entries.length := by
    simp only [OrderedTable.size, OrderedTable.put, List.length_append, List.length_singleton]
    omega
  show (key, value) ∈ ((table.erase key).entries ++ [(key, value)]).drop _
  rw [List.drop_append_of_le_length few]
  exact List.mem_append_right _ (List.mem_singleton_self _)

variable (pairs : List (Key × Value)) (key : Key) (value : Value)

theorem entries_put_new (absent : table.get key = none) :
    (table.put key value).entries = table.entries ++ [(key, value)] := by
  have kept : (table.erase key).entries = table.entries := by
    apply List.filter_eq_self.mpr
    intro entry member
    exact decide_eq_true ((get_none table key).mp absent entry member)
  exact congrArg (· ++ [(key, value)]) kept

theorem get_insertNew (key other : Key) (value : Value) :
    (table.insertNew key value).get other =
      (table.get other).or (if other = key then some value else none) := by
  unfold OrderedTable.insertNew
  split
  · rename_i absent
    rw [get_put]
    by_cases same : other = key
    · simp [same, absent]
    · simp [same]
  · rename_i held present
    by_cases same : other = key
    · simp [same, present]
    · simp [same]

theorem get_insertAll (found : (table.insertAll pairs).get key = some value) :
    table.get key = some value ∨ table.get key = none ∧ (key, value) ∈ pairs := by
  induction pairs generalizing table with
  | nil => exact Or.inl found
  | cons pair rest ih =>
    rcases ih (table.insertNew pair.1 pair.2) found with early | ⟨fresh, late⟩
    · rw [get_insertNew] at early
      cases here : table.get key with
      | some held => simpa [here] using early
      | none =>
        simp only [here, Option.none_or, Option.ite_none_right_eq_some,
          Option.some.injEq] at early
        obtain ⟨rfl, rfl⟩ := early
        exact Or.inr ⟨rfl, List.mem_cons_self⟩
    · rw [get_insertNew, Option.or_eq_none_iff] at fresh
      exact Or.inr ⟨fresh.1, List.mem_cons_of_mem pair late⟩

theorem get_insertAll_some (found : table.get key = some value) :
    (table.insertAll pairs).get key = some value := by
  induction pairs generalizing table with
  | nil => exact found
  | cons pair rest ih =>
    apply ih (table.insertNew pair.1 pair.2)
    rw [get_insertNew, found, Option.some_or]

theorem get_insertAll_none : (table.insertAll pairs).get key = none ↔
      table.get key = none ∧ key ∉ pairs.map Prod.fst := by
  induction pairs generalizing table with
  | nil => simp [OrderedTable.insertAll]
  | cons pair rest ih =>
    have next := ih (table.insertNew pair.1 pair.2)
    rw [get_insertNew, Option.or_eq_none_iff, ite_eq_right_iff] at next
    rw [List.map_cons, List.mem_cons, not_or, ← and_assoc]
    refine next.trans (and_congr_left' (and_congr_right' ?_))
    exact ⟨fun absent same => absurd (absent same) (Option.some_ne_none _),
      fun apart same => absurd same apart⟩

def OrderedTable.keys (table : OrderedTable Key Value) : Finset Key :=
  (table.entries.map Prod.fst).toFinset

theorem card_keys : table.keys.card = table.size := by
  rw [OrderedTable.keys, List.toFinset_card_of_nodup table.distinct, List.length_map]
  rfl

theorem mem_keys :
    key ∈ table.keys ↔ table.get key ≠ none := by
  rw [OrderedTable.keys, List.mem_toFinset, Option.ne_none_iff_exists', List.mem_map]
  constructor
  · rintro ⟨entry, member, rfl⟩
    exact ⟨entry.2, (get_some table entry.1 entry.2).mpr member⟩
  · rintro ⟨value, found⟩
    exact ⟨(key, value), (get_some table key value).mp found, rfl⟩

theorem keys_put :
    (table.put key value).keys = insert key table.keys := by
  ext other
  rw [Finset.mem_insert, mem_keys, mem_keys, get_put]
  by_cases same : other = key <;> simp [same]

theorem keys_upsertAll (pairs : List (Key × (Option Value → Value))) :
    (table.upsertAll pairs).keys = table.keys ∪ (pairs.map Prod.fst).toFinset := by
  induction pairs generalizing table with
  | nil => simp [OrderedTable.upsertAll]
  | cons pair rest ih =>
    have next := ih (table.upsert pair.1 pair.2)
    rw [OrderedTable.upsert, keys_put] at next
    rw [List.map_cons, List.toFinset_cons, Finset.union_insert, ← Finset.insert_union]
    exact next

theorem size_put_new (absent : table.get key = none) :
    (table.put key value).size = table.size + 1 := by
  rw [← card_keys, ← card_keys, keys_put]
  exact Finset.card_insert_of_notMem fun member => (mem_keys table key).mp member absent

theorem size_put_old (present : table.get key ≠ none) :
    (table.put key value).size = table.size := by
  rw [← card_keys, ← card_keys, keys_put]
  exact Finset.card_insert_of_mem ((mem_keys table key).mpr present)

theorem get_foldl {Change Row : Type}
    (write : OrderedTable Key Row → Key × Change → OrderedTable Key Row)
    (become : Key → Option Row → Change → Option Row)
    (own : ∀ table entry other, (write table entry).get other =
      if other = entry.1 then become entry.1 (table.get entry.1) entry.2 else table.get other)
    (changes : OrderedTable Key Change) (table : OrderedTable Key Row) (key : Key) :
    (changes.entries.foldl write table).get key =
      (changes.get key).elim (table.get key) (become key (table.get key)) := by
  obtain ⟨entries, distinct⟩ := changes
  simp only [OrderedTable.get] at own ⊢
  induction entries generalizing table with
  | nil => rfl
  | cons entry rest ih =>
    obtain ⟨fresh, distinct⟩ := List.nodup_cons.mp distinct
    rw [List.foldl_cons, ih _ distinct, List.find?_cons]
    by_cases here : entry.1 = key
    · have absent : rest.find? (fun entry => decide (entry.1 = key)) = none := by
        rw [List.find?_eq_none]
        intro other member
        simp only [decide_eq_true_eq]
        intro same
        exact fresh (here ▸ same ▸ List.mem_map_of_mem (f := Prod.fst) member)
      rw [absent]
      simp only [here, decide_true, Option.map_none, Option.elim_none, Option.map_some,
        Option.elim_some]
      rw [own, if_pos here.symm, here]
    · rw [own, if_neg (Ne.symm here)]
      simp only [here, decide_false]

theorem size_upsertAll (pairs : List (Key × (Option Value → Value))) :
    (table.upsertAll pairs).size =
      table.size + ((pairs.map Prod.fst).toFinset.filter fun key => table.get key = none).card := by
  rw [← card_keys, ← card_keys, keys_upsertAll, ← Finset.union_sdiff_self_eq_union,
    Finset.card_union_of_disjoint Finset.disjoint_sdiff]
  congr 2
  ext key
  rw [Finset.mem_sdiff, Finset.mem_filter, mem_keys, not_not]

theorem size_insertNew :
    table.size ≤ (table.insertNew key value).size := by
  unfold OrderedTable.insertNew
  split
  · rename_i absent
    rw [size_put_new table key value absent]
    exact Nat.le_succ _
  · exact Nat.le_refl _

theorem size_insertAll :
    table.size ≤ (table.insertAll pairs).size := by
  induction pairs generalizing table with
  | nil => exact Nat.le_refl _
  | cons pair rest ih => exact Nat.le_trans (size_insertNew table pair.1 pair.2) (ih _)

end RhPools.OrderedTables
