import Mathlib

/-! Pages of a list in falling cursor order, where the cursor of a page's last item
asks for the next page. A walk over all pages returns the list exactly when no
cursor is shared across a page edge, since what shares the cursor is skipped. -/

namespace RhPools.KeysetPaging
variable {Item Cursor : Type} [LinearOrder Cursor]

/-- A service that pages `items`; it may refuse a cursor. -/
structure Service (Item Cursor : Type) where
  cursor : Item → Cursor
  size : Nat
  admits : Cursor → Bool
  items : List Item

variable (service : Service Item Cursor)

def Service.behind : Option Cursor → List Item
  | none => service.items
  | some bound => service.items.filter fun item => service.cursor item < bound

def Service.admitted : Option Cursor → Prop
  | none => True
  | some bound => service.admits bound = true

/-- The next cursor is that of the last item of a page that is not the last. -/
def Service.next (rest : List Item) : Option Cursor :=
  if service.size < rest.length then (rest[service.size - 1]?).map service.cursor else none

inductive Walk : Option Cursor → List (List Item) → Prop
  | last (before : Option Cursor) (admitted : service.admitted before)
      (done : service.next (service.behind before) = none) :
      Walk before [(service.behind before).take service.size]
  | more (before : Option Cursor) (bound : Cursor) (pages : List (List Item))
      (admitted : service.admitted before)
      (next : service.next (service.behind before) = some bound) (later : Walk (some bound) pages) :
      Walk before ((service.behind before).take service.size :: pages)

/-- No page edge cuts through items of one cursor, and every edge has an admitted one. -/
def Service.Clean (rest : List Item) : Prop :=
  ∀ turn, ∀ last ∈ rest[service.size * (turn + 1) - 1]?,
    ∀ next ∈ rest[service.size * (turn + 1)]?,
      service.admits (service.cursor last) = true ∧ service.cursor next < service.cursor last

def Service.Falling : Prop :=
  service.items.Pairwise fun first second => service.cursor second ≤ service.cursor first

variable {service}

theorem behind_falling (falling : service.Falling) (before : Option Cursor) :
    (service.behind before).Pairwise fun first second =>
      service.cursor second ≤ service.cursor first := by
  cases before with
  | none => exact falling
  | some bound => exact falling.filter _

variable (rest : List Item)

theorem clean_drop (sized : 0 < service.size) :
    service.Clean rest ↔
      (∀ last ∈ rest[service.size - 1]?, ∀ next ∈ rest[service.size]?,
        service.admits (service.cursor last) = true ∧
          service.cursor next < service.cursor last) ∧
      service.Clean (rest.drop service.size) := by
  have shift : ∀ turn, service.size + (service.size * (turn + 1) - 1) =
      service.size * (turn + 1 + 1) - 1 := by
    intro turn
    have grows : 0 < service.size * (turn + 1) := Nat.mul_pos sized (Nat.succ_pos turn)
    rw [Nat.mul_succ service.size (turn + 1)]
    omega
  have edge : ∀ turn, service.size + service.size * (turn + 1) =
      service.size * (turn + 1 + 1) := by
    intro turn
    rw [Nat.mul_succ service.size (turn + 1), Nat.add_comm]
  constructor
  · intro clean
    refine ⟨by simpa using clean 0, ?_⟩
    intro turn
    rw [List.getElem?_drop, List.getElem?_drop, shift, edge]
    exact clean (turn + 1)
  · rintro ⟨first, later⟩ turn
    cases turn with
    | zero => simpa using first
    | succ turn =>
      have here := later turn
      rw [List.getElem?_drop, List.getElem?_drop, shift, edge] at here
      exact here

omit [LinearOrder Cursor] in
theorem next_some (bound : Cursor) (next : service.next rest = some bound) :
    service.size < rest.length ∧
      ∃ last, rest[service.size - 1]? = some last ∧ service.cursor last = bound := by
  unfold Service.next at next
  split at next
  · rename_i long
    obtain ⟨last, found, rfl⟩ := Option.map_eq_some_iff.mp next
    exact ⟨long, last, found, rfl⟩
  · cases next

omit [LinearOrder Cursor] in
theorem next_none (sized : 0 < service.size) (done : service.next rest = none) :
    rest.length ≤ service.size := by
  unfold Service.next at done
  split at done
  · rename_i long
    rw [List.getElem?_eq_getElem (by omega)] at done
    cases done
  · omega

/-- Behind the cursor of a page's last item lies the part of the rest with a smaller
cursor; the page itself has none of it. -/
theorem behind_next (falling : service.Falling) (sized : 0 < service.size)
    (before : Option Cursor) (last : Item)
    (found : (service.behind before)[service.size - 1]? = some last) :
    service.behind (some (service.cursor last)) =
      ((service.behind before).drop service.size).filter
        fun item => service.cursor item < service.cursor last := by
  have sorted := behind_falling falling before
  have inside := (List.getElem?_eq_some_iff.mp found).1
  have member : last ∈ service.behind before := List.mem_of_getElem? found
  -- The bound is stricter than the one that made the rest.
  have within : service.behind (some (service.cursor last)) =
      (service.behind before).filter fun item => service.cursor item < service.cursor last := by
    cases before with
    | none => rfl
    | some bound =>
      have below : service.cursor last < bound := by
        simpa using (List.mem_filter.mp member).2
      simp only [Service.behind, List.filter_filter]
      refine List.filter_congr fun item _ => ?_
      by_cases less : service.cursor item < service.cursor last
      · simp [less, less.trans below]
      · simp [less]
  have page : ((service.behind before).take service.size).filter
      (fun item => service.cursor item < service.cursor last) = [] := by
    rw [List.filter_eq_nil_iff]
    intro item inPage
    obtain ⟨i, small, rfl⟩ := List.mem_iff_getElem.mp inPage
    rw [List.length_take] at small
    obtain ⟨-, rfl⟩ := List.getElem?_eq_some_iff.mp found
    rw [List.getElem_take]
    simp only [decide_eq_true_eq, not_lt]
    rcases Nat.lt_or_ge i (service.size - 1) with earlier | same
    · exact List.pairwise_iff_getElem.mp sorted i (service.size - 1) (by omega) inside earlier
    · have equal : i = service.size - 1 := by omega
      simp [equal]
  rw [within]
  conv_lhs => rw [← List.take_append_drop service.size (service.behind before), List.filter_append,
    page, List.nil_append]

theorem behind_next_eq (falling : service.Falling) (sized : 0 < service.size)
    (before : Option Cursor) (last : Item)
    (found : (service.behind before)[service.size - 1]? = some last)
    (long : service.size < (service.behind before).length) :
    service.behind (some (service.cursor last)) = (service.behind before).drop service.size ↔
      service.cursor (service.behind before)[service.size] < service.cursor last := by
  rw [behind_next falling sized before last found, List.filter_eq_self]
  constructor
  · intro smaller
    refine of_decide_eq_true (smaller _ (List.mem_iff_getElem.mpr ⟨0, ?_, ?_⟩))
    · rw [List.length_drop]
      omega
    · simp
  · intro strict item member
    obtain ⟨i, small, rfl⟩ := List.mem_iff_getElem.mp member
    rw [List.length_drop] at small
    rw [List.getElem_drop, decide_eq_true_eq]
    refine lt_of_le_of_lt ?_ strict
    rcases Nat.eq_zero_or_pos i with rfl | positive
    · simp
    · exact List.pairwise_iff_getElem.mp (behind_falling falling before) _ _ long
        (by omega) (by omega)

theorem behind_shorter (falling : service.Falling) (sized : 0 < service.size)
    (before : Option Cursor) (last : Item)
    (found : (service.behind before)[service.size - 1]? = some last)
    (long : service.size < (service.behind before).length) :
    (service.behind (some (service.cursor last))).length < (service.behind before).length := by
  rw [behind_next falling sized before last found]
  have filtered := List.length_filter_le
    (fun item => decide (service.cursor item < service.cursor last))
    ((service.behind before).drop service.size)
  rw [List.length_drop] at filtered
  omega

theorem walk_sublist (falling : service.Falling) (sized : 0 < service.size)
    (before : Option Cursor) (pages : List (List Item)) (walk : Walk service before pages) :
    pages.flatten.Sublist (service.behind before) := by
  induction walk with
  | last before admitted done => simpa using List.take_sublist _ _
  | more before bound pages admitted next later ih =>
    obtain ⟨-, last, found, rfl⟩ := next_some _ bound next
    rw [behind_next falling sized before last found] at ih
    rw [List.flatten_cons]
    conv_rhs => rw [← List.take_append_drop service.size (service.behind before)]
    exact (List.Sublist.refl _).append (ih.trans List.filter_sublist)

/-- From any admitted cursor the walk returns what is left exactly when the page edges
are clean. -/
theorem walk_complete (falling : service.Falling) (sized : 0 < service.size)
    (before : Option Cursor) :
    (∃ pages, Walk service before pages ∧ pages.flatten = service.behind before) ↔
      service.admitted before ∧ service.Clean (service.behind before) := by
  induction size : (service.behind before).length using Nat.strongRecOn
    generalizing before with
  | _ count ih =>
    subst size
    cases next : service.next (service.behind before) with
    | none =>
      have short := next_none _ sized next
      have whole : (service.behind before).take service.size = service.behind before :=
        List.take_of_length_le short
      constructor
      · rintro ⟨pages, walk, -⟩
        refine ⟨by cases walk <;> assumption, ?_⟩
        intro turn last _ item there
        have past := (List.getElem?_eq_some_iff.mp there).1
        have grows : service.size ≤ service.size * (turn + 1) := Nat.le_mul_of_pos_right _ (by omega)
        omega
      · rintro ⟨admitted, -⟩
        exact ⟨_, .last before admitted next, by simp [whole]⟩
    | some bound =>
      obtain ⟨long, last, found, rfl⟩ := next_some _ bound next
      have step := behind_next falling sized before last found
      have whole := behind_next_eq falling sized before last found long
      have edge : (service.behind before)[service.size]? =
          some (service.behind before)[service.size] := List.getElem?_eq_getElem long
      have later := ih _ (behind_shorter falling sized before last found long)
        (some (service.cursor last)) rfl
      rw [clean_drop _ sized, found, edge]
      simp only [Option.mem_some_iff, forall_eq']
      constructor
      · rintro ⟨pages, walk, all⟩
        cases walk with
        | last _ admitted done => rw [next] at done; cases done
        | more _ bound pages admitted again walk =>
          rw [next] at again
          cases again
          -- The later pages can only return the rest if no item of it is skipped.
          have rest : pages.flatten = (service.behind before).drop service.size := by
            rw [List.flatten_cons] at all
            conv_rhs at all => rw [← List.take_append_drop service.size (service.behind before)]
            exact List.append_cancel_left all
          have kept := walk_sublist falling sized _ _ walk
          rw [step, rest] at kept
          have same := step.trans (List.filter_sublist.antisymm kept)
          obtain ⟨next, clean⟩ := later.mp ⟨pages, walk, rest.trans same.symm⟩
          rw [same] at clean
          exact ⟨admitted, ⟨next, whole.mp same⟩, clean⟩
      · rintro ⟨admitted, ⟨next', strict⟩, clean⟩
        have same := whole.mpr strict
        obtain ⟨pages, walk, all⟩ := later.mpr ⟨next', by rw [same]; exact clean⟩
        refine ⟨_, .more before _ pages admitted next walk, ?_⟩
        rw [List.flatten_cons, all, same, List.take_append_drop]

theorem walk_ends (falling : service.Falling) (sized : 0 < service.size)
    (admits : ∀ item ∈ service.items, service.admits (service.cursor item) = true)
    (before : Option Cursor) (admitted : service.admitted before) :
    ∃ pages, Walk service before pages := by
  induction size : (service.behind before).length using Nat.strongRecOn
    generalizing before with
  | _ count ih =>
    subst size
    cases next : service.next (service.behind before) with
    | none => exact ⟨_, .last before admitted next⟩
    | some bound =>
      obtain ⟨long, last, found, rfl⟩ := next_some _ bound next
      have member : last ∈ service.items := by
        have inside := List.mem_of_getElem? found
        cases before with
        | none => exact inside
        | some bound => exact (List.mem_filter.mp inside).1
      obtain ⟨pages, walk⟩ := ih _ (behind_shorter falling sized before last found long)
        (some (service.cursor last)) (admits last member) rfl
      exact ⟨_, .more before _ pages admitted next walk⟩

end RhPools.KeysetPaging
