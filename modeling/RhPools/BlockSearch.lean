import RhPools.Bisection
import RhPools.SqlTables

/-! The first block at or after a time. The table `blocks` keeps the headers of interval
boundaries and of event blocks only, and the search reads a number without a header like
one before the time. So it passes the first block whenever it probes such a gap above it. -/

namespace RhPools.BlockSearch
open Bisection OrderedTables

abbrev Blocks := OrderedTable Int Int

def Blocks.Timely (blocks : Blocks) : Prop :=
  ∀ row ∈ blocks.entries, ∀ later ∈ blocks.entries, row.1 ≤ later.1 → row.2 ≤ later.2

instance (blocks : Blocks) : Decidable blocks.Timely :=
  inferInstanceAs (Decidable (∀ row ∈ blocks.entries, ∀ later ∈ blocks.entries, _ → _))

def blockAt (blocks : Blocks) (timestamp low high : Int) : Int :=
  if _inside : low < high then
    match blocks.get (middle low high) with
    | none => blockAt blocks timestamp (middle low high + 1) high
    | some stored =>
      if stored < timestamp then blockAt blocks timestamp (middle low high + 1) high
      else blockAt blocks timestamp low (middle low high)
  else low
termination_by (high - low).toNat
decreasing_by
  · exact above_shorter _inside
  · exact above_shorter _inside
  · exact below_shorter _inside

def late (blocks : Blocks) (timestamp number : Int) : Bool :=
  (blocks.get number).any fun stored => timestamp ≤ stored

variable (blocks : Blocks)

theorem late_iff (timestamp number : Int) :
    late blocks timestamp number = true ↔
      ∃ stored, (number, stored) ∈ blocks.entries ∧ timestamp ≤ stored := by
  rw [late, Option.any_eq_true]
  simp only [get_some, decide_eq_true_eq]

theorem blockAt_bisect (timestamp low high : Int) :
    blockAt blocks timestamp low high = bisect (late blocks timestamp) low high := by
  fun_induction blockAt blocks timestamp low high with
  | case1 low high inside gap ih =>
    rw [bisect, dif_pos inside, ih]
    simp [late, gap]
  | case2 low high inside stored found early ih =>
    rw [bisect, dif_pos inside, ih]
    simp [late, found, not_le.mpr early]
  | case3 low high inside stored found reached ih =>
    rw [bisect, dif_pos inside, ih]
    simp [late, found, not_lt.mp reached]
  | case4 low high apart => rw [bisect, dif_neg apart]

/-- The least stored number in `[low, high)` at or after the time, or `high`. -/
structure IsFirst (blocks : Blocks) (timestamp low high number : Int) : Prop where
  above : low ≤ number
  under : number ≤ high
  reached : number < high → late blocks timestamp number = true
  least : ∀ other, low ≤ other → other < number → late blocks timestamp other = false

def firstAt (blocks : Blocks) (timestamp low high : Int) : Int :=
  ((blocks.entries.filter fun row => low ≤ row.1 ∧ timestamp ≤ row.2).map Prod.fst).foldl min high

theorem foldl_min_spec (numbers : List Int) (high : Int) :
    numbers.foldl min high ≤ high ∧ (∀ number ∈ numbers, numbers.foldl min high ≤ number) ∧
      (numbers.foldl min high = high ∨ numbers.foldl min high ∈ numbers) := by
  induction numbers generalizing high with
  | nil => simp
  | cons number rest ih =>
    have step := ih (min high number)
    have head : rest.foldl min (min high number) ≤ min high number := step.1
    refine ⟨head.trans (min_le_left _ _), ?_, ?_⟩
    · intro other member
      rcases List.mem_cons.mp member with same | later
      · exact same ▸ head.trans (min_le_right _ _)
      · exact step.2.1 other later
    · rcases step.2.2 with same | later
      · rcases min_choice high number with left | right
        · exact Or.inl (same.trans left)
        · exact Or.inr (List.mem_cons.mpr (Or.inl (same.trans right)))
      · exact Or.inr (List.mem_cons_of_mem _ later)

theorem firstAt_first (timestamp low high : Int) (order : low ≤ high) :
    IsFirst blocks timestamp low high (firstAt blocks timestamp low high) := by
  have spec := foldl_min_spec
    ((blocks.entries.filter fun row => low ≤ row.1 ∧ timestamp ≤ row.2).map Prod.fst) high
  have listed : ∀ number,
      number ∈ ((blocks.entries.filter fun row => low ≤ row.1 ∧ timestamp ≤ row.2).map Prod.fst) ↔
        low ≤ number ∧ late blocks timestamp number = true := by
    intro number
    rw [late_iff]
    simp only [List.mem_map, List.mem_filter, decide_eq_true_eq]
    constructor
    · rintro ⟨row, ⟨member, above, reached⟩, rfl⟩
      exact ⟨above, row.2, member, reached⟩
    · rintro ⟨above, stored, member, reached⟩
      exact ⟨(number, stored), ⟨member, above, reached⟩, rfl⟩
  refine ⟨?_, spec.1, ?_, ?_⟩
  · rcases spec.2.2 with same | member
    · exact order.trans same.ge
    · exact ((listed _).mp member).1
  · intro inside
    rcases spec.2.2 with same | member
    · exact absurd same inside.ne
    · exact ((listed _).mp member).2
  · intro other above before
    cases reached : late blocks timestamp other with
    | false => rfl
    | true =>
      have bound := spec.2.1 other ((listed other).mpr ⟨above, reached⟩)
      exact absurd bound (not_le.mpr before)

theorem IsFirst.unique {blocks : Blocks} {timestamp low high first second : Int}
    (here : IsFirst blocks timestamp low high first)
    (there : IsFirst blocks timestamp low high second) : first = second := by
  rcases lt_trichotomy first second with less | same | more
  · have reached := here.reached (less.trans_le there.under)
    rw [there.least first here.above less] at reached
    cases reached
  · exact same
  · have reached := there.reached (more.trans_le here.under)
    rw [here.least second there.above more] at reached
    cases reached

theorem isFirst_iff {blocks : Blocks} {timestamp low high : Int} (order : low ≤ high)
    (number : Int) : IsFirst blocks timestamp low high number ↔
      number = firstAt blocks timestamp low high := by
  have first := firstAt_first blocks timestamp low high order
  constructor
  · intro here
    exact here.unique first
  · intro same
    exact same ▸ first

theorem late_probe {blocks : Blocks} {timestamp low high first probe : Int}
    (timely : blocks.Timely) (spec : IsFirst blocks timestamp low high first)
    (above : low ≤ probe) (under : probe < high) :
    late blocks timestamp probe = decide (first ≤ probe) ↔
      (first < probe → (blocks.get probe).isSome) := by
  rcases lt_trichotomy probe first with before | same | after
  · simp [spec.least probe above before, not_le.mpr before, before.le]
  · subst same
    simp [spec.reached under]
  · simp only [after, after.le, decide_true, forall_const]
    constructor
    · intro reached
      obtain ⟨stored, member, _⟩ := (late_iff blocks timestamp probe).mp reached
      rw [(get_some _ _ _).mpr member]
      rfl
    · intro present
      obtain ⟨stored, found⟩ := Option.isSome_iff_exists.mp present
      obtain ⟨earlier, member, reached⟩ :=
        (late_iff blocks timestamp first).mp (spec.reached (after.trans under))
      have order := timely (first, earlier) member (probe, stored) ((get_some _ _ _).mp found) after.le
      exact (late_iff blocks timestamp probe).mpr
        ⟨stored, (get_some _ _ _).mp found, reached.trans order⟩

/-- The search ends for every table, and it finds the first block exactly when no middle
above that block on the way to it is a gap. -/
theorem blockAt_isFirst_iff (blocks : Blocks) (timely : blocks.Timely)
    (timestamp low high : Int) (order : low ≤ high) :
    IsFirst blocks timestamp low high (blockAt blocks timestamp low high) ↔
      ∀ probe ∈ probes (firstAt blocks timestamp low high) low high,
        firstAt blocks timestamp low high < probe → (blocks.get probe).isSome := by
  have spec := firstAt_first blocks timestamp low high order
  rw [isFirst_iff order, blockAt_bisect, bisect_iff _ _ _ _ spec.above spec.under]
  apply forall_congr'
  intro probe
  apply forall_congr'
  intro member
  have bounds := probes_bounds _ low high probe member
  exact late_probe timely spec bounds.1 bounds.2

def boundaryBlocks : Blocks := ⟨[(0, 5), (3, 10), (4, 12), (8, 20)], by decide⟩

theorem boundaryBlocks_found :
    IsFirst boundaryBlocks 6 0 8 (blockAt boundaryBlocks 6 0 8) := by
  have first : firstAt boundaryBlocks 6 0 8 = 3 := by decide
  apply (blockAt_isFirst_iff boundaryBlocks (by decide) 6 0 8 (by decide)).mpr
  rw [first]
  simp [probes, middle, boundaryBlocks, OrderedTable.get]

def sparseBlocks : Blocks := ⟨[(0, 5), (3, 10), (8, 20)], by decide⟩

/-- The first probe, block 4, is a gap, so block 3 is passed. -/
theorem sparseBlocks_passed :
    sparseBlocks.Timely ∧ blockAt sparseBlocks 6 0 8 = 8 ∧ firstAt sparseBlocks 6 0 8 = 3 ∧
      ¬ IsFirst sparseBlocks 6 0 8 (blockAt sparseBlocks 6 0 8) := by
  have ends : blockAt sparseBlocks 6 0 8 = 8 := by
    rw [blockAt_bisect]
    simp [bisect, middle, late, sparseBlocks, OrderedTable.get]
  have first : firstAt sparseBlocks 6 0 8 = 3 := by decide
  refine ⟨by decide, ends, first, ?_⟩
  intro found
  have least := found.unique (firstAt_first sparseBlocks 6 0 8 (by decide))
  rw [ends, first] at least
  cases least

end RhPools.BlockSearch
