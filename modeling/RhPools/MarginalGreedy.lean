import Mathlib.Algebra.BigOperators.Group.Finset.Piecewise
import Mathlib.Algebra.Order.BigOperators.Group.Finset
import Mathlib.Data.Finset.Order

/-! Greedy shares. Equal units are handed out one at a time, each to an index
whose next unit gains most. When gains never grow along an index, the result
is worth at least as much as any other distribution of as many units. -/

namespace RhPools.MarginalGreedy

variable {ι α : Type*} [AddCommGroup α] [LinearOrder α]

/-- What unit number `taken` adds at an index. -/
def gain (value : ι → ℕ → α) (index : ι) (taken : ℕ) : α :=
  value index (taken + 1) - value index taken

/-- Among the first `units` units of an index a later one never gains more. -/
def Diminishing (indices : Finset ι) (units : ℕ) (value : ι → ℕ → α) : Prop :=
  ∀ index ∈ indices, ∀ taken later, taken ≤ later → later < units →
    gain value index later ≤ gain value index taken

theorem diminishing_of_next (indices : Finset ι) (units : ℕ) (value : ι → ℕ → α)
    (next : ∀ index ∈ indices, ∀ taken, taken + 1 < units →
      gain value index (taken + 1) ≤ gain value index taken) :
    Diminishing indices units value := by
  intro index member taken later before
  induction later, before using Nat.le_induction with
  | base => intro _; exact le_rfl
  | succ later before ih =>
    intro inside
    exact (next index member later inside).trans (ih (by omega))

structure Priced (indices : Finset ι) (units : ℕ) (value : ι → ℕ → α) (price : α)
    (shares : ι → ℕ) : Prop where
  bounded : ∀ index ∈ indices, shares index ≤ units
  taken : ∀ index ∈ indices, ∀ unit, unit < shares index → price ≤ gain value index unit
  left : ∀ index ∈ indices, ∀ unit, shares index ≤ unit → unit < units →
    gain value index unit ≤ price

structure Pick (indices : Finset ι) (units : ℕ) (value : ι → ℕ → α) (shares : ι → ℕ) (index : ι) :
    Prop where
  member : index ∈ indices
  room : shares index < units
  best : ∀ other ∈ indices, shares other < units →
    gain value other (shares other) ≤ gain value index (shares index)

section Steps
variable {indices : Finset ι} {units : ℕ} {value : ι → ℕ → α}

theorem priced_start (indices : Finset ι) (units : ℕ) (value : ι → ℕ → α) :
    ∃ price, Priced indices units value price fun _ => 0 := by
  obtain ⟨price, above⟩ := ((indices ×ˢ Finset.range units).image
    fun unit => gain value unit.1 unit.2).exists_le
  refine ⟨price, fun _ _ => Nat.zero_le _, fun _ _ unit before => absurd before (by omega), ?_⟩
  intro index member unit _ inside
  apply above
  exact Finset.mem_image.mpr ⟨(index, unit),
    Finset.mem_product.mpr ⟨member, Finset.mem_range.mpr inside⟩, rfl⟩

variable [DecidableEq ι]

def handOut (shares : ι → ℕ) (index : ι) : ι → ℕ :=
  Function.update shares index (shares index + 1)

theorem sum_handOut (shares : ι → ℕ) (index : ι) (member : index ∈ indices) :
    ∑ other ∈ indices, handOut shares index other = ∑ other ∈ indices, shares other + 1 := by
  rw [handOut, Finset.sum_update_of_mem member, ← Finset.sum_sdiff (Finset.singleton_subset_iff.mpr member),
    Finset.sum_singleton]
  omega

/-- After a pick its gain is the price: what went before gained at least the old
price, what is left gains at most this. -/
theorem Priced.pick {price : α} {shares : ι → ℕ} {index : ι}
    (priced : Priced indices units value price shares)
    (diminishing : Diminishing indices units value) (pick : Pick indices units value shares index) :
    Priced indices units value (gain value index (shares index)) (handOut shares index) := by
  have cheap : gain value index (shares index) ≤ price :=
    priced.left index pick.member _ le_rfl pick.room
  refine ⟨?_, ?_, ?_⟩
  · intro other member
    by_cases same : other = index
    · subst same
      rw [handOut, Function.update_self]
      exact pick.room
    · simpa [handOut, same] using priced.bounded other member
  · intro other member unit before
    by_cases same : other = index
    · subst same
      have : unit < shares other + 1 := by simpa [handOut] using before
      exact diminishing other member unit _ (by omega) pick.room
    · have : unit < shares other := by simpa [handOut, same] using before
      exact cheap.trans (priced.taken other member unit this)
  · intro other member unit after inside
    by_cases same : other = index
    · subst same
      have : shares other + 1 ≤ unit := by simpa [handOut] using after
      exact diminishing other member _ unit (by omega) inside
    · have : shares other ≤ unit := by simpa [handOut, same] using after
      exact (diminishing other member _ unit this inside).trans
        (pick.best other member (by omega))

end Steps

section Optimal
variable [IsOrderedAddMonoid α]

theorem value_above (value : ι → ℕ → α) (index : ι) (price : α) (low : ℕ) (extra : ℕ)
    (cheap : ∀ unit, low ≤ unit → unit < low + extra → gain value index unit ≤ price) :
    value index (low + extra) ≤ value index low + extra • price := by
  induction extra with
  | zero => simp
  | succ extra ih =>
    have step := cheap (low + extra) (by omega) (by omega)
    have before := ih fun unit after inside => cheap unit after (by omega)
    calc value index (low + (extra + 1))
        = value index (low + extra) + gain value index (low + extra) := by
          rw [gain, add_sub_cancel]; rfl
      _ ≤ (value index low + extra • price) + price := add_le_add before step
      _ = value index low + (extra + 1) • price := by rw [succ_nsmul, add_assoc]

theorem value_below (value : ι → ℕ → α) (index : ι) (price : α) (low : ℕ) (extra : ℕ)
    (dear : ∀ unit, low ≤ unit → unit < low + extra → price ≤ gain value index unit) :
    value index low + extra • price ≤ value index (low + extra) := by
  induction extra with
  | zero => simp
  | succ extra ih =>
    have step := dear (low + extra) (by omega) (by omega)
    have before := ih fun unit after inside => dear unit after (by omega)
    calc value index low + (extra + 1) • price
        = (value index low + extra • price) + price := by rw [succ_nsmul, add_assoc]
      _ ≤ value index (low + extra) + gain value index (low + extra) := add_le_add before step
      _ = value index (low + (extra + 1)) := by rw [gain, add_sub_cancel]; rfl

variable {indices : Finset ι} {units : ℕ} {value : ι → ℕ → α} {price : α} {shares : ι → ℕ}

theorem Priced.exchange (priced : Priced indices units value price shares) (index : ι)
    (member : index ∈ indices) (other : ℕ) (bounded : other ≤ units) :
    value index other + shares index • price ≤ value index (shares index) + other • price := by
  rcases Nat.le_total (shares index) other with more | fewer
  · obtain ⟨extra, rfl⟩ := Nat.exists_eq_add_of_le more
    have above := value_above value index price (shares index) extra
      fun unit after inside => priced.left index member unit after (by omega)
    calc value index (shares index + extra) + shares index • price
        ≤ (value index (shares index) + extra • price) + shares index • price :=
          add_le_add_left above _
      _ = value index (shares index) + (shares index + extra) • price := by
          rw [add_nsmul, add_assoc, add_comm (extra • price)]
  · obtain ⟨extra, same⟩ := Nat.exists_eq_add_of_le fewer
    have below := value_below value index price other extra
      fun unit _ inside => priced.taken index member unit (by omega)
    rw [same]
    calc value index other + (other + extra) • price
        = (value index other + extra • price) + other • price := by
          rw [add_nsmul, add_assoc, add_comm (extra • price)]
      _ ≤ value index (other + extra) + other • price := add_le_add_left below _

theorem Priced.optimal (priced : Priced indices units value price shares) (others : ι → ℕ)
    (bounded : ∀ index ∈ indices, others index ≤ units)
    (same : ∑ index ∈ indices, others index = ∑ index ∈ indices, shares index) :
    ∑ index ∈ indices, value index (others index) ≤
      ∑ index ∈ indices, value index (shares index) := by
  have exchanged := Finset.sum_le_sum fun index member =>
    priced.exchange index member (others index) (bounded index member)
  rw [Finset.sum_add_distrib, Finset.sum_add_distrib, Finset.sum_nsmul_assoc, Finset.sum_nsmul_assoc,
    same] at exchanged
  exact le_of_add_le_add_right exchanged

end Optimal

end RhPools.MarginalGreedy
