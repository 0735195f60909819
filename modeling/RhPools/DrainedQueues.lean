import Mathlib.Algebra.BigOperators.Ring.Finset
import Mathlib.Algebra.Order.BigOperators.Group.Finset
import Mathlib.Tactic.Ring

/-! Queues over finitely many ranked items. Processing takes items off the queue, and puts on
items that come after one of those taken. An item weighs more than all the items after it
together, so the queue gets lighter, whatever is taken. -/

namespace RhPools.DrainedQueues

variable {Item Rank : Type} [DecidableEq Item] [LinearOrder Rank]

def later (items : Finset Item) (rank : Item → Rank) (item : Item) : Nat :=
  (items.filter fun other => rank item < rank other).card

def weight (items : Finset Item) (rank : Item → Rank) (item : Item) : Nat :=
  (items.card + 1) ^ later items rank item

def load (items : Finset Item) (rank : Item → Rank) (queue : Finset Item) : Nat :=
  ∑ item ∈ queue, weight items rank item

variable {items : Finset Item} {rank : Item → Rank}

omit [DecidableEq Item] in
theorem weight_pos (item : Item) : 0 < weight items rank item :=
  Nat.pow_pos (Nat.succ_pos _)

omit [DecidableEq Item] in
theorem later_lt (low high : Item) (inside : high ∈ items) (above : rank low < rank high) :
    later items rank high < later items rank low := by
  apply Finset.card_lt_card
  rw [Finset.ssubset_iff_of_subset]
  · refine ⟨high, Finset.mem_filter.mpr ⟨inside, above⟩, ?_⟩
    intro member
    exact lt_irrefl _ (Finset.mem_filter.mp member).2
  · intro other member
    obtain ⟨there, after⟩ := Finset.mem_filter.mp member
    exact Finset.mem_filter.mpr ⟨there, above.trans after⟩

omit [DecidableEq Item] in
theorem load_above (source : Item) (fresh : Finset Item) (inside : fresh ⊆ items)
    (above : ∀ item ∈ fresh, rank source < rank item) :
    load items rank fresh < weight items rank source := by
  have each : ∀ item ∈ fresh, (items.card + 1) * weight items rank item ≤
      weight items rank source := by
    intro item member
    have less := later_lt source item (inside member) (above item member)
    rw [weight, ← Nat.pow_succ']
    exact Nat.pow_le_pow_right (Nat.succ_pos _) less
  have total : (items.card + 1) * load items rank fresh ≤
      items.card * weight items rank source := by
    rw [load, Finset.mul_sum]
    refine (Finset.sum_le_card_nsmul _ _ _ each).trans ?_
    exact Nat.mul_le_mul_right _ (Finset.card_le_card inside)
  have heavy : 0 < weight items rank source := weight_pos source
  by_contra heavier
  have most := (Nat.mul_le_mul_left (items.card + 1) (not_lt.mp heavier)).trans total
  rw [Nat.succ_mul] at most
  omega

theorem load_drops (queue picked next : Finset Item) (some : picked.Nonempty)
    (part : picked ⊆ queue)
    (comes : ∀ item ∈ next, item ∈ queue \ picked ∨
      item ∈ items ∧ ∃ source ∈ picked, rank source < rank item) :
    load items rank next < load items rank queue := by
  obtain ⟨first, taken, lowest⟩ := Finset.exists_min_image picked rank some
  let fresh := next \ (queue \ picked)
  have after : ∀ item ∈ fresh, item ∈ items ∧ rank first < rank item := by
    intro item member
    obtain ⟨there, new⟩ := Finset.mem_sdiff.mp member
    obtain ⟨inside, source, took, above⟩ := (comes item there).resolve_left new
    exact ⟨inside, (lowest source took).trans_lt above⟩
  have bounded := load_above first fresh (fun item member => (after item member).1)
    fun item member => (after item member).2
  have covered : next ⊆ (queue \ picked) ∪ fresh := by
    intro item member
    by_cases stays : item ∈ queue \ picked
    · exact Finset.mem_union_left _ stays
    · exact Finset.mem_union_right _ (Finset.mem_sdiff.mpr ⟨member, stays⟩)
  have one : weight items rank first ≤ load items rank picked :=
    Finset.single_le_sum (fun _ _ => Nat.zero_le _) taken
  calc load items rank next
      ≤ load items rank ((queue \ picked) ∪ fresh) := Finset.sum_le_sum_of_subset covered
    _ ≤ load items rank (queue \ picked) + load items rank fresh := by
        rw [load, load, load, ← Finset.sum_union_inter]
        exact Nat.le_add_right _ _
    _ < load items rank (queue \ picked) + load items rank picked :=
        Nat.add_lt_add_left (bounded.trans_le one) _
    _ = load items rank queue := Finset.sum_sdiff part

end RhPools.DrainedQueues
