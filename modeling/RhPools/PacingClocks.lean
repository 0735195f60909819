import Mathlib.Algebra.BigOperators.Group.List.Basic
import Mathlib.Algebra.Order.Group.MinMax

/-! A pacing clock: every grant charges its spend to a clock that never runs behind the time
of the grant, and a grant is only made while the clock is at most a debt ahead. What any
window of time is granted is then bounded by its length, the debt and one more grant. -/

namespace RhPools.PacingClocks

variable {Time : Type} [AddCommGroup Time] [LinearOrder Time]

structure Grant (Time : Type) where
  time : Time
  spend : Time
  deriving DecidableEq

def charge (next now spend : Time) : Time := max next now + spend

def Within (first last : Time) (grant : Grant Time) : Prop :=
  first ≤ grant.time ∧ grant.time ≤ last

instance (first last : Time) (grant : Grant Time) : Decidable (Within first last grant) :=
  inferInstanceAs (Decidable (_ ∧ _))

def spent (grants : List (Grant Time)) (first last : Time) : Time :=
  ((grants.filter fun grant => Within first last grant).map Grant.spend).sum

def Covers (next : Time) (grants : List (Grant Time)) : Prop :=
  ∀ first last, (∃ grant ∈ grants, Within first last grant) →
    first + spent grants first last ≤ next

def Bounded (debt most : Time) (grants : List (Grant Time)) : Prop :=
  ∀ first last, first ≤ last → spent grants first last ≤ last - first + debt + most

variable (grants : List (Grant Time)) (grant : Grant Time) (first last next : Time)

theorem spent_inside (inside : Within first last grant) :
    spent (grant :: grants) first last = grant.spend + spent grants first last := by
  simp [spent, inside]

theorem spent_outside (outside : ¬ Within first last grant) :
    spent (grant :: grants) first last = spent grants first last := by
  simp [spent, outside]

theorem spent_unused (unused : ¬ ∃ grant ∈ grants, Within first last grant) :
    spent grants first last = 0 := by
  have empty : grants.filter (fun grant => Within first last grant) = [] := by
    rw [List.filter_eq_nil_iff]
    intro grant member inside
    exact unused ⟨grant, member, of_decide_eq_true inside⟩
  rw [spent, empty, List.map_nil, List.sum_nil]

theorem Covers.nil : Covers next ([] : List (Grant Time)) := by
  rintro first last ⟨grant, member, -⟩
  cases member

variable [IsOrderedAddMonoid Time]

theorem Bounded.nil (debt most : Time) (debts : 0 ≤ debt) (mosts : 0 ≤ most) :
    Bounded debt most ([] : List (Grant Time)) := by
  intro first last ordered
  exact add_nonneg (add_nonneg (sub_nonneg.mpr ordered) debts) mosts

variable {grants} {next}

theorem Covers.charge (covers : Covers next grants) (paid : 0 ≤ grant.spend) :
    Covers (charge next grant.time grant.spend) (grant :: grants) := by
  intro first last used
  unfold PacingClocks.charge
  by_cases inside : Within first last grant
  · rw [spent_inside grants grant first last inside, ← add_assoc, add_right_comm]
    apply add_le_add_left
    by_cases before : ∃ grant ∈ grants, Within first last grant
    · exact le_trans (covers first last before) (le_max_left _ _)
    · rw [spent_unused grants first last before, add_zero]
      exact le_trans inside.1 (le_max_right _ _)
  · rw [spent_outside grants grant first last inside]
    have before : ∃ grant ∈ grants, Within first last grant := by
      obtain ⟨other, member, there⟩ := used
      rcases List.mem_cons.mp member with rfl | member
      · exact absurd there inside
      · exact ⟨other, member, there⟩
    calc first + spent grants first last ≤ next := covers first last before
      _ ≤ max next grant.time := le_max_left _ _
      _ ≤ max next grant.time + grant.spend := le_add_of_nonneg_right paid

theorem Bounded.charge {debt most : Time} (bounded : Bounded debt most grants)
    (covers : Covers next grants) (debts : 0 ≤ debt) (paced : next ≤ grant.time + debt)
    (small : grant.spend ≤ most) : Bounded debt most (grant :: grants) := by
  intro first last ordered
  by_cases inside : Within first last grant
  · rw [spent_inside grants grant first last inside, add_comm]
    refine add_le_add ?_ small
    by_cases before : ∃ grant ∈ grants, Within first last grant
    · have ahead : first + spent grants first last ≤ last + debt :=
        calc first + spent grants first last ≤ next := covers first last before
          _ ≤ grant.time + debt := paced
          _ ≤ last + debt := add_le_add_left inside.2 debt
      rw [sub_add_eq_add_sub]
      exact le_sub_iff_add_le'.mpr ahead
    · rw [spent_unused grants first last before]
      exact add_nonneg (sub_nonneg.mpr ordered) debts
  · rw [spent_outside grants grant first last inside]
    exact bounded first last ordered

end RhPools.PacingClocks
