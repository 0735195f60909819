import Mathlib.Data.List.Basic

/-! Bisection of an interval of integers. A probe of the middle tells whether the search
goes on below it or above it. The search ends at a target exactly when every probe on the
way to that target tells the side the target is on. -/

namespace RhPools.Bisection

def middle (low high : Int) : Int := (low + high) / 2

theorem middle_bounds {low high : Int} (inside : low < high) :
    low ≤ middle low high ∧ middle low high < high := by
  simp only [middle]
  omega

theorem below_shorter {low high : Int} (inside : low < high) :
    (middle low high - low).toNat < (high - low).toNat := by
  have bounds := middle_bounds inside
  omega

theorem above_shorter {low high : Int} (inside : low < high) :
    (high - (middle low high + 1)).toNat < (high - low).toNat := by
  have bounds := middle_bounds inside
  omega

/-- The number at which `low` and `high` meet. -/
def bisect (below : Int → Bool) (low high : Int) : Int :=
  if inside : low < high then
    if below (middle low high) then bisect below low (middle low high)
    else bisect below (middle low high + 1) high
  else low
termination_by (high - low).toNat
decreasing_by
  · exact below_shorter inside
  · exact above_shorter inside

/-- The middles that a search for `target` probes. -/
def probes (target low high : Int) : List Int :=
  if inside : low < high then
    if target ≤ middle low high then
      middle low high :: probes target low (middle low high)
    else middle low high :: probes target (middle low high + 1) high
  else []
termination_by (high - low).toNat
decreasing_by
  · exact below_shorter inside
  · exact above_shorter inside

variable (below : Int → Bool)

theorem bisect_bounds (low high : Int) (order : low ≤ high) :
    low ≤ bisect below low high ∧ bisect below low high ≤ high := by
  fun_induction bisect below low high with
  | case1 low high inside down ih =>
    have bounds := middle_bounds inside
    have rest := ih bounds.1
    exact ⟨rest.1, by omega⟩
  | case2 low high inside up ih =>
    have bounds := middle_bounds inside
    have rest := ih (by omega)
    exact ⟨by omega, rest.2⟩
  | case3 low high apart => exact ⟨Int.le_refl low, order⟩

variable (target low high : Int)

theorem probes_bounds :
    ∀ probe ∈ probes target low high, low ≤ probe ∧ probe < high := by
  fun_induction probes target low high with
  | case1 low high inside down ih =>
    have bounds := middle_bounds inside
    intro probe member
    rcases List.mem_cons.mp member with same | later
    · exact same ▸ bounds
    · have rest := ih probe later
      exact ⟨rest.1, by omega⟩
  | case2 low high inside up ih =>
    have bounds := middle_bounds inside
    intro probe member
    rcases List.mem_cons.mp member with same | later
    · exact same ▸ bounds
    · have rest := ih probe later
      exact ⟨by omega, rest.2⟩
  | case3 low high apart => simp

theorem bisect_iff (above : low ≤ target) (under : target ≤ high) :
    bisect below low high = target ↔
      ∀ probe ∈ probes target low high, below probe = decide (target ≤ probe) := by
  fun_induction probes target low high with
  | case1 low high inside down ih =>
    have bounds := middle_bounds inside
    rw [bisect, dif_pos inside, List.forall_mem_cons]
    cases told : below (middle low high) with
    | true => simpa [down] using ih above down
    | false =>
      have rest := bisect_bounds below (middle low high + 1) high (by omega)
      simp [down]
      omega
  | case2 low high inside up ih =>
    have bounds := middle_bounds inside
    rw [bisect, dif_pos inside, List.forall_mem_cons]
    cases told : below (middle low high) with
    | true =>
      have rest := bisect_bounds below low (middle low high) bounds.1
      simp [up]
      omega
    | false => simpa [up] using ih (by omega) under
  | case3 low high apart =>
    rw [bisect, dif_neg apart]
    simp
    omega

end RhPools.Bisection
