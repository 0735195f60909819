import Mathlib.Algebra.Order.BigOperators.Group.List
import Mathlib.Tactic.Ring
import Mathlib.Tactic.Linarith

/-! Integer shares of a total in proportion to weights: every recipient but the
last gets the floor, the last gets what is left. The floors never overrun the
total, and how far the last share can exceed its own weight is decided by the
remainders alone. -/

namespace RhPools.ProportionalShares

/-- `assigned` is what earlier recipients already have. -/
def shares (total whole : Int) : Int → List Int → List Int
  | _, [] => []
  | assigned, [_] => [total - assigned]
  | assigned, weight :: next :: rest =>
    let share := (weight * total).fdiv whole
    share :: shares total whole (assigned + share) (next :: rest)

variable (total whole assigned : Int)

@[simp] theorem shares_nil : shares total whole assigned [] = [] :=
  rfl

@[simp] theorem shares_single (total whole assigned weight : Int) :
    shares total whole assigned [weight] = [total - assigned] := rfl

theorem shares_cons (total whole assigned weight next : Int) (rest : List Int) :
    shares total whole assigned (weight :: next :: rest) =
      (weight * total).fdiv whole ::
        shares total whole (assigned + (weight * total).fdiv whole) (next :: rest) := rfl

variable (weights : List Int)

@[simp] theorem length_shares :
    (shares total whole assigned weights).length = weights.length := by
  induction weights generalizing assigned with
  | nil => rfl
  | cons weight rest ih =>
    cases rest with
    | nil => rfl
    | cons next rest => simp [shares_cons, ih]

theorem sum_shares (some : weights ≠ []) :
    (shares total whole assigned weights).sum = total - assigned := by
  induction weights generalizing assigned with
  | nil => exact absurd rfl some
  | cons weight rest ih =>
    cases rest with
    | nil => simp
    | cons next rest =>
      rw [shares_cons, List.sum_cons, ih _ (List.cons_ne_nil next rest)]
      ring

theorem floor_nonneg (weight total whole : Int) (weightNonneg : 0 ≤ weight)
    (totalNonneg : 0 ≤ total) (wholePos : 0 < whole) : 0 ≤ (weight * total).fdiv whole := by
  rw [Int.fdiv_eq_ediv_of_nonneg _ wholePos.le]
  exact Int.ediv_nonneg (mul_nonneg weightNonneg totalNonneg) wholePos.le

theorem floor_mul_le (weight total whole : Int) (wholePos : 0 < whole) :
    (weight * total).fdiv whole * whole ≤ weight * total := by
  rw [Int.fdiv_eq_ediv_of_nonneg _ wholePos.le]
  exact Int.ediv_mul_le _ wholePos.ne'

/-- With non-negative weights that make up the whole, no share is negative: what
is assigned before a recipient is at most its part of the total. -/
theorem shares_nonneg (totalNonneg : 0 ≤ total) (wholePos : 0 < whole)
    (weightsNonneg : ∀ weight ∈ weights, 0 ≤ weight)
    (behind : assigned * whole ≤ (whole - weights.sum) * total) :
    ∀ share ∈ shares total whole assigned weights, 0 ≤ share := by
  induction weights generalizing assigned with
  | nil => simp
  | cons weight rest ih =>
    have weightNonneg := weightsNonneg weight List.mem_cons_self
    cases rest with
    | nil =>
      intro share member
      simp only [shares_single, List.mem_singleton] at member
      subst member
      simp only [List.sum_cons, List.sum_nil, add_zero] at behind
      nlinarith [mul_nonneg weightNonneg totalNonneg]
    | cons next rest =>
      intro share member
      rw [shares_cons, List.mem_cons] at member
      rcases member with rfl | later
      · exact floor_nonneg weight total whole weightNonneg totalNonneg wholePos
      · refine ih _ (fun w m => weightsNonneg w (List.mem_cons_of_mem weight m)) ?_ share later
        have floor := floor_mul_le weight total whole wholePos
        simp only [List.sum_cons] at behind ⊢
        nlinarith

theorem floor_pos (weight total whole : Int) (wholePos : 0 < whole) :
    0 < (weight * total).fdiv whole ↔ whole ≤ weight * total := by
  rw [Int.fdiv_eq_ediv_of_nonneg _ wholePos.le, Int.lt_iff_add_one_le, zero_add,
    Int.le_ediv_iff_mul_le wholePos, one_mul]

/-- Of a positive total every recipient gets something exactly when every floor
does: the remainder is at least the last recipient's part. -/
theorem shares_pos (totalPos : 0 < total) (wholePos : 0 < whole)
    (weightsPos : ∀ weight ∈ weights, 0 < weight)
    (behind : assigned * whole ≤ (whole - weights.sum) * total) :
    (∀ share ∈ shares total whole assigned weights, 0 < share) ↔
      ∀ weight ∈ weights.dropLast, whole ≤ weight * total := by
  induction weights generalizing assigned with
  | nil => simp
  | cons weight rest ih =>
    have weightPos := weightsPos weight List.mem_cons_self
    cases rest with
    | nil =>
      simp only [shares_single, List.mem_singleton, forall_eq, List.dropLast_singleton,
        List.not_mem_nil, false_implies, implies_true, iff_true]
      simp only [List.sum_cons, List.sum_nil, add_zero] at behind
      nlinarith [mul_pos weightPos totalPos]
    | cons next rest =>
      have floor := floor_mul_le weight total whole wholePos
      have later := ih (assigned + (weight * total).fdiv whole)
        (fun w m => weightsPos w (List.mem_cons_of_mem weight m))
        (by simp only [List.sum_cons] at behind ⊢; nlinarith)
      rw [shares_cons, List.dropLast_cons_cons]
      simp only [List.forall_mem_cons]
      rw [floor_pos weight total whole wholePos, ← later]

theorem shares_pos_several (total whole : Int) (weights : List Int) (several : 2 ≤ weights.length)
    (wholePos : 0 < whole) (weightsPos : ∀ weight ∈ weights, 0 < weight)
    (sum : weights.sum = whole) :
    (∀ share ∈ shares total whole 0 weights, 0 < share) ↔
      ∀ weight ∈ weights.dropLast, whole ≤ weight * total := by
  by_cases totalPos : 0 < total
  · exact shares_pos total whole 0 weights totalPos wholePos weightsPos (by rw [sum]; simp)
  match weights, several with
  | first :: next :: rest, _ =>
    have firstPos := weightsPos first List.mem_cons_self
    have short : ¬whole ≤ first * total := by nlinarith
    rw [shares_cons, List.dropLast_cons_cons]
    simp only [List.forall_mem_cons]
    rw [floor_pos first total whole wholePos]
    simp [short]

theorem shares_concat (before : List Int) (last : Int) :
    shares total whole assigned (before ++ [last]) =
      before.map (fun weight => (weight * total).fdiv whole) ++
        [total - assigned - (before.map fun weight => (weight * total).fdiv whole).sum] := by
  induction before generalizing assigned with
  | nil => simp
  | cons weight rest ih =>
    have step : shares total whole assigned (weight :: (rest ++ [last])) =
        (weight * total).fdiv whole ::
          shares total whole (assigned + (weight * total).fdiv whole) (rest ++ [last]) := by
      cases rest <;> rfl
    rw [List.cons_append, step, ih]
    simp only [List.map_cons, List.cons_append, List.sum_cons]
    congr 3
    ring

theorem sum_floors (total whole : Int) (weights : List Int) (wholePos : 0 < whole) :
    (weights.map fun weight => (weight * total).fdiv whole).sum * whole +
        (weights.map fun weight => weight * total % whole).sum = weights.sum * total := by
  induction weights with
  | nil => simp
  | cons weight rest ih =>
    have split := Int.ediv_mul_add_emod (weight * total) whole
    simp only [List.map_cons, List.sum_cons, Int.fdiv_eq_ediv_of_nonneg _ wholePos.le] at ih ⊢
    nlinarith

theorem floor_le_weight (weight total whole : Int) (weightNonneg : 0 ≤ weight)
    (within : total ≤ whole) (wholePos : 0 < whole) : (weight * total).fdiv whole ≤ weight := by
  rw [Int.fdiv_eq_ediv_of_nonneg _ wholePos.le]
  exact Int.ediv_le_of_le_mul wholePos (mul_le_mul_of_nonneg_left within weightNonneg)

/-- No share exceeds its weight exactly when the remainders the floors leave to the
last recipient fit into what it does not need of its own weight. -/
theorem shares_le_weights (total whole : Int) (before : List Int) (last : Int)
    (wholePos : 0 < whole) (within : total ≤ whole)
    (weightsNonneg : ∀ weight ∈ before, 0 ≤ weight) (sum : before.sum + last = whole) :
    (∀ entry ∈ (shares total whole 0 (before ++ [last])).zip (before ++ [last]),
        entry.1 ≤ entry.2) ↔
      (before.map fun weight => weight * total % whole).sum ≤ (whole - total) * last := by
  have floors := sum_floors total whole before wholePos
  rw [shares_concat, List.zip_append (by simp), List.zip_cons_cons, List.zip_nil_right]
  simp only [List.mem_append, List.mem_singleton, or_imp, forall_and, forall_eq]
  constructor
  · rintro ⟨-, lastFits⟩
    have scaled := mul_le_mul_of_nonneg_right lastFits wholePos.le
    nlinarith
  · intro fits
    refine ⟨fun entry member => ?_, ?_⟩
    · rw [List.zip_map_left, List.mem_map] at member
      obtain ⟨⟨weight, same⟩, inside, rfl⟩ := member
      have equal := List.of_mem_zip inside
      have twin : weight = same := by
        rw [List.mem_iff_getElem] at inside
        obtain ⟨i, _, entry⟩ := inside
        simp only [List.getElem_zip, Prod.mk.injEq] at entry
        rw [← entry.1, ← entry.2]
      subst twin
      exact floor_le_weight weight total whole (weightsNonneg weight equal.1) within wholePos
    · refine le_of_mul_le_mul_right ?_ wholePos
      nlinarith

end RhPools.ProportionalShares
