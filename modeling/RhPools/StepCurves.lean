import Mathlib.Algebra.BigOperators.Group.Finset.Piecewise
import Mathlib.Tactic.Abel

/-! Weights on spans of an ordered set. The level at a point is the weight of the spans over
it; it changes only at the ends of spans, by their net weight there. So a level is had from
another one, from the net weights between the two points. -/

namespace RhPools.StepCurves

structure Span (Point Weight : Type) where
  lower : Point
  upper : Point
  weight : Weight

variable {Point Weight : Type} [LinearOrder Point] [AddCommGroup Weight]

def Span.over (span : Span Point Weight) (point : Point) : Weight :=
  if span.lower ≤ point ∧ point < span.upper then span.weight else 0

def Span.netAt (span : Span Point Weight) (point : Point) : Weight :=
  (if span.lower = point then span.weight else 0) -
    if span.upper = point then span.weight else 0

def level (spans : List (Span Point Weight)) (point : Point) : Weight :=
  (spans.map fun span => span.over point).sum

def net (spans : List (Span Point Weight)) (point : Point) : Weight :=
  (spans.map fun span => span.netAt point).sum

def Within (start stop point : Point) : Prop := start < point ∧ point ≤ stop

instance (start stop point : Point) : Decidable (Within start stop point) :=
  inferInstanceAs (Decidable (_ ∧ _))

theorem Span.over_step (span : Span Point Weight) {start stop : Point} (ordered : start ≤ stop)
    (forwards : span.lower ≤ span.upper) : span.over stop = span.over start +
      ((if Within start stop span.lower then span.weight else 0) -
        if Within start stop span.upper then span.weight else 0) := by
  unfold Span.over Within
  by_cases lowStart : span.lower ≤ start
  · have lowStop : span.lower ≤ stop := lowStart.trans ordered
    by_cases upStart : start < span.upper
    · by_cases upStop : stop < span.upper
      · simp [lowStart, lowStop, upStart, upStop, not_lt.mpr lowStart, not_le.mpr upStop]
      · simp [lowStart, upStart, upStop, not_lt.mpr lowStart, not_lt.mp upStop]
    · have upStop : ¬stop < span.upper := not_lt.mpr ((not_lt.mp upStart).trans ordered)
      simp [upStart, upStop, not_lt.mpr lowStart]
  · have upStart : start < span.upper := (not_le.mp lowStart).trans_le forwards
    by_cases lowStop : span.lower ≤ stop
    · by_cases upStop : stop < span.upper
      · simp [lowStart, lowStop, upStop, not_le.mp lowStart, not_le.mpr upStop]
      · simp [lowStart, lowStop, upStart, upStop, not_le.mp lowStart, not_lt.mp upStop]
    · have upStop : ¬span.upper ≤ stop := fun reached => lowStop (forwards.trans reached)
      simp [lowStart, lowStop, upStop]

theorem Span.sum_netAt (span : Span Point Weight) (points : Finset Point) :
    ∑ point ∈ points, span.netAt point =
      (if span.lower ∈ points then span.weight else 0) -
        if span.upper ∈ points then span.weight else 0 := by
  simp only [Span.netAt]
  rw [Finset.sum_sub_distrib, Finset.sum_ite_eq, Finset.sum_ite_eq]

theorem level_sum (spans : List (Span Point Weight)) {start stop : Point}
    (ordered : start ≤ stop) (points : Finset Point)
    (forwards : ∀ span ∈ spans, span.lower ≤ span.upper)
    (ends : ∀ span ∈ spans, (span.lower ∈ points ↔ Within start stop span.lower) ∧
      (span.upper ∈ points ↔ Within start stop span.upper)) :
    level spans stop = level spans start + ∑ point ∈ points, net spans point := by
  induction spans with
  | nil => simp [level, net]
  | cons span rest ih =>
    have later := ih (fun other member => forwards other (.tail _ member))
      fun other member => ends other (.tail _ member)
    have here := span.over_step ordered (forwards span List.mem_cons_self)
    obtain ⟨lower, upper⟩ := ends span List.mem_cons_self
    have summed := span.sum_netAt points
    simp only [lower, upper] at summed
    rw [← summed] at here
    simp only [level, net, List.map_cons, List.sum_cons, Finset.sum_add_distrib] at later ⊢
    rw [here, later]
    abel

theorem level_step (spans : List (Span Point Weight)) {start stop : Point}
    (ordered : start ≤ stop) (marks : List Point) (distinct : marks.Nodup)
    (forwards : ∀ span ∈ spans, span.lower ≤ span.upper)
    (marked : ∀ point, Within start stop point → point ∉ marks → net spans point = 0) :
    level spans stop = level spans start +
      ((marks.filter fun mark => decide (Within start stop mark)).map (net spans)).sum := by
  classical
  let ends := (spans.map Span.lower ++ spans.map Span.upper ++ marks).toFinset
  let between := ends.filter (Within start stop)
  have covered : ∀ span ∈ spans, (span.lower ∈ between ↔ Within start stop span.lower) ∧
      (span.upper ∈ between ↔ Within start stop span.upper) := by
    intro span member
    have lower : span.lower ∈ ends := by
      simp only [ends, List.mem_toFinset, List.mem_append]
      exact .inl (.inl (List.mem_map_of_mem member))
    have upper : span.upper ∈ ends := by
      simp only [ends, List.mem_toFinset, List.mem_append]
      exact .inl (.inr (List.mem_map_of_mem member))
    exact ⟨by simp [between, lower], by simp [between, upper]⟩
  rw [level_sum spans ordered between forwards covered]
  congr 1
  have kept : (marks.filter fun mark => decide (Within start stop mark)).Nodup :=
    distinct.filter _
  rw [← List.sum_toFinset (net spans) kept]
  symm
  apply Finset.sum_subset
  · intro point member
    simp only [List.mem_toFinset, List.mem_filter, decide_eq_true_eq] at member
    simp [between, ends, member.1, member.2]
  · intro point member outside
    simp only [between, Finset.mem_filter] at member
    simp only [List.mem_toFinset, List.mem_filter, decide_eq_true_eq, not_and'] at outside
    exact marked point member.2 (outside member.2)

end RhPools.StepCurves
