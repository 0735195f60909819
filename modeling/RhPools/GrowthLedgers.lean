import Mathlib.Tactic.Abel
import RhPools.PriceWalks

/-! A price that moves over boundaries while something grows. For each boundary the ledger
keeps one value, and a move that crosses it turns the value over, into all growth less the
value. From the two values of a range one reads off what grew inside it, up to a constant:
the difference between two instants is what grew while the price was in the range. -/

namespace RhPools.GrowthLedgers
open PriceWalks

variable {Point Growth : Type} [LinearOrder Point] [AddCommGroup Growth]

structure Ledger (Point Growth : Type) where
  point : Point
  total : Growth
  outside : Point → Growth

inductive Change (Point Growth : Type) where
  | grow (growth : Growth)
  | move (point : Point) (kept : Point → Bool)

def Change.Keeps (boundary : Point) : Change Point Growth → Prop
  | .grow _ => True
  | .move _ kept => kept boundary = true

def Ledger.apply (ledger : Ledger Point Growth) : Change Point Growth → Ledger Point Growth
  | .grow growth => { ledger with total := ledger.total + growth }
  | .move point kept => { ledger with
      point := point
      outside := fun boundary =>
        if kept boundary = true ∧ Crosses ledger.point point boundary then
          ledger.total - ledger.outside boundary
        else ledger.outside boundary }

def Ledger.run (ledger : Ledger Point Growth) (changes : List (Change Point Growth)) :
    Ledger Point Growth := changes.foldl Ledger.apply ledger

def Ledger.below (ledger : Ledger Point Growth) (boundary : Point) : Growth :=
  if boundary ≤ ledger.point then ledger.outside boundary
  else ledger.total - ledger.outside boundary

def Ledger.above (ledger : Ledger Point Growth) (boundary : Point) : Growth :=
  if ledger.point < boundary then ledger.outside boundary
  else ledger.total - ledger.outside boundary

def Ledger.inside (ledger : Ledger Point Growth) (lower upper : Point) : Growth :=
  ledger.total - ledger.below lower - ledger.above upper

def Ledger.gain (ledger : Ledger Point Growth) (lower upper : Point) :
    Change Point Growth → Growth
  | .grow growth => if lower ≤ ledger.point ∧ ledger.point < upper then growth else 0
  | .move _ _ => 0

def Ledger.earned (ledger : Ledger Point Growth) (lower upper : Point) :
    List (Change Point Growth) → Growth
  | [] => 0
  | change :: rest =>
    ledger.gain lower upper change + (ledger.apply change).earned lower upper rest

theorem below_reached {ledger : Ledger Point Growth} {boundary : Point}
    (reached : boundary ≤ ledger.point) : ledger.below boundary = ledger.outside boundary :=
  if_pos reached

theorem below_ahead {ledger : Ledger Point Growth} {boundary : Point}
    (ahead : ¬boundary ≤ ledger.point) :
    ledger.below boundary = ledger.total - ledger.outside boundary :=
  if_neg ahead

variable (ledger : Ledger Point Growth)

theorem above_eq (boundary : Point) :
    ledger.above boundary = ledger.total - ledger.below boundary := by
  unfold Ledger.above
  by_cases reached : boundary ≤ ledger.point
  · rw [if_neg (not_lt.mpr reached), below_reached reached]
  · rw [if_pos (not_le.mp reached), below_ahead reached, sub_sub_cancel]

theorem crosses_iff (before after boundary : Point) :
    Crosses before after boundary ↔ ¬(boundary ≤ before ↔ boundary ≤ after) := by
  rw [Crosses, min_lt_iff, le_max_iff, ← not_le, ← not_le]
  tauto

theorem below_move (point boundary : Point) (kept : Point → Bool) (keeps : kept boundary = true) :
    (ledger.apply (.move point kept)).below boundary = ledger.below boundary := by
  have outside : (ledger.apply (.move point kept)).outside boundary =
      if boundary ≤ ledger.point ↔ boundary ≤ point then ledger.outside boundary
      else ledger.total - ledger.outside boundary := by
    simp only [Ledger.apply, keeps, true_and, crosses_iff, ite_not]
  by_cases before : boundary ≤ ledger.point <;> by_cases after : boundary ≤ point
  · rw [below_reached before, below_reached after, outside, if_pos (iff_of_true before after)]
  · rw [below_reached before, below_ahead after, outside, if_neg (by simp [before, after])]
    exact sub_sub_cancel _ _
  · rw [below_ahead before, below_reached after, outside, if_neg (by simp [before, after])]
  · rw [below_ahead before, below_ahead after, outside, if_pos (iff_of_false before after)]
    rfl

theorem below_grow (growth : Growth) (boundary : Point) :
    (ledger.apply (.grow growth)).below boundary =
      ledger.below boundary + if boundary ≤ ledger.point then 0 else growth := by
  by_cases reached : boundary ≤ ledger.point
  · rw [if_pos reached, add_zero, below_reached reached]
    exact below_reached reached
  · rw [if_neg reached, below_ahead reached, ← add_sub_right_comm]
    exact below_ahead reached

theorem inside_eq (lower upper : Point) :
    ledger.inside lower upper = ledger.below upper - ledger.below lower := by
  rw [Ledger.inside, above_eq]
  abel

theorem inside_apply {lower upper : Point} (ordered : lower ≤ upper) (change : Change Point Growth)
    (keepsLower : change.Keeps lower) (keepsUpper : change.Keeps upper) :
    (ledger.apply change).inside lower upper =
      ledger.inside lower upper + ledger.gain lower upper change := by
  rw [inside_eq, inside_eq]
  cases change with
  | move point kept =>
    rw [below_move ledger point lower kept keepsLower, below_move ledger point upper kept keepsUpper,
      Ledger.gain, add_zero]
  | grow growth =>
    rw [below_grow, below_grow, Ledger.gain]
    by_cases reached : lower ≤ ledger.point
    · by_cases passed : upper ≤ ledger.point
      · simp [reached, passed, not_lt.mpr passed]
      · simp [reached, passed, not_le.mp passed]
        abel
    · have early : ¬upper ≤ ledger.point := fun passed => reached (ordered.trans passed)
      simp [reached, early]

theorem inside_run (changes : List (Change Point Growth)) (ledger : Ledger Point Growth)
    {lower upper : Point} (ordered : lower ≤ upper)
    (keeps : ∀ change ∈ changes, change.Keeps lower ∧ change.Keeps upper) :
    (ledger.run changes).inside lower upper =
      ledger.inside lower upper + ledger.earned lower upper changes := by
  induction changes generalizing ledger with
  | nil => rw [Ledger.earned, add_zero]; rfl
  | cons change rest ih =>
    obtain ⟨keepsLower, keepsUpper⟩ := keeps change List.mem_cons_self
    have later := ih (ledger.apply change) fun other member => keeps other (.tail _ member)
    rw [inside_apply ledger ordered change keepsLower keepsUpper] at later
    rw [Ledger.earned, ← add_assoc]
    exact later

end RhPools.GrowthLedgers
