import Mathlib.Order.Interval.Set.OrdConnected

/-! Walks of a price through an ordered set of points, and the boundaries that their moves
cross. A path that lists points of a walk, one at every turn, lies on one side of a
boundary only if the whole walk does. -/

namespace RhPools.PriceWalks

variable {Point : Type} [LinearOrder Point]

def Crosses (before after boundary : Point) : Prop :=
  min before after < boundary ∧ boundary ≤ max before after

instance (before after boundary : Point) : Decidable (Crosses before after boundary) :=
  inferInstanceAs (Decidable (_ ∧ _))

def crossed (path : List Point) (boundary : Point) : Bool :=
  (path.zip path.tail).any fun moved => decide (Crosses moved.1 moved.2 boundary)

def OneSided (points : List Point) (boundary : Point) : Prop :=
  (∀ point ∈ points, point < boundary) ∨ ∀ point ∈ points, boundary ≤ point

theorem OneSided.subset {points part : List Point} {boundary : Point}
    (sided : OneSided points boundary) (inside : part ⊆ points) : OneSided part boundary :=
  sided.imp (fun below point member => below point (inside member))
    fun above point member => above point (inside member)

theorem OneSided.uncrossed {points : List Point} {before after boundary : Point}
    (sided : OneSided points boundary) (first : before ∈ points) (second : after ∈ points) :
    ¬Crosses before after boundary := by
  rintro ⟨low, high⟩
  rcases sided with below | above
  · have both := max_lt (below before first) (below after second)
    exact absurd high (not_le.mpr both)
  · have both := le_min (above before first) (above after second)
    exact absurd low (not_lt.mpr both)

theorem crossed_cons_cons (first second : Point) (rest : List Point) (boundary : Point) :
    crossed (first :: second :: rest) boundary =
      (decide (Crosses first second boundary) || crossed (second :: rest) boundary) := by
  rw [crossed, List.tail_cons, List.zip_cons_cons, List.any_cons]
  rfl

theorem oneSided_of_uncrossed (path : List Point) (boundary : Point)
    (uncrossed : crossed path boundary = false) : OneSided path boundary := by
  induction path with
  | nil => exact .inl (by simp)
  | cons first rest ih =>
    cases rest with
    | nil => simp [OneSided, lt_or_ge]
    | cons second rest =>
      rw [crossed_cons_cons, Bool.or_eq_false_iff, decide_eq_false_iff_not] at uncrossed
      obtain ⟨apart, uncrossed⟩ := uncrossed
      rcases ih uncrossed with below | above
      · refine .inl (List.forall_mem_cons.mpr ⟨?_, below⟩)
        by_contra high
        have low := below second List.mem_cons_self
        exact apart ⟨min_lt_of_right_lt low, le_max_of_le_left (not_lt.mp high)⟩
      · refine .inr (List.forall_mem_cons.mpr ⟨?_, above⟩)
        by_contra low
        have high := above second List.mem_cons_self
        exact apart ⟨min_lt_of_left_lt (not_le.mp low), le_max_of_le_right high⟩

def Straight (walk : List Point) : Prop :=
  walk.Pairwise (· ≤ ·) ∨ walk.Pairwise (· ≥ ·)

/-- The path lists points of the walk in order: its first, its last, and one at every
turn. A point may be listed again. -/
inductive Turns : List Point → List Point → Prop
  | stop (point : Point) : Turns [point] [point]
  | again (point : Point) (walk path : List Point) (rest : Turns (point :: walk) path) :
      Turns (point :: walk) (point :: path)
  | leg (start turn : Point) (passed walk path : List Point)
      (straight : Straight (start :: passed ++ [turn])) (rest : Turns (turn :: walk) path) :
      Turns (start :: passed ++ turn :: walk) (start :: path)

variable {walk path : List Point}

theorem Turns.head_mem (turns : Turns walk path) :
    ∀ point ∈ walk.head?, point ∈ path := by
  cases turns <;> simp

theorem Straight.within {start turn : Point} {passed : List Point} {side : Set Point}
    (straight : Straight (start :: passed ++ [turn])) (convex : side.OrdConnected)
    (first : start ∈ side) (last : turn ∈ side) : ∀ point ∈ passed, point ∈ side := by
  intro point member
  rw [Straight, List.pairwise_append, List.pairwise_append] at straight
  simp only [List.pairwise_cons, List.mem_cons] at straight
  rcases straight with ⟨⟨rising, _⟩, _, ends⟩ | ⟨⟨falling, _⟩, _, ends⟩
  · exact convex.out first last ⟨rising point member, ends point (.inr member) turn (.inl rfl)⟩
  · exact convex.out last first ⟨ends point (.inr member) turn (.inl rfl), falling point member⟩

theorem Turns.within {side : Set Point} (turns : Turns walk path) (convex : side.OrdConnected)
    (inside : ∀ point ∈ path, point ∈ side) :
    ∀ point ∈ walk, point ∈ side := by
  induction turns with
  | stop point => exact inside
  | again point walk path rest ih => exact ih fun point member => inside point (.tail _ member)
  | leg start turn passed walk path straight rest ih =>
    have first : start ∈ side := inside start List.mem_cons_self
    have last : turn ∈ side := inside turn (.tail _ (rest.head_mem turn rfl))
    have passing := straight.within convex first last
    have later := ih fun point member => inside point (.tail _ member)
    rw [List.cons_append, List.forall_mem_cons, List.forall_mem_append]
    exact ⟨first, passing, later⟩

theorem Turns.oneSided {boundary : Point} (turns : Turns walk path) (sided : OneSided path boundary) :
    OneSided walk boundary :=
  sided.imp (turns.within Set.ordConnected_Iio) (turns.within Set.ordConnected_Ici)

end RhPools.PriceWalks
