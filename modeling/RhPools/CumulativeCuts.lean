import Mathlib.Data.List.Range
import Mathlib.Tactic.Ring
import Mathlib.Tactic.Linarith

/-! Cutting a total at the floors of its cumulative parts. Cuts rise with the part, those of as
many equal parts as there are units are all apart, and marks that rise tile what lies between
the first and the last. -/

namespace RhPools.CumulativeCuts

def cut (total whole part : Int) : Int := (total * part).fdiv whole

variable {total whole : Int}

theorem cut_zero (positive : 0 < whole) : cut total whole 0 = 0 := by
  rw [cut, Int.mul_zero, Int.fdiv_eq_ediv_of_nonneg _ positive.le, Int.zero_ediv]

theorem cut_whole (positive : 0 < whole) : cut total whole whole = total := by
  rw [cut, Int.fdiv_eq_ediv_of_nonneg _ positive.le, Int.mul_ediv_cancel _ positive.ne']

theorem cut_le (nonneg : 0 ≤ total) (positive : 0 < whole) {less more : Int}
    (order : less ≤ more) : cut total whole less ≤ cut total whole more := by
  rw [cut, cut, Int.fdiv_eq_ediv_of_nonneg _ positive.le, Int.fdiv_eq_ediv_of_nonneg _ positive.le]
  exact Int.ediv_le_ediv positive (Int.mul_le_mul_of_nonneg_left order nonneg)

theorem cut_succ (positive : 0 < whole) (enough : whole ≤ total) (part : Int) :
    cut total whole part < cut total whole (part + 1) := by
  rw [cut, cut, Int.fdiv_eq_ediv_of_nonneg _ positive.le, Int.fdiv_eq_ediv_of_nonneg _ positive.le]
  calc total * part / whole < (total * part + whole) / whole := by
        rw [Int.add_ediv_of_dvd_right (Int.dvd_refl whole), Int.ediv_self positive.ne']
        omega
    _ ≤ total * (part + 1) / whole := by
        apply Int.ediv_le_ediv positive
        rw [mul_add, mul_one]
        omega

structure Tiles (grid lower upper : Int) (ranges : List (Int × Int)) : Prop where
  starts : ranges.head?.map Prod.fst = some lower
  ends : ranges.getLast?.map Prod.snd = some upper
  contiguous : ranges.IsChain fun before after => before.2 = after.1
  filled : ∀ range ∈ ranges, range.1 < range.2
  aligned : ∀ range ∈ ranges, grid ∣ range.1 ∧ grid ∣ range.2

theorem Tiles.nonempty {grid lower upper : Int} {ranges : List (Int × Int)}
    (tiles : Tiles grid lower upper ranges) : ranges ≠ [] := by
  rintro rfl
  have starts := tiles.starts
  cases starts

theorem Tiles.within {grid lower upper : Int} {ranges : List (Int × Int)}
    (tiles : Tiles grid lower upper ranges) :
    ∀ range ∈ ranges, lower ≤ range.1 ∧ range.2 ≤ upper := by
  induction ranges generalizing lower with
  | nil =>
    intro range member
    cases member
  | cons range rest ih =>
    obtain ⟨starts, ends, contiguous, filled, aligned⟩ := tiles
    have start : range.1 = lower := Option.some.inj starts
    cases rest with
    | nil =>
      have finish : range.2 = upper := Option.some.inj ends
      intro only member
      rw [List.mem_singleton.mp member]
      exact ⟨start.ge, finish.le⟩
    | cons next rest =>
      have here := filled range List.mem_cons_self
      have joined : range.2 = next.1 := contiguous.rel
      have later := ih ⟨congrArg some joined.symm, ends, contiguous.tail,
        fun range member => filled range (List.mem_cons_of_mem _ member),
        fun range member => aligned range (List.mem_cons_of_mem _ member)⟩
      intro other member
      rcases List.mem_cons.mp member with rfl | member
      · have first := later next List.mem_cons_self
        have step := filled next (List.mem_cons_of_mem _ List.mem_cons_self)
        omega
      · have bounds := later other member
        omega

def between (mark : Nat → Int) (count : Nat) : List (Int × Int) :=
  (List.range count).map fun index => (mark index, mark (index + 1))

theorem mem_between {mark : Nat → Int} {count : Nat} {range : Int × Int} :
    range ∈ between mark count ↔ ∃ index < count, (mark index, mark (index + 1)) = range := by
  simp [between]

theorem between_tiles {grid : Int} (mark : Nat → Int) (count : Nat) (enough : 0 < count)
    (rising : ∀ index < count, mark index < mark (index + 1))
    (aligned : ∀ index ≤ count, grid ∣ mark index) :
    Tiles grid (mark 0) (mark count) (between mark count) where
  starts := by
    obtain ⟨rest, rfl⟩ := Nat.exists_eq_succ_of_ne_zero enough.ne'
    rw [between, List.range_succ_eq_map]
    rfl
  ends := by
    obtain ⟨rest, rfl⟩ := Nat.exists_eq_succ_of_ne_zero enough.ne'
    rw [between, List.range_succ, List.map_append, List.map_singleton, List.getLast?_concat]
    rfl
  contiguous := by
    rw [between, List.isChain_map]
    exact (List.isChain_range _ count).mpr fun index _ => rfl
  filled := by
    intro range member
    obtain ⟨index, inside, rfl⟩ := mem_between.mp member
    exact rising index inside
  aligned := by
    intro range member
    obtain ⟨index, inside, rfl⟩ := mem_between.mp member
    exact ⟨aligned index inside.le, aligned (index + 1) inside⟩

theorem zip_tail_between (mark : Nat → Int) (count : Nat) :
    let marks := (List.range (count + 1)).map mark
    marks.zip marks.tail = between mark count := by
  intro marks
  have tail : marks.tail = (List.range count).map fun index => mark (index + 1) := by
    simp only [marks, List.range_succ_eq_map, List.map_cons, List.tail_cons, List.map_map]
    rfl
  have front : marks = (List.range count).map mark ++ [mark count] := by
    simp only [marks, List.range_succ, List.map_append, List.map_singleton]
  rw [tail, front, between]
  apply List.ext_getElem
  · simp
  · intro index inside _
    rw [List.length_zip, List.length_map, List.length_range] at inside
    rw [List.getElem_zip, List.getElem_append_left (by
      rw [List.length_map, List.length_range]
      omega)]
    simp

end RhPools.CumulativeCuts
