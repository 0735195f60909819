import Mathlib.Data.List.Sort
import Mathlib.Data.List.Flatten

/-! Pages of a list by offset and limit. A page of two lists in a row is a page of the
first and what it leaves room for of the second. Consecutive pages give the list back. -/

namespace RhPools.OffsetPaging

variable {Item : Type}

def slice (offset limit : Nat) (items : List Item) : List Item := (items.drop offset).take limit

theorem slice_append (offset limit : Nat) (first second : List Item) :
    slice offset limit (first ++ second) =
      slice offset limit first ++
        slice (offset - first.length) (limit - (slice offset limit first).length) second := by
  simp only [slice, List.drop_append, List.take_append, List.length_take, List.length_drop]
  congr 2
  omega

theorem slice_front (offset limit keep : Nat) (items : List Item) (reaches : offset + limit ≤ keep) :
    slice offset limit (items.take keep) = slice offset limit items := by
  simp only [slice, List.drop_take, List.take_take]
  congr 1
  omega

theorem slice_beyond (offset limit : Nat) (items : List Item) (beyond : items.length ≤ offset) :
    slice offset limit items = [] := by
  rw [slice, List.drop_eq_nil_of_le beyond, List.take_nil]

theorem slice_map {Other : Type} (f : Item → Other) (offset limit : Nat) (items : List Item) :
    (slice offset limit items).map f = slice offset limit (items.map f) := by
  simp only [slice, List.map_take, List.map_drop]

def pages (limit count : Nat) (items : List Item) : List Item :=
  (List.range count).flatMap fun page => slice (page * limit) limit items

theorem pages_take (limit count : Nat) (items : List Item) :
    pages limit count items = items.take (count * limit) := by
  induction count with
  | zero => simp [pages]
  | succ count ih =>
    rw [pages, List.range_succ, List.flatMap_append, ← pages, ih, List.flatMap_singleton, slice,
      Nat.succ_mul, List.take_add]

theorem slice_limit (offset limit : Nat) (items : List Item) :
    slice offset (min limit (items.length - offset)) items = slice offset limit items := by
  rw [slice, slice, ← List.length_drop, ← List.take_eq_take_min]

theorem slice_min (offset limit : Nat) (items : List Item) :
    slice (min offset items.length) limit items = slice offset limit items := by
  rcases Nat.le_total offset items.length with inside | outside
  · rw [Nat.min_eq_left inside]
  · rw [Nat.min_eq_right outside, slice_beyond _ _ _ (Nat.le_refl _), slice_beyond _ _ _ outside]

theorem slice_seam {offset limit : Nat} {first second front : List Item} (proceed : Prop)
    [Decidable proceed] (here : front = slice offset limit first)
    (skips : ¬ proceed → limit ≤ front.length ∨ second.length ≤ offset - first.length) :
    (if proceed then
        front ++ slice (offset - first.length) (limit - front.length) second
      else front) = slice offset limit (first ++ second) := by
  rw [slice_append, ← here]
  split
  · rfl
  · rename_i stops
    rcases skips stops with full | beyond
    · rw [Nat.sub_eq_zero_of_le full, slice, List.take_zero, List.append_nil]
    · rw [slice_beyond _ _ _ beyond, List.append_nil]

def ordered {Key : Type} [LinearOrder Key] (key : Item → Key) (one other : Item) : Prop :=
  key one ≤ key other

instance {Key : Type} [LinearOrder Key] (key : Item → Key) : DecidableRel (ordered key) :=
  fun one other => inferInstanceAs (Decidable (key one ≤ key other))

instance {Key : Type} [LinearOrder Key] (key : Item → Key) : Std.Total (ordered key) :=
  ⟨fun one other => le_total (key one) (key other)⟩

instance {Key : Type} [LinearOrder Key] (key : Item → Key) : IsTrans Item (ordered key) :=
  ⟨fun _ _ _ first second => @le_trans Key _ _ _ _ first second⟩

variable (before : Item → Item → Prop) [DecidableRel before]

theorem sorted_parts [Std.Total before] [IsTrans Item before] {items first second : List Item}
    (same : items.Perm (first ++ second))
    (distinct : ∀ one ∈ items, ∀ other ∈ items, before one other → before other one → one = other)
    (left : first.Pairwise before) (right : second.Pairwise before)
    (apart : ∀ one ∈ first, ∀ other ∈ second, before one other) :
    items.insertionSort before = first ++ second := by
  refine List.Perm.eq_of_pairwise ?_ (List.pairwise_insertionSort before items)
    (List.pairwise_append.mpr ⟨left, right, apart⟩) ((List.perm_insertionSort before items).trans same)
  intro one other inOne inOther forth back
  exact distinct one ((List.mem_insertionSort before).mp inOne) other (same.mem_iff.mpr inOther)
    forth back

end RhPools.OffsetPaging
