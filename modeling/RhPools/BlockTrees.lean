import Mathlib.Data.Nat.Find

/-! A tree of blocks that name their parents. Every block has one ancestor at each height up
to its own, and two branches share their ancestors up to the height where they meet. -/

namespace RhPools.BlockTrees

/-- Blocks by name. A block above height zero has its parent one lower, and there is one
block at height zero. -/
structure BlockTree (Name Block : Type) where
  find : Name → Option Block
  name : Block → Name
  parent : Block → Name
  height : Block → ℕ
  named : ∀ key block, find key = some block → name block = key
  lower : ∀ key block, find key = some block → height block ≠ 0 →
    ∃ below, find (parent block) = some below ∧ height below + 1 = height block
  root : ∀ key other block same, find key = some block → find other = some same →
    height block = 0 → height same = 0 → block = same

variable {Name Block : Type} (tree : BlockTree Name Block)

def BlockTree.Has (block : Block) : Prop := tree.find (tree.name block) = some block

theorem BlockTree.has_of_find (key : Name) (block : Block) (found : tree.find key = some block) :
    tree.Has block := by
  unfold BlockTree.Has
  rw [tree.named key block found]
  exact found

theorem BlockTree.name_inj (block other : Block) (has : tree.Has block) (there : tree.Has other)
    (same : tree.name block = tree.name other) : block = other := by
  unfold BlockTree.Has at has there
  rw [same, there] at has
  exact (Option.some.inj has).symm

def BlockTree.below (block : Block) : Block := (tree.find (tree.parent block)).getD block

theorem BlockTree.below_has (block : Block) (has : tree.Has block) (high : tree.height block ≠ 0) :
    tree.find (tree.parent block) = some (tree.below block) ∧
      tree.height (tree.below block) + 1 = tree.height block := by
  obtain ⟨under, found, lower⟩ := tree.lower _ block has high
  unfold BlockTree.below
  rw [found]
  exact ⟨rfl, lower⟩

def BlockTree.descend : ℕ → Block → Block
  | 0, block => block
  | steps + 1, block => BlockTree.descend steps (tree.below block)

def BlockTree.ancestor (block : Block) (height : ℕ) : Block :=
  tree.descend (tree.height block - height) block

theorem BlockTree.descend_has (steps : ℕ) (block : Block) (has : tree.Has block)
    (enough : steps ≤ tree.height block) :
    tree.Has (tree.descend steps block) ∧
      tree.height (tree.descend steps block) + steps = tree.height block := by
  induction steps generalizing block with
  | zero => exact ⟨has, rfl⟩
  | succ steps ih =>
    obtain ⟨found, lower⟩ := tree.below_has block has (Nat.ne_of_gt (Nat.lt_of_lt_of_le
      (Nat.succ_pos steps) enough))
    obtain ⟨there, height⟩ := ih (tree.below block) (tree.has_of_find _ _ found) (by omega)
    refine ⟨there, ?_⟩
    rw [BlockTree.descend]
    omega

theorem BlockTree.descend_add (first second : ℕ) (block : Block) :
    tree.descend (first + second) block = tree.descend second (tree.descend first block) := by
  induction first generalizing block with
  | zero => rw [Nat.zero_add, BlockTree.descend]
  | succ first ih => rw [Nat.succ_add, BlockTree.descend, ih, BlockTree.descend]

theorem BlockTree.ancestor_has (block : Block) (height : ℕ) (has : tree.Has block) :
    tree.Has (tree.ancestor block height) :=
  (tree.descend_has _ block has (Nat.sub_le _ _)).1

theorem BlockTree.ancestor_height (block : Block) (height : ℕ) (has : tree.Has block)
    (low : height ≤ tree.height block) : tree.height (tree.ancestor block height) = height := by
  have fell := (tree.descend_has _ block has (Nat.sub_le (tree.height block) height)).2
  unfold BlockTree.ancestor
  omega

@[simp] theorem BlockTree.ancestor_self (block : Block) :
    tree.ancestor block (tree.height block) = block := by
  rw [BlockTree.ancestor, Nat.sub_self, BlockTree.descend]

theorem BlockTree.ancestor_ancestor (block : Block) (height lower : ℕ) (has : tree.Has block)
    (low : height ≤ tree.height block) (lowest : lower ≤ height) :
    tree.ancestor (tree.ancestor block height) lower = tree.ancestor block lower := by
  have there := tree.ancestor_height block height has low
  rw [BlockTree.ancestor, there, BlockTree.ancestor, BlockTree.ancestor, ← tree.descend_add]
  congr 1
  omega

theorem BlockTree.ancestor_below (block : Block) (height : ℕ) (has : tree.Has block)
    (low : height + 1 ≤ tree.height block) :
    tree.find (tree.parent (tree.ancestor block (height + 1))) =
      some (tree.ancestor block height) := by
  have there := tree.ancestor_height block (height + 1) has low
  obtain ⟨found, -⟩ := tree.below_has (tree.ancestor block (height + 1))
    (tree.ancestor_has block _ has) (by omega)
  have step : tree.ancestor (tree.ancestor block (height + 1)) height =
      tree.below (tree.ancestor block (height + 1)) := by
    change tree.descend (tree.height (tree.ancestor block (height + 1)) - height) _ = _
    rw [there, Nat.add_sub_cancel_left]
    rfl
  rw [found, ← step, tree.ancestor_ancestor block (height + 1) height has low (Nat.le_succ height)]

theorem BlockTree.shared_below (block other : Block) (height lower : ℕ) (has : tree.Has block)
    (there : tree.Has other) (low : height ≤ tree.height block) (short : height ≤ tree.height other)
    (same : tree.ancestor block height = tree.ancestor other height) (lowest : lower ≤ height) :
    tree.ancestor block lower = tree.ancestor other lower := by
  rw [← tree.ancestor_ancestor block height lower has low lowest, same,
    tree.ancestor_ancestor other height lower there short lowest]

theorem BlockTree.shared_root (block other : Block) (has : tree.Has block)
    (there : tree.Has other) : tree.ancestor block 0 = tree.ancestor other 0 :=
  tree.root _ _ _ _ (tree.ancestor_has block 0 has) (tree.ancestor_has other 0 there)
    (tree.ancestor_height block 0 has (Nat.zero_le _))
    (tree.ancestor_height other 0 there (Nat.zero_le _))

variable [DecidableEq Block]

def BlockTree.meet (block other : Block) : ℕ :=
  Nat.findGreatest (fun height => tree.ancestor block height = tree.ancestor other height)
    (min (tree.height block) (tree.height other))

theorem BlockTree.meet_le (block other : Block) :
    tree.meet block other ≤ tree.height block ∧ tree.meet block other ≤ tree.height other :=
  Nat.le_min.mp (Nat.findGreatest_le _)

theorem BlockTree.shared_iff (block other : Block) (height : ℕ) (has : tree.Has block)
    (there : tree.Has other) (low : height ≤ tree.height block)
    (short : height ≤ tree.height other) :
    tree.ancestor block height = tree.ancestor other height ↔ height ≤ tree.meet block other := by
  constructor
  · intro same
    exact Nat.le_findGreatest (Nat.le_min.mpr ⟨low, short⟩) same
  · intro below
    obtain ⟨left, right⟩ := tree.meet_le block other
    have met : tree.ancestor block (tree.meet block other) =
        tree.ancestor other (tree.meet block other) :=
      Nat.findGreatest_spec (P := fun height =>
        tree.ancestor block height = tree.ancestor other height) (Nat.zero_le _)
        (tree.shared_root block other has there)
    exact tree.shared_below block other _ height has there left right met below

end RhPools.BlockTrees
