import RhPools.BlockTrees
import RhPools.EnrichmentJobs

/-! Recovery from a reorganisation. A lane that saw a conflict passes the block it saw; the
store is rolled back to where the branch of that block meets the canonical chain, found by
walking down its parents or, where the provider no longer has them, among the stored headers.
A block passed long after it was orphaned sends the walk to a place of its own. -/

namespace RhPools.ReorgRecovery
open BlockTrees OrderedTables MarketTables MarketStore CheckedSteps StoreLedger GuardedRuns
open EventWords (Hash)

variable {Lp : Type}

structure World where
  find : Hash → Option Header
  named : ∀ hash block, find hash = some block → block.hash = hash
  numbered : ∀ hash block, find hash = some block → 0 ≤ block.number
  lower : ∀ hash block, find hash = some block → block.number ≠ 0 →
    ∃ below, find block.parentHash = some below ∧ below.number + 1 = block.number
  genesis : ∀ hash other block same, find hash = some block → find other = some same →
    block.number = 0 → same.number = 0 → block = same

def World.tree (world : World) : BlockTree Hash Header where
  find := world.find
  name := Header.hash
  parent := Header.parentHash
  height block := block.number.toNat
  named := world.named
  lower := by
    intro hash block found high
    have positive := world.numbered hash block found
    obtain ⟨below, here, step⟩ := world.lower hash block found (by omega)
    have low := world.numbered _ below here
    exact ⟨below, here, by omega⟩
  root := by
    intro hash other block same found there zero none
    have positive := world.numbered hash block found
    have positive' := world.numbered other same there
    exact world.genesis hash other block same found there (by omega) (by omega)

/-- What one provider replies while its chain does not change: the canonical blocks up to its
head, and by hash the blocks it still has. -/
structure Provider where
  world : World
  head : Header
  current : world.find head.hash = some head
  knows : Hash → Bool

/-- `eth_getBlockByHash`. -/
def Provider.byHash (provider : Provider) (hash : Hash) : Option Header :=
  if provider.knows hash then provider.world.find hash else none

/-- `eth_getBlockByNumber`. -/
def Provider.byNumber (provider : Provider) (number : Int) : Option Header :=
  if 0 ≤ number ∧ number ≤ provider.head.number then
    some (provider.world.tree.ancestor provider.head number.toNat)
  else none

def Provider.agrees (provider : Provider) (number : Int) (hash : Hash) : Bool :=
  (provider.byNumber number).any fun canonical => canonical.hash = hash

def Provider.genesis (provider : Provider) : Header :=
  provider.world.tree.ancestor provider.head 0

/-- The orphan's parents, down to one that is canonical; none where the provider does not have
them. The fuel is the number of blocks below. -/
def Provider.walk (provider : Provider) (bound : Int) : ℕ → Header → Option Header
  | 0, _ => none
  | fuel + 1, old =>
    if old.number > bound then (provider.byHash old.parentHash).bind (provider.walk bound fuel)
    else match provider.byNumber old.number with
      | none => none
      | some canonical =>
        if canonical.hash = old.hash then some canonical
        else if old.number = 0 then some canonical
        else (provider.byHash old.parentHash).bind (provider.walk bound fuel)

def Provider.firstCanonical (provider : Provider) : ℕ → List (Int × Header) → Option Header
  | 0, _ => none
  | pages + 1, rows =>
    if rows.isEmpty then none
    else match (rows.take 100).find? fun row => provider.agrees row.1 row.2.hash with
      | some row => provider.byNumber row.1
      | none => provider.firstCanonical pages (rows.drop 100)

def storedBelow (blocks : OrderedTable Int Header) (maximum : Int) : List (Int × Header) :=
  (blocks.entries.filter fun entry => entry.1 < maximum + 1).insertionSort fun left right =>
    right.1 ≤ left.1

def Provider.sparseCommonAncestor (provider : Provider) (blocks : OrderedTable Int Header)
    (maximum : Int) : Header :=
  (provider.firstCanonical ((storedBelow blocks maximum).length + 1)
    (storedBelow blocks maximum)).getD provider.genesis

def Provider.findCommonAncestor (provider : Provider) (blocks : OrderedTable Int Header)
    (number : Int) (oldHash : Option Hash) : Header :=
  match (oldHash.bind provider.byHash).bind fun orphan =>
      provider.walk number (orphan.number.toNat + 1) orphan with
  | some ancestor => ancestor
  | none => provider.sparseCommonAncestor blocks number

structure Anchor where
  blockNumber : Option Int
  blockHash : Option Hash
  deriving DecidableEq

structure Subject where
  number : Int
  oldHash : Option Hash
  conflictApplies : Bool

def subject (db : Db Lp) (supplied : Anchor) (suppliedAnchor conflictObserved : Bool) : Subject :=
  let current := if suppliedAnchor then supplied else
    match db.cursor "live" with
    | some cursor => ⟨cursor.blockNumber, cursor.blockHash⟩
    | none => supplied
  let number := current.blockNumber.getD (supplied.blockNumber.getD 0)
  let oldHash := current.blockHash.or supplied.blockHash
  { number, oldHash
    conflictApplies := (conflictObserved || suppliedAnchor) &&
      (suppliedAnchor || (number = supplied.blockNumber.getD number &&
        oldHash = supplied.blockHash)) }

inductive Fault where
  | rpc
  | store (failure : Failure)

inductive Outcome (Lp : Type) where
  | stayed (fault : Option Fault)
  | rolledBack (db : Db Lp) (fault : Option Failure)

def Outcome.rolled : Outcome Lp → Bool
  | .stayed _ => false
  | .rolledBack _ _ => true

def Outcome.recovered : Outcome Lp → Option (Db Lp)
  | .rolledBack db none => some db
  | _ => none

def liveCursor (header : Header) : Cursor :=
  { fromBlock := none, startBlock := none, toBlock := none, endBlock := none
    blockNumber := some header.number, blockHash := some header.hash, nextTo := none
    lowBlock := none, timestamp := some header.timestamp }

def historyCursor (previous : Option Cursor) (header : Header) : Cursor :=
  let target := (previous.bind Cursor.targetBlock).getD 0
  let targetPending := (previous.map Cursor.targetPending).getD false
  { fromBlock := none, startBlock := none, toBlock := none, endBlock := none
    blockNumber := none, blockHash := some header.hash, nextTo := some (header.number - 1)
    lowBlock := some header.number
    targetBlock := if targetPending then none else some target
    targetTimestamp := some ((previous.bind Cursor.targetTimestamp).getD 0)
    targetPending := targetPending
    originHead := some ((previous.bind Cursor.originHead).getD header.number)
    complete := !targetPending && header.number - 1 < target, hasCoverage := false }

def cursorCall (lane : String) (header : Header) (cursor : Cursor) : IngestCall :=
  { headers := [header], events := [], lane := lane
    cursor := some (cursor, ⟨none, none, none, none⟩), transactions := [], project := true }

def resume (projection : PriceProjection Lp) (rolled : Db Lp) (previous : Option Cursor)
    (header : Header) : Outcome Lp :=
  match ingest projection rolled (cursorCall "live" header (liveCursor header)) with
  | .error failure => .rolledBack rolled (some failure)
  | .ok (live, _) =>
    if (live.cursor "history").any fun cursor => cursor.nextTo.isSome then .rolledBack live none
    else match ingest projection live
        (cursorCall "history" header (historyCursor previous header)) with
      | .error failure => .rolledBack live (some failure)
      | .ok (after, _) => .rolledBack after none

def repair (projection : PriceProjection Lp) (db : Db Lp) (header : Header) : Outcome Lp :=
  match rollback projection db header.number (some header) with
  | .error failure => .stayed (some (.store failure))
  | .ok rolled => resume projection rolled (db.cursor "history") header

def recoverFrom (projection : PriceProjection Lp) (provider : Provider) (db : Db Lp)
    (subject : Subject) : Outcome Lp :=
  let ancestor := provider.findCommonAncestor db.blocks
    (min subject.number provider.head.number) subject.oldHash
  if subject.number ≤ provider.head.number then
    match provider.byNumber subject.number with
    | none => .stayed (some .rpc)
    | some canonical =>
      if subject.oldHash = some canonical.hash then .stayed none
      else repair projection db ancestor
  else if subject.conflictApplies then repair projection db ancestor
  else .stayed none

/-- `_recover_reorg`, while the provider's chain stays the same. -/
def recoverReorg (projection : PriceProjection Lp) (provider : Provider) (db : Db Lp)
    (supplied : Anchor) (suppliedAnchor conflictObserved : Bool) : Outcome Lp :=
  recoverFrom projection provider db (subject db supplied suppliedAnchor conflictObserved)

/-- Whether the provider has the ancestors of a block at the heights from `low` to below
`high`. -/
def Provider.traces (provider : Provider) (block : Header) (low high : ℕ) : Bool :=
  (List.range high).all fun height => height < low ||
    provider.knows (provider.world.tree.ancestor block height).hash

def Provider.anchored (provider : Provider) (blocks : OrderedTable Int Header)
    (maximum : ℕ) : ℕ :=
  Nat.findGreatest (fun number => (blocks.get number).any fun header =>
    provider.agrees number header.hash) maximum

def Provider.meetingPoint (provider : Provider) (blocks : OrderedTable Int Header) (bound : ℕ)
    (oldHash : Option Hash) : ℕ :=
  match oldHash.bind provider.world.find with
  | none => provider.anchored blocks bound
  | some block =>
    let met := min (provider.world.tree.meet block provider.head) bound
    if provider.traces block met (provider.world.tree.height block + 1) then met
    else provider.anchored blocks bound

theorem World.has_numbered (world : World) (block : Header) (has : world.tree.Has block) :
    (world.tree.height block : Int) = block.number :=
  Int.toNat_of_nonneg (world.numbered _ block has)

theorem World.ancestor_number (world : World) (block : Header) (height : ℕ)
    (has : world.tree.Has block) (low : height ≤ world.tree.height block) :
    (world.tree.ancestor block height).number = height := by
  rw [← world.has_numbered _ (world.tree.ancestor_has block height has),
    world.tree.ancestor_height block height has low]

section Provider

variable (provider : Provider)

theorem Provider.head_has : provider.world.tree.Has provider.head := provider.current

theorem Provider.byNumber_below (height : ℕ)
    (low : height ≤ provider.world.tree.height provider.head) :
    provider.byNumber height = some (provider.world.tree.ancestor provider.head height) := by
  have number := provider.world.has_numbered provider.head provider.head_has
  unfold Provider.byNumber
  rw [if_pos ⟨Int.natCast_nonneg height, by omega⟩, Int.toNat_natCast]

theorem Provider.byNumber_some (number : Int) (block : Header)
    (found : provider.byNumber number = some block) :
    ∃ height : ℕ, (height : Int) = number ∧ height ≤ provider.world.tree.height provider.head ∧
      block = provider.world.tree.ancestor provider.head height := by
  have head := provider.world.has_numbered provider.head provider.head_has
  unfold Provider.byNumber at found
  split at found
  · rename_i inside
    exact ⟨number.toNat, Int.toNat_of_nonneg inside.1, by omega, (Option.some.inj found).symm⟩
  · cases found

theorem Provider.traces_succ (block : Header) (low high : ℕ) :
    provider.traces block low (high + 1) = (provider.traces block low high &&
      (high < low || provider.knows (provider.world.tree.ancestor block high).hash)) := by
  unfold Provider.traces
  rw [List.range_succ, List.all_append, List.all_cons, List.all_nil, Bool.and_true]

theorem Provider.traces_none (block : Header) (low : ℕ) : provider.traces block low low := by
  unfold Provider.traces
  rw [List.all_eq_true]
  intro height member
  rw [Bool.or_eq_true, decide_eq_true_eq]
  exact Or.inl (List.mem_range.mp member)

/-- The walk down a branch ends where the branch meets the canonical chain, unless the
provider lacks a block on the way. -/
theorem Provider.walk_meets (block : Header) (has : provider.world.tree.Has block) (bound : ℕ)
    (low : bound ≤ provider.world.tree.height provider.head) (fuel height : ℕ)
    (short : height ≤ provider.world.tree.height block)
    (above : min (provider.world.tree.meet block provider.head) bound ≤ height)
    (enough : height < fuel) :
    provider.walk bound fuel (provider.world.tree.ancestor block height) =
      if provider.traces block (min (provider.world.tree.meet block provider.head) bound) height
      then some (provider.world.tree.ancestor provider.head
        (min (provider.world.tree.meet block provider.head) bound)) else none := by
  generalize met : min (provider.world.tree.meet block provider.head) bound = meeting at above ⊢
  induction fuel generalizing height with
  | zero => exact absurd enough (Nat.not_lt_zero _)
  | succ fuel ih =>
    have number := provider.world.ancestor_number block height has short
    -- one step down, while the branch has not met the chain
    have step : meeting < height →
        (provider.byHash (provider.world.tree.ancestor block height).parentHash).bind
          (provider.walk bound fuel) =
        if provider.traces block meeting height then
          some (provider.world.tree.ancestor provider.head meeting) else none := by
      intro high
      obtain ⟨lower, rfl⟩ : ∃ lower, height = lower + 1 := ⟨height - 1, by omega⟩
      have found := provider.world.tree.ancestor_below block lower has short
      rw [provider.traces_succ, decide_eq_false (by omega : ¬lower < meeting), Bool.false_or]
      have parent : (provider.world.tree.ancestor block (lower + 1)).parentHash =
          (provider.world.tree.ancestor block lower).hash :=
        (provider.world.tree.named _ _ found).symm
      have here : provider.world.find (provider.world.tree.ancestor block lower).hash =
          some (provider.world.tree.ancestor block lower) :=
        provider.world.tree.ancestor_has block lower has
      unfold Provider.byHash
      rw [parent, here]
      cases provider.knows (provider.world.tree.ancestor block lower).hash with
      | false => simp
      | true =>
        rw [Bool.and_true, if_pos rfl, Option.bind_some]
        exact ih lower (by omega) (by omega) (by omega)
    rw [Provider.walk, number]
    split
    · rename_i high
      exact step (by omega)
    · rename_i inside
      have shared := provider.world.tree.shared_iff block provider.head height has
        provider.head_has short (by omega)
      rw [provider.byNumber_below height (by omega)]
      dsimp only
      split
      · rename_i same
        have one := provider.world.tree.name_inj _ _
          (provider.world.tree.ancestor_has provider.head height provider.head_has)
          (provider.world.tree.ancestor_has block height has) same
        have here : meeting = height := by
          have below := shared.mp one.symm
          omega
        rw [here, if_pos (provider.traces_none block height)]
      · rename_i apart
        have high : meeting < height := by
          rcases Nat.lt_or_ge meeting height with less | more
          · exact less
          · refine absurd ?_ apart
            rw [shared.mpr (by omega)]
        rw [if_neg (by omega)]
        exact step high

theorem Provider.firstCanonical_eq (pages : ℕ) (rows : List (Int × Header))
    (enough : rows.length < pages) : provider.firstCanonical pages rows =
      (rows.find? fun row => provider.agrees row.1 row.2.hash).bind
        fun row => provider.byNumber row.1 := by
  induction pages generalizing rows with
  | zero => exact absurd enough (Nat.not_lt_zero _)
  | succ pages ih =>
    rw [Provider.firstCanonical]
    cases rows with
    | nil => rfl
    | cons row rest =>
      rw [if_neg (by simp)]
      conv_rhs => rw [← List.take_append_drop 100 (row :: rest), List.find?_append]
      cases ((row :: rest).take 100).find? fun row => provider.agrees row.1 row.2.hash with
      | some found => rfl
      | none =>
        rw [Option.none_or]
        apply ih
        rw [List.length_drop]
        simp only [List.length_cons] at enough ⊢
        omega

theorem Provider.sparse_anchored (blocks : OrderedTable Int Header) (maximum : ℕ) :
    provider.sparseCommonAncestor blocks maximum =
      provider.world.tree.ancestor provider.head (provider.anchored blocks maximum) := by
  have listed : ∀ row, row ∈ storedBelow blocks maximum ↔
      blocks.get row.1 = some row.2 ∧ row.1 ≤ maximum := by
    intro row
    unfold storedBelow
    rw [List.mem_insertionSort, List.mem_filter, decide_eq_true_eq, Int.lt_add_one_iff, get_some]
  have descending : (storedBelow blocks maximum).Pairwise fun left right => right.1 ≤ left.1 := by
    unfold storedBelow
    have total : Std.Total fun left right : Int × Header => right.1 ≤ left.1 :=
      ⟨fun left right => Int.le_total right.1 left.1⟩
    have transitive : IsTrans (Int × Header) fun left right => right.1 ≤ left.1 :=
      ⟨fun _ _ _ first second => Int.le_trans second first⟩
    exact List.pairwise_insertionSort _ _
  unfold Provider.sparseCommonAncestor
  rw [provider.firstCanonical_eq _ _ (Nat.lt_succ_self _)]
  cases first : (storedBelow blocks maximum).find? fun row => provider.agrees row.1 row.2.hash with
  | none =>
    have zero : provider.anchored blocks maximum = 0 := by
      apply Nat.findGreatest_eq_zero_iff.mpr
      intro number _ low canonical
      obtain ⟨header, found, agrees⟩ := (Option.any_eq_true _ _).mp canonical
      exact List.find?_eq_none.mp first (number, header) ((listed _).mpr ⟨found, by omega⟩) agrees
    rw [zero]
    rfl
  | some row =>
    obtain ⟨agrees, before, after, rows, apart⟩ := List.find?_eq_some_iff_append.mp first
    obtain ⟨block, found, -⟩ := (Option.any_eq_true _ _).mp agrees
    obtain ⟨height, number, low, rfl⟩ := provider.byNumber_some row.1 block found
    have stored := (listed row).mp (rows ▸ List.mem_append_right before List.mem_cons_self)
    have highest : provider.anchored blocks maximum = height := by
      apply Nat.findGreatest_eq_iff.mpr
      refine ⟨by omega, ?_, ?_⟩
      · intro _
        rw [number, stored.1]
        exact agrees
      · intro other high short canonical
        obtain ⟨header, there, same⟩ := (Option.any_eq_true _ _).mp canonical
        have member := (listed (other, header)).mpr ⟨there, by dsimp only; omega⟩
        rw [rows] at member
        rcases List.mem_append.mp member with early | later
        · have skipped := apart _ early
          rw [same] at skipped
          cases skipped
        · rcases List.mem_cons.mp later with rfl | below
          · dsimp only at number
            omega
          · rw [rows] at descending
            have lower := (List.pairwise_cons.mp
              (List.pairwise_append.mp descending).2.1).1 _ below
            dsimp only at lower
            omega
    rw [Option.bind_some, found, Option.getD_some, highest]

theorem Provider.finds_meeting (blocks : OrderedTable Int Header) (bound : ℕ)
    (oldHash : Option Hash) (low : bound ≤ provider.world.tree.height provider.head) :
    provider.findCommonAncestor blocks bound oldHash =
      provider.world.tree.ancestor provider.head
        (provider.meetingPoint blocks bound oldHash) := by
  unfold Provider.findCommonAncestor Provider.meetingPoint
  cases named : oldHash.bind provider.world.find with
  | none =>
    have unknown : oldHash.bind provider.byHash = none := by
      cases oldHash with
      | none => rfl
      | some hash =>
        rw [Option.bind_some] at named ⊢
        unfold Provider.byHash
        rw [named, ite_self]
    rw [unknown, Option.bind_none]
    exact provider.sparse_anchored blocks bound
  | some block =>
    obtain ⟨hash, rfl, found⟩ := Option.bind_eq_some_iff.mp named
    have has := provider.world.tree.has_of_find hash block found
    have walked := provider.walk_meets block has bound low (block.number.toNat + 1)
      (provider.world.tree.height block) le_rfl
      ((Nat.min_le_left _ _).trans (provider.world.tree.meet_le block provider.head).1)
      (Nat.lt_succ_self _)
    rw [provider.world.tree.ancestor_self] at walked
    dsimp only
    rw [Option.bind_some, provider.traces_succ, provider.world.tree.ancestor_self,
      decide_eq_false (by
        have met := (provider.world.tree.meet_le block provider.head).1
        omega), Bool.false_or]
    unfold Provider.byHash
    rw [found, provider.world.named hash block found]
    cases provider.knows hash with
    | false =>
      simp only [Bool.false_eq_true, if_false, Option.bind_none, Bool.and_false]
      exact provider.sparse_anchored blocks bound
    | true =>
      rw [if_pos rfl, Option.bind_some, walked, Bool.and_true]
      cases provider.traces block (min (provider.world.tree.meet block provider.head) bound)
          (provider.world.tree.height block) with
      | true => rfl
      | false => exact provider.sparse_anchored blocks bound

end Provider

def Settled (provider : Provider) (blocks : OrderedTable Int Header) : Prop :=
  ∀ entry ∈ blocks.entries, provider.agrees entry.1 entry.2.hash

instance (provider : Provider) (blocks : OrderedTable Int Header) :
    Decidable (Settled provider blocks) :=
  inferInstanceAs (Decidable (∀ entry ∈ blocks.entries, provider.agrees entry.1 entry.2.hash))

def OneBranch (world : World) (tip : Header) (blocks : OrderedTable Int Header) : Prop :=
  ∀ entry ∈ blocks.entries, 0 ≤ entry.1 ∧ entry.1.toNat ≤ world.tree.height tip ∧
    entry.2 = world.tree.ancestor tip entry.1.toNat

instance (world : World) (tip : Header) (blocks : OrderedTable Int Header) :
    Decidable (OneBranch world tip blocks) :=
  inferInstanceAs (Decidable (∀ entry ∈ blocks.entries, 0 ≤ entry.1 ∧
    entry.1.toNat ≤ world.tree.height tip ∧ entry.2 = world.tree.ancestor tip entry.1.toNat))

/-- A store in order is not rolled back; after a rollback every remaining header is canonical,
and the canonical ones up to the fork are still there. -/
def Exact (provider : Provider) (tip : Header) (db : Db Lp) (outcome : Outcome Lp) : Prop :=
  (Settled provider db.blocks → outcome.rolled = false) ∧
  (¬Settled provider db.blocks → ∀ after ∈ outcome.recovered,
    Settled provider after.blocks ∧
    ∀ entry ∈ db.blocks.entries, provider.agrees entry.1 entry.2.hash →
      entry.1.toNat ≤ provider.world.tree.meet tip provider.head →
        entry ∈ after.blocks.entries)

/-- Whether the block a recovery works on is not canonical, or is above the head in a conflict
that is still its own. -/
def proceeds (provider : Provider) (subject : Subject) : Bool :=
  if subject.number ≤ provider.head.number then
    (provider.byNumber subject.number).any fun canonical =>
      subject.oldHash ≠ some canonical.hash
  else subject.conflictApplies

def reunion (provider : Provider) (blocks : OrderedTable Int Header) (subject : Subject) : Header :=
  provider.world.tree.ancestor provider.head (provider.meetingPoint blocks
    (min subject.number provider.head.number).toNat subject.oldHash)

def refuses (projection : PriceProjection Lp) (db : Db Lp) (header : Header) : Bool :=
  match rollback projection db header.number (some header) with
  | .error _ => true
  | .ok _ => false

def Divides (provider : Provider) (blocks : OrderedTable Int Header) (header : Header) : Prop :=
  ∀ entry ∈ blocks.entries, entry.1 ≤ header.number ↔ provider.agrees entry.1 entry.2.hash

instance (provider : Provider) (blocks : OrderedTable Int Header) (header : Header) :
    Decidable (Divides provider blocks header) :=
  inferInstanceAs (Decidable (∀ entry ∈ blocks.entries,
    (entry.1 ≤ header.number ↔ provider.agrees entry.1 entry.2.hash = true)))

/-- The condition on the stored headers and the block passed: where the branch of the block
meets the chain, the store leaves it too. -/
def Fits (projection : PriceProjection Lp) (provider : Provider) (db : Db Lp)
    (subject : Subject) : Prop :=
  proceeds provider subject →
    refuses projection db (reunion provider db.blocks subject) ∨
    ¬Settled provider db.blocks ∧ Divides provider db.blocks (reunion provider db.blocks subject)

instance (projection : PriceProjection Lp) (provider : Provider) (db : Db Lp)
    (subject : Subject) : Decidable (Fits projection provider db subject) :=
  inferInstanceAs (Decidable (proceeds provider subject = true →
    refuses projection db (reunion provider db.blocks subject) = true ∨
    ¬Settled provider db.blocks ∧
      Divides provider db.blocks (reunion provider db.blocks subject)))

variable (projection : PriceProjection Lp) (provider : Provider)

theorem reunion_number (blocks : OrderedTable Int Header) (subject : Subject) :
    provider.byNumber (reunion provider blocks subject).number =
      some (reunion provider blocks subject) := by
  have below : ∀ height, height ≤ provider.world.tree.height provider.head →
      provider.byNumber (provider.world.tree.ancestor provider.head height).number =
        some (provider.world.tree.ancestor provider.head height) := by
    intro height low
    rw [provider.world.ancestor_number provider.head height provider.head_has low]
    exact provider.byNumber_below height low
  have high : ∀ height, ¬height ≤ provider.world.tree.height provider.head →
      provider.world.tree.ancestor provider.head height = provider.head := by
    intro height beyond
    unfold BlockTree.ancestor
    rw [show provider.world.tree.height provider.head - height = 0 by omega]
    rfl
  unfold reunion
  generalize provider.meetingPoint blocks (min subject.number provider.head.number).toNat
    subject.oldHash = meeting
  by_cases low : meeting ≤ provider.world.tree.height provider.head
  · exact below meeting low
  · rw [high meeting low, ← provider.world.tree.ancestor_self provider.head]
    exact below _ le_rfl

theorem finds_reunion (blocks : OrderedTable Int Header) (subject : Subject)
    (positive : 0 ≤ min subject.number provider.head.number) :
    provider.findCommonAncestor blocks (min subject.number provider.head.number)
      subject.oldHash = reunion provider blocks subject := by
  have head := provider.world.has_numbered provider.head provider.head_has
  have bound : ((min subject.number provider.head.number).toNat : Int) =
      min subject.number provider.head.number := Int.toNat_of_nonneg positive
  unfold reunion
  rw [← provider.finds_meeting blocks _ subject.oldHash (by omega), bound]

variable (db : Db Lp)

theorem recovery_repairs (subject : Subject) (proceeding : proceeds provider subject) :
    recoverFrom projection provider db subject =
      repair projection db (reunion provider db.blocks subject) := by
  have head := provider.world.has_numbered provider.head provider.head_has
  unfold proceeds at proceeding
  unfold recoverFrom
  dsimp only
  split at proceeding
  · rename_i inside
    obtain ⟨canonical, found, apart⟩ := (Option.any_eq_true _ _).mp proceeding
    obtain ⟨height, number, -, -⟩ := provider.byNumber_some _ _ found
    rw [if_pos inside, found]
    dsimp only
    rw [if_neg (of_decide_eq_true apart), finds_reunion provider db.blocks subject (by omega)]
  · rename_i beyond
    rw [if_neg beyond, if_pos proceeding, finds_reunion provider db.blocks subject (by omega)]

theorem recovery_stays (subject : Subject) (quiet : proceeds provider subject = false) :
    (recoverFrom projection provider db subject).rolled = false := by
  unfold proceeds at quiet
  unfold recoverFrom
  dsimp only
  split at quiet
  · rename_i inside
    rw [if_pos inside]
    cases found : provider.byNumber subject.number with
    | none => rfl
    | some canonical =>
      rw [found, Option.any_some, decide_eq_false_iff_not, not_not] at quiet
      dsimp only
      rw [if_pos quiet]
      rfl
  · rename_i beyond
    rw [if_neg beyond, if_neg (by rw [quiet]; exact Bool.false_ne_true)]
    rfl

/-! The cursors of a store that was rolled back are written without an error. -/

theorem bump_counts (settled : Counter → Prop) (db : Db Lp) (key : Counter) (amount : Int)
    (counts : ∀ other, settled other → 0 ≤ db.counter other) :
    Meets anyhow (fun after => ∀ other, settled other ∨ other = key → 0 ≤ after.counter other)
      (db.bump key amount) := by
  unfold Db.bump
  split
  · trivial
  · rename_i positive
    intro other known
    dsimp only
    by_cases same : other = key
    · rw [same, Function.update_self]
      omega
    · rw [Function.update_of_ne same]
      exact counts other (known.resolve_right same)

theorem lowerCounters_counts (removed : Removed) (tokens : Nat)
    (counts : 0 ≤ db.counter .pendingPoolUnpublish) :
    Meets anyhow (fun after => ∀ key, 0 ≤ after.counter key)
      (lowerCounters db removed tokens) := by
  unfold lowerCounters
  have start : ∀ key, key = Counter.pendingPoolUnpublish → 0 ≤ db.counter key := by
    rintro key rfl
    exact counts
  apply meets_bind _ (bump_counts _ db _ _ start)
  intro db events
  apply meets_bind _ (bump_counts _ db _ _ events)
  intro db transactions
  apply meets_bind _ (bump_counts _ db _ _ transactions)
  intro db enrichment
  apply meets_bind _ (bump_counts _ db _ _ enrichment)
  intro db balances
  apply meets_bind _ (bump_counts _ db _ _ balances)
  intro db reprojection
  apply meets_bind _ (bump_counts _ db _ _ reprojection)
  intro db metadata
  apply (bump_counts _ db _ _ metadata).mono
  intro after pools key
  apply pools
  cases key <;> simp

theorem rewindCursor_counter (ancestor : Int) (lane : String) :
    (rewindCursor db ancestor lane).counter = db.counter := by
  unfold rewindCursor
  split
  · split <;> rfl
  · rfl

theorem cut_counts (ancestor : Int) :
    Meets anyhow (fun after => ∀ key, 0 ≤ after.counter key) (cut db ancestor) := by
  unfold cut
  apply meets_bind fun unpublished : Db Lp => 0 ≤ unpublished.counter .pendingPoolUnpublish
  · apply (bump_counts (fun _ => False) _ _ _ fun _ none => none.elim).mono
    intro after counts
    exact counts _ (Or.inr rfl)
  · intro unpublished counts
    dsimp only
    split
    · trivial
    · apply meets_bind fun lowered : Db Lp => ∀ key, 0 ≤ lowered.counter key
      · apply lowerCounters_counts
        rw [rewindCursor_counter, rewindCursor_counter]
        exact counts
      · intro lowered counts
        exact counts

theorem bump_none (key : Counter) (counts : 0 ≤ db.counter key) :
    db.bump key 0 = .ok db := by
  unfold Db.bump
  rw [Int.add_zero, if_neg (Int.not_lt.mpr counts), Function.update_eq_self]

variable (header : Header)

theorem storeHeaders_again (number : 0 ≤ header.number) (timestamp : 0 ≤ header.timestamp)
    (stored : db.blocks.get header.number = some header) :
    storeHeaders db [header] = .ok (db, OrderedTable.empty.put header.number header) := by
  unfold storeHeaders
  have added : addHeader .empty header = .ok (OrderedTable.empty.put header.number header) := by
    unfold addHeader
    rw [if_neg (by omega)]
    rfl
  have ordered : inNumberOrder (OrderedTable.empty.put header.number header) = [header] := rfl
  have checked : checkHeaders db.blocks [header] = .ok () := by
    unfold checkHeaders contradicts
    simp [stored]
  have kept : storeHeader db.blocks header = .ok db.blocks := by
    unfold storeHeader
    rw [stored]
  simp [List.foldlM, added, ordered, checked, kept, bind, Except.bind, pure, Except.pure]

theorem cursorCall_returns (lane : String) (header : Header) (cursor : Cursor) (named : lane ≠ "")
    (single : Cursor.first cursor = none) (number : 0 ≤ header.number)
    (timestamp : 0 ≤ header.timestamp) (stored : db.blocks.get header.number = some header)
    (counts : ∀ key, 0 ≤ db.counter key) :
    ingest projection db (cursorCall lane header cursor) =
      .ok (storeCursor db.nextRevision lane cursor, []) := by
  have still : ∀ (db : Db Lp), (∀ key, 0 ≤ db.counter key) → ∀ key, db.bump key 0 = .ok db :=
    fun db counts key => bump_none db key (counts key)
  have pools : upsertPools db.nextRevision [] = .ok db.nextRevision := by
    have counts : ∀ key, 0 ≤ db.nextRevision.counter key := counts
    simp [upsertPools, still _ counts, bind, Except.bind, pure, Except.pure]
  have transactions : upsertTransactions db.nextRevision [] = .ok db.nextRevision := by
    unfold upsertTransactions
    simp [OrderedTable.upsertAll]
    exact still db.nextRevision counts .indexedTransactions
  have rows : ingestRows db (OrderedTable.empty.put header.number header)
      (cursorCall lane header cursor) = .ok (db.nextRevision, []) := by
    unfold ingestRows cursorCall
    simp [poolsFromEvents, pools, recordInserted, transactions, inOrder, bind, Except.bind, pure, Except.pure]
  unfold ingest
  rw [if_neg (show (cursorCall lane header cursor).lane ≠ "" from named)]
  have checked : checkCursor db (cursorCall lane header cursor) = .ok () := by
    simp [checkCursor, cursorCall, checkExpected]
  have covered : ∀ normalized, coverCursor db normalized (cursorCall lane header cursor) = .ok db := by
    intro normalized
    simp [coverCursor, cursorCall, cover, single]
  have headers : storeHeaders db (cursorCall lane header cursor).headers =
      .ok (db, OrderedTable.empty.put header.number header) :=
    storeHeaders_again db header number timestamp stored
  have projected : project projection
      (keepCursor db.nextRevision (cursorCall lane header cursor)) (cursorCall lane header cursor)
      [] = .ok (storeCursor db.nextRevision lane cursor) := by
    unfold project PriceProjection.deliver
    rfl
  rw [checked, headers]
  simp only [bind, Except.bind, pure, Except.pure, covered, rows, projected]

theorem rollback_headers (db rolled : Db Lp) (header : Header)
    (returns : rollback projection db header.number (some header) = .ok rolled) (number : Int)
    (found : Header) : rolled.blocks.get number = some found ↔ number ≤ header.number ∧
      (db.blocks.get number = some found ∨ found = header ∧ header.number = number) := by
  obtain ⟨unwound, headed, values, stored, blocks⟩ :=
    (rollback_blocks projection db header.number (some header)).value returns
  have kept : unwound.blocks = db.blocks :=
    congrArg Ledger.blocks ((unwind_aside projection db header.number).value values)
  rw [blocks, get_remove, Option.filter_eq_some_iff,
    (storeHeaders_get unwound _).value stored number found, kept, and_comm,
    Bool.not_eq_true', decide_eq_false_iff_not, Int.not_lt, Option.toList_some,
    List.mem_singleton]
  exact and_congr_right fun _ => or_congr_right (and_congr_right fun here => by rw [here])

theorem storeHeaders_wellFormed :
    Meets anyhow (fun _ => 0 ≤ header.number ∧ 0 ≤ header.timestamp)
      (storeHeaders db [header]) := by
  unfold storeHeaders
  apply meets_bind fun _ => 0 ≤ header.number ∧ 0 ≤ header.timestamp
  · rw [List.foldlM_cons]
    apply meets_bind fun _ => 0 ≤ header.number ∧ 0 ≤ header.timestamp
    · unfold addHeader
      split
      · trivial
      · rename_i positive
        exact (meets_anyhow _ _).mpr fun _ _ => by omega
    · intro _ positive
      exact (meets_anyhow _ _).mpr fun _ _ => positive
  · intro normalized positive
    exact (meets_anyhow _ _).mpr fun _ _ => positive

theorem rollback_counts :
    Meets anyhow (fun rolled => 0 ≤ header.number ∧ 0 ≤ header.timestamp ∧
        ∀ key, 0 ≤ rolled.counter key)
      (rollback projection db header.number (some header)) := by
  unfold rollback
  split
  · trivial
  · split
    · trivial
    · apply meets_bind fun _ => True
      · exact (meets_anyhow _ _).mpr fun _ _ => trivial
      · intro unwound _
        apply meets_bind _ (storeHeaders_wellFormed unwound header)
        rintro ⟨headed, normalized⟩ ⟨number, timestamp⟩
        apply (cut_counts headed header.number).mono
        intro rolled counts
        exact ⟨number, timestamp, counts⟩

theorem repair_returns (db rolled : Db Lp) (header : Header)
    (returns : rollback projection db header.number (some header) = .ok rolled) :
    ∃ after, repair projection db header = .rolledBack after none ∧
      after.blocks = rolled.blocks := by
  obtain ⟨number, timestamp, counts⟩ := (rollback_counts projection db header).value returns
  have stored := (rollback_headers projection db rolled header returns header.number header).mpr
    ⟨le_rfl, Or.inr ⟨rfl, rfl⟩⟩
  have live := cursorCall_returns projection rolled "live" header (liveCursor header)
    (by decide) rfl number timestamp stored counts
  unfold repair resume
  rw [returns]
  dsimp only
  rw [live]
  dsimp only
  split
  · exact ⟨_, rfl, rfl⟩
  · have history := cursorCall_returns projection
      (storeCursor rolled.nextRevision "live" (liveCursor header)) "history" header
      (historyCursor (db.cursor "history") header) (by decide) rfl number timestamp stored counts
    rw [history]
    exact ⟨_, rfl, rfl⟩

/-- The recovery is exact if and only if the branch of the block it works on leaves the
canonical chain where the stored headers do. -/
theorem recovery_exact_iff (projection : PriceProjection Lp) (provider : Provider) (tip : Header)
    (db : Db Lp) (supplied : Anchor) (suppliedAnchor conflictObserved : Bool)
    (has : provider.world.tree.Has tip) (branch : OneBranch provider.world tip db.blocks) :
    Exact provider tip db
        (recoverReorg projection provider db supplied suppliedAnchor conflictObserved) ↔
      Fits projection provider db (subject db supplied suppliedAnchor conflictObserved) := by
  unfold recoverReorg
  generalize subject db supplied suppliedAnchor conflictObserved = subject
  -- a stored header that is canonical is not above the fork
  have forked : ∀ entry ∈ db.blocks.entries, provider.agrees entry.1 entry.2.hash →
      entry.1.toNat ≤ provider.world.tree.meet tip provider.head := by
    intro entry member agrees
    obtain ⟨positive, low, same⟩ := branch entry member
    obtain ⟨canonical, found, hash⟩ := (Option.any_eq_true _ _).mp agrees
    obtain ⟨height, number, short, rfl⟩ := provider.byNumber_some _ _ found
    have here : entry.1.toNat = height := by omega
    apply (provider.world.tree.shared_iff tip provider.head _ has provider.head_has low
      (here ▸ short)).mp
    rw [← same, here]
    apply provider.world.tree.name_inj
    · rw [same]
      exact provider.world.tree.ancestor_has tip _ has
    · exact provider.world.tree.ancestor_has provider.head height provider.head_has
    · exact (of_decide_eq_true hash).symm
  cases proceeding : proceeds provider subject with
  | false =>
    have stays := recovery_stays projection provider db subject proceeding
    constructor
    · intro _ contrary
      rw [proceeding] at contrary
      cases contrary
    · intro _
      refine ⟨fun _ => stays, ?_⟩
      intro _ after returned
      cases outcome : recoverFrom projection provider db subject with
      | stayed fault =>
        rw [outcome] at returned
        cases returned
      | rolledBack store fault =>
        rw [outcome] at stays
        cases stays
  | true =>
    rw [recovery_repairs projection provider db subject proceeding]
    have canonical := reunion_number provider db.blocks subject
    unfold Fits Exact refuses
    generalize reunion provider db.blocks subject = meeting at canonical ⊢
    cases returns : rollback projection db meeting.number (some meeting) with
    | error failure =>
      have stays : repair projection db meeting = .stayed (some (.store failure)) := by
        unfold repair
        rw [returns]
      rw [stays]
      constructor
      · intro _ _
        exact Or.inl rfl
      · intro _
        refine ⟨fun _ => rfl, ?_⟩
        intro _ after contrary
        cases contrary
    | ok rolled =>
      obtain ⟨after, repaired, blocks⟩ := repair_returns projection db rolled meeting returns
      have headers := rollback_headers projection db rolled meeting returns
      rw [repaired]
      constructor
      · rintro ⟨calm, restored⟩ _
        right
        have unsettled : ¬Settled provider db.blocks := fun settled => by
          have stays := calm settled
          cases stays
        refine ⟨unsettled, ?_⟩
        intro entry member
        obtain ⟨remaining, kept⟩ := restored unsettled after rfl
        rw [blocks] at remaining kept
        constructor
        · intro low
          apply remaining entry
          apply (get_some _ _ _).mp
          exact (headers entry.1 entry.2).mpr ⟨low, Or.inl ((get_some _ _ _).mpr member)⟩
        · intro agrees
          have there := kept entry member agrees (forked entry member agrees)
          exact ((headers entry.1 entry.2).mp ((get_some _ _ _).mpr there)).1
      · intro fits
        obtain ⟨unsettled, parted⟩ := (fits proceeding).resolve_left Bool.false_ne_true
        refine ⟨fun settled => absurd settled unsettled, ?_⟩
        rintro - _ ⟨⟩
        rw [blocks]
        constructor
        · intro entry member
          obtain ⟨low, old | ⟨same, number⟩⟩ :=
            (headers entry.1 entry.2).mp ((get_some _ _ _).mpr member)
          · exact (parted entry ((get_some _ _ _).mp old)).mp low
          · unfold Provider.agrees
            rw [← number, same, canonical]
            exact decide_eq_true rfl
        · intro entry member agrees _
          apply (get_some _ _ _).mp
          exact (headers entry.1 entry.2).mpr
            ⟨(parted entry member).mpr agrees, Or.inl ((get_some _ _ _).mpr member)⟩

/-! Three blocks, and one that was orphaned at the height of the last. -/

def World.ofList (blocks : List Header) (numbered : ∀ block ∈ blocks, 0 ≤ block.number)
    (lower : ∀ block ∈ blocks, block.number ≠ 0 →
      ∃ below ∈ blocks.find? fun other => other.hash = block.parentHash,
        below.number + 1 = block.number)
    (genesis : ∀ block ∈ blocks, ∀ same ∈ blocks, block.number = 0 → same.number = 0 →
      block = same) : World where
  find hash := blocks.find? fun block => block.hash = hash
  named hash block found := by
    have same := List.find?_some found
    exact of_decide_eq_true same
  numbered _ block found := numbered block (List.mem_of_find?_eq_some found)
  lower _ block found high := by
    obtain ⟨below, here, step⟩ := lower block (List.mem_of_find?_eq_some found) high
    exact ⟨below, Option.mem_def.mp here, step⟩
  genesis _ _ block same found there :=
    genesis block (List.mem_of_find?_eq_some found) same (List.mem_of_find?_eq_some there)

def sampleOrphan : Header := ⟨2, 22, (sampleHeader 1).hash, 2⟩

def sampleWorld : World :=
  World.ofList [sampleHeader 0, sampleHeader 1, sampleHeader 2, sampleOrphan]
    (by decide) (by decide) (by decide)

theorem sampleWorld_has : sampleWorld.tree.Has (sampleHeader 2) := by
  change sampleWorld.find (sampleHeader 2).hash = some (sampleHeader 2)
  decide

def sampleProvider (head : Header) (current : sampleWorld.find head.hash = some head) : Provider :=
  { world := sampleWorld, head := head, current := current, knows := fun _ => true }

def sampleCalls : List (Call Unit) :=
  [.ingest (cursorCall "live" (sampleHeader 1) (liveCursor (sampleHeader 1))),
    .ingest (cursorCall "live" (sampleHeader 2) (liveCursor (sampleHeader 2)))]

theorem sample_runs : ((store unpriced).run (.fresh (), []) sampleCalls).isSome := by
  decide

def sampleStore : Db Unit × List (Call Unit) :=
  ((store unpriced).run (.fresh (), []) sampleCalls).get sample_runs

theorem sample_reached : (store unpriced).Reaches always sampleStore := by
  apply System.Reaches.run (.fresh (), []) sampleStore sampleCalls
  · exact .start _ ⟨(), rfl⟩
  · exact System.runMeets_always _ _
  · exact (Option.some_get sample_runs).symm

/-- The live cursor was orphaned: the recovery keeps block 1 and drops block 2. -/
theorem recovery_exact_sample :
    Exact (sampleProvider sampleOrphan (by decide +kernel)) (sampleHeader 2) sampleStore.1
      (recoverReorg unpriced (sampleProvider sampleOrphan (by decide +kernel)) sampleStore.1
        ⟨some 2, some (sampleHeader 2).hash⟩ false true) :=
  (recovery_exact_iff unpriced (sampleProvider sampleOrphan (by decide +kernel)) (sampleHeader 2)
    sampleStore.1 ⟨some 2, some (sampleHeader 2).hash⟩ false true sampleWorld_has
      (by decide +kernel)).mpr (by decide +kernel)

/-- An orphan passed after the store was repaired rolls a canonical header back. -/
theorem stale_orphan_rolls_back : ¬∀ (provider : Provider) (tip : Header)
    (state : Db Unit × List (Call Unit)) (_ : (store unpriced).Reaches always state)
    (supplied : Anchor) (suppliedAnchor conflictObserved : Bool),
    provider.world.tree.Has tip → OneBranch provider.world tip state.1.blocks →
      Exact provider tip state.1
        (recoverReorg unpriced provider state.1 supplied suppliedAnchor conflictObserved) := by
  intro claim
  have stays := (claim (sampleProvider (sampleHeader 2) (by decide +kernel)) (sampleHeader 2)
    sampleStore sample_reached ⟨some 2, some sampleOrphan.hash⟩ true false sampleWorld_has
    (by decide +kernel)).1 (by decide +kernel)
  have rolls : (recoverReorg unpriced (sampleProvider (sampleHeader 2) (by decide +kernel))
      sampleStore.1 ⟨some 2, some sampleOrphan.hash⟩ true false).rolled = true := by
    decide +kernel
  rw [rolls] at stays
  cases stays

end RhPools.ReorgRecovery
