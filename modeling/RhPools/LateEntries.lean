import Mathlib.Data.List.Pairwise
import Mathlib.Data.List.Sort
import Mathlib.Order.WithBot

/-! Logs that are folded in the order of their entries, while the entries arrive in any order. A
state knows how far it has come, and an entry it has passed is skipped. The state stays the fold of
all entries where each late one makes no difference, or is followed by one that settles everything. -/

namespace RhPools.LateEntries

/-- An entry moves the state to its own place, or leaves it alone. One that is whole makes the same
of every state. -/
structure Log (Entry State Rank : Type) [LinearOrder Rank] where
  place : Entry → Rank
  reach : State → WithBot Rank
  start : State
  advance : State → Entry → State
  whole : Entry → Prop
  starts : reach start = ⊥
  moves : ∀ state entry, advance state entry = state ∨ reach (advance state entry) = place entry
  resets : ∀ entry, whole entry → ∀ left right, advance left entry = advance right entry ∧
    reach (advance left entry) = place entry

variable {Entry State Rank : Type} [LinearOrder Rank] (log : Log Entry State Rank)

def Log.sort (entries : List Entry) : List Entry :=
  entries.insertionSort fun left right => log.place left ≤ log.place right

def Log.history (entries : List Entry) : State :=
  (log.sort entries).foldl log.advance log.start

def Log.arrive (state : State) (entry : Entry) : State :=
  if (log.place entry : WithBot Rank) < log.reach state then state else log.advance state entry

def Log.Sorted (entries : List Entry) : Prop :=
  entries.Pairwise fun left right => log.place left < log.place right

def Log.Distinct (entries : List Entry) : Prop :=
  entries.Pairwise fun left right => log.place left ≠ log.place right

def Log.Alike (left right : State) : Prop :=
  ∀ entry, log.advance left entry = log.advance right entry ∨
    log.advance left entry = left ∧ log.advance right entry = right

def Log.Newest (entries : List Entry) (entry : Entry) : Prop :=
  ∀ other ∈ entries, log.place other < log.place entry

instance (entries : List Entry) (entry : Entry) : Decidable (log.Newest entries entry) :=
  inferInstanceAs (Decidable (∀ other ∈ entries, log.place other < log.place entry))

def Log.Covered (entries : List Entry) (entry : Entry) : Prop :=
  ∃ other ∈ entries, log.whole other ∧ log.place entry < log.place other

instance [DecidablePred log.whole] (entries : List Entry) (entry : Entry) :
    Decidable (log.Covered entries entry) :=
  inferInstanceAs (Decidable (∃ other ∈ entries, log.whole other ∧ log.place entry < log.place other))

def Log.Idle (entries : List Entry) (entry : Entry) : Prop :=
  ∀ front, log.Sorted front →
    (∀ other, other ∈ front ↔ other ∈ entries ∧ log.place other < log.place entry) →
      log.Alike (front.foldl log.advance log.start)
        (log.advance (front.foldl log.advance log.start) entry)

variable {log}

variable (log) in
theorem foldl_moves (state : State) (entries : List Entry) :
    entries.foldl log.advance state = state ∨ ∃ entry ∈ entries,
      log.reach (entries.foldl log.advance state) = log.place entry := by
  induction entries generalizing state with
  | nil => exact .inl rfl
  | cons entry rest ih =>
    rcases ih (log.advance state entry) with same | ⟨last, member, reached⟩
    · rw [List.foldl_cons, same]
      rcases log.moves state entry with still | moved
      · exact .inl still
      · exact .inr ⟨entry, List.mem_cons_self, moved⟩
    · exact .inr ⟨last, List.mem_cons_of_mem entry member, reached⟩

variable (log) in
theorem foldl_below (entries : List Entry) (bound : Rank)
    (below : ∀ entry ∈ entries, log.place entry < bound) :
    log.reach (entries.foldl log.advance log.start) < bound := by
  rcases foldl_moves log log.start entries with same | ⟨entry, member, reached⟩
  · rw [same, log.starts]
    exact WithBot.bot_lt_coe bound
  · rw [reached]
    exact WithBot.coe_lt_coe.mpr (below entry member)

theorem foldl_resets (entries : List Entry) (sorted : log.Sorted entries) (entry : Entry)
    (member : entry ∈ entries) (whole : log.whole entry) (left right : State) :
    entries.foldl log.advance left = entries.foldl log.advance right ∧
      (log.place entry : WithBot Rank) ≤ log.reach (entries.foldl log.advance left) := by
  induction entries generalizing left right with
  | nil => exact absurd member List.not_mem_nil
  | cons first rest ih =>
    obtain ⟨after, sorted⟩ := List.pairwise_cons.mp sorted
    rcases List.mem_cons.mp member with rfl | member
    · obtain ⟨same, reached⟩ := log.resets entry whole left right
      rw [List.foldl_cons, List.foldl_cons, ← same]
      refine ⟨rfl, ?_⟩
      rcases foldl_moves log (log.advance left entry) rest with still | ⟨last, inside, moved⟩
      · rw [still, reached]
      · rw [moved]
        exact WithBot.coe_le_coe.mpr (after last inside).le
    · exact ih sorted member _ _

theorem Log.Alike.refl (state : State) : log.Alike state state := fun _ => .inl rfl

theorem foldl_alike (entries : List Entry) (sorted : log.Sorted entries) (left right : State)
    (alike : log.Alike left right) (bound : Rank) (low : log.reach left < bound)
    (high : log.reach right = bound) (above : ∀ entry ∈ entries, bound < log.place entry) :
    entries.foldl log.advance right = entries.foldl log.advance left ∧
        (bound : WithBot Rank) < log.reach (entries.foldl log.advance left) ∨
      entries.foldl log.advance right = right ∧ entries.foldl log.advance left = left := by
  induction entries with
  | nil => exact .inr ⟨rfl, rfl⟩
  | cons entry rest ih =>
    obtain ⟨after, sorted⟩ := List.pairwise_cons.mp sorted
    have passed := above entry List.mem_cons_self
    rcases alike entry with same | ⟨still, stays⟩
    · left
      rw [List.foldl_cons, List.foldl_cons, ← same]
      refine ⟨rfl, ?_⟩
      -- The states differ, so the entry moved both of them.
      have moved : log.reach (log.advance left entry) = log.place entry := by
        rcases log.moves left entry with still | moved
        · rcases log.moves right entry with stays | moved
          · rw [← same, still] at stays
            rw [stays] at low
            exact absurd (low.trans_eq high.symm) (lt_irrefl _)
          · exact same ▸ moved
        · exact moved
      rcases foldl_moves log (log.advance left entry) rest with still | ⟨last, inside, reached⟩
      · rw [still, moved]
        exact WithBot.coe_lt_coe.mpr passed
      · rw [reached]
        exact WithBot.coe_lt_coe.mpr (passed.trans (after last inside))
    · rw [List.foldl_cons, List.foldl_cons, still, stays]
      exact ih sorted fun other member => above other (List.mem_cons_of_mem entry member)

theorem fold_insert (front back : List Entry) (entry : Entry)
    (sorted : log.Sorted (front ++ entry :: back))
    (harmless : back = [] ∨ (∃ other ∈ back, log.whole other) ∨
      log.Alike (front.foldl log.advance log.start)
        (log.advance (front.foldl log.advance log.start) entry)) :
    (front ++ entry :: back).foldl log.advance log.start =
      log.arrive ((front ++ back).foldl log.advance log.start) entry := by
  obtain ⟨-, ending, apart⟩ := List.pairwise_append.mp sorted
  obtain ⟨above, ordered⟩ := List.pairwise_cons.mp ending
  have low : log.reach (front.foldl log.advance log.start) < log.place entry :=
    foldl_below log front _ fun other member => apart other member entry List.mem_cons_self
  rw [List.foldl_append, List.foldl_append, List.foldl_cons, Log.arrive]
  generalize front.foldl log.advance log.start = state at low harmless ⊢
  rcases harmless with rfl | ⟨other, member, whole⟩ | alike
  · rw [List.foldl_nil, List.foldl_nil, if_neg low.not_gt]
  · obtain ⟨same, reached⟩ := foldl_resets back ordered other member whole state
      (log.advance state entry)
    rw [if_pos ((WithBot.coe_lt_coe.mpr (above other member)).trans_le reached), same]
  · rcases log.moves state entry with still | moved
    · rw [still]
      rcases foldl_moves log state back with same | ⟨other, member, reached⟩
      · rw [same, still, ite_self]
      · rw [if_pos]
        rw [reached]
        exact WithBot.coe_lt_coe.mpr (above other member)
    · rcases foldl_alike back ordered state _ alike _ low moved above with
        ⟨same, passed⟩ | ⟨right, left⟩
      · rw [if_pos passed, same]
      · rw [right, left, if_neg low.not_gt]

theorem sort_sorted (entries : List Entry) (distinct : log.Distinct entries) :
    log.Sorted (log.sort entries) := by
  have ordered : (log.sort entries).Pairwise fun left right => log.place left ≤ log.place right :=
    List.pairwise_insertionSort _ entries
  have apart : log.Distinct (log.sort entries) :=
    (List.Perm.pairwise_iff (fun unlike => unlike.symm)
      (List.perm_insertionSort _ entries)).mpr distinct
  exact (ordered.and apart).imp fun both => lt_of_le_of_ne both.1 both.2

theorem mem_sort (entries : List Entry) (entry : Entry) :
    entry ∈ log.sort entries ↔ entry ∈ entries := List.mem_insertionSort _

theorem sorted_eq {left right : List Entry} (first : log.Sorted left) (second : log.Sorted right)
    (same : ∀ entry, entry ∈ left ↔ entry ∈ right) : left = right := by
  have apart : ∀ {entries : List Entry}, log.Sorted entries → entries.Nodup := fun sorted =>
    sorted.imp fun less same => less.ne (congrArg log.place same)
  have perm : left.Perm right := (List.perm_ext_iff_of_nodup (apart first) (apart second)).mpr same
  exact perm.eq_of_pairwise (fun _ _ _ _ less more => absurd less more.asymm) first second

theorem history_eq (entries sorted : List Entry) (distinct : log.Distinct entries)
    (ordered : log.Sorted sorted) (same : ∀ entry, entry ∈ sorted ↔ entry ∈ entries) :
    log.history entries = sorted.foldl log.advance log.start := by
  rw [Log.history, sorted_eq (sort_sorted entries distinct) ordered]
  intro entry
  rw [mem_sort, same]

theorem history_congr {left right : List Entry} (first : log.Distinct left)
    (second : log.Distinct right) (same : ∀ entry, entry ∈ left ↔ entry ∈ right) :
    log.history left = log.history right := by
  apply history_eq left _ first (sort_sorted right second)
  intro entry
  rw [mem_sort, same]

variable (log) in
theorem history_below (entries : List Entry) (bound : Rank)
    (below : ∀ entry ∈ entries, log.place entry < bound) :
    log.reach (log.history entries) < bound :=
  foldl_below log _ bound fun entry member => below entry ((mem_sort entries entry).mp member)

theorem history_cons (entries : List Entry) (entry : Entry)
    (distinct : log.Distinct (entry :: entries))
    (harmless : log.Newest entries entry ∨ log.Covered entries entry ∨ log.Idle entries entry) :
    log.history (entry :: entries) = log.arrive (log.history entries) entry := by
  obtain ⟨apart, others⟩ := List.pairwise_cons.mp distinct
  have sorted := sort_sorted entries others
  let front := (log.sort entries).filter fun other => log.place other < log.place entry
  let back := (log.sort entries).filter fun other => log.place entry < log.place other
  have mem_front : ∀ other, other ∈ front ↔
      other ∈ entries ∧ log.place other < log.place entry := by
    intro other
    rw [List.mem_filter, mem_sort, decide_eq_true_eq]
  have mem_back : ∀ other, other ∈ back ↔
      other ∈ entries ∧ log.place entry < log.place other := by
    intro other
    rw [List.mem_filter, mem_sort, decide_eq_true_eq]
  have merged : log.Sorted (front ++ entry :: back) := by
    apply List.pairwise_append.mpr
    refine ⟨sorted.filter _, List.pairwise_cons.mpr ⟨?_, sorted.filter _⟩, ?_⟩
    · exact fun other member => ((mem_back other).mp member).2
    · intro low inside high member
      have under := ((mem_front low).mp inside).2
      rcases List.mem_cons.mp member with rfl | member
      · exact under
      · exact under.trans ((mem_back high).mp member).2
  have rest : log.Sorted (front ++ back) :=
    merged.sublist ((List.Sublist.refl front).append (List.sublist_cons_self entry back))
  rw [history_eq (entry :: entries) _ distinct merged, history_eq entries _ others rest]
  · apply fold_insert front back entry merged
    rcases harmless with newest | ⟨other, member, whole, after⟩ | idle
    · left
      apply List.filter_eq_nil_iff.mpr
      intro other member
      simpa using (newest other ((mem_sort entries other).mp member)).le
    · exact .inr (.inl ⟨other, (mem_back other).mpr ⟨member, after⟩, whole⟩)
    · exact .inr (.inr (idle front (sorted.filter _) mem_front))
  · intro other
    rw [List.mem_append, mem_front, mem_back, ← and_or_left, ← ne_iff_lt_or_gt]
    exact ⟨And.left, fun member => ⟨member, (apart other member).symm⟩⟩
  · intro other
    rw [List.mem_append, List.mem_cons, List.mem_cons, mem_front, mem_back]
    constructor
    · rintro (⟨member, -⟩ | rfl | ⟨member, -⟩)
      · exact .inr member
      · exact .inl rfl
      · exact .inr member
    · rintro (rfl | member)
      · exact .inr (.inl rfl)
      · rcases lt_or_gt_of_ne (apart other member) with after | before
        · exact .inr (.inr ⟨member, after⟩)
        · exact .inl ⟨member, before⟩

theorem history_newest (entries : List Entry) (distinct : log.Distinct entries) (entry : Entry)
    (member : entry ∈ entries) (newest : ∀ other ∈ entries, log.place other ≤ log.place entry) :
    log.history entries = log.advance
      (log.history (entries.filter fun other => log.place other < log.place entry)) entry := by
  let before := entries.filter fun other => log.place other < log.place entry
  have mem_before : ∀ other, other ∈ before ↔
      other ∈ entries ∧ log.place other < log.place entry := by
    intro other
    rw [List.mem_filter, decide_eq_true_eq]
  have apart : log.Distinct (entry :: before) := by
    refine List.pairwise_cons.mpr ⟨?_, distinct.filter _⟩
    exact fun other inside => ((mem_before other).mp inside).2.ne'
  have below : log.Newest before entry := fun other inside => ((mem_before other).mp inside).2
  have : Std.Symm fun left right : Entry => log.place left ≠ log.place right := ⟨fun _ _ => Ne.symm⟩
  rw [history_congr distinct apart, history_cons before entry apart (.inl below), Log.arrive,
    if_neg (history_below log before _ below).not_gt]
  intro other
  rw [List.mem_cons, mem_before]
  constructor
  · intro inside
    rcases (newest other inside).lt_or_eq with less | same
    · exact .inr ⟨inside, less⟩
    · left
      by_contra unlike
      exact List.Pairwise.forall distinct inside member unlike same
  · rintro (rfl | ⟨inside, -⟩)
    · exact member
    · exact inside

theorem history_filter (entries : List Entry) (distinct : log.Distinct entries)
    (kept : Entry → Bool)
    (apart : ∀ low ∈ entries, ∀ high ∈ entries, kept low = true → kept high = false →
      log.place low < log.place high)
    (still : ∀ entry ∈ entries, kept entry = false →
      log.reach (log.history entries) ≠ log.place entry) :
    log.history (entries.filter kept) = log.history entries := by
  have sorted := sort_sorted entries distinct
  let front := (log.sort entries).filter kept
  let back := (log.sort entries).filter fun entry => !kept entry
  have ordered : log.Sorted (front ++ back) := by
    refine List.pairwise_append.mpr ⟨sorted.filter _, sorted.filter _, ?_⟩
    intro low inside high member
    obtain ⟨there, stays⟩ := List.mem_filter.mp inside
    obtain ⟨here, goes⟩ := List.mem_filter.mp member
    exact apart low ((mem_sort _ _).mp there) high ((mem_sort _ _).mp here) stays (by simpa using goes)
  have whole : log.history entries = (front ++ back).foldl log.advance log.start := by
    apply history_eq entries _ distinct ordered
    intro entry
    rw [List.mem_append, List.mem_filter, List.mem_filter, mem_sort]
    cases kept entry <;> simp
  have part : log.history (entries.filter kept) = front.foldl log.advance log.start := by
    apply history_eq _ _ (distinct.filter _) (sorted.filter _)
    intro entry
    rw [List.mem_filter, List.mem_filter, mem_sort]
  rw [part]
  rw [whole, List.foldl_append] at still ⊢
  rcases foldl_moves log (front.foldl log.advance log.start) back with
    same | ⟨entry, member, moved⟩
  · exact same.symm
  · obtain ⟨there, goes⟩ := List.mem_filter.mp member
    exact absurd moved (still entry ((mem_sort _ _).mp there) (by simpa using goes))

/-! Batches. A batch arrives in order; the entries it follows were there before. -/

def Log.Settling (entries waiting : List Entry) (state : State) : Prop :=
  state = log.history entries ∨
    ∃ entry ∈ waiting, log.whole entry ∧ log.Newest entries entry ∧
      log.reach state < log.place entry

variable (log) in
structure Log.Steps (state : State) (entry : Entry) (next : State) : Prop where
  skips : (log.place entry : WithBot Rank) < log.reach state → next = state
  moves : next = state ∨ log.reach next = log.place entry
  resets : log.whole entry → log.reach state < log.place entry → next = log.advance state entry

theorem history_reach (entries : List Entry) (distinct : log.Distinct entries) (entry : Entry)
    (member : entry ∈ entries) (whole : log.whole entry) :
    (log.place entry : WithBot Rank) ≤ log.reach (log.history entries) :=
  (foldl_resets _ (sort_sorted entries distinct) entry ((mem_sort entries entry).mpr member) whole
    log.start log.start).2

theorem settling_step (entries rest : List Entry) (entry : Entry) (state next : State)
    (distinct : log.Distinct (entry :: entries)) (sorted : log.Sorted (entry :: rest))
    (settling : log.Settling entries (entry :: rest) state)
    (step : log.Steps state entry next)
    (harmless : (log.Newest entries entry ∨ log.Idle entries entry) ∧
        (state = log.history entries → next = log.arrive state entry) ∨
      log.Covered entries entry ∨ ∃ other ∈ rest, log.whole other ∧ log.Newest entries other) :
    log.Settling (entry :: entries) rest next := by
  obtain ⟨after, -⟩ := List.pairwise_cons.mp sorted
  -- An entry still to come that is newest stays so.
  have still : ∀ other ∈ rest, log.Newest entries other → log.Newest (entry :: entries) other := by
    intro other member newest older inside
    rcases List.mem_cons.mp inside with rfl | inside
    · exact after other member
    · exact newest older inside
  have waits : ∀ other ∈ rest, log.whole other → log.Newest entries other →
      log.reach state < log.place other → log.Settling (entry :: entries) rest next := by
    intro other member whole newest low
    refine .inr ⟨other, member, whole, still other member newest, ?_⟩
    rcases step.moves with same | moved
    · rw [same]
      exact low
    · rw [moved]
      exact WithBot.coe_lt_coe.mpr (after other member)
  rcases settling with folded | ⟨pending, member, whole, newest, low⟩
  · rcases harmless with ⟨placed, arrives⟩ | ⟨other, member, whole, later⟩ | ⟨other, member, whole, newest⟩
    · left
      rw [arrives folded, history_cons entries entry distinct
        (placed.elim .inl fun idle => .inr (.inr idle)), folded]
    · left
      have passed : (log.place entry : WithBot Rank) < log.reach state := by
        rw [folded]
        exact (WithBot.coe_lt_coe.mpr later).trans_le
          (history_reach entries (List.pairwise_cons.mp distinct).2 other member whole)
      rw [history_cons entries entry distinct (.inr (.inl ⟨other, member, whole, later⟩)),
        step.skips passed, Log.arrive, ← folded, if_pos passed]
    · apply waits other member whole newest
      rw [folded]
      exact history_below log entries _ newest
  · rcases List.mem_cons.mp member with rfl | member
    · left
      rw [history_cons entries pending distinct (.inl newest), Log.arrive,
        if_neg (history_below log entries _ newest).not_gt, step.resets whole low]
      exact (log.resets pending whole _ _).1
    · exact waits pending member whole newest low

end RhPools.LateEntries
