import Mathlib.Data.List.Lex
import Mathlib.Data.List.Perm.Subperm
import Mathlib.Data.List.Sort

/-! A transaction as a call tree. A frame interleaves its own logs with its child
calls; a failed frame drops the logs of its whole subtree. A tracer reports each frame
with its logs and its calls apart, so their interleaving is lost: what remains of it is
that a path in the tree either precedes another one or lies above or below it. -/

namespace RhPools.CallTrees

/-- What a frame does, in execution order. A call carries the head of the called frame
and what that frame does. -/
inductive Body (Head Log : Type) where
  | done
  | log (log : Log) (rest : Body Head Log)
  | call (head : Head) (inner rest : Body Head Log)
  deriving Repr

structure Frame (Head Log : Type) where
  head : Head
  body : Body Head Log
  deriving Repr

inductive Trace (Head Log : Type) where
  | mk (head : Head) (logs : List Log) (calls : List (Trace Head Log))
  deriving Repr

abbrev Path := List Nat

variable {Head Log : Type}

def Trace.head : Trace Head Log → Head
  | .mk head _ _ => head

def Trace.logs : Trace Head Log → List Log
  | .mk _ logs _ => logs

def Body.logs : Body Head Log → List Log
  | .done => []
  | .log entry rest => entry :: rest.logs
  | .call _ _ rest => rest.logs

structure Visit (Head Log : Type) where
  path : Path
  frame : Trace Head Log
  failed : Bool

structure Emission (Head Log : Type) where
  path : Path
  head : Head
  log : Log
  deriving Repr

section
variable (failed : Head → Bool)

/-- The reported calls of a body. `cleared` is a tracer that leaves out the logs of
failed frames and of everything below them. -/
def Body.calls (cleared dead : Bool) : Body Head Log → List (Trace Head Log)
  | .done => []
  | .log _ rest => rest.calls cleared dead
  | .call head inner rest =>
    .mk head (if cleared && (dead || failed head) then [] else inner.logs)
      (inner.calls cleared (dead || failed head)) :: rest.calls cleared dead

def Frame.trace (cleared : Bool) (frame : Frame Head Log) : Trace Head Log :=
  .mk frame.head (if cleared && failed frame.head then [] else frame.body.logs)
    (frame.body.calls failed cleared (failed frame.head))

/-- The logs that survive, in execution order, each with the frame that emitted it. -/
def Body.emitted (head : Head) (path : Path) : Nat → Body Head Log → List (Emission Head Log)
  | _, .done => []
  | index, .log entry rest => ⟨path, head, entry⟩ :: rest.emitted head path index
  | index, .call child inner rest =>
    (if failed child then [] else inner.emitted child (path ++ [index]) 0) ++
      rest.emitted head path (index + 1)

def Frame.emitted (frame : Frame Head Log) : List (Emission Head Log) :=
  if failed frame.head then [] else frame.body.emitted failed frame.head [] 0

mutual
def walkTrace (path : Path) (failedAncestor : Bool) : Trace Head Log → List (Visit Head Log)
  | .mk head logs calls =>
    ⟨path, .mk head logs calls, failedAncestor || failed head⟩ ::
      walkCalls path (failedAncestor || failed head) 0 calls

def walkCalls (path : Path) (above : Bool) : Nat → List (Trace Head Log) → List (Visit Head Log)
  | _, [] => []
  | index, child :: rest =>
    walkTrace (path ++ [index]) above child ++ walkCalls path above (index + 1) rest
end

end

/-- `path` leads to, or into, a call of the frame at `top` from index `index` on. -/
def Below (top : Path) (index : Nat) (path : Path) : Prop :=
  ∃ next rest, index ≤ next ∧ path = top ++ next :: rest

section
variable (top : Path) (index : Nat)

theorem below_here : Below top index (top ++ [index]) :=
  ⟨index, [], Nat.le_refl index, rfl⟩

theorem below_deeper (index start : Nat) (path : Path) (below : Below (top ++ [index]) start path) :
    Below top index path := by
  obtain ⟨next, rest, -, same⟩ := below
  exact ⟨index, next :: rest, Nat.le_refl index, by rw [same, List.append_assoc]; rfl⟩

variable (path : Path)

theorem below_later (below : Below top (index + 1) path) : Below top index path := by
  obtain ⟨next, rest, later, same⟩ := below
  exact ⟨next, rest, Nat.le_of_succ_le later, same⟩

theorem below_ne (below : Below top index path) :
    path ≠ top := by
  obtain ⟨next, rest, -, same⟩ := below
  intro equal
  have longer := congrArg List.length (same.symm.trans equal)
  simp at longer

theorem below_stem (below : Below top index path) :
    top <+: path := by
  obtain ⟨next, rest, -, same⟩ := below
  exact ⟨next :: rest, same.symm⟩

theorem lt_of_below (below : Below top index path) :
    top < path := by
  obtain ⟨next, rest, -, same⟩ := below
  rw [same]
  nth_rewrite 1 [← List.append_nil top]
  exact List.append_left_lt (List.nil_lt_cons _ _)

theorem lt_of_earlier (left right : Path)
    (inside : left = top ++ [index] ∨ Below (top ++ [index]) 0 left)
    (later : Below top (index + 1) right) : left < right := by
  obtain ⟨next, rest, above, rfl⟩ := later
  have split : ∃ tail, left = top ++ index :: tail := by
    rcases inside with rfl | ⟨step, tail, -, rfl⟩
    · exact ⟨[], rfl⟩
    · exact ⟨step :: tail, by simp⟩
  obtain ⟨tail, rfl⟩ := split
  exact List.append_left_lt (List.cons_lt_cons_iff.mpr (Or.inl above))

end

def Nested (left right : Path) : Prop := left <+: right ∨ right <+: left

instance (left right : Path) : Decidable (Nested left right) :=
  inferInstanceAs (Decidable (_ ∨ _))

variable (failed : Head → Bool) (cleared : Bool)

section
variable (frame : Frame Head Log) (body : Body Head Log) (head : Head)

/-- What the walk makes of a body: for each call the visit of its frame, what is inside,
and what comes after. -/
theorem walkCalls_call (inner rest : Body Head Log) (path : Path) (above : Bool) (index : Nat) :
    walkCalls failed path above index ((Body.call head inner rest).calls failed cleared above) =
      ⟨path ++ [index], .mk head (if cleared && (above || failed head) then [] else inner.logs)
        (inner.calls failed cleared (above || failed head)), above || failed head⟩ ::
      (walkCalls failed (path ++ [index]) (above || failed head) 0
          (inner.calls failed cleared (above || failed head)) ++
        walkCalls failed path above (index + 1) (rest.calls failed cleared above)) := by
  simp only [Body.calls, walkCalls, walkTrace, List.cons_append]

variable (path : Path) (above : Bool) (index : Nat) (visit : Visit Head Log)

theorem walkCalls_below
    (member : visit ∈ walkCalls failed path above index (body.calls failed cleared above)) :
    Below path index visit.path := by
  induction body generalizing path above index with
  | done => simp [Body.calls, walkCalls] at member
  | log entry rest ih => exact ih path above index member
  | call head inner rest inside after =>
    rw [walkCalls_call, List.mem_cons, List.mem_append] at member
    rcases member with rfl | deeper | later
    · exact below_here path index
    · exact below_deeper path index 0 _ (inside _ _ _ deeper)
    · exact below_later path index _ (after _ _ _ later)

theorem walkCalls_sorted :
    (walkCalls failed path above index (body.calls failed cleared above)).Pairwise
      fun first second => first.path < second.path := by
  induction body generalizing path above index with
  | done => exact List.Pairwise.nil
  | log entry rest ih => exact ih path above index
  | call head inner rest inside after =>
    rw [walkCalls_call, List.pairwise_cons, List.pairwise_append]
    refine ⟨?_, inside _ _ _, after _ _ _, ?_⟩
    · intro visit member
      rcases List.mem_append.mp member with deeper | later
      · exact lt_of_below _ 0 _ (walkCalls_below failed cleared inner _ _ _ _ deeper)
      · exact lt_of_earlier path index _ _ (Or.inl rfl)
          (walkCalls_below failed cleared rest _ _ _ _ later)
    · intro first deeper second later
      exact lt_of_earlier path index _ _
        (Or.inr (walkCalls_below failed cleared inner _ _ _ _ deeper))
        (walkCalls_below failed cleared rest _ _ _ _ later)

theorem walkTrace_sorted :
    (walkTrace failed [] false (frame.trace failed cleared)).Pairwise
      fun first second => first.path < second.path := by
  rw [Frame.trace, walkTrace, Bool.false_or, List.pairwise_cons]
  refine ⟨?_, walkCalls_sorted failed cleared frame.body [] _ 0⟩
  intro visit member
  exact lt_of_below [] 0 _ (walkCalls_below failed cleared frame.body [] _ 0 visit member)

theorem emitted_path (emission : Emission Head Log)
    (member : emission ∈ body.emitted failed head path index) :
    emission.path = path ∨ Below path index emission.path := by
  induction body generalizing head path index with
  | done => simp [Body.emitted] at member
  | log entry rest ih =>
    rcases List.mem_cons.mp member with rfl | later
    · exact Or.inl rfl
    · exact ih head path index later
  | call child inner rest inside after =>
    rcases List.mem_append.mp member with deeper | later
    · right
      split at deeper
      · cases deeper
      · rcases inside child (path ++ [index]) 0 deeper with here | below
        · exact here ▸ below_here path index
        · exact below_deeper path index 0 _ below
    · exact (after head path (index + 1) later).imp_right (below_later path index _)

/-- Of two emissions the first one's frame comes first on the walk, unless one of the
frames runs inside the other. -/
theorem body_emitted_ordered :
    (body.emitted failed head path index).Pairwise
      fun first second => first.path < second.path ∨ Nested first.path second.path := by
  induction body generalizing head path index with
  | done => exact List.Pairwise.nil
  | log entry rest ih =>
    rw [Body.emitted, List.pairwise_cons]
    refine ⟨?_, ih head path index⟩
    intro emission member
    right
    rcases emitted_path failed rest head path index emission member with here | below
    · exact Or.inl (here ▸ List.prefix_refl path)
    · exact Or.inl (below_stem path index _ below)
  | call child inner rest inside after =>
    rw [Body.emitted, List.pairwise_append]
    refine ⟨?_, after head path (index + 1), ?_⟩
    · split
      · exact List.Pairwise.nil
      · exact inside child (path ++ [index]) 0
    · intro first deeper second later
      split at deeper
      · cases deeper
      · have inner := emitted_path failed inner child (path ++ [index]) 0 first deeper
        rcases emitted_path failed rest head path (index + 1) second later with here | below
        · right; right
          rw [here]
          rcases inner with same | under
          · exact same ▸ List.prefix_append path [index]
          · exact (List.prefix_append path [index]).trans (below_stem _ 0 _ under)
        · left
          exact lt_of_earlier path index _ _ inner below

theorem emitted_ordered :
    (frame.emitted failed).Pairwise
      fun first second => first.path < second.path ∨ Nested first.path second.path := by
  unfold Frame.emitted
  split
  · exact List.Pairwise.nil
  · exact body_emitted_ordered failed frame.body frame.head [] 0

theorem emitted_here :
    (body.emitted failed head path index).filter (fun emission => emission.path = path) =
      body.logs.map fun entry => ⟨path, head, entry⟩ := by
  induction body generalizing index with
  | done => rfl
  | log entry rest ih => simp [Body.emitted, Body.logs, ih]
  | call child inner rest inside after =>
    have away : ∀ emission ∈ (if failed child then [] else
        inner.emitted failed child (path ++ [index]) 0), emission.path ≠ path := by
      intro emission member
      split at member
      · cases member
      · rcases emitted_path failed inner child _ 0 emission member with here | below
        · rw [here]
          exact below_ne path index _ (below_here path index)
        · exact below_ne path index _ (below_deeper path index 0 _ below)
    rw [Body.emitted, List.filter_append, after, Body.logs,
      List.filter_eq_nil_iff.mpr fun emission member => by simpa using away emission member,
      List.nil_append]

theorem filter_path_nil (emissions : List (Emission Head Log)) (path : Path)
    (away : ∀ emission ∈ emissions, emission.path ≠ path) :
    emissions.filter (fun emission => emission.path = path) = [] :=
  List.filter_eq_nil_iff.mpr fun emission member => by simpa using away emission member

theorem apart_of_later (left right : Path)
    (inside : left = path ++ [index] ∨ Below (path ++ [index]) 0 left)
    (later : right = path ∨ Below path (index + 1) right) : left ≠ right := by
  rcases later with rfl | later
  · rcases inside with rfl | below
    · exact below_ne _ index _ (below_here _ index)
    · exact below_ne _ index _ (below_deeper _ index 0 _ below)
  · exact ne_of_lt (lt_of_earlier path index left right inside later)

theorem walkCalls_failed
    (member : visit ∈ walkCalls failed path true index (body.calls failed cleared true)) :
    visit.failed = true := by
  induction body generalizing path index with
  | done => simp [Body.calls, walkCalls] at member
  | log entry rest ih => exact ih path index member
  | call head inner rest inside after =>
    rw [walkCalls_call, Bool.true_or, List.mem_cons, List.mem_append] at member
    rcases member with rfl | deeper | later
    · rfl
    · exact inside _ _ deeper
    · exact after _ _ later

theorem body_emitted_at
    (member : visit ∈ walkCalls failed path false index (body.calls failed cleared false))
    (alive : visit.failed = false) :
    (body.emitted failed head path index).filter (fun emission => emission.path = visit.path) =
      visit.frame.logs.map fun entry => ⟨visit.path, visit.frame.head, entry⟩ := by
  induction body generalizing head path index with
  | done => simp [Body.calls, walkCalls] at member
  | log entry rest ih =>
    have away : path ≠ visit.path :=
      (below_ne path index _ (walkCalls_below failed cleared rest path false index _ member)).symm
    rw [Body.emitted, List.filter_cons_of_neg (by simpa using away)]
    exact ih head path index member
  | call child inner rest inside after =>
    have outside := fun emission found =>
      emitted_path failed rest head path (index + 1) emission found
    rw [walkCalls_call, Bool.false_or, List.mem_cons, List.mem_append] at member
    rw [Body.emitted, List.filter_append]
    rcases member with rfl | deeper | later
    · have kept : failed child = false := alive
      rw [kept, filter_path_nil (rest.emitted failed head path (index + 1)), List.append_nil]
      · simp only [Bool.false_eq_true, if_false, Bool.and_false]
        exact emitted_here failed inner child (path ++ [index]) 0
      · intro emission found
        exact (apart_of_later path index _ _ (Or.inl rfl) (outside emission found)).symm
    · cases kept : failed child with
      | true =>
        rw [kept] at deeper
        rw [walkCalls_failed failed cleared inner _ 0 visit deeper] at alive
        cases alive
      | false =>
        rw [kept] at deeper
        have below := walkCalls_below failed cleared inner _ false 0 visit deeper
        rw [filter_path_nil (rest.emitted failed head path (index + 1)), List.append_nil]
        · exact inside child (path ++ [index]) 0 deeper
        · intro emission found
          exact (apart_of_later path index _ _ (Or.inr below) (outside emission found)).symm
    · have below := walkCalls_below failed cleared rest path false (index + 1) visit later
      rw [filter_path_nil (if failed child then [] else _), List.nil_append]
      · exact after head path (index + 1) later
      · intro emission found
        split at found
        · cases found
        · exact apart_of_later path index _ _
            (emitted_path failed inner child _ 0 emission found) (Or.inr below)

theorem emitted_at (member : visit ∈ walkTrace failed [] false (frame.trace failed cleared))
    (alive : visit.failed = false) :
    (frame.emitted failed).filter (fun emission => emission.path = visit.path) =
      visit.frame.logs.map fun entry => ⟨visit.path, visit.frame.head, entry⟩ := by
  rw [Frame.trace, walkTrace, Bool.false_or, List.mem_cons] at member
  unfold Frame.emitted
  rcases member with rfl | inside
  · have kept : failed frame.head = false := alive
    simp only [kept, Bool.false_eq_true, if_false, Bool.and_false]
    exact emitted_here failed frame.body frame.head [] 0
  · cases kept : failed frame.head with
    | true =>
      rw [kept] at inside
      rw [walkCalls_failed failed cleared frame.body [] 0 visit inside] at alive
      cases alive
    | false =>
      rw [kept] at inside
      exact body_emitted_at failed cleared frame.body frame.head [] 0 visit inside alive

end

variable {Call : Type}

/-- Calls in walk order and as many emissions in execution order agree on their paths one
by one, as soon as no two of the calls run inside one another. -/
theorem paths_agree (calls : List (Path × Call)) (emissions : List (Emission Head Log))
    (sorted : calls.Pairwise fun first second => first.1 < second.1)
    (separate : calls.Pairwise fun first second => ¬Nested first.1 second.1)
    (ordered : emissions.Pairwise fun first second =>
      first.path < second.path ∨ Nested first.path second.path)
    (covered : ∀ call ∈ calls, ∃ emission ∈ emissions, emission.path = call.1)
    (count : calls.length = emissions.length) :
    emissions.map Emission.path = calls.map Prod.fst := by
  have increasing : (calls.map Prod.fst).Pairwise (· < ·) := List.pairwise_map.mpr sorted
  have apart : (calls.map Prod.fst).Pairwise fun left right => ¬Nested left right :=
    List.pairwise_map.mpr separate
  have part : (calls.map Prod.fst).Subperm (emissions.map Emission.path) := by
    apply List.subperm_of_subset (increasing.imp ne_of_lt)
    intro path member
    obtain ⟨call, here, rfl⟩ := List.mem_map.mp member
    obtain ⟨emission, there, same⟩ := covered call here
    exact same ▸ List.mem_map_of_mem there
  have perm : (calls.map Prod.fst).Perm (emissions.map Emission.path) :=
    part.perm_of_length_le (by simp [count])
  have distinct : (emissions.map Emission.path).Pairwise fun left right => ¬Nested left right :=
    apart.perm perm fun other => fun nested => other nested.symm
  have placed : (emissions.map Emission.path).Pairwise fun left right =>
      left < right ∨ Nested left right := List.pairwise_map.mpr ordered
  have follows : (emissions.map Emission.path).Pairwise (· < ·) :=
    placed.imp₂ (fun left right before apart => before.resolve_right apart) distinct
  exact (perm.eq_of_pairwise (fun left right _ _ before after =>
    absurd (lt_trans before after) (lt_irrefl left)) increasing follows).symm

end RhPools.CallTrees
