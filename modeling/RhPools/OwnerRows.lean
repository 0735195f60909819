import RhPools.OrderedTables
import RhPools.GuardedRuns

/-! The cache of owner rows in front of the ledger. Writers take turns; a writer
moves the generation and empties the cache inside its transaction, before the
commit makes its writes visible. A reader notes the generation, computes its rows
from the last committed ledger and stores them if the generation has not moved. -/

namespace RhPools.OwnerRows
open OrderedTables GuardedRuns

variable {Write Query Rows : Type}

structure Change (Write : Type) where
  writes : List Write
  marks : List Nat
  deriving DecidableEq, Repr

/-- A value of `_owners_cache`, with the number of changes its snapshot held. -/
structure Entry (Rows : Type) where
  now : Int
  validUntil : Option Int
  rows : Rows
  seen : Nat
  deriving DecidableEq, Repr

/-- Where a call of `owner_candidates` stands. -/
inductive Reader (Query : Type) where
  | idle
  | missed (generation : Nat) (query : Query) (now : Int)
  | snapped (generation : Nat) (query : Query) (now : Int) (seen : Nat)
  deriving DecidableEq, Repr

/-- Rows returned from the cache, and how many changes were committed by then. -/
structure Served (Query Rows : Type) where
  generation : Nat
  query : Query
  entry : Entry Rows
  committed : Nat
  deriving DecidableEq, Repr

abbrev Cache (Query Rows : Type) := OrderedTable (Nat × Query) (Entry Rows)

structure World (Write Query Rows : Type) where
  generation : Nat
  cache : Cache Query Rows
  committed : List (Change Write)
  transaction : Option (Change Write)
  readers : Nat → Reader Query
  served : List (Served Query Rows)

def OWNERS_CACHE_SIZE : Nat := 24

def ledger (changes : List (Change Write)) : List Write := changes.flatMap Change.writes

/-- The queries of `owner_candidates`: rows with their coverage, and until when
they are valid. -/
abbrev Candidates (Write Query Rows : Type) := List Write → Query → Int → Rows × Option Int

def computed (candidates : Candidates Write Query Rows) (committed : List (Change Write))
    (query : Query) (now : Int) (seen : Nat) : Entry Rows :=
  let made := candidates (ledger (committed.take seen)) query now
  ⟨now, made.2, made.1, seen⟩

def Entry.usable (entry : Entry Rows) (now : Int) : Bool :=
  !(now < entry.now || entry.validUntil.any (· ≤ now))

variable [DecidableEq Query]

/-- `_owners_cache.get` and its check of the times. -/
def lookUp (cache : Cache Query Rows) (generation : Nat) (query : Query) (now : Int) :
    Option (Entry Rows) :=
  (cache.get (generation, query)).filter (·.usable now)

def World.become (world : World Write Query Rows) (reader : Nat) (phase : Reader Query) :
    World Write Query Rows :=
  { world with readers := Function.update world.readers reader phase }

inductive Action (Write Query : Type) where
  | start
  | write (write : Write)
  | invalidate
  | commit
  | rollback
  | lookUp (reader : Nat) (query : Query) (now : Int)
  | snapshot (reader : Nat)
  | store (reader : Nat)
  /-- The call raises, or returns without storing. -/
  | leave (reader : Nat)
  deriving DecidableEq

/-- One step of a writer or of a reader; the cache lock and the writer lock make
each of them one. -/
def step (candidates : Candidates Write Query Rows) (world : World Write Query Rows) :
    Action Write Query → Option (World Write Query Rows)
  | .start => match world.transaction with
    | none => some { world with transaction := some ⟨[], []⟩ }
    | some _ => none
  | .write write => world.transaction.map fun change =>
    { world with transaction := some ⟨change.writes ++ [write], change.marks⟩ }
  | .invalidate => world.transaction.map fun change =>
    { world with
      generation := world.generation + 1
      cache := .empty
      transaction := some ⟨change.writes, change.marks ++ [world.generation + 1]⟩ }
  | .commit => world.transaction.map fun change =>
    { world with
      committed := world.committed ++ [change]
      transaction := none }
  | .rollback => world.transaction.map fun _ => { world with transaction := none }
  | .lookUp reader query now => match world.readers reader with
    | .idle => match lookUp world.cache world.generation query now with
      | some entry => some { world with
          cache := world.cache.touch (world.generation, query)
          served := ⟨world.generation, query, entry, world.committed.length⟩ :: world.served }
      | none => some (world.become reader (.missed world.generation query now))
    | _ => none
  | .snapshot reader => match world.readers reader with
    | .missed generation query now =>
      some (world.become reader (.snapped generation query now world.committed.length))
    | _ => none
  | .store reader => match world.readers reader with
    | .snapped generation query now seen =>
      let after := world.become reader .idle
      if generation = world.generation then
        some { after with
          cache := (world.cache.put (generation, query)
            (computed candidates world.committed query now seen)).trim OWNERS_CACHE_SIZE }
      else some after
    | _ => none
  | .leave reader => some (world.become reader .idle)

def World.new : World Write Query Rows := ⟨0, .empty, [], none, fun _ => .idle, []⟩

def ownerRuns (candidates : Candidates Write Query Rows) :
    System (World Write Query Rows) (Action Write Query) where
  start world := world = .new
  step := step candidates

/-- A snapshot of `seen` changes holds each of the first `committed` ones that an
invalidation announced at a generation up to this one. -/
def Covers (changes : List (Change Write)) (committed generation seen : Nat) : Prop :=
  ∀ index change, changes[index]? = some change → index < committed →
    (∃ mark ∈ change.marks, mark ≤ generation) → index < seen

def Reflects (candidates : Candidates Write Query Rows) (changes : List (Change Write))
    (served : Served Query Rows) : Prop :=
  Covers changes served.committed served.generation served.entry.seen ∧
    served.entry.rows = (candidates (ledger (changes.take served.entry.seen)) served.query
      served.entry.now).1

/-- No answer for a generation that the transaction's invalidations produced is
cached, or waits to be stored, when the transaction commits. -/
def settled (world : World Write Query Rows) : Action Write Query → Prop
  | .commit => ∀ change ∈ world.transaction, ∀ mark ∈ change.marks,
      (∀ entry ∈ world.cache.entries, entry.1.1 < mark) ∧
      ∀ reader generation query now seen,
        world.readers reader = .snapped generation query now seen → generation < mark
  | _ => True

section Covering
variable {changes : List (Change Write)} {committed generation seen : Nat}

theorem covers_all (changes : List (Change Write)) (generation : Nat) :
    Covers changes changes.length generation changes.length :=
  fun _ _ _ inside _ => inside

theorem Covers.append (covers : Covers changes committed generation seen)
    (past : committed ≤ changes.length) (more : List (Change Write)) :
    Covers (changes ++ more) committed generation seen := by
  intro index change found inside announced
  rw [List.getElem?_append_left (by omega)] at found
  exact covers index change found inside announced

theorem Covers.commit (covers : Covers changes changes.length generation seen)
    (change : Change Write) (later : ∀ mark ∈ change.marks, generation < mark) :
    Covers (changes ++ [change]) (changes ++ [change]).length generation seen := by
  intro index other found inside announced
  rw [List.length_append, List.length_singleton] at inside
  by_cases last : index = changes.length
  · subst last
    obtain ⟨mark, member, before⟩ := announced
    have same : change = other := by simpa using found
    subst same
    have := later mark member
    omega
  · rw [List.getElem?_append_left (by omega)] at found
    exact covers index other found (by omega) announced

end Covering

structure Right (candidates : Candidates Write Query Rows) (changes : List (Change Write))
    (generation : Nat) (query : Query) (entry : Entry Rows) : Prop where
  covers : Covers changes changes.length generation entry.seen
  past : entry.seen ≤ changes.length
  rows : entry.rows = (candidates (ledger (changes.take entry.seen)) query entry.now).1

structure Sound (candidates : Candidates Write Query Rows) (world : World Write Query Rows) :
    Prop where
  cached : ∀ entry ∈ world.cache.entries,
    Right candidates world.committed entry.1.1 entry.1.2 entry.2
  snapped : ∀ reader generation query now seen,
    world.readers reader = .snapped generation query now seen →
      Covers world.committed world.committed.length generation seen ∧
        seen ≤ world.committed.length
  served : ∀ served ∈ world.served, Reflects candidates world.committed served ∧
    served.entry.seen ≤ world.committed.length ∧ served.committed ≤ world.committed.length

section Steps
variable {candidates : Candidates Write Query Rows} {world : World Write Query Rows}

omit [DecidableEq Query] in
theorem Right.commit {changes : List (Change Write)} {generation : Nat} {query : Query}
    {entry : Entry Rows} (right : Right candidates changes generation query entry)
    (change : Change Write) (later : ∀ mark ∈ change.marks, generation < mark) :
    Right candidates (changes ++ [change]) generation query entry := by
  refine ⟨right.covers.commit change later, ?_, ?_⟩
  · rw [List.length_append]
    exact right.past.trans (Nat.le_add_right _ _)
  · rw [List.take_append_of_le_length right.past]
    exact right.rows

theorem lookUp_entry {cache : Cache Query Rows} {generation : Nat} {query : Query} {now : Int}
    {entry : Entry Rows} (found : lookUp cache generation query now = some entry) :
    ((generation, query), entry) ∈ cache.entries :=
  (get_some _ _ _).mp (Option.eq_some_of_filter_eq_some found)

omit [DecidableEq Query] in
theorem Sound.become (sound : Sound candidates world) (reader : Nat) (phase : Reader Query)
    (phase_sound : ∀ generation query now seen, phase = .snapped generation query now seen →
      Covers world.committed world.committed.length generation seen ∧
        seen ≤ world.committed.length) : Sound candidates (world.become reader phase) := by
  refine ⟨sound.cached, ?_, sound.served⟩
  intro other generation query now seen held
  by_cases same : other = reader
  · subst same
    exact phase_sound generation query now seen (by simpa [World.become] using held)
  · exact sound.snapped other generation query now seen (by simpa [World.become, same] using held)

omit [DecidableEq Query] in
theorem Sound.commit (sound : Sound candidates world) (change : Change Write)
    (open_ : world.transaction = some change) (met : settled world .commit) :
    Sound candidates { world with
      committed := world.committed ++ [change]
      transaction := none } := by
  have later := met change open_
  refine ⟨?_, ?_, ?_⟩
  · intro entry member
    exact (sound.cached entry member).commit change fun mark marked => (later mark marked).1 entry member
  · intro reader generation query now seen held
    obtain ⟨covers, past⟩ := sound.snapped reader generation query now seen held
    refine ⟨covers.commit change fun mark marked =>
      (later mark marked).2 reader generation query now seen held, ?_⟩
    rw [List.length_append]
    exact past.trans (Nat.le_add_right _ _)
  · intro served member
    obtain ⟨⟨covers, rows⟩, past, before⟩ := sound.served served member
    refine ⟨⟨covers.append before [change], ?_⟩, ?_, ?_⟩
    · rw [List.take_append_of_le_length past]
      exact rows
    · rw [List.length_append]
      exact past.trans (Nat.le_add_right _ _)
    · rw [List.length_append]
      exact before.trans (Nat.le_add_right _ _)

theorem Sound.hit (sound : Sound candidates world) (query : Query) (now : Int) (entry : Entry Rows)
    (found : lookUp world.cache world.generation query now = some entry) :
    Sound candidates { world with
      cache := world.cache.touch (world.generation, query)
      served := ⟨world.generation, query, entry, world.committed.length⟩ :: world.served } := by
  refine ⟨?_, sound.snapped, ?_⟩
  · intro other member
    exact sound.cached other ((mem_touch _ _ _).mp member)
  · intro served member
    rcases List.mem_cons.mp member with rfl | old
    · have right := sound.cached _ (lookUp_entry found)
      exact ⟨⟨right.covers, right.rows⟩, right.past, le_rfl⟩
    · exact sound.served served old

theorem Sound.stored (sound : Sound candidates world) (generation : Nat) (query : Query) (now : Int)
    (seen : Nat) (covers : Covers world.committed world.committed.length generation seen)
    (past : seen ≤ world.committed.length) :
    Sound candidates { world with
      cache := (world.cache.put (generation, query)
        (computed candidates world.committed query now seen)).trim OWNERS_CACHE_SIZE } := by
  refine ⟨?_, sound.snapped, sound.served⟩
  intro entry member
  rcases (mem_put _ _ _ _).mp (mem_trim _ _ _ member) with ⟨old, _⟩ | rfl
  · exact sound.cached entry old
  · exact ⟨covers, past, rfl⟩

theorem step_sound (sound : Sound candidates world) (action : Action Write Query)
    (met : settled world action) (next : World Write Query Rows)
    (stepped : step candidates world action = some next) : Sound candidates next := by
  cases action with
  | start =>
    simp only [step] at stepped
    split at stepped
    · cases stepped
      exact ⟨sound.cached, sound.snapped, sound.served⟩
    · cases stepped
  | write write =>
    obtain ⟨change, _, rfl⟩ := Option.map_eq_some_iff.mp stepped
    exact ⟨sound.cached, sound.snapped, sound.served⟩
  | invalidate =>
    obtain ⟨change, _, rfl⟩ := Option.map_eq_some_iff.mp stepped
    exact ⟨fun entry member => absurd member List.not_mem_nil, sound.snapped, sound.served⟩
  | commit =>
    obtain ⟨change, held, rfl⟩ := Option.map_eq_some_iff.mp stepped
    exact sound.commit change held met
  | rollback =>
    obtain ⟨change, _, rfl⟩ := Option.map_eq_some_iff.mp stepped
    exact ⟨sound.cached, sound.snapped, sound.served⟩
  | lookUp reader query now =>
    simp only [step] at stepped
    split at stepped
    · split at stepped
      · rename_i entry found
        cases stepped
        exact sound.hit query now entry found
      · cases stepped
        exact sound.become reader _ fun _ _ _ _ held => by cases held
    · cases stepped
  | snapshot reader =>
    simp only [step] at stepped
    split at stepped
    · cases stepped
      apply sound.become
      intro generation query now seen held
      cases held
      exact ⟨covers_all _ _, le_rfl⟩
    · cases stepped
  | store reader =>
    simp only [step] at stepped
    split at stepped
    · rename_i generation query now seen held
      obtain ⟨covers, past⟩ := sound.snapped reader generation query now seen held
      have idle : Sound candidates (world.become reader .idle) :=
        sound.become reader _ fun _ _ _ _ held => by cases held
      split at stepped
      · cases stepped
        exact idle.stored generation query now seen covers past
      · cases stepped
        exact idle
    · cases stepped
  | leave reader =>
    cases stepped
    exact sound.become reader _ fun _ _ _ _ held => by cases held

end Steps

/-- In every run whose commits find no answer for a generation that they announced,
rows returned from the cache reflect every committed change announced by then. -/
theorem served_reflects (candidates : Candidates Write Query Rows) (world : World Write Query Rows)
    (reached : (ownerRuns candidates).Reaches settled world) :
    ∀ served ∈ world.served, Reflects candidates world.committed served := by
  have sound : Sound candidates world := by
    refine System.Reaches.invariant (Sound candidates) ?_ ?_ world reached
    · rintro world rfl
      refine ⟨fun entry member => absurd member List.not_mem_nil, ?_,
        fun served member => absurd member List.not_mem_nil⟩
      intro reader generation query now seen held
      cases held
    · intro world action next sound met stepped
      exact step_sound sound action met next stepped
  exact fun served member => (sound.served served member).1

def listed : Candidates Nat Unit (List Nat) := fun writes _ _ => (writes, none)

/-- A reader notes the new generation, reads the old ledger and stores its rows
before the commit; another is answered from them after it. -/
def staleTurns : List (Action Nat Unit) :=
  [.start, .write 7, .invalidate, .lookUp 0 () 100, .snapshot 0, .store 0, .commit,
    .lookUp 1 () 101]

theorem staleTurns_taken :
    ((ownerRuns listed).run .new staleTurns).isSome := by decide

def staleWorld : World Nat Unit (List Nat) :=
  ((ownerRuns listed).run .new staleTurns).get staleTurns_taken

theorem staleWorld_unreflected :
    (ownerRuns listed).Reaches always staleWorld ∧
    ¬∀ served ∈ staleWorld.served, Reflects listed staleWorld.committed served := by
  refine ⟨System.Reaches.run World.new _ staleTurns (.start World.new rfl) (System.runMeets_always _ _)
    (Option.some_get _).symm, ?_⟩
  intro reflects
  have served : staleWorld.served = [⟨1, (), ⟨100, none, [], 0⟩, 1⟩] := by decide +kernel
  have changes : staleWorld.committed = [⟨[7], [1]⟩] := by decide +kernel
  obtain ⟨covers, _⟩ := reflects ⟨1, (), ⟨100, none, [], 0⟩, 1⟩ (by simp [served])
  have missing := covers 0 ⟨[7], [1]⟩ (by simp [changes]) (by decide) ⟨1, by simp, le_rfl⟩
  exact absurd missing (by decide)

def settledTurns : List (Action Nat Unit) :=
  [.start, .write 7, .invalidate, .lookUp 0 () 100, .commit, .snapshot 0, .store 0,
    .lookUp 1 () 101]

theorem settledTurns_taken :
    ((ownerRuns listed).run .new settledTurns).isSome := by decide

def settledWorld : World Nat Unit (List Nat) :=
  ((ownerRuns listed).run .new settledTurns).get settledTurns_taken

theorem settledTurns_met : (ownerRuns listed).runMeets settled World.new settledTurns := by
  refine ⟨trivial, ?_⟩
  rintro _ ⟨⟩
  refine ⟨trivial, ?_⟩
  rintro _ ⟨⟩
  refine ⟨trivial, ?_⟩
  rintro _ ⟨⟩
  refine ⟨trivial, ?_⟩
  rintro _ ⟨⟩
  refine ⟨?_, ?_⟩
  · -- The only reader has not read the ledger yet, and the cache is empty.
    rintro change ⟨⟩ mark marked
    refine ⟨fun entry member => absurd member List.not_mem_nil, ?_⟩
    intro reader generation query now seen held
    by_cases first : reader = 0
    · subst first
      cases held
    · simp [World.become, World.new, first] at held
  rintro _ ⟨⟩
  refine ⟨trivial, ?_⟩
  rintro _ ⟨⟩
  refine ⟨trivial, ?_⟩
  rintro _ ⟨⟩
  exact ⟨trivial, fun _ _ => trivial⟩

theorem served_reflects_settled : settledWorld.served = [⟨1, (), ⟨100, none, [7], 1⟩, 1⟩] ∧
    ∀ served ∈ settledWorld.served, Reflects listed settledWorld.committed served :=
  ⟨by decide +kernel, served_reflects listed settledWorld
    (System.Reaches.run World.new _ settledTurns (.start World.new rfl) settledTurns_met
      (Option.some_get _).symm)⟩

end RhPools.OwnerRows
