import Mathlib.Data.List.Basic

/-! A map that is copied in parts while it changes, and the log of its changes. A key whose
changes are still in the log is settled by the log, whatever the copy has for it; the other
keys are settled by the copy, or are pending. -/

namespace RhPools.ChangeLogs

variable {Key Value : Type} [DecidableEq Key]

structure Change (Key Value : Type) where
  key : Key
  image : Option Value

def apply (state : Key → Option Value) (change : Change Key Value) : Key → Option Value :=
  Function.update state change.key change.image

def replay (state : Key → Option Value) (log : List (Change Key Value)) : Key → Option Value :=
  log.foldl apply state

omit [DecidableEq Key] in
def Touches (log : List (Change Key Value)) (key : Key) : Prop := ∃ change ∈ log, change.key = key

theorem replay_append (state : Key → Option Value) (first second : List (Change Key Value)) :
    replay state (first ++ second) = replay (replay state first) second :=
  List.foldl_append

omit [DecidableEq Key] in
theorem touches_append (first second : List (Change Key Value)) (key : Key) :
    Touches (first ++ second) key ↔ Touches first key ∨ Touches second key := by
  unfold Touches
  constructor
  · rintro ⟨change, member, here⟩
    rcases List.mem_append.mp member with early | late
    · exact Or.inl ⟨change, early, here⟩
    · exact Or.inr ⟨change, late, here⟩
  · rintro (⟨change, member, here⟩ | ⟨change, member, here⟩)
    · exact ⟨change, List.mem_append_left second member, here⟩
    · exact ⟨change, List.mem_append_right first member, here⟩

theorem replay_congr (log : List (Change Key Value)) (state other : Key → Option Value) (key : Key)
    (same : state key = other key) : replay state log key = replay other log key := by
  induction log generalizing state other with
  | nil => exact same
  | cons change rest ih =>
    apply ih
    unfold apply
    by_cases here : key = change.key
    · rw [here, Function.update_self, Function.update_self]
    · rw [Function.update_of_ne here, Function.update_of_ne here]
      exact same

theorem replay_untouched (log : List (Change Key Value)) (state : Key → Option Value) (key : Key)
    (untouched : ¬Touches log key) : replay state log key = state key := by
  induction log generalizing state with
  | nil => rfl
  | cons change rest ih =>
    have apart : key ≠ change.key := fun same =>
      untouched ⟨change, List.mem_cons_self, same.symm⟩
    have later : ¬Touches rest key := by
      rintro ⟨other, member, here⟩
      exact untouched ⟨other, List.mem_cons_of_mem change member, here⟩
    have kept := ih (apply state change) later
    unfold apply at kept
    rw [Function.update_of_ne apart] at kept
    exact kept

theorem replay_touched (log : List (Change Key Value)) (state other : Key → Option Value)
    (key : Key) (touched : Touches log key) : replay state log key = replay other log key := by
  induction log generalizing state other with
  | nil =>
    obtain ⟨change, member, -⟩ := touched
    exact absurd member List.not_mem_nil
  | cons change rest ih =>
    by_cases later : Touches rest key
    · exact ih _ _ later
    · obtain ⟨found, member, here⟩ := touched
      have head : change.key = key := by
        rcases List.mem_cons.mp member with rfl | tail
        · exact here
        · exact absurd ⟨found, tail, here⟩ later
      apply replay_congr rest (apply state change) (apply other change) key
      unfold apply
      rw [head, Function.update_self, Function.update_self]

theorem replay_again (first second : List (Change Key Value)) (state : Key → Option Value) :
    replay (replay state first) (first ++ second) = replay state (first ++ second) := by
  funext key
  by_cases touched : Touches first key
  · exact replay_touched _ _ _ _ ((touches_append first second key).mpr (Or.inl touched))
  · exact replay_congr _ _ _ _ (replay_untouched first state key touched)

/-- With the log replayed the copy has what the source has, but for pending keys. -/
def Follows (copy : Key → Option Value) (log : List (Change Key Value))
    (source : Key → Option Value) (pending : Key → Prop) : Prop :=
  ∀ key, (pending key ∧ ¬Touches log key) ∨ replay copy log key = source key

variable {copy source : Key → Option Value} {log : List (Change Key Value)} {pending : Key → Prop}

theorem follows_empty (source : Key → Option Value) :
    Follows (fun _ => none) [] source fun key => source key ≠ none := by
  intro key
  by_cases absent : source key = none
  · exact Or.inr absent.symm
  · left
    refine ⟨absent, ?_⟩
    rintro ⟨change, member, -⟩
    exact absurd member List.not_mem_nil

theorem Follows.mono {weaker : Key → Prop} (follows : Follows copy log source pending)
    (weak : ∀ key, pending key → weaker key) : Follows copy log source weaker := by
  intro key
  rcases follows key with ⟨waits, untouched⟩ | settled
  · exact Or.inl ⟨weak key waits, untouched⟩
  · exact Or.inr settled

theorem Follows.advance {later : Key → Prop} (follows : Follows copy log source pending)
    (added : List (Change Key Value))
    (still : ∀ key, ¬Touches added key → pending key → later key) :
    Follows copy (log ++ added) (replay source added) later := by
  intro key
  rw [replay_append]
  by_cases touched : Touches added key
  · exact Or.inr (replay_touched added _ _ key touched)
  · rcases follows key with ⟨waits, untouched⟩ | settled
    · left
      refine ⟨still key touched waits, ?_⟩
      rw [touches_append]
      exact not_or.mpr ⟨untouched, touched⟩
    · exact Or.inr (replay_congr added _ _ key settled)

theorem Follows.write (follows : Follows copy log source pending) (key : Key) :
    Follows (Function.update copy key (source key)) log source
      fun other => pending other ∧ other ≠ key := by
  intro other
  by_cases same : other = key
  · right
    rw [same]
    by_cases touched : Touches log key
    · rcases follows key with ⟨-, untouched⟩ | settled
      · exact absurd touched untouched
      · exact (replay_touched log _ _ key touched).trans settled
    · rw [replay_untouched log _ key touched, Function.update_self]
  · rcases follows other with ⟨waits, untouched⟩ | settled
    · exact Or.inl ⟨⟨waits, same⟩, untouched⟩
    · right
      rw [← settled]
      exact replay_congr log _ _ other (Function.update_of_ne same _ _)

theorem Follows.copied (follows : Follows copy log source pending)
    (page : List (Change Key Value)) (current : ∀ change ∈ page, source change.key = change.image) :
    Follows (replay copy page) log source fun key => pending key ∧ ¬Touches page key := by
  induction page generalizing copy pending with
  | nil =>
    apply follows.mono
    intro key waits
    refine ⟨waits, ?_⟩
    rintro ⟨change, member, -⟩
    exact absurd member List.not_mem_nil
  | cons change rest ih =>
    have written := follows.write change.key
    rw [current change List.mem_cons_self] at written
    have later := ih written fun other member => current other (List.mem_cons_of_mem _ member)
    apply later.mono
    rintro key ⟨⟨waits, apart⟩, untouched⟩
    refine ⟨waits, ?_⟩
    rintro ⟨other, member, rfl⟩
    rcases List.mem_cons.mp member with rfl | tail
    · exact apart rfl
    · exact untouched ⟨other, tail, rfl⟩

theorem Follows.consume {first second : List (Change Key Value)}
    (follows : Follows copy (first ++ second) source pending) :
    Follows (replay copy first) second source pending := by
  intro key
  rcases follows key with ⟨waits, untouched⟩ | settled
  · left
    rw [touches_append] at untouched
    exact ⟨waits, (not_or.mp untouched).2⟩
  · right
    rw [replay_append] at settled
    exact settled

theorem Follows.repeat {first second : List (Change Key Value)}
    (follows : Follows copy (first ++ second) source pending) :
    Follows (replay copy first) (first ++ second) source pending := by
  intro key
  rw [replay_again]
  exact follows key

theorem Follows.settled (follows : Follows copy [] source fun _ => False) : copy = source := by
  funext key
  exact (follows key).resolve_left fun pending => pending.1

end RhPools.ChangeLogs
