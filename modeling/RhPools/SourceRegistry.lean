import Mathlib.Algebra.Order.Field.Rat
import Mathlib.Data.Finset.Insert
import RhPools.GuardedRuns

/-! The registry of RPC sources that all lanes share. A source that fails is left alone for a
while, which doubles with each failure in a row; the calls of many threads note what they saw in
any order, and ask by what was noted. -/

namespace RhPools.SourceRegistry
open GuardedRuns

/-- `_states` is keyed by the capability and the name of a source. -/
abbrev Key := String × String

structure Source where
  name : String
  isLocal : Bool
  deriving DecidableEq

structure SourceState where
  failures : Nat := 0
  consecutiveFailures : Nat := 0
  retryAt : ℚ := 0
  succeeded : Bool := false
  lastError : Option String := none
  methods : Finset String := ∅

structure Registry where
  states : Key → SourceState
  active : String → Option String

/-- `_safe_error` of a redacted text. -/
def safeError (kind text : String) : String :=
  String.ofList ((kind.toList ++ ':' :: ' ' :: text.toList).take 500)

def backoff (consecutiveFailures : Nat) : ℚ := min 60 (1 / 2 * 2 ^ min (consecutiveFailures - 1) 7)

def SourceState.succeed (state : SourceState) (method : String) : SourceState :=
  { state with
    consecutiveFailures := 0, retryAt := 0, succeeded := true, lastError := none
    methods := insert method state.methods }

def SourceState.fail (state : SourceState) (now : ℚ) (kind text : String) : SourceState :=
  { state with
    failures := state.failures + 1, consecutiveFailures := state.consecutiveFailures + 1
    lastError := some (safeError kind text), retryAt := now + backoff (state.consecutiveFailures + 1) }

namespace Registry

variable (registry : Registry) (key : Key) (now : ℚ)

def canTry : Bool := (registry.states key).retryAt ≤ now

/-- The sort by `not _local(source.url)` is stable. -/
def candidates (sources : List Source) (capability : String) (preferLocal allowLocal : Bool) :
    List Source :=
  let available := sources.filter fun source =>
    registry.canTry (capability, source.name) now && (allowLocal || !source.isLocal)
  if preferLocal then available.filter (·.isLocal) ++ available.filter (!·.isLocal)
  else available

def put (state : SourceState) : Key → SourceState :=
  fun other => if other = key then state else registry.states other

def success (method : String) : Registry where
  states := registry.put key ((registry.states key).succeed method)
  active capability := if capability = key.1 then some key.2 else registry.active capability

def failure (kind text : String) : Registry where
  states := registry.put key ((registry.states key).fail now kind text)
  active capability :=
    if capability = key.1 ∧ registry.active capability = some key.2 then none
    else registry.active capability

end Registry

inductive Standing where
  | available | failed | untried
  deriving DecidableEq

def SourceState.blamed (state : SourceState) : Bool := state.lastError.any (· ≠ "")

/-- The `state` that `status` shows of a source. -/
def SourceState.standing (state : SourceState) : Standing :=
  if state.succeeded && !state.blamed then .available
  else if state.blamed then .failed else .untried

inductive Action where
  | success (key : Key) (method : String)
  | failure (key : Key) (now : ℚ) (kind text : String)

structure Record where
  registry : Registry
  notes : List Action

def step (record : Record) (action : Action) : Option Record :=
  some ⟨match action with
    | .success key method => record.registry.success key method
    | .failure key now kind text => record.registry.failure key now kind text,
    action :: record.notes⟩

def registering : System Record Action where
  start record := record = ⟨⟨fun _ => {}, fun _ => none⟩, []⟩
  step := step

def failedSince (key : Key) : List Action → List ℚ
  | [] => []
  | .failure other now _ _ :: earlier =>
    if other = key then now :: failedSince key earlier else failedSince key earlier
  | .success other _ :: earlier => if other = key then [] else failedSince key earlier

def answered (key : Key) (notes : List Action) : Prop := ∃ method, .success key method ∈ notes

/-- When the wait of a source is over: half a second after a first failure, twice as long after
each further one in a row, and never more than a minute. -/
def readyAt (key : Key) (notes : List Action) : ℚ :=
  match failedSince key notes with
  | [] => 0
  | last :: before => last + min 60 (1 / 2 * 2 ^ min before.length 7)

structure Remembers (state : SourceState) (key : Key) (notes : List Action) : Prop where
  counted : state.consecutiveFailures = (failedSince key notes).length
  ready : state.retryAt = readyAt key notes
  succeeded : state.succeeded = true ↔ answered key notes
  blamed : state.blamed = true ↔ failedSince key notes ≠ []

theorem safeError_ne (kind text : String) : safeError kind text ≠ "" := by
  intro same
  have empty := congrArg String.toList same
  rw [safeError, String.toList_ofList] at empty
  have none_left := congrArg List.length empty
  simp only [List.length_take, List.length_append, List.length_cons] at none_left
  have long : 0 < min 500 (kind.toList.length + (text.toList.length + 1 + 1)) := by omega
  exact absurd none_left long.ne'

variable {state : SourceState} {key : Key} {notes : List Action}

theorem failure_remembers (held : Remembers state key notes) (now : ℚ) (kind text : String) :
    Remembers (state.fail now kind text) key (.failure key now kind text :: notes) where
  counted := by simp [SourceState.fail, failedSince, held.counted]
  ready := by simp [SourceState.fail, readyAt, failedSince, backoff, held.counted]
  succeeded := by simpa [SourceState.fail, answered] using held.succeeded
  blamed := by simp [SourceState.fail, SourceState.blamed, failedSince, safeError_ne]

theorem success_remembers (method : String) :
    Remembers (state.succeed method) key (.success key method :: notes) where
  counted := by simp [SourceState.succeed, failedSince]
  ready := by simp [SourceState.succeed, readyAt, failedSince]
  succeeded := by simp [SourceState.succeed, answered]
  blamed := by simp [SourceState.succeed, SourceState.blamed, failedSince]

/-- A note of another source changes nothing that is told of this one. -/
theorem other_remembers {other : Key} (held : Remembers state key notes) (apart : other ≠ key) :
    (∀ method, Remembers state key (.success other method :: notes)) ∧
      ∀ now kind text, Remembers state key (.failure other now kind text :: notes) := by
  refine ⟨fun method => ?_, fun now kind text => ?_⟩
  · obtain ⟨counted, ready, succeeded, blamed⟩ := held
    constructor <;>
      simp_all [readyAt, failedSince, answered, Ne.symm apart]
  · obtain ⟨counted, ready, succeeded, blamed⟩ := held
    constructor <;>
      simp_all [readyAt, failedSince, answered]

/-- What holds of every record: each source is remembered, and the one that is active has not
failed since it answered. -/
structure Kept (record : Record) : Prop where
  remembers : ∀ key, Remembers (record.registry.states key) key record.notes
  active : ∀ capability name, record.registry.active capability = some name →
    failedSince (capability, name) record.notes = []

theorem step_kept (record next : Record) (action : Action) (kept : Kept record)
    (taken : step record action = some next) : Kept next := by
  obtain ⟨remembers, active⟩ := kept
  cases taken
  cases action with
  | success key method =>
    refine ⟨fun other => ?_, fun capability name there => ?_⟩
    · by_cases same : other = key
      · subst same
        simpa [Registry.success, Registry.put] using success_remembers method
      · simpa [Registry.success, Registry.put, same] using
          (other_remembers (remembers other) (Ne.symm same)).1 method
    · by_cases same : key = (capability, name)
      · simp [failedSince, same]
      · simp only [Registry.success] at there
        split at there
        · rename_i here
          cases there
          exact absurd (Prod.ext here.symm rfl : key = (capability, key.2)) same
        · simp [failedSince, same, active capability name there]
  | failure key now kind text =>
    refine ⟨fun other => ?_, fun capability name there => ?_⟩
    · by_cases same : other = key
      · subst same
        simpa [Registry.failure, Registry.put] using
          failure_remembers (remembers other) now kind text
      · simpa [Registry.failure, Registry.put, same] using
          (other_remembers (remembers other) (Ne.symm same)).2 now kind text
    · simp only [Registry.failure] at there
      split at there
      · cases there
      · rename_i still
        -- The failing source is not the active one: that entry was dropped.
        have apart : key ≠ (capability, name) := by
          rintro rfl
          exact still ⟨rfl, there⟩
        simp [failedSince, apart, active capability name there]

/-- Whatever the calls of any threads note, in any order: a source is tried exactly from the end
of its wait on, its standing is that of its latest notes, and the source that is active for a
capability has not failed since it answered. -/
theorem registry_remembers (record : Record) (reached : registering.Reaches always record) :
    (∀ key now, record.registry.canTry key now = true ↔ readyAt key record.notes ≤ now) ∧
      (∀ key, (record.registry.states key).standing =
        if failedSince key record.notes ≠ [] then .failed
        else if (record.registry.states key).succeeded then .available else .untried) ∧
      (∀ key, (record.registry.states key).succeeded = true ↔ answered key record.notes) ∧
      ∀ capability name, record.registry.active capability = some name →
        failedSince (capability, name) record.notes = [] := by
  have kept : Kept record := by
    induction reached with
    | start state initial =>
      subst initial
      exact ⟨fun key => ⟨rfl, rfl, by simp [answered], by simp [SourceState.blamed, failedSince]⟩,
        fun _ _ there => nomatch there⟩
    | step state next action _ _ taken ih => exact step_kept state next action ih taken
  refine ⟨fun key now => ?_, fun key => ?_, fun key => (kept.remembers key).succeeded, kept.active⟩
  · rw [Registry.canTry, decide_eq_true_eq, (kept.remembers key).ready]
  · have blamed := (kept.remembers key).blamed
    unfold SourceState.standing
    by_cases failed : failedSince key record.notes = []
    · have clean : (record.registry.states key).blamed = false := by
        rw [← Bool.not_eq_true, blamed, not_not]
        exact failed
      simp [clean, failed]
    · simp [blamed.mpr failed, failed]

end RhPools.SourceRegistry
