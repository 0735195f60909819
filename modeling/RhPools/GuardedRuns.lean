/-! Runs of a step function whose steps all meet a condition on the state before them.
An invariant that such steps preserve holds in every state reached; with the
condition left open these are all the runs. -/

namespace RhPools.GuardedRuns

structure System (State Action : Type) where
  start : State → Prop
  step : State → Action → Option State

variable {State Action : Type}

inductive System.Reaches (system : System State Action) (meets : State → Action → Prop) :
    State → Prop
  | start (state : State) (initial : system.start state) : Reaches system meets state
  | step (state next : State) (action : Action) (reached : Reaches system meets state)
      (met : meets state action) (taken : system.step state action = some next) :
      Reaches system meets next

def System.since (system : System State Action) (state : State) : System State Action :=
  { system with start := (· = state) }

def always (_ : State) (_ : Action) : Prop := True

variable {system : System State Action} {meets : State → Action → Prop}

theorem System.Reaches.invariant (holds : State → Prop)
    (initially : ∀ state, system.start state → holds state)
    (kept : ∀ state action next, holds state → meets state action →
      system.step state action = some next → holds next)
    (state : State) (reached : system.Reaches meets state) : holds state := by
  induction reached with
  | start state initial => exact initially state initial
  | step state next action _ met taken ih => exact kept state action next ih met taken

theorem System.Reaches.weaken {weaker : State → Action → Prop} {state : State}
    (reached : system.Reaches meets state)
    (follows : ∀ state action, meets state action → weaker state action) :
    system.Reaches weaker state := by
  induction reached with
  | start state initial => exact .start state initial
  | step state next action _ met taken ih => exact .step state next action ih (follows _ _ met) taken

def System.run (system : System State Action) : State → List Action → Option State
  | state, [] => some state
  | state, action :: rest => (system.step state action).bind (system.run · rest)

def System.runMeets (system : System State Action) (meets : State → Action → Prop) :
    State → List Action → Prop
  | _, [] => True
  | state, action :: rest => meets state action ∧
      ∀ next ∈ system.step state action, system.runMeets meets next rest

instance System.decidableRunMeets [∀ state action, Decidable (meets state action)] :
    (state : State) → (actions : List Action) → Decidable (system.runMeets meets state actions)
  | _, [] => .isTrue trivial
  | state, action :: rest =>
    have := fun next => System.decidableRunMeets next rest
    inferInstanceAs (Decidable (meets state action ∧
      ∀ next ∈ system.step state action, system.runMeets meets next rest))

theorem System.Reaches.run (state last : State) (actions : List Action)
    (reached : system.Reaches meets state) (met : system.runMeets meets state actions)
    (ran : system.run state actions = some last) : system.Reaches meets last := by
  induction actions generalizing state with
  | nil =>
    simp only [System.run, Option.some.injEq] at ran
    exact ran ▸ reached
  | cons action rest ih =>
    obtain ⟨next, taken, ran⟩ := Option.bind_eq_some_iff.mp ran
    exact ih next (.step state next action reached met.1 taken) (met.2 next taken) ran

def System.KeepsUntil (system : System State Action) (holds : State → Prop)
    (loses : State → Action → Prop) (state : State) : Prop :=
  ∀ actions last, system.run state actions = some last → holds state →
    holds last ∨ ∃ front action rest middle, actions = front ++ action :: rest ∧
      system.run state front = some middle ∧ loses middle action

theorem System.keepsUntil (holds : State → Prop) (loses : State → Action → Prop)
    (kept : ∀ state action next, system.step state action = some next → holds state →
      holds next ∨ loses state action)
    (state : State) : system.KeepsUntil holds loses state := by
  intro actions last ran held
  induction actions generalizing state with
  | nil =>
    simp only [System.run, Option.some.injEq] at ran
    exact .inl (ran ▸ held)
  | cons action rest ih =>
    obtain ⟨next, taken, ran⟩ := Option.bind_eq_some_iff.mp ran
    rcases kept state action next taken held with still | lost
    · rcases ih next ran still with last | ⟨front, later, others, middle, same, reached, lost⟩
      · exact .inl last
      · refine .inr ⟨action :: front, later, others, middle, by rw [same]; rfl, ?_, lost⟩
        simp only [System.run, taken, Option.bind_some, reached]
    · exact .inr ⟨[], action, rest, state, rfl, rfl, lost⟩

theorem System.runMeets_always (state : State) (actions : List Action) :
    system.runMeets always state actions := by
  induction actions generalizing state with
  | nil => trivial
  | cons action rest ih => exact ⟨trivial, fun next _ => ih next⟩

end RhPools.GuardedRuns
