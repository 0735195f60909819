/-! Straight-line programs on a machine whose commands may have several outcomes.
`Always post program` is the weakest precondition: every command is ready when it
is reached, whatever the outcomes before it, and every final state satisfies
`post`. Programs are composed with the sequence and consequence rules. -/

namespace RhPools.CommandRuns

universe u v
variable {Command : Type u} {State : Type v}

structure Machine (Command : Type u) (State : Type v) where
  ready : Command → State → Prop
  next : Command → State → State → Prop

def Machine.Live (machine : Machine Command State) : Prop :=
  ∀ command state, ∃ after, machine.next command state after

def Always (machine : Machine Command State) (post : State → Prop) :
    List Command → State → Prop
  | [], state => post state
  | command :: rest, state =>
    machine.ready command state ∧
      ∀ after, machine.next command state after → Always machine post rest after

variable {machine : Machine Command State}

variable (post : State → Prop)

@[simp] theorem always_nil (state : State) :
    Always machine post [] state ↔ post state := Iff.rfl

theorem always_cons (command : Command) (rest : List Command) (state : State) :
    Always machine post (command :: rest) state ↔
      machine.ready command state ∧
        ∀ after, machine.next command state after → Always machine post rest after := Iff.rfl

theorem always_append (first rest : List Command) (state : State) :
    Always machine post (first ++ rest) state ↔
      Always machine (Always machine post rest) first state := by
  induction first generalizing state with
  | nil => rfl
  | cons command later ih => simp only [List.cons_append, always_cons, ih]

theorem always_mono {weak strong : State → Prop} (implied : ∀ state, strong state → weak state)
    {program : List Command} {state : State} (held : Always machine strong program state) :
    Always machine weak program state := by
  induction program generalizing state with
  | nil => exact implied state held
  | cons command rest ih =>
    obtain ⟨ready, later⟩ := held
    exact ⟨ready, fun after step => ih (later after step)⟩

theorem always_seq {middle post : State → Prop} {first rest : List Command} {state : State}
    (before : Always machine middle first state)
    (after : ∀ state, middle state → Always machine post rest state) :
    Always machine post (first ++ rest) state :=
  (always_append post first rest state).mpr (always_mono after before)

theorem always_and {left right : State → Prop} {program : List Command} {state : State}
    (first : Always machine left program state) (second : Always machine right program state) :
    Always machine (fun after => left after ∧ right after) program state := by
  induction program generalizing state with
  | nil => exact ⟨first, second⟩
  | cons command rest ih =>
    exact ⟨first.1, fun after step => ih (first.2 after step) (second.2 after step)⟩

theorem always_exists (live : machine.Live) {post : State → Prop} {program : List Command}
    {state : State} (held : Always machine post program state) : ∃ after, post after := by
  induction program generalizing state with
  | nil => exact ⟨state, held⟩
  | cons command rest ih =>
    obtain ⟨after, step⟩ := live command state
    exact ih (held.2 after step)

end RhPools.CommandRuns
