import RhPools.EventWords

/-! Steps that may fail. `Meets allowed post` says that a step fails only as `allowed` says,
and that `post` holds of what it returns. A batch of such steps keeps an invariant that
each of them keeps. -/

namespace RhPools.CheckedSteps

variable {Error α β State Item : Type}

def Meets (allowed : Error → Prop) (post : α → Prop) : Except Error α → Prop
  | .ok value => post value
  | .error failure => allowed failure

def anyhow (_ : Error) : Prop := True

variable {allowed : Error → Prop}

variable (holds : State → Prop) {step : State → Item → Except Error State} (post : α → Prop)

@[simp] theorem meets_ok (value : α) :
    Meets allowed post (.ok value) ↔ post value := Iff.rfl

@[simp] theorem meets_pure (value : α) :
    Meets allowed post (pure value) ↔ post value := Iff.rfl

@[simp] theorem meets_error (failure : Error) :
    Meets allowed post (.error failure) ↔ allowed failure := Iff.rfl

@[simp] theorem meets_throw (failure : Error) :
    Meets allowed post (throw failure) ↔ allowed failure := Iff.rfl

theorem meets_anyhow (step : Except Error α) :
    Meets anyhow post step ↔ ∀ value, step = .ok value → post value := by
  cases step with
  | ok value => simp [Meets]
  | error failure => simp [Meets, anyhow]

theorem Meets.value {post : α → Prop} {step : Except Error α} {value : α}
    (meets : Meets allowed post step) (returned : step = .ok value) : post value := by
  subst returned
  exact meets

theorem Meets.failure {post : α → Prop} {step : Except Error α} {failure : Error}
    (meets : Meets allowed post step) (raised : step = .error failure) : allowed failure := by
  subst raised
  exact meets

theorem Meets.mono {post weaker : α → Prop} {step : Except Error α}
    (meets : Meets allowed post step) (weaken : ∀ value, post value → weaker value) :
    Meets allowed weaker step := by
  cases step with
  | ok value => exact weaken value meets
  | error failure => exact meets

theorem Meets.allow {post : α → Prop} {step : Except Error α} {more : Error → Prop}
    (meets : Meets allowed post step) (weaken : ∀ failure, allowed failure → more failure) :
    Meets more post step := by
  cases step with
  | ok value => exact meets
  | error failure => exact weaken failure meets

theorem Meets.forget {post : α → Prop} {step : Except Error α} (meets : Meets allowed post step) :
    Meets anyhow post step :=
  (meets_anyhow post step).mpr fun _ returned => meets.value returned

theorem Meets.and {post other : α → Prop} {step : Except Error α}
    (left : Meets allowed post step) (right : Meets anyhow other step) :
    Meets allowed (fun value => post value ∧ other value) step := by
  cases step with
  | ok value => exact ⟨left, right⟩
  | error failure => exact left

theorem meets_bind (middle : α → Prop) {post : β → Prop} {first : Except Error α}
    {next : α → Except Error β} (before : Meets allowed middle first)
    (after : ∀ value, middle value → Meets allowed post (next value)) :
    Meets allowed post (first >>= next) := by
  cases first with
  | ok value => exact after value before
  | error failure => exact before

theorem meets_foldlM (items : List Item) (state : State) (initially : holds state)
    (kept : ∀ state item, item ∈ items → holds state → Meets allowed holds (step state item)) :
    Meets allowed holds (items.foldlM step state) := by
  induction items generalizing state with
  | nil => exact initially
  | cons item rest ih =>
    rw [List.foldlM_cons]
    apply meets_bind holds (kept state item List.mem_cons_self initially)
    intro next reached
    apply ih next reached
    intro later other member holds
    exact kept later other (List.mem_cons_of_mem item member) holds

theorem meets_foldlM_each (done : Item → State → Prop) {step : State → Item → Except Error State}
    (items : List Item) (state : State) (initially : holds state)
    (achieved : ∀ state item, item ∈ items → holds state → Meets allowed
      (fun next => holds next ∧ done item next ∧ ∀ other, done other state → done other next)
      (step state item)) :
    Meets allowed (fun last => holds last ∧ (∀ item ∈ items, done item last) ∧
      ∀ other, done other state → done other last) (items.foldlM step state) := by
  induction items generalizing state with
  | nil => exact ⟨initially, fun item member => absurd member List.not_mem_nil, fun _ was => was⟩
  | cons item rest ih =>
    rw [List.foldlM_cons]
    apply meets_bind _ (achieved state item List.mem_cons_self initially)
    rintro next ⟨reached, here, earlier⟩
    have later := ih next reached fun state other member =>
      achieved state other (List.mem_cons_of_mem item member)
    apply later.mono
    rintro last ⟨holds, others, kept⟩
    exact ⟨holds, List.forall_mem_cons.mpr ⟨kept item here, others⟩,
      fun other was => kept other (earlier other was)⟩

theorem meets_mapM {holds : β → Prop} {step : α → Except Error β} (items : List α)
    (each : ∀ item ∈ items, Meets allowed holds (step item)) :
    Meets allowed (fun results => ∀ result ∈ results, holds result) (items.mapM step) := by
  induction items with
  | nil => exact fun result member => absurd member List.not_mem_nil
  | cons item rest ih =>
    rw [List.mapM_cons]
    apply meets_bind holds (each item List.mem_cons_self)
    intro first here
    apply meets_bind _ (ih fun other member => each other (List.mem_cons_of_mem item member))
    intro others there
    rw [meets_pure]
    exact List.forall_mem_cons.mpr ⟨here, there⟩

theorem Meets.raises {step : Except Error α} (fails : Meets allowed (fun _ => False) step) :
    ∃ failure, step = .error failure ∧ allowed failure := by
  cases step with
  | ok value => exact absurd fails id
  | error failure => exact ⟨failure, rfl, fails⟩

theorem meets_foldlM_fails (items : List Item) (state : State) (initially : holds state)
    (kept : ∀ state item, item ∈ items → holds state → Meets allowed holds (step state item))
    (item : Item) (member : item ∈ items)
    (fails : ∀ state, holds state → Meets allowed (fun _ => False) (step state item)) :
    Meets allowed (fun _ => False) (items.foldlM step state) := by
  induction items generalizing state with
  | nil => exact absurd member List.not_mem_nil
  | cons first rest ih =>
    rw [List.foldlM_cons]
    rcases List.mem_cons.mp member with rfl | later
    · exact meets_bind _ (fails state initially) fun _ none => none.elim
    · apply meets_bind _ (kept state first List.mem_cons_self initially)
      intro next reached
      exact ih next reached
        (fun state other inside => kept state other (List.mem_cons_of_mem first inside)) later

theorem meets_mapM_fails {step : α → Except Error β} (items : List α)
    (each : ∀ item ∈ items, Meets allowed (fun _ => True) (step item)) (item : α)
    (member : item ∈ items) (fails : Meets allowed (fun _ => False) (step item)) :
    Meets allowed (fun _ => False) (items.mapM step) := by
  induction items with
  | nil => exact absurd member List.not_mem_nil
  | cons first rest ih =>
    rw [List.mapM_cons]
    rcases List.mem_cons.mp member with rfl | later
    · exact meets_bind _ fails fun _ none => none.elim
    · apply meets_bind _ (each first List.mem_cons_self)
      intro _ _
      apply meets_bind _ (ih (fun other inside => each other (List.mem_cons_of_mem first inside))
        later)
      exact fun _ none => none.elim

end RhPools.CheckedSteps
